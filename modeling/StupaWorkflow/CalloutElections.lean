import StupaWorkflow.CalloutTally

/-!
When the callout of an election is read back: which lines the reader takes for the
votes, and which names it finds in the list of the elected.
-/
namespace Callout
open Py List
open Filenames (splitLast splitLast_append splitLast_eq)

/-- A name or label as the validators leave it: stripped and not empty. It may hold a line break. -/
structure IsName (s : Text) : Prop where
  nonempty : s ≠ []
  trimmed : Trimmed s

/-- An election of several candidates, as the minutes build it. A tied candidate is one of them, or an id without space. -/
structure ElectionSnippet.Valid (view : ElectionSnippet) : Prop where
  many : 2 ≤ view.candidates.length
  ballot : view.yes = none ∨ view.no = none
  names : ∀ c ∈ view.candidates, IsName c.name
  runoff : ∀ name ∈ view.runoffNames, name ∈ view.candidates.map (·.name) ∨ ∀ c ∈ name, isSpace c = false

structure ElectionSnippet.Lined (view : ElectionSnippet) : Prop extends view.Valid where
  oneLine : ∀ c ∈ view.candidates, OneLine c.name

section Parts

variable {name : Text}

theorem trimmed_entry (hne : name ≠ []) (h : Trimmed name) (n : ℕ) : Trimmed (entry name n) :=
  h.append (trimmed_decimal n) (text ": ") hne (decimal_ne_nil n)

theorem entry_ne_nil (name : Text) (n : ℕ) : entry name n ≠ [] := by simp [entry, decimal_ne_nil]

theorem entry_getLast? (name : Text) (n : ℕ) : ∀ c ∈ (entry name n).getLast?, isDecimal c = true := by
  intro c hc
  rw [entry, getLast?_append_of_ne_nil _ (decimal_ne_nil n)] at hc
  exact isDecimal_decimal n c (mem_of_getLast? hc)

theorem isDecimal_ne {c d : ℕ} (h : isDecimal c = true) (hd : isDecimal d = false) : c ≠ d := by
  rintro rfl
  rw [h] at hd
  cases hd

theorem not_mem_decimal {d : ℕ} (hd : isDecimal d = false) (n : ℕ) : d ∉ decimal n := by
  intro h
  exact isDecimal_ne (isDecimal_decimal n d h) hd rfl

theorem splitLast_entry (name : Text) (n : ℕ) (rest : Text) (hrest : 58 ∉ rest) :
    splitLast 58 (entry name n ++ rest) = some (name, 32 :: (decimal n ++ rest)) := by
  have hcolon : 58 ∉ 32 :: (decimal n ++ rest) := by
    simp [not_mem_decimal (show isDecimal 58 = false by decide) n, hrest]
  have hsplit : splitLast 58 (name ++ 58 :: 32 :: (decimal n ++ rest)) = some (name, 32 :: (decimal n ++ rest)) :=
    splitLast_append hcolon
  rw [← hsplit, entry]
  simp [text]

theorem dropWhile_space_decimal (n : ℕ) (rest : Text) :
    (32 :: (decimal n ++ rest)).dropWhile isSpace = decimal n ++ rest := by
  obtain ⟨d, ds, hd⟩ := exists_cons_of_ne_nil (decimal_ne_nil n)
  have hvisible := (trimmed_decimal n).head d (by rw [hd]; rfl)
  rw [dropWhile_cons_of_pos (by decide), hd, cons_append, dropWhile_cons_of_neg (by simp [hvisible])]

theorem electionPart_entry (name : Text) (n : ℕ) : electionPart (entry name n) = some (name, n) := by
  have hsplit := splitLast_entry name n [] (by simp)
  have hnumber := leadingNumber_decimal n [] (by simp)
  rw [append_nil] at hsplit hnumber
  rw [electionPart, hsplit, Option.bind_some, dropWhile_space_decimal, append_nil, hnumber]

theorem electionPart_some {part : Text} {n : ℕ} (h : electionPart part = some (name, n)) :
    name <+: part ∧ ∀ c ∈ part.getLast?, isDecimal c = true := by
  obtain ⟨⟨stem, rest⟩, hsplit, hfound⟩ := Option.bind_eq_some_iff.mp h
  obtain ⟨hpart, -⟩ := splitLast_eq hsplit
  split at hfound
  next m hnumber =>
    obtain ⟨rfl, rfl⟩ := Prod.mk.inj (Option.some.inj hfound)
    obtain ⟨ds, hne, hds, htext⟩ := leadingNumber_some hnumber
    rw [append_nil] at htext
    refine ⟨⟨_, hpart.symm⟩, fun c hc => ?_⟩
    have htail : rest = rest.takeWhile isSpace ++ ds := by
      rw [← htext, takeWhile_append_dropWhile]
    rw [hpart, htail, append_cons, ← append_assoc, getLast?_append_of_ne_nil _ hne] at hc
    exact hds c (mem_of_getLast? hc)
  · cases hfound

theorem noGap_entry (h : NoGap dotMark name) (n : ℕ) : NoGap dotMark (entry name n) := by
  have hmark : dotMark ∉ text ": " ++ decimal n := by
    rw [mem_append, not_or]
    exact ⟨by decide, not_mem_decimal (by decide) n⟩
  intro a x y b hab hx hy
  rw [entry, append_assoc, append_cons] at hab
  obtain ⟨k, -, hk⟩ | ⟨k, hk, hrest⟩ := append_eq_append_iff.mp hab
  · exact hmark (hk ▸ by simp)
  · cases k with
    | nil => exact hmark (by rw [nil_append] at hrest; rw [← hrest]; simp)
    | cons d k =>
      obtain ⟨rfl, htail⟩ := cons_eq_cons.mp hrest
      cases k with
      | nil =>
        have hcolon : y = 58 := (cons_eq_cons.mp htail).1
        subst hcolon
        cases hy
      | cons e k =>
        obtain ⟨rfl, -⟩ := cons_eq_cons.mp htail
        exact h a x y k (by rw [hk]; simp) hx hy

end Parts

section Votes

variable {line : Text} {scan : ElectionScan}

theorem electionVotes_le_one (h : ∀ p ∈ (splitGaps dotMark line).dropLast, electionPart p = none) :
    (electionVotes scan line).rows.length ≤ 1 := by
  have hparts : ((splitGaps dotMark line).filterMap electionPart).length ≤ 1 := by
    have hne : splitGaps dotMark line ≠ [] := splitGapsWith_ne_nil line.length line
    rw [← dropLast_append_getLast hne,
      filterMap_append, filterMap_eq_nil_iff.mpr h, nil_append]
    exact length_filterMap_le electionPart _
  exact (length_filter_le _ _).trans hparts

/-- What the reader takes for the name of a row. -/
structure ReadName (s : Text) : Prop where
  gap : NoGap dotMark s
  reserved : s ≠ text "Enthaltungen"
  oneLine : OneLine s

theorem electionVotes_rows {row : Text × ℕ} (hline : OneLine line) (h : row ∈ (electionVotes scan line).rows) :
    ReadName row.1 := by
  obtain ⟨hmem, hname⟩ := mem_filter.mp h
  obtain ⟨part, hpart, hfound⟩ := mem_filterMap.mp hmem
  have hfree := (splitGapsWith_parts dotMark (by decide) (le_refl line.length)).1 part hpart
  have hin := (electionPart_some hfound).1.isInfix
  exact ⟨hfree.of_infix hin, of_decide_eq_true hname,
    hline.of_subset (hin.trans (splitGapsWith_within dotMark (by decide) _ hpart)).subset⟩

theorem electionLine_plain (scan : ElectionScan) (hg : afterPrefix (text "Gewählt:") line = none) (ho : otherCandidates line = none) :
    (electionLine scan line).electedRaw = scan.electedRaw ∧
      ((electionLine scan line).rows = scan.rows ∨
        scan.rows = [] ∧ (electionLine scan line).rows = (electionVotes scan line).rows) := by
  unfold electionLine
  rw [hg, ho]
  dsimp only
  split
  · exact ⟨rfl, .inl rfl⟩
  · split
    · exact ⟨rfl, .inl rfl⟩
    · split
      next hvotes => exact ⟨rfl, .inr ⟨hvotes.1, rfl⟩⟩
      next => exact ⟨rfl, .inl rfl⟩

theorem electionLine_votes (hg : afterPrefix (text "Gewählt:") line = none) (hvotes : isVotesLine line = true)
    (hlast : ∃ c ∈ line.getLast?, isDecimal c = true) (hrows : scan.rows = []) :
    electionLine scan line = electionVotes scan line := by
  obtain ⟨c, hc, hdigit⟩ := hlast
  have hothers : otherCandidates line = none := by
    unfold otherCandidates
    split
    next n rest hnumber =>
      split
      next hrest =>
        obtain ⟨ds, -, -, htext⟩ := leadingNumber_some hnumber
        rw [htext, hrest, getLast?_append_of_ne_nil _ (by decide)] at hc
        exact absurd (Option.some.inj hc).symm (isDecimal_ne hdigit (by decide))
      next => rfl
    next => rfl
  have hdrawn : line ≠ text "Durch Los entschieden." := by
    rintro rfl
    exact isDecimal_ne hdigit (show isDecimal 46 = false by decide) (Option.some.inj hc).symm
  have hpending : line.rdropWhile (· = 46) ≠ text "Gleichstand: das Los steht aus" := by
    have hne : line ≠ [] := by
      rintro rfl
      cases hc
    have hgetLast : line.getLast hne = c := Option.some.inj ((getLast?_eq_some_getLast hne).symm.trans hc)
    have hself : line.rdropWhile (· = 46) = line := by
      rw [rdropWhile_eq_self_iff]
      intro _
      rw [hgetLast]
      simpa using isDecimal_ne hdigit (show isDecimal 46 = false by decide)
    rw [hself]
    rintro rfl
    exact isDecimal_ne hdigit (show isDecimal 115 = false by decide) (Option.some.inj hc).symm
  unfold electionLine
  rw [hg, hothers]
  dsimp only
  rw [if_neg hdrawn, if_neg hpending, if_pos ⟨hrows, hvotes⟩]

end Votes

section Elected

def cutAll (names : List Text) (raw : Text) : Text := names.foldl (fun rest name => cutOnce name rest) raw

def FoundInTurn (names : List Text) (raw name : Text) : Prop :=
  ∃ before after, longestFirst names = before ++ name :: after ∧ name <:+: cutAll before raw

theorem pick_snd (found : List Text × Text) (name : Text) : (pick found name).2 = cutOnce name found.2 := by
  unfold pick
  split
  next => rfl
  next h => exact (cutOnce_absent h).symm

theorem mem_foldl_pick {order : List Text} {found : List Text × Text} {name : Text} :
    name ∈ (order.foldl pick found).1 ↔
      name ∈ found.1 ∨ ∃ before after, order = before ++ name :: after ∧ name <:+: cutAll before found.2 := by
  induction order generalizing found with
  | nil => simp
  | cons first order ih =>
    have hfirst : name ∈ (pick found first).1 ↔ name ∈ found.1 ∨ (name = first ∧ name <:+: found.2) := by
      unfold pick
      split
      next h => simp only [mem_append, mem_singleton]; exact or_congr_right ⟨fun e => ⟨e, e ▸ h⟩, And.left⟩
      next h => exact ⟨.inl, fun hm => hm.elim id fun hm => absurd (hm.1 ▸ hm.2) h⟩
    rw [foldl_cons, ih, hfirst, pick_snd, or_assoc]
    refine or_congr_right ?_
    constructor
    · rintro (⟨rfl, hin⟩ | ⟨before, after, rfl, hin⟩)
      · exact ⟨[], order, rfl, hin⟩
      · exact ⟨first :: before, after, rfl, hin⟩
    · rintro ⟨before, after, horder, hin⟩
      cases before with
      | nil =>
        obtain ⟨rfl, -⟩ := cons_eq_cons.mp horder
        exact .inl ⟨rfl, hin⟩
      | cons b before =>
        obtain ⟨rfl, rfl⟩ := cons_eq_cons.mp horder
        exact .inr ⟨before, after, rfl, hin⟩

theorem mem_elected {raw name : Text} {names : List Text} (hne : names ≠ []) :
    name ∈ elected (some raw) names ↔ raw ≠ text "niemand" ∧ FoundInTurn names raw name := by
  unfold elected
  dsimp only
  split
  next h => simp [h]
  next h =>
    rw [pickElected, mem_foldl_pick]
    simp [h, FoundInTurn]

end Elected

section Lines

variable {view : ElectionSnippet}
variable {s p : Text}

theorem ElectionSnippet.Lined.mdEscape_name (h : view.Lined) {c : ElectionLine} (hc : c ∈ view.candidates) :
    mdEscape c.name = c.name := (h.oneLine c hc).mdEscape

def ElectionSnippet.names (view : ElectionSnippet) : List Text := view.candidates.map (·.name)

theorem ElectionSnippet.Valid.candidates_ne_nil (h : view.Valid) : view.candidates ≠ [] :=
  ne_nil_of_length_pos (Nat.lt_of_lt_of_le Nat.zero_lt_two h.many)

def voteParts (view : ElectionSnippet) : List Text :=
  view.candidates.map (fun c => entry c.name c.votes) ++ [entry (text "Enthaltungen") view.abstentions]

theorem votesText_eq (h : view.Lined) : votesText view = joined [32, dotMark, 32] (voteParts view) := by
  have hentries : (view.candidates.map fun c => entry (mdEscape c.name) c.votes) =
      view.candidates.map fun c => entry c.name c.votes :=
    map_congr_left fun c hc => by rw [h.mdEscape_name hc]
  have hsep : text " · Enthaltungen: " = [32, dotMark, 32] ++ (text "Enthaltungen" ++ text ": ") := by decide
  rw [votesText, hentries, voteParts, joined_append _ (by simpa using h.candidates_ne_nil), hsep, entry]
  simp [show text " · " = [32, dotMark, 32] from by decide]

theorem trimmed_votes (h : view.Lined) : Trimmed (votesText view) := by
  rw [votesText_eq h]
  refine trimmed_joined ?_ ?_
  · intro p hp
    obtain hp | hp := mem_append.mp hp
    · obtain ⟨c, -, rfl⟩ := mem_map.mp hp
      exact entry_ne_nil _ _
    · rw [mem_singleton.mp hp]
      exact entry_ne_nil _ _
  · intro p hp
    obtain hp | hp := mem_append.mp hp
    · obtain ⟨c, hc, rfl⟩ := mem_map.mp hp
      exact trimmed_entry (h.names c hc).nonempty (h.names c hc).trimmed _
    · rw [mem_singleton.mp hp]
      exact trimmed_entry (by decide) ⟨by decide, by decide⟩ _

theorem votesText_entry (view : ElectionSnippet) : ∃ before, before ≠ [] ∧ votesText view = entry before view.abstentions := by
  refine ⟨joined (text " · ") (view.candidates.map fun c => entry (mdEscape c.name) c.votes) ++ text " · Enthaltungen",
    by simp [text], ?_⟩
  rw [votesText, entry, show text " · Enthaltungen: " = text " · Enthaltungen" ++ text ": " from by decide]
  simp

theorem isVotesLine_votes (view : ElectionSnippet) : isVotesLine (votesText view) = true := by
  obtain ⟨before, hne, heq⟩ := votesText_entry view
  rw [heq, isVotesLine, electionPart_entry]
  simpa using hne

theorem votesText_getLast? (view : ElectionSnippet) : ∃ c ∈ (votesText view).getLast?, isDecimal c = true := by
  obtain ⟨before, -, heq⟩ := votesText_entry view
  have hlast := getLast?_eq_some_getLast (entry_ne_nil before view.abstentions)
  rw [heq]
  exact ⟨_, hlast, entry_getLast? before view.abstentions _ hlast⟩

/-- With names that hold no gap and are not reserved, the line of votes gives every candidate back. -/
theorem electionVotes_votes (h : view.Lined) (hgap : ∀ c ∈ view.candidates, NoGap dotMark c.name)
    (hname : ∀ c ∈ view.candidates, c.name ≠ text "Enthaltungen") (scan : ElectionScan) :
    (electionVotes scan (votesText view)).rows = view.candidates.map fun c => (c.name, c.votes) := by
  have hparts : ∀ p ∈ voteParts view, NoGap dotMark p ∧ Trimmed p ∧ p ≠ [] ∧ ∀ c ∈ p.getLast?, c ≠ dotMark := by
    intro p hp
    obtain hp | hp := mem_append.mp hp
    · obtain ⟨c, hc, rfl⟩ := mem_map.mp hp
      exact ⟨noGap_entry (hgap c hc) _, trimmed_entry (h.names c hc).nonempty (h.names c hc).trimmed _, entry_ne_nil _ _,
        fun d hd => isDecimal_ne (entry_getLast? _ _ d hd) (by decide)⟩
    · rw [mem_singleton.mp hp]
      exact ⟨noGap_entry (noGap_of_not_mem (by decide)) _, trimmed_entry (by decide) ⟨by decide, by decide⟩ _,
        entry_ne_nil _ _, fun d hd => isDecimal_ne (entry_getLast? _ _ d hd) (by decide)⟩
  have hsplit : splitGaps dotMark (votesText view) = voteParts view := by
    rw [votesText_eq h]
    exact splitGaps_joined (by decide) (by simp [voteParts]) (fun p hp => (hparts p hp).1) (fun p hp => (hparts p hp).2.1)
      (fun p hp => (hparts p hp).2.2.1) fun p hp => (hparts p hp).2.2.2
  have hread : (voteParts view).filterMap electionPart =
      view.candidates.map (fun c => (c.name, c.votes)) ++ [(text "Enthaltungen", view.abstentions)] := by
    rw [voteParts, filterMap_append, filterMap_map, filterMap_cons_some (electionPart_entry _ _),
      filterMap_nil]
    refine congrArg (· ++ _) ?_
    rw [← filterMap_eq_map]
    exact filterMap_congr fun c _ => electionPart_entry c.name c.votes
  show ((splitGaps dotMark (votesText view)).filterMap electionPart).filter _ = _
  rw [hsplit, hread, filter_append, filter_eq_self.mpr ?_]
  · simp
  · intro row hrow
    obtain ⟨c, hc, rfl⟩ := mem_map.mp hrow
    simpa using hname c hc

def tailLines (view : ElectionSnippet) : List Text :=
  (if view.byLot then [text "Durch Los entschieden."] else []) ++
    (if view.lotPending then [text "Gleichstand: das Los steht aus."] else []) ++
    (if view.runoffSeats ≠ 0 then [strip (runoffText view false)] else [])

/-- The lines behind the head, as the reader strips them. -/
def readLines (view : ElectionSnippet) : List Text :=
  electionMeta view ::
    (if view.closed then votesText view :: (text "Gewählt: " ++ electedText view) :: tailLines view else [])

theorem strip_of_head {c : ℕ} (hc : s.head? = some c) (hspace : isSpace c = false) :
    (strip s).head? = some c ∧ strip s <+: s := by
  obtain ⟨rest, rfl⟩ := head?_eq_some_iff.mp hc
  have hstrip : strip (c :: rest) = rstrip ([] ++ c :: rest) := by
    rw [strip, stripWith, dropWhile_cons_of_neg (by simp [hspace])]
    rfl
  rw [hstrip, rstrip_append [] hspace]
  refine ⟨rfl, ?_⟩
  rw [nil_append, prefix_cons_inj]
  exact rdropWhile_prefix isSpace rest

theorem trimmed_of {c d : ℕ} (hc : s.head? = some c) (hd : s.getLast? = some d) (hcs : isSpace c = false)
    (hds : isSpace d = false) : Trimmed s := by
  refine ⟨fun e he => ?_, fun e he => ?_⟩
  · rw [hc] at he
    rwa [← Option.some.inj he]
  · rw [hd] at he
    rwa [← Option.some.inj he]

theorem not_prefix_of_head {c d : ℕ} (hs : s.head? = some c) (hp : p.head? = some d) (hne : c ≠ d) : ¬ p <+: s := by
  rintro ⟨t, ht⟩
  obtain ⟨q, rfl⟩ := head?_eq_some_iff.mp hp
  rw [← ht] at hs
  exact hne (Option.some.inj hs).symm

theorem afterPrefix_none (h : ¬ p <+: s) : afterPrefix p s = none := by
  rw [afterPrefix, if_neg (by simpa using h)]

theorem afterPrefix_append (p s : Text) : afterPrefix p (p ++ s) = some s := by
  rw [afterPrefix, if_pos (by simp), drop_left]

theorem trimmed_meta (view : ElectionSnippet) : Trimmed (electionMeta view) := by
  have hhead : (electionMeta view).head? = some 87 := by simp [electionMeta, text]
  by_cases hround : view.round > 1
  · refine trimmed_of hhead (d := 41) ?_ (by decide) (by decide)
    rw [electionMeta, if_pos hround, ballotNumber, getLast?_append_of_ne_nil _ (by simp [text]),
      getLast?_append_of_ne_nil _ (by simp [text]), getLast?_append_of_ne_nil _ (by decide)]
    rfl
  · refine trimmed_of hhead (d := 110) ?_ (by decide) (by decide)
    rw [electionMeta, if_neg hround, append_nil, getLast?_append_of_ne_nil _ (by decide)]
    rfl

theorem electedNames_name (h : view.Valid) : ∀ name ∈ electedNames view, IsName name := by
  intro name hname
  obtain ⟨c, hc, rfl⟩ := mem_map.mp hname
  exact h.names c (mem_of_mem_filter hc)

theorem electedText_eq (h : view.Lined) :
    electedText view = if electedNames view = [] then text "niemand" else joined (text ", ") (electedNames view) := by
  have hescape : (electedNames view).map mdEscape = electedNames view := by
    conv_rhs => rw [← map_id (electedNames view)]
    refine map_congr_left fun name hname => ?_
    obtain ⟨c, hc, rfl⟩ := mem_map.mp hname
    exact h.mdEscape_name (mem_of_mem_filter hc)
  rw [electedText, hescape]

theorem trimmed_electedText (h : view.Lined) : Trimmed (electedText view) ∧ electedText view ≠ [] := by
  rw [electedText_eq h]
  split
  · exact ⟨⟨by decide, by decide⟩, by decide⟩
  next hne =>
    have hnames := electedNames_name h.toValid
    exact ⟨trimmed_joined (fun n hn => (hnames n hn).nonempty) fun n hn => (hnames n hn).trimmed,
      joined_ne_nil hne fun n hn => (hnames n hn).nonempty⟩

theorem trimmed_electedLine (h : view.Lined) : Trimmed (text "Gewählt: " ++ electedText view) := by
  have hword : Trimmed (text "Gewählt:") := ⟨by decide, by decide⟩
  have := hword.append (trimmed_electedText h).1 [32] (by decide) (trimmed_electedText h).2
  rwa [show text "Gewählt: " = text "Gewählt:" ++ [32] from by decide]

theorem runoffText_head (view : ElectionSnippet) : (runoffText view false).head? = some 83 := by
  simp [runoffText, text]

theorem body_stripped (h : view.Valid) (hone : view.closed → ∀ c ∈ view.candidates, OneLine c.name) :
    ((electionBody view false).map strip).filter (· ≠ []) = readLines view := by
  have hballot : electionBallot view = [votesText view] := by
    unfold electionBallot
    rcases h.ballot with hb | hb
    · simp [hb]
    · rw [hb]
      cases view.yes <;> rfl
  have hrun : strip (runoffText view false) ≠ [] := by
    intro hnil
    have := (strip_of_head (runoffText_head view) (by decide)).1
    rw [hnil] at this
    cases this
  have hmeta : electionMeta view ≠ [] := by simp [electionMeta, text]
  have hvotes : votesText view ≠ [] := by simp [votesText, text]
  have hdrawn : strip (text "Durch Los entschieden.") = text "Durch Los entschieden." := by decide
  have hpending : strip (text "Gleichstand: das Los steht aus.") = text "Gleichstand: das Los steht aus." := by decide
  have hne : text "Durch Los entschieden." ≠ [] ∧ text "Gleichstand: das Los steht aus." ≠ [] := by decide
  unfold electionBody readLines
  rw [map_cons, (trimmed_meta view).strip, filter_cons_of_pos (by simpa using hmeta)]
  refine congrArg (electionMeta view :: ·) ?_
  cases hclosed : view.closed with
  | false => rfl
  | true =>
    have h : view.Lined := ⟨h, hone hclosed⟩
    rw [if_pos (by simp), if_pos rfl, if_pos rfl, hballot, singleton_append, map_cons, (trimmed_votes h).strip,
      filter_cons_of_pos (by simpa using hvotes)]
    refine congrArg (votesText view :: ·) ?_
    unfold electionOutcome tailLines
    dsimp only
    rw [if_neg (show ¬ (false = true ∧ view.candidates.length - (electedNames view).length > 0) by simp), append_nil,
      append_assoc, append_assoc, singleton_append, map_cons, (trimmed_electedLine h).strip,
      filter_cons_of_pos (by simp [text])]
    refine congrArg (_ :: ·) ?_
    rw [map_append, map_append, filter_append, filter_append, append_assoc]
    refine congrArg₂ (· ++ ·) ?_ (congrArg₂ (· ++ ·) ?_ ?_)
    · cases view.byLot <;> simp [hdrawn, hne.1]
    · cases view.lotPending <;> simp [hpending, hne.2]
    · split
      · simp [hrun]
      · rfl

theorem isElectionMeta_meta (W : WordTable) (view : ElectionSnippet) : isElectionMeta W (electionMeta view) = true := by
  have htext : electionMeta view = text "Wahl" ++ (32 :: dotMark :: 32 :: (decimal view.seats ++ (text " Posten" ++
      (if view.round > 1 then text " · Stichwahl " ++ ballotNumber view.round else [])))) := by
    rw [electionMeta, show text "Wahl · " = text "Wahl" ++ [32, dotMark, 32] from by decide]
    simp
  have hseats : seatsLater (32 :: dotMark :: 32 :: (decimal view.seats ++ (text " Posten" ++
      (if view.round > 1 then text " · Stichwahl " ++ ballotNumber view.round else [])))) = true := by
    have hnumber := leadingNumber_decimal view.seats (text " Posten" ++
      (if view.round > 1 then text " · Stichwahl " ++ ballotNumber view.round else []))
      (fun c hc => by rw [← Option.some.inj (show some 32 = some c from hc)]; decide)
    have hspace : ∀ rest : Text, (text " Posten" ++ rest).dropWhile isSpace = text "Posten" ++ rest := fun rest => by
      rw [show text " Posten" = 32 :: text "Posten" from by decide, cons_append, dropWhile_cons_of_pos (by decide)]
      exact dropWhile_cons_of_neg (by decide)
    have hat : seatsAt (dotMark :: 32 :: (decimal view.seats ++ (text " Posten" ++
        (if view.round > 1 then text " · Stichwahl " ++ ballotNumber view.round else [])))) = true := by
      rw [seatsAt, dropWhile_space_decimal, hnumber]
      simp only [decide_true, Bool.true_and, Option.any_some, Bool.and_eq_true]
      refine ⟨by simp [text]; decide, ?_⟩
      rw [hspace]
      exact isPrefixOf_iff_prefix.mpr (prefix_append _ _)
    rw [seatsLater, seatsLater, hat]
    simp
  rw [isElectionMeta, htext, afterPrefix_append]
  simp [boundary, W.space, hseats]

theorem runoff_names (h : view.Lined) : ∀ r ∈ view.runoffNames, mdEscape r = r ∧ Trimmed r := by
  intro r hr
  obtain hr | hr := h.runoff r hr
  · obtain ⟨c, hc, rfl⟩ := mem_map.mp hr
    exact ⟨h.mdEscape_name hc, (h.names c hc).trimmed⟩
  · have hone : OneLine r := ⟨fun hm => absurd (hr 10 hm) (by decide), fun hm => absurd (hr 13 hm) (by decide)⟩
    exact ⟨hone.mdEscape, fun c hc => hr c (mem_of_mem_head? hc), fun c hc => hr c (mem_of_getLast? hc)⟩

theorem runoff_noGap (h : view.Lined) (hgap : ∀ c ∈ view.candidates, NoGap dotMark c.name) :
    ∀ r ∈ view.runoffNames, NoGap dotMark r := by
  intro r hr
  obtain hr | hr := h.runoff r hr
  · obtain ⟨c, hc, rfl⟩ := mem_map.mp hr
    exact hgap c hc
  · intro a x y b hab hx _
    rw [hr x (hab ▸ by simp)] at hx
    cases hx

def runoffLead (view : ElectionSnippet) : Text :=
  text "Stichwahl " ++ ballotNumber (view.round + 1) ++ text " um " ++ decimal view.runoffSeats ++ text " Posten: "

theorem dotMark_runoffLead (view : ElectionSnippet) : dotMark ∉ runoffLead view := by
  have hdigit := fun n => not_mem_decimal (show isDecimal dotMark = false by decide) n
  simp only [runoffLead, ballotNumber, mem_append, not_or]
  exact ⟨⟨⟨⟨by decide, ⟨by decide, hdigit _⟩, by decide⟩, by decide⟩, hdigit _⟩, by decide⟩

theorem before_runoff_gap (hfree : ∀ r ∈ view.runoffNames, mdEscape r = r ∧ NoGap dotMark r) {before rest : Text} {x y : ℕ}
    (hx : isSpace x = true) (hy : isSpace y = true)
    (h : runoffText view false = before ++ x :: dotMark :: y :: rest) :
    ∃ z c, before = z ++ [c] ∧ isSpace c = false ∧ isDecimal c = false := by
  have hnames : view.runoffNames.map mdEscape = view.runoffNames := by
    conv_rhs => rw [← map_id view.runoffNames]
    exact map_congr_left fun r hr => (hfree r hr).1
  have htext : runoffText view false = runoffLead view ++ joined (text ", ") view.runoffNames := by
    rw [runoffText, if_neg (by simp), hnames]
    rfl
  rw [htext, append_cons] at h
  obtain ⟨k, hbefore, hjoined⟩ : ∃ k, before ++ [x] = runoffLead view ++ k ∧
      joined (text ", ") view.runoffNames = k ++ dotMark :: y :: rest := by
    obtain ⟨k, hb, hj⟩ | ⟨k, hb, hj⟩ := append_eq_append_iff.mp h
    · exact ⟨k, hb, hj⟩
    · cases k with
      | nil => exact ⟨[], by rw [hb]; simp, by simpa using hj.symm⟩
      | cons d k =>
        obtain ⟨rfl, -⟩ := cons_eq_cons.mp hj
        exact absurd (by rw [hb]; simp) (dotMark_runoffLead view)
  obtain ⟨u, r, s, v, hmem, rfl, htail, hu, hv⟩ := joined_split hjoined (by decide)
  cases s with
  | nil =>
    rw [nil_append] at htail
    rcases hv with rfl | ⟨q, hq⟩
    · cases htail
    · rw [← htail] at hq
      obtain ⟨rfl, -⟩ := cons_eq_cons.mp hq
      cases hy
  | cons d s =>
    obtain ⟨rfl, -⟩ := cons_eq_cons.mp htail
    rcases eq_nil_or_concat r with rfl | ⟨r, e, rfl⟩
    · obtain ⟨z, c, hz, hc⟩ : ∃ z c, runoffLead view ++ u = z ++ [c] ++ [32] ∧ (c = 58 ∨ c = 44) := by
        rcases hu with rfl | ⟨q, hq⟩
        · refine ⟨text "Stichwahl " ++ ballotNumber (view.round + 1) ++ text " um " ++ decimal view.runoffSeats ++
            text " Posten", 58, ?_, .inl rfl⟩
          rw [runoffLead, show text " Posten: " = text " Posten" ++ [58] ++ [32] from by decide]
          simp
        · refine ⟨runoffLead view ++ q, 44, ?_, .inr rfl⟩
          rw [← hq, show text ", " = [44] ++ [32] from by decide]
          simp
      rw [append_nil, hz] at hbefore
      obtain ⟨rfl, -⟩ := append_inj' hbefore rfl
      refine ⟨z, c, rfl, ?_⟩
      rcases hc with rfl | rfl <;> decide
    · have hlast : e = x := by
        rw [concat_eq_append, ← append_assoc, ← append_assoc] at hbefore
        exact (cons_eq_cons.mp (append_inj' hbefore rfl).2).1.symm
      subst hlast
      refine ((hfree _ hmem).2 r e y s ?_ hx hy).elim
      simp

theorem noVotesPart_runoff (h : view.Lined) (hgap : ∀ c ∈ view.candidates, NoGap dotMark c.name) :
    ∀ p ∈ (splitGaps dotMark (strip (runoffText view false))).dropLast, electionPart p = none := by
  intro p hp
  by_contra hsome
  obtain ⟨⟨name, n⟩, hread⟩ := Option.ne_none_iff_exists'.mp hsome
  obtain ⟨a, w, x, y, t, hline, hw, hx, hy⟩ :=
    (splitGapsWith_parts dotMark (by decide) (le_refl (strip (runoffText view false)).length)).2 p hp
  obtain ⟨tail, htail⟩ := (strip_of_head (runoffText_head view) (by decide)).2
  have htext : runoffText view false = (a ++ p ++ w) ++ x :: dotMark :: y :: (t ++ tail) := by
    rw [← htail, hline]
    simp
  obtain ⟨z, c, hbefore, hspace, hdecimal⟩ := before_runoff_gap
    (fun r hr => ⟨(runoff_names h r hr).1, runoff_noGap h hgap r hr⟩) hx hy htext
  rcases eq_nil_or_concat w with rfl | ⟨w, e, rfl⟩
  · have hne : p ≠ [] := by
      rintro rfl
      cases hread
    have hlast : p.getLast? = some c := by
      have := congrArg List.getLast? hbefore
      rwa [append_nil, getLast?_append_of_ne_nil _ hne, getLast?_append_of_ne_nil _ (by simp)] at this
    rw [(electionPart_some hread).2 c hlast] at hdecimal
    cases hdecimal
  · rw [concat_eq_append, ← append_assoc] at hbefore
    obtain ⟨rfl, -⟩ := cons_eq_cons.mp (append_inj' hbefore rfl).2
    rw [hw e (by simp)] at hspace
    cases hspace

end Lines

section Scan

variable {view : ElectionSnippet} {scan : ElectionScan}

theorem electionLine_electedRaw (raw : Text) :
    electionLine scan (text "Gewählt:" ++ raw) = { scan with electedRaw := some (strip raw) } := by
  unfold electionLine
  rw [afterPrefix_append]

theorem electionLine_rows {line : Text} (hline : OneLine line) (h : ∀ row ∈ scan.rows, ReadName row.1) :
    ∀ row ∈ (electionLine scan line).rows, ReadName row.1 := by
  unfold electionLine
  split
  · exact h
  · exact h
  · split
    · exact h
    · split
      · exact h
      · split
        · exact fun row hrow => electionVotes_rows hline hrow
        · exact h

theorem foldl_rows (scan : ElectionScan) {lines : List Text} (hlines : ∀ line ∈ lines, OneLine line)
    (h : ∀ row ∈ scan.rows, ReadName row.1) : ∀ row ∈ (lines.foldl electionLine scan).rows, ReadName row.1 := by
  induction lines generalizing scan with
  | nil => exact h
  | cons line lines ih =>
    obtain ⟨hline, hlines⟩ := forall_mem_cons.mp hlines
    exact ih _ hlines (electionLine_rows hline h)

theorem election_rows {W : WordTable} {lines : List Text} {found : ElectionNode} (hlines : ∀ line ∈ lines, OneLine line)
    (h : election W lines = some found) : ∀ row ∈ found.rows, ReadName row.name := by
  unfold election at h
  split at h
  next => cases h
  next =>
    split at h
    next => cases h
    next =>
      cases h
      intro row hrow
      obtain ⟨raw, hraw, rfl⟩ := mem_map.mp ((mem_insertionSort _).mp hrow)
      exact foldl_rows {} (fun line hline => hlines line (eraseP_subset hline)) (by simp) raw hraw

/-- What the reader needs to know of a line behind the elected. -/
structure TailLine (line : Text) : Prop where
  elected : ¬ text "Gewählt:" <+: line
  candidacy : ¬ text "Kandidatur:" <+: line
  others : otherCandidates line = none
  parts : ∀ p ∈ (splitGaps dotMark line).dropLast, electionPart p = none

theorem noParts_of_not_mem {line : Text} (h : dotMark ∉ line) :
    ∀ p ∈ (splitGaps dotMark line).dropLast, electionPart p = none := by
  intro p hp
  obtain ⟨a, w, x, y, t, hline, -⟩ := (splitGapsWith_parts dotMark (by decide) (le_refl line.length)).2 p hp
  exact absurd (by rw [hline]; simp) h

theorem tailLine (h : view.Lined) (hgap : ∀ c ∈ view.candidates, NoGap dotMark c.name) :
    ∀ line ∈ tailLines view, TailLine line := by
  intro line hline
  simp only [tailLines, mem_append] at hline
  obtain (hline | hline) | hline := hline
  · split at hline
    · rw [mem_singleton.mp hline]
      exact ⟨by decide, by decide, by decide, noParts_of_not_mem (by decide)⟩
    · cases hline
  · split at hline
    · rw [mem_singleton.mp hline]
      exact ⟨by decide, by decide, by decide, noParts_of_not_mem (by decide)⟩
    · cases hline
  · split at hline
    · rw [mem_singleton.mp hline]
      have hhead := (strip_of_head (runoffText_head view) (by decide)).1
      refine ⟨not_prefix_of_head hhead (d := 71) rfl (by decide), not_prefix_of_head hhead (d := 75) rfl (by decide), ?_,
        noVotesPart_runoff h hgap⟩
      have hnumber : leadingNumber (strip (runoffText view false)) = none := leadingNumber_none fun c hc => by
        rw [hhead] at hc
        rw [← Option.some.inj hc]
        decide
      rw [otherCandidates, hnumber]
    · cases hline

/-- Behind the elected, rows that are there stay, and no line brings more than one. -/
theorem foldl_tail (scan : ElectionScan) {lines : List Text} (h : ∀ line ∈ lines, TailLine line) :
    (lines.foldl electionLine scan).electedRaw = scan.electedRaw ∧
      (scan.rows ≠ [] → (lines.foldl electionLine scan).rows = scan.rows) ∧
      (scan.rows.length ≤ 1 → (lines.foldl electionLine scan).rows.length ≤ 1) := by
  induction lines generalizing scan with
  | nil => exact ⟨rfl, fun _ => rfl, id⟩
  | cons line lines ih =>
    have hline := h line (by simp)
    obtain ⟨hraw, hkeep, hone⟩ := ih (electionLine scan line) fun l hl => h l (mem_cons_of_mem line hl)
    obtain ⟨hraw', hrows⟩ := electionLine_plain scan (afterPrefix_none hline.elected) hline.others
    rw [foldl_cons]
    refine ⟨hraw.trans hraw', ?_, ?_⟩
    · intro hne
      have hsame : (electionLine scan line).rows = scan.rows := hrows.resolve_right fun hr => hne hr.1
      rw [hkeep (by rwa [hsame]), hsame]
    · intro hlen
      refine hone ?_
      rcases hrows with hsame | ⟨-, hvotes⟩
      · rwa [hsame]
      · rw [hvotes]
        exact electionVotes_le_one hline.parts

/-- What the lines behind the seat line say, for names without a gap. -/
theorem scan_lines (h : view.Lined) (hgap : ∀ c ∈ view.candidates, NoGap dotMark c.name)
    (hname : ∀ c ∈ view.candidates, c.name ≠ text "Enthaltungen") :
    let scan := (votesText view :: (text "Gewählt: " ++ electedText view) :: tailLines view).foldl electionLine {}
    scan.electedRaw = some (electedText view) ∧
      if text "Gewählt:" <+: votesText view then scan.rows.length ≤ 1
      else scan.rows = view.candidates.map fun c => (c.name, c.votes) := by
  have hraw : strip (32 :: electedText view) = electedText view := (trimmed_electedText h).1.strip_space
  have hgew : ∀ scan, electionLine scan (text "Gewählt: " ++ electedText view) =
      { scan with electedRaw := some (electedText view) } := by
    intro scan
    rw [show text "Gewählt: " = text "Gewählt:" ++ [32] from by decide, append_assoc, singleton_append,
      electionLine_electedRaw, hraw]
  intro scan
  have hscan : scan = (tailLines view).foldl electionLine
      { electionLine {} (votesText view) with electedRaw := some (electedText view) } := by
    rw [← hgew]
    rfl
  obtain ⟨helected, hkeep, hone⟩ := foldl_tail
    { electionLine {} (votesText view) with electedRaw := some (electedText view) } (tailLine h hgap)
  rw [hscan]
  refine ⟨helected, ?_⟩
  split
  next hprefix =>
    refine hone ?_
    obtain ⟨raw, hvotes⟩ := hprefix
    rw [← hvotes, electionLine_electedRaw]
    exact Nat.zero_le 1
  next hprefix =>
    have hrows : (electionLine {} (votesText view)).rows = view.candidates.map fun c => (c.name, c.votes) := by
      rw [electionLine_votes (afterPrefix_none hprefix) (isVotesLine_votes view) (votesText_getLast? view) rfl]
      exact electionVotes_votes h hgap hname {}
    rw [hkeep (by rw [hrows]; simpa using h.candidates_ne_nil)]
    exact hrows

end Scan

section Election

/-- What the reader makes of an election: a ranking with each written candidate, votes and mark. -/
structure ElectionRead (node : TallyNode) (view : ElectionSnippet) : Prop where
  untallied : node.counts = false
  ranked : ∃ found, node.ranking = .election found ∧ found.rows.Perm (if view.closed then view.candidates else [])

/-- Longest first, each name is in what is left of the list of the elected exactly if it is elected. -/
def MarksReadable (view : ElectionSnippet) : Prop :=
  electedNames view = [] ∨ (electedText view ≠ text "niemand" ∧
    ∀ c ∈ view.candidates, c.elected = true ↔ FoundInTurn view.names (electedText view) c.name)

/-- The names and the question of an election that turn no line into another kind of line. -/
structure ElectionSnippet.Clear (view : ElectionSnippet) : Prop where
  tally : ∀ line ∈ electionHead view :: electionBody view false, isTallyLine line = false
  candidacy : view.closed → ¬ text "Kandidatur:" <+: votesText view
  elected : view.closed → ¬ text "Gewählt:" <+: votesText view
  oneLine : view.closed → ∀ c ∈ view.candidates, OneLine c.name
  gaps : view.closed → ∀ c ∈ view.candidates, NoGap dotMark c.name
  reserved : view.closed → ∀ c ∈ view.candidates, c.name ≠ text "Enthaltungen"
  marks : view.closed → MarksReadable view

variable {W : WordTable} {view : ElectionSnippet}

theorem ranking_election {lines : List Text} {node : ElectionNode} :
    ranking W false lines = .election node ↔ election W lines = some node := by
  unfold ranking
  rw [if_neg (by simp)]
  cases election W lines with
  | some found => simp
  | none => cases poll W lines <;> simp

theorem election_readLines :
    election W (readLines view) =
      if (readLines view).any fun line => (text "Kandidatur:").isPrefixOf line then none
      else some (electionNode (electionMeta view) ((readLines view).tail.foldl electionLine {})) := by
  have hfind : (readLines view).find? (isElectionMeta W) = some (electionMeta view) :=
    find?_cons_of_pos (isElectionMeta_meta W view)
  have herase : (readLines view).eraseP (isElectionMeta W) = (readLines view).tail :=
    eraseP_cons_of_pos (isElectionMeta_meta W view)
  rw [election, hfind]
  dsimp only
  rw [herase]

theorem marks_iff (h : view.Valid) :
    (∀ c ∈ view.candidates, c.elected = decide (c.name ∈ elected (some (electedText view)) view.names)) ↔
      MarksReadable view := by
  have hne : view.names ≠ [] := by simpa [ElectionSnippet.names] using h.candidates_ne_nil
  have hmark : ∀ c : ElectionLine, c.elected = decide (c.name ∈ elected (some (electedText view)) view.names) ↔
      (c.elected = true ↔ electedText view ≠ text "niemand" ∧ FoundInTurn view.names (electedText view) c.name) := by
    intro c
    rw [← mem_elected hne, Bool.eq_iff_iff, decide_eq_true_iff]
  have hchosen : ∀ c ∈ view.candidates, c.elected = true → c.name ∈ electedNames view := fun c hc he =>
    mem_map_of_mem (mem_filter.mpr ⟨hc, he⟩)
  constructor
  · intro hall
    by_cases hnone : electedNames view = []
    · exact .inl hnone
    · obtain ⟨name, hname⟩ := exists_mem_of_ne_nil _ hnone
      obtain ⟨c, hc, -⟩ := mem_map.mp hname
      obtain ⟨hc, he⟩ := mem_filter.mp hc
      have hlist := ((hmark c).mp (hall c hc)).mp he
      refine .inr ⟨hlist.1, fun d hd => ?_⟩
      rw [(hmark d).mp (hall d hd)]
      exact and_iff_right hlist.1
  · rintro (hnone | ⟨hlist, hall⟩) c hc
    · rw [hmark]
      refine ⟨fun he => ?_, fun he => ?_⟩
      · have := hchosen c hc he
        rw [hnone] at this
        cases this
      · exact absurd (by rw [electedText, if_pos hnone]) he.1
    · rw [hmark, hall c hc]
      exact (and_iff_right hlist).symm

theorem rows_perm_iff (h : view.Valid) {scan : ElectionScan} (hraw : scan.electedRaw = some (electedText view))
    (hrows : scan.rows = view.candidates.map fun c => (c.name, c.votes)) (kindLine : Text) :
    (electionNode kindLine scan).rows.Perm view.candidates ↔ MarksReadable view := by
  have hnames : scan.rows.map (·.1) = view.names := by
    rw [hrows, map_map]
    rfl
  have hnode : (electionNode kindLine scan).rows.Perm (view.candidates.map fun c =>
      ⟨c.name, c.votes, decide (c.name ∈ elected (some (electedText view)) view.names)⟩) := by
    unfold electionNode
    dsimp only
    rw [hnames, hraw, hrows, map_map]
    exact perm_insertionSort _ _
  rw [← marks_iff h]
  constructor
  · intro hperm c hc
    obtain ⟨d, hd, rfl⟩ := mem_map.mp (hnode.symm.trans hperm |>.mem_iff.mpr hc)
    rfl
  · intro hall
    refine hnode.trans (List.Perm.of_eq ?_)
    conv_rhs => rw [← map_id view.candidates]
    exact map_congr_left fun c hc => by rw [← hall c hc]; rfl

theorem oneLine_electionHead (view : ElectionSnippet) : OneLine (electionHead view) := by
  unfold electionHead
  dsimp only
  split
  · have hmark : OneLine (ballotNumber (view.round + view.attempt - 1)) :=
      (OneLine.append (by decide) (oneLine_decimal _)).append (by decide)
    exact ((oneLine_mdEscape _).append (by decide)).append hmark
  · exact oneLine_mdEscape _

theorem oneLine_electionBody (view : ElectionSnippet) : ∀ s ∈ electionBody view false, OneLine s := by
  have hnumber : ∀ n, OneLine (ballotNumber n) := fun n =>
    (OneLine.append (by decide) (oneLine_decimal n)).append (by decide)
  have hlist : ∀ names : List Text, OneLine (joined (text ", ") (names.map mdEscape)) := fun names =>
    oneLine_joined (by decide) fun p hp => by
      obtain ⟨name, -, rfl⟩ := mem_map.mp hp
      exact oneLine_mdEscape name
  have hmeta : OneLine (electionMeta view) := by
    refine OneLine.append ((OneLine.append (by decide) (oneLine_decimal _)).append (by decide)) ?_
    split
    · exact OneLine.append (by decide) (hnumber _)
    · decide
  have hballot : ∀ s ∈ electionBallot view, OneLine s := by
    intro s hs
    unfold electionBallot at hs
    split at hs
    · simp only [mem_cons, not_mem_nil, or_false] at hs
      rcases hs with rfl | rfl
      · exact OneLine.append (by decide) (oneLine_mdEscape _)
      · exact ((((OneLine.append (by decide) (oneLine_decimal _)).append (by decide)).append (oneLine_decimal _)).append
          (by decide)).append (oneLine_decimal _)
    · rw [mem_singleton.mp hs]
      refine ((oneLine_joined (by decide) fun p hp => ?_).append (by decide)).append (oneLine_decimal _)
      obtain ⟨c, -, rfl⟩ := mem_map.mp hp
      exact oneLine_entry (oneLine_mdEscape _) _
  have houtcome : ∀ s ∈ electionOutcome view false, OneLine s := by
    intro s hs
    simp only [electionOutcome, mem_append] at hs
    obtain (((hs | hs) | hs) | hs) | hs := hs
    · rw [mem_singleton.mp hs, electedText]
      refine OneLine.append (by decide) ?_
      split
      · decide
      · exact hlist _
    · simp at hs
    · split at hs
      · rw [mem_singleton.mp hs]
        decide
      · cases hs
    · split at hs
      · rw [mem_singleton.mp hs]
        decide
      · cases hs
    · split at hs
      · rw [mem_singleton.mp hs, runoffText, if_neg (by simp)]
        exact ((((OneLine.append (by decide) (hnumber _)).append (by decide)).append (oneLine_decimal _)).append
          (by decide)).append (hlist _)
      · cases hs
  intro s hs
  simp only [electionBody, mem_cons, mem_append] at hs
  obtain rfl | hs | hs := hs
  · exact hmeta
  · split at hs
    · exact hballot s hs
    · cases hs
  · split at hs
    · exact houtcome s hs
    · cases hs

theorem election_read_iff (W : WordTable) (P : LineParser) (h : view.Valid) :
    ElectionRead (vote W (P.lines (buildElectionSnippet view false))) view ↔ view.Clear := by
  rw [buildElectionSnippet, vote_callout W P (oneLine_electionHead view) (oneLine_electionBody view)]
  have htally : (∀ line ∈ (electionHead view).dropWhile isSpace :: electionBody view false, isTallyLine line = false) ↔
      ∀ line ∈ electionHead view :: electionBody view false, isTallyLine line = false := by
    simp only [forall_mem_cons, isTallyLine_dropWhile]
  have hranking : (∀ line ∈ electionHead view :: electionBody view false, isTallyLine line = false) →
      (tallyNode W ((electionHead view).dropWhile isSpace :: electionBody view false)).ranking =
        ranking W false (((electionBody view false).map strip).filter (· ≠ [])) := by
    intro hnone
    rw [(tallyNode_none (W := W) (htally.mpr hnone)).2, tail_cons]
  constructor
  · rintro ⟨huntallied, found, hfound, hperm⟩
    have hnone := htally.mp (tallyNode_counts.mp huntallied)
    rw [hranking hnone, ranking_election] at hfound
    -- every candidate is the name of some row, so the facts about rows are facts about names
    have hnames : view.closed → ∀ c ∈ view.candidates, ReadName c.name := by
      intro hclosed c hc
      rw [if_pos hclosed] at hperm
      exact election_rows (oneLine_stripped (oneLine_electionBody view)) hfound c (hperm.mem_iff.mpr hc)
    have hone : view.closed → ∀ c ∈ view.candidates, OneLine c.name := fun hclosed c hc => (hnames hclosed c hc).oneLine
    rw [body_stripped h hone, election_readLines] at hfound
    split at hfound
    · cases hfound
    next hany =>
      have hcandidacy : ∀ line ∈ readLines view, ¬ text "Kandidatur:" <+: line := by
        intro line hline hprefix
        exact hany (any_eq_true.mpr ⟨line, hline, isPrefixOf_iff_prefix.mpr hprefix⟩)
      cases hclosed : view.closed with
      | false => refine ⟨hnone, ?_, ?_, ?_, ?_, ?_, ?_⟩ <;> simp [hclosed]
      | true =>
        have hread : readLines view = electionMeta view :: votesText view :: (text "Gewählt: " ++ electedText view) ::
            tailLines view := by rw [readLines, if_pos hclosed]
        rw [hclosed, if_pos rfl, ← Option.some.inj hfound] at hperm
        rw [hread, tail_cons] at hperm
        have hnames := hnames hclosed
        have hlined : view.Lined := ⟨h, hone hclosed⟩
        obtain ⟨hraw, hrows⟩ := scan_lines hlined (fun c hc => (hnames c hc).gap) fun c hc => (hnames c hc).reserved
        have helected : ¬ text "Gewählt:" <+: votesText view := by
          intro hprefix
          rw [if_pos hprefix] at hrows
          have hlen := hperm.length_eq
          have hmany := h.many
          simp only [electionNode, length_insertionSort, length_map] at hlen
          omega
        rw [if_neg helected] at hrows
        exact ⟨hnone, fun _ => hcandidacy _ (by rw [hread]; simp), fun _ => helected, hone, fun _ c hc => (hnames c hc).gap,
          fun _ c hc => (hnames c hc).reserved, fun _ => (rows_perm_iff h hraw hrows _).mp hperm⟩
  · intro hclear
    refine ⟨tallyNode_counts.mpr (htally.mpr hclear.tally), ?_⟩
    simp only [hranking hclear.tally, body_stripped h hclear.oneLine, ranking_election, election_readLines]
    have hmeta : ¬ text "Kandidatur:" <+: electionMeta view :=
      not_prefix_of_head (c := 87) (d := 75) (by simp [electionMeta, text]) rfl (by decide)
    cases hclosed : view.closed with
    | false =>
      have hread : readLines view = [electionMeta view] := by simp [readLines, hclosed]
      rw [hread, if_neg (by simpa using hmeta)]
      exact ⟨_, rfl, by simp [electionNode]⟩
    | true =>
      have hread : readLines view = electionMeta view :: votesText view :: (text "Gewählt: " ++ electedText view) ::
          tailLines view := by rw [readLines, if_pos hclosed]
      have hlined : view.Lined := ⟨h, hclear.oneLine hclosed⟩
      have hgap := hclear.gaps hclosed
      have hany : ¬ ((readLines view).any fun line => (text "Kandidatur:").isPrefixOf line) = true := by
        intro hany
        obtain ⟨line, hline, hprefix⟩ := any_eq_true.mp hany
        have hprefix := isPrefixOf_iff_prefix.mp hprefix
        rw [hread] at hline
        simp only [mem_cons] at hline
        obtain rfl | rfl | rfl | hline := hline
        · exact hmeta hprefix
        · exact hclear.candidacy hclosed hprefix
        · exact not_prefix_of_head (c := 71) (d := 75) (by simp [text]) rfl (by decide) hprefix
        · exact (tailLine hlined hgap line hline).candidacy hprefix
      obtain ⟨hraw, hrows⟩ := scan_lines hlined hgap (hclear.reserved hclosed)
      rw [if_neg (hclear.elected hclosed)] at hrows
      rw [if_neg hany, hread, tail_cons]
      exact ⟨_, rfl, (rows_perm_iff h hraw hrows _).mpr (hclear.marks hclosed)⟩

end Election

end Callout
