import StupaWorkflow.CalloutModel

/-!
Which lines of a callout carry the counts of a motion, and when the counts of a
motion are read back.
-/
namespace Callout
open Py List

def OneLine (s : Text) : Prop := 10 ∉ s ∧ 13 ∉ s

instance : DecidablePred OneLine := fun s => inferInstanceAs (Decidable (10 ∉ s ∧ 13 ∉ s))

/-- A parser that returns the text of each callout line unchanged. -/
structure LineParser where
  lines : Text → List Text
  plain : ∀ head body, OneLine head → (∀ s ∈ body, OneLine s) →
    lines (callout head body) = (text "[!abstimmung] " ++ head) :: body

section OneLine

variable {s t : Text}

theorem OneLine.append (hs : OneLine s) (ht : OneLine t) : OneLine (s ++ t) :=
  ⟨by simp [hs.1, ht.1], by simp [hs.2, ht.2]⟩

theorem oneLine_decimal (n : ℕ) : OneLine (decimal n) := by
  have hdigit := decimal_isDigit n
  refine ⟨fun h => ?_, fun h => ?_⟩
  · exact absurd (hdigit 10 h) (by decide)
  · exact absurd (hdigit 13 h) (by decide)

theorem oneLine_mdEscape (s : Text) : OneLine (mdEscape s) := by
  fun_induction mdEscape s with
  | case1 => decide
  | case2 s ih => exact ⟨by simp [ih.1], by simp [ih.2]⟩
  | case3 c s _ ih =>
    refine ⟨?_, ?_⟩
    · rw [mem_cons, not_or]
      exact ⟨by split <;> omega, ih.1⟩
    · rw [mem_cons, not_or]
      exact ⟨by split <;> omega, ih.2⟩

theorem OneLine.mdEscape (h : OneLine s) : mdEscape s = s := by
  fun_induction Callout.mdEscape s with
  | case1 => rfl
  | case2 s ih => exact absurd h.2 (by simp)
  | case3 c s _ ih =>
    have hc : ¬ (c = 10 ∨ c = 13) := by
      rintro (rfl | rfl)
      · exact h.1 (by simp)
      · exact h.2 (by simp)
    rw [if_neg hc, ih ⟨fun hm => h.1 (mem_cons_of_mem c hm), fun hm => h.2 (mem_cons_of_mem c hm)⟩]

theorem oneLine_joined {sep : Text} {parts : List Text} (hsep : OneLine sep) (h : ∀ p ∈ parts, OneLine p) :
    OneLine (joined sep parts) := by
  refine ⟨fun hm => ?_, fun hm => ?_⟩
  · rcases mem_joined hm with hm | ⟨p, hp, hm⟩
    · exact hsep.1 hm
    · exact (h p hp).1 hm
  · rcases mem_joined hm with hm | ⟨p, hp, hm⟩
    · exact hsep.2 hm
    · exact (h p hp).2 hm

theorem oneLine_entry (hs : OneLine s) (n : ℕ) : OneLine (entry s n) :=
  (hs.append (by decide)).append (oneLine_decimal n)

theorem OneLine.of_subset (h : OneLine t) (hsub : s ⊆ t) : OneLine s :=
  ⟨fun hm => h.1 (hsub hm), fun hm => h.2 (hsub hm)⟩

theorem strip_subset (s : Text) : strip s ⊆ s := by
  intro c hc
  have hback := (dropWhile_sublist _).subset (mem_reverse.mp hc)
  exact (dropWhile_sublist _).subset (mem_reverse.mp hback)

theorem oneLine_stripped {body : List Text} (h : ∀ s ∈ body, OneLine s) :
    ∀ s ∈ (body.map strip).filter (· ≠ []), OneLine s := by
  intro s hs
  obtain ⟨line, hline, rfl⟩ := mem_map.mp (mem_of_mem_filter hs)
  exact (h line hline).of_subset (strip_subset line)

end OneLine

section Search

variable {keys : List Text} {s : Text}
variable {c : ℕ}

def startsNone (keys : List Text) (c : ℕ) : Bool :=
  keys.all fun key => match key with
    | [] => false
    | k :: _ => !sameLetter k c

def startsNone2 (keys : List Text) (c d : ℕ) : Bool :=
  keys.all fun key => match key with
    | k :: l :: _ => !(sameLetter k c && sameLetter l d)
    | _ => false

def skipped (keys : List Text) : Text → Bool
  | [] => true
  | [c] => startsNone keys c
  | c :: d :: s => startsNone2 keys c d && skipped keys (d :: s)

theorem searchCount_cons (h : ∀ key ∈ keys, afterKey key (c :: s) = none) : searchCount keys (c :: s) = searchCount keys s := by
  have hnone : countAt keys (c :: s) = none := findSome?_eq_none_iff.mpr fun key hkey => by rw [h key hkey]; rfl
  rw [searchCount, hnone, Option.none_or]

theorem searchCount_startsNone (h : startsNone keys c = true) : searchCount keys (c :: s) = searchCount keys s := by
  refine searchCount_cons fun key hkey => ?_
  have hk := all_eq_true.mp h key hkey
  cases key with
  | nil => cases hk
  | cons k key =>
    have hne : sameLetter k c = false := by simpa using hk
    rw [afterKey, hne, if_neg (by simp)]

theorem searchCount_startsNone2 {d : ℕ} (h : startsNone2 keys c d = true) :
    searchCount keys (c :: d :: s) = searchCount keys (d :: s) := by
  refine searchCount_cons fun key hkey => ?_
  have hk := all_eq_true.mp h key hkey
  match key, hk with
  | k :: l :: key, hk =>
    have hne : ¬ (sameLetter k c = true ∧ sameLetter l d = true) := by
      rintro ⟨hc, hd⟩
      simp [hc, hd] at hk
    by_cases hc : sameLetter k c = true
    · have hd : ¬ sameLetter l d = true := fun hd => hne ⟨hc, hd⟩
      rw [afterKey, if_pos hc, afterKey, if_neg hd]
    · rw [afterKey, if_neg hc]

theorem searchCount_skipped {l : Text} (h : skipped keys l = true) (s : Text) :
    searchCount keys (l ++ s) = searchCount keys s := by
  fun_induction skipped keys l with
  | case1 => rfl
  | case2 c => exact searchCount_startsNone h
  | case3 c d l ih =>
    rw [Bool.and_eq_true] at h
    rw [cons_append, cons_append, searchCount_startsNone2 h.1, ← cons_append]
    exact ih h.2

theorem searchCount_run {l : Text} (h : ∀ c ∈ l, startsNone keys c = true) (s : Text) :
    searchCount keys (l ++ s) = searchCount keys s := by
  induction l with
  | nil => rfl
  | cons c l ih =>
    rw [cons_append, searchCount_startsNone (h c (by simp)), ih fun d hd => h d (mem_cons_of_mem c hd)]

theorem startsNone_tallyKeys (choice : Choice) (h : ∀ k, 97 ≤ k → k ≤ 122 → sameLetter k c = false) :
    startsNone (tallyKeys choice) c = true := by
  have hhead : ∀ key ∈ tallyKeys choice, key.head?.any (fun k => 97 ≤ k && k ≤ 122) = true := by
    cases choice <;> decide
  refine all_eq_true.mpr fun key hkey => ?_
  have hk := hhead key hkey
  cases key with
  | nil => cases hk
  | cons k key =>
    simp only [head?_cons, Option.any_some, Bool.and_eq_true, decide_eq_true_eq] at hk
    simp [h k hk.1 hk.2]

theorem startsNone_digit (choice : Choice) (h : isDigit c = true) : startsNone (tallyKeys choice) c = true := by
  refine startsNone_tallyKeys choice fun k hlow hhigh => ?_
  simp only [isDigit, Bool.and_eq_true, decide_eq_true_eq] at h
  simp only [sameLetter, Bool.or_eq_false_iff, Bool.and_eq_false_iff, decide_eq_false_iff_not]
  omega

theorem startsNone_space (choice : Choice) (h : isSpace c = true) : startsNone (tallyKeys choice) c = true := by
  refine startsNone_tallyKeys choice fun k hlow hhigh => ?_
  simp only [isSpace, Bool.or_eq_true, Bool.and_eq_true, decide_eq_true_eq, beq_iff_eq] at h
  simp only [sameLetter, Bool.or_eq_false_iff, Bool.and_eq_false_iff, decide_eq_false_iff_not]
  omega

theorem searchCount_dropWhile (choice : Choice) (s : Text) :
    searchCount (tallyKeys choice) (s.dropWhile isSpace) = searchCount (tallyKeys choice) s := by
  conv_rhs => rw [← takeWhile_append_dropWhile (p := isSpace) (l := s)]
  exact (searchCount_run (fun c hc => startsNone_space choice (mem_takeWhile_imp hc)) _).symm

theorem isTallyLine_dropWhile (s : Text) : isTallyLine (s.dropWhile isSpace) = isTallyLine s := by
  simp only [isTallyLine, searchCount_dropWhile]

theorem countAfter_entry (n : ℕ) {rest : Text} (h : ∀ c ∈ rest.head?, isDecimal c = false) :
    countAfter (text ": " ++ decimal n ++ rest) = some n := by
  have hdrop : (32 :: (decimal n ++ rest)).dropWhile isSpace = decimal n ++ rest := by
    obtain ⟨d, ds, hd⟩ := exists_cons_of_ne_nil (decimal_ne_nil n)
    have hvisible := (trimmed_decimal n).head d (by rw [hd]; rfl)
    rw [dropWhile_cons_of_pos (by decide), hd, cons_append, dropWhile_cons_of_neg (by simp [hvisible])]
  show (leadingNumber ((32 :: (decimal n ++ rest)).dropWhile isSpace)).map (·.1) = some n
  rw [hdrop, leadingNumber_decimal n rest h]
  rfl

theorem searchCount_visible {keys : List Text} {s : Text} {n : ℕ} (h : searchCount keys s = some n) :
    ∃ c ∈ s, isSpace c = false := by
  have hafter : ∀ key (t : Text) r, afterKey key t = some r → r <:+ t := by
    intro key t r hr
    fun_induction afterKey key t with
    | case1 t => exact Option.some.inj hr ▸ suffix_refl t
    | case2 k key c t hk ih => exact (ih hr).trans (suffix_cons c t)
    | case3 => cases hr
    | case4 => cases hr
  induction s with
  | nil => cases h
  | cons c s ih =>
    rw [searchCount, Option.or_eq_some_iff] at h
    obtain hfound | ⟨-, hlater⟩ := h
    · obtain ⟨key, -, hkey⟩ := exists_of_findSome?_eq_some hfound
      obtain ⟨r, hr, hcount⟩ := Option.bind_eq_some_iff.mp hkey
      obtain ⟨found, hnumber, -⟩ := Option.map_eq_some_iff.mp hcount
      obtain ⟨ds, hne, hds, htext⟩ := @leadingNumber_some _ found.2 found.1 hnumber
      obtain ⟨d, hd⟩ := exists_mem_of_ne_nil _ hne
      refine ⟨d, (hafter key _ r hr).subset ?_, not_isSpace_of_isDecimal (hds d hd)⟩
      have hd := (dropWhile_sublist _).subset (htext ▸ mem_append_left found.2 hd)
      split at hd
      · exact (dropWhile_sublist _).subset (mem_of_mem_tail hd)
      · exact (dropWhile_sublist _).subset hd
    · obtain ⟨d, hd, hvisible⟩ := ih hlater
      exact ⟨d, mem_cons_of_mem c hd, hvisible⟩

theorem strip_tallyLine {line : Text} (h : isTallyLine line = true) : strip line ≠ [] := by
  have hlen := of_decide_eq_true h
  obtain ⟨choice, hchoice⟩ := exists_mem_of_ne_nil _ (ne_nil_of_length_pos (Nat.lt_of_lt_of_le Nat.zero_lt_two hlen))
  obtain ⟨n, hn⟩ := Option.isSome_iff_exists.mp (mem_filter.mp hchoice).2
  obtain ⟨c, hc, hvisible⟩ := searchCount_visible hn
  exact ne_nil_of_mem (mem_strip hc hvisible)

end Search

section Node

variable (W : WordTable)

theorem unmark_marker (head : Text) : unmark W (text "[!abstimmung] " ++ head) = head.dropWhile isSpace := by
  have hword : ∀ c ∈ text "abstimmung", W.isWord c = true := by
    have hletters : ∀ c ∈ text "abstimmung", 97 ≤ c ∧ c ≤ 122 := by decide
    exact fun c hc => W.letter c (hletters c hc).1 (hletters c hc).2
  have htake : (text "abstimmung" ++ 93 :: 32 :: head).takeWhile W.isWord = text "abstimmung" := by
    rw [takeWhile_append_of_pos hword, takeWhile_cons_of_neg (by simp [W.bracket]), append_nil]
  have hdrop : (text "abstimmung" ++ 93 :: 32 :: head).dropWhile W.isWord = 93 :: 32 :: head := by
    rw [dropWhile_append_of_pos hword, dropWhile_cons_of_neg (by simp [W.bracket])]
  have hstrip : (text "[!abstimmung] " ++ head).dropWhile isSpace = 91 :: 33 :: (text "abstimmung" ++ 93 :: 32 :: head) := rfl
  rw [unmark, hstrip]
  simp only [htake, hdrop]
  rfl

theorem vote_callout (P : LineParser) {head : Text} {body : List Text} (hhead : OneLine head) (hbody : ∀ s ∈ body, OneLine s) :
    vote W (P.lines (callout head body)) = tallyNode W (head.dropWhile isSpace :: body) := by
  rw [P.plain head body hhead hbody, vote, unmarked, unmark_marker]

variable {W} {texts : List Text}

theorem tallyNode_found {line : Text} (h : texts.find? isTallyLine = some line) :
    (tallyNode W texts).counts = true ∧ (tallyNode W texts).ranking = .none ∧
      (tallyNode W texts).yes = tally (strip line) .yes ∧ (tallyNode W texts).no = tally (strip line) .no ∧
      (tallyNode W texts).abstain = tally (strip line) .abstain := by
  have hne : strip line ≠ [] := strip_tallyLine (find?_some h)
  simp only [tallyNode, h, Option.map_some, Option.getD_some, ranking]
  simp [hne]

theorem tallyNode_none (h : ∀ line ∈ texts, isTallyLine line = false) :
    (tallyNode W texts).counts = false ∧
      (tallyNode W texts).ranking = ranking W false ((texts.tail.map strip).filter (· ≠ [])) := by
  have hnone : texts.find? isTallyLine = none := find?_eq_none.mpr fun line hline => by simp [h line hline]
  simp only [tallyNode, hnone, Option.map_none, Option.getD_none]
  simp

theorem tallyNode_counts : (tallyNode W texts).counts = false ↔ ∀ line ∈ texts, isTallyLine line = false := by
  refine ⟨fun h line hline => ?_, fun h => (tallyNode_none h).1⟩
  by_contra htally
  obtain ⟨found, hfound⟩ := Option.isSome_iff_exists.mp
    (find?_isSome.mpr ⟨line, hline, by simpa using htally⟩ : (texts.find? isTallyLine).isSome = true)
  rw [(tallyNode_found hfound).1] at h
  cases h

end Node

section Motion

/-- The names of the ballot options, in either language. -/
inductive Language where
  | english
  | german

def Language.label : Language → Choice → Text
  | .english, .yes => text "yes"
  | .english, .no => text "no"
  | .english, .abstain => text "abstain"
  | .german, .yes => text "ja"
  | .german, .no => text "nein"
  | .german, .abstain => text "enthaltung"

def Motion.Counted (m : Motion) (counts : Choice → ℕ) : Prop :=
  ∃ (lang : Language) (order : List Choice), order.Perm [.yes, .no, .abstain] ∧
    m.counts = order.map fun choice => (lang.label choice, counts choice)

/-- What the reader makes of a motion: a tally with these counts. -/
structure MotionRead (node : TallyNode) (counts : Choice → ℕ) : Prop where
  tallied : node.counts = true
  ranking : node.ranking = .none
  yes : node.yes = counts .yes
  no : node.no = counts .no
  abstain : node.abstain = counts .abstain

variable (lang : Language)

theorem oneLine_label (choice : Choice) : OneLine (lang.label choice) := by
  cases lang <;> cases choice <;> decide

theorem countAt_label (choice : Choice) {s : Text} {n : ℕ} (h : countAfter s = some n) :
    countAt (tallyKeys choice) (lang.label choice ++ s) = some n := by
  have hyes : afterKey (text "ja") (text "yes" ++ s) = none := rfl
  cases lang with
  | english =>
    cases choice with
    | yes => simp [countAt, tallyKeys, Language.label, hyes, show afterKey (text "yes") (text "yes" ++ s) = some s from rfl, h]
    | no =>
      simp [countAt, tallyKeys, Language.label, show afterKey (text "nein") (text "no" ++ s) = none from rfl,
        show afterKey (text "no") (text "no" ++ s) = some s from rfl, h]
    | abstain =>
      simp [countAt, tallyKeys, Language.label, show afterKey (text "enthaltung") (text "abstain" ++ s) = none from rfl,
        show afterKey (text "enth.") (text "abstain" ++ s) = none from rfl,
        show afterKey (text "enth") (text "abstain" ++ s) = none from rfl,
        show afterKey (text "abstain") (text "abstain" ++ s) = some s from rfl, h]
  | german =>
    cases choice with
    | yes => simp [countAt, tallyKeys, Language.label, show afterKey (text "ja") (text "ja" ++ s) = some s from rfl, h]
    | no => simp [countAt, tallyKeys, Language.label, show afterKey (text "nein") (text "nein" ++ s) = some s from rfl, h]
    | abstain =>
      simp [countAt, tallyKeys, Language.label,
        show afterKey (text "enthaltung") (text "enthaltung" ++ s) = some s from rfl, h]

theorem searchCount_own (choice : Choice) (n : ℕ) (rest : Text) (h : ∀ c ∈ rest.head?, isDecimal c = false) :
    searchCount (tallyKeys choice) (entry (lang.label choice) n ++ rest) = some n := by
  have hcount := countAt_label lang choice (countAfter_entry n h)
  have hne : lang.label choice ≠ [] := by cases lang <;> cases choice <;> decide
  obtain ⟨c, l, hl⟩ := exists_cons_of_ne_nil hne
  have htext : entry (lang.label choice) n ++ rest = c :: (l ++ (text ": " ++ decimal n ++ rest)) := by
    rw [entry, hl]
    simp
  rw [hl, cons_append] at hcount
  rw [htext, searchCount, hcount, Option.some_or]

theorem searchCount_other {choice other : Choice} (h : other ≠ choice) (n : ℕ) (rest : Text) :
    searchCount (tallyKeys choice) (entry (lang.label other) n ++ rest) = searchCount (tallyKeys choice) rest := by
  have hskip : skipped (tallyKeys choice) (lang.label other ++ text ": ") = true := by
    cases lang <;> cases choice <;> cases other <;> first | decide | exact absurd rfl h
  rw [entry, append_assoc, searchCount_skipped hskip]
  exact searchCount_run (fun c hc => startsNone_digit choice (decimal_isDigit n c hc)) rest

theorem searchCount_counts (choice : Choice) (order : List Choice) (counts : Choice → ℕ) :
    searchCount (tallyKeys choice) (tallyText (order.map fun c => (lang.label c, counts c))) =
      if choice ∈ order then some (counts choice) else none := by
  have hsep : skipped (tallyKeys choice) (text ", ") = true := by cases choice <;> decide
  have hentries : (order.map fun c => (lang.label c, counts c)).map (fun option => entry (mdEscape option.1) option.2) =
      order.map fun c => entry (lang.label c) (counts c) := by
    rw [map_map]
    exact map_congr_left fun c _ => by simp only [Function.comp_apply, (oneLine_label lang c).mdEscape]
  rw [tallyText, hentries]
  clear hentries
  induction order with
  | nil => rfl
  | cons c order ih =>
    by_cases hc : c = choice
    · subst hc
      rw [if_pos (by simp), map_cons]
      by_cases hnil : order = []
      · subst hnil
        simpa [joined] using searchCount_own lang c (counts c) [] (by simp)
      · rw [joined_cons _ (by simpa using hnil), append_assoc]
        exact searchCount_own lang c (counts c) _ (by simp [text]; decide)
    · have hmem : (choice ∈ c :: order) ↔ choice ∈ order := by simp [Ne.symm hc]
      simp only [hmem, map_cons]
      by_cases hnil : order = []
      · subst hnil
        simpa [joined, searchCount] using searchCount_other lang hc (counts c) []
      · rw [joined_cons _ (by simpa using hnil), append_assoc, searchCount_other lang hc,
          searchCount_skipped hsep, ih]

theorem oneLine_motionBody (m : Motion) : ∀ s ∈ m.body, OneLine s := by
  intro s hs
  simp only [Motion.body, mem_append] at hs
  obtain (hs | hs) | hs := hs
  · split at hs
    · cases hs
    · rw [mem_singleton.mp hs]
      refine oneLine_joined (by decide) fun p hp => ?_
      obtain ⟨option, -, rfl⟩ := mem_map.mp hp
      exact oneLine_entry (oneLine_mdEscape _) _
  · obtain ⟨condition, -, rfl⟩ := mem_map.mp hs
    have hword : OneLine (text "Auflage ") := by decide
    exact ((hword.append (oneLine_decimal _)).append (by decide)).append (oneLine_mdEscape _)
  · obtain ⟨note, -, rfl⟩ := mem_map.mp hs
    exact oneLine_mdEscape note

theorem motion_read_iff (W : WordTable) (P : LineParser) {m : Motion} {counts : Choice → ℕ} (hm : m.Counted counts) :
    MotionRead (vote W (P.lines (buildVoteSnippet m))) counts ↔
      (isTallyLine (mdEscape m.head) = false ∨ ∀ choice, tally (strip (mdEscape m.head)) choice = counts choice) := by
  obtain ⟨lang, order, horder, hcounts⟩ := hm
  rw [buildVoteSnippet, vote_callout W P (oneLine_mdEscape _) (oneLine_motionBody m)]
  have hstrip : strip ((mdEscape m.head).dropWhile isSpace) = strip (mdEscape m.head) := by
    rw [strip, strip, stripWith, stripWith, dropWhile_idempotent]
  cases htally : isTallyLine (mdEscape m.head) with
  | true =>
    have hfound : ((mdEscape m.head).dropWhile isSpace :: m.body).find? isTallyLine =
        some ((mdEscape m.head).dropWhile isSpace) :=
      find?_cons_of_pos (by rw [isTallyLine_dropWhile, htally])
    obtain ⟨htrue, hnone, hyes, hno, habstain⟩ := tallyNode_found (W := W) hfound
    rw [hstrip] at hyes hno habstain
    constructor
    · intro h
      refine .inr fun choice => ?_
      cases choice with
      | yes => rw [← hyes, h.yes]
      | no => rw [← hno, h.no]
      | abstain => rw [← habstain, h.abstain]
    · rintro (h | h)
      · cases h
      · exact ⟨htrue, hnone, by rw [hyes, h], by rw [hno, h], by rw [habstain, h]⟩
  | false =>
    have hall : ∀ choice, searchCount (tallyKeys choice) (tallyText m.counts) = some (counts choice) := by
      intro choice
      rw [hcounts, searchCount_counts, if_pos (horder.mem_iff.mpr (by cases choice <;> simp))]
    have hline : isTallyLine (tallyText m.counts) = true := by simp [isTallyLine, hall]
    have hne : order ≠ [] := by
      rintro rfl
      simpa using horder.length_eq
    have hbody : ∃ rest, m.body = tallyText m.counts :: rest := by
      rw [Motion.body, if_neg (by rw [hcounts]; simpa using hne)]
      exact ⟨_, rfl⟩
    obtain ⟨rest, hrest⟩ := hbody
    have hfound : ((mdEscape m.head).dropWhile isSpace :: m.body).find? isTallyLine = some (tallyText m.counts) := by
      rw [find?_cons_of_neg (by rw [isTallyLine_dropWhile, htally]; simp), hrest, find?_cons_of_pos hline]
    have htrim : strip (tallyText m.counts) = tallyText m.counts := by
      refine (trimmed_joined ?_ ?_).strip
      · intro p hp
        obtain ⟨option, -, rfl⟩ := mem_map.mp hp
        simp [entry, decimal_ne_nil]
      · intro p hp
        obtain ⟨option, hoption, rfl⟩ := mem_map.mp hp
        obtain ⟨choice, -, rfl⟩ := mem_map.mp (hcounts ▸ hoption)
        rw [(oneLine_label lang choice).mdEscape]
        refine Trimmed.append ⟨?_, ?_⟩ (trimmed_decimal _) (text ": ") ?_ (decimal_ne_nil _) <;>
          cases lang <;> cases choice <;> decide
    obtain ⟨htrue, hnone, hyes, hno, habstain⟩ := tallyNode_found (W := W) hfound
    simp only [htrim, tally, hall, Option.getD_some] at hyes hno habstain
    exact ⟨fun _ => .inl rfl, fun _ => ⟨htrue, hnone, hyes, hno, habstain⟩⟩

end Motion

end Callout
