import StupaWorkflow.PublicMinutes
import StupaWorkflow.Rationing

/-!
The votes of an agenda item and the callouts in its body.
-/
namespace PublicMinutes
open Py Callout Rationing
open List hiding splitOn count

section Demands

def blockTexts (body : Text) : List (List Text) :=
  (quoteBlocks (splitOn 10 body)).map (blockText (splitOn 10 body))

/-- The blocks that `replace_vote_blocks` gives to the votes, each with the number of its vote. -/
def assignment (body : Text) (snippets : List Text) : List (ℕ × ℕ) := assignBlocks (blockTexts body) snippets

def headCount (body head : Text) : ℕ := ((splitOn 10 body).map strip).count head

def snippetAt (snippets : List Text) (i : ℕ) : Text := snippets.getD i []

def votesBy {Key : Type} [DecidableEq Key] (key : Text → Key) (snippets : List Text) (k : Key) : Finset ℕ :=
  (Finset.range snippets.length).filter fun i => key (snippetAt snippets i) = k

def votesOf (snippets : List Text) (head : Text) : Finset ℕ := votesBy headLine snippets head

variable (body : Text) (snippets : List Text)

/-- The votes that are the first ones of their text, as many as there are blocks of that text. -/
def exactVotes (texts : List (List Text)) (snippets : List Text) : Finset ℕ :=
  (Finset.range snippets.length).filter fun i =>
    let lines := strippedLines (snippetAt snippets i)
    rank (votesBy strippedLines snippets lines) i < texts.count lines

def byBlock : Finset ℕ := exactVotes (blockTexts body) snippets

/-- The vote is one of the first ones of its snippet, as many as `str.count` finds of it. -/
def counted : Finset ℕ :=
  (Finset.range snippets.length).filter fun i =>
    let snippet := snippetAt snippets i
    rank (votesBy id snippets snippet) i < countFrom snippet 0 body

def withHead (votes : Finset ℕ) (head : Text) : Finset ℕ := votes.filter fun i => headLine (snippetAt snippets i) = head

def countedOf (head : Text) : Finset ℕ := withHead snippets (counted body snippets) head

def byCount : Finset ℕ :=
  (counted body snippets).filter fun i =>
    let head := headLine (snippetAt snippets i)
    rank (countedOf body snippets head) i < headCount body head

/-- For each head line there is a place in the row of the votes from which on the finds of
`str.count` are the blocks of those texts, and before which every vote gets a head line. -/
def CountsFollowBlocks : Prop :=
  ∀ head, ∃ p, (∀ i ∈ votesOf snippets head, p ≤ i → (i ∈ byBlock body snippets ↔ i ∈ byCount body snippets)) ∧
    (upTo (votesOf snippets head) (byBlock body snippets) p).card =
      min (votesOf snippets head).card (headCount body head)

end Demands

section Counting
variable (body : Text) (snippets : List Text)
variable {i : ℕ} {votes : Finset ℕ} {head snippet : Text} {state : Found}

theorem snippetAt_eq (hi : i < snippets.length) : snippetAt snippets i = snippets[i] := by
  simp [snippetAt, hi]

theorem mem_votesBy {Key : Type} [DecidableEq Key] {key : Text → Key} {k : Key} :
    i ∈ votesBy key snippets k ↔ i < snippets.length ∧ key (snippetAt snippets i) = k := by
  simp [votesBy]

theorem card_votesBy {Key : Type} [DecidableEq Key] [BEq Key] [LawfulBEq Key] (key : Text → Key) (snippets : List Text) (k : Key) :
    (votesBy key snippets k).card = (snippets.map key).count k := card_places key snippets [] k

theorem mem_counted : i ∈ counted body snippets ↔ i < snippets.length ∧
    rank (votesBy id snippets (snippetAt snippets i)) i < countFrom (snippetAt snippets i) 0 body := by
  simp [counted]

theorem mem_withHead : i ∈ withHead snippets votes head ↔ i ∈ votes ∧ headLine (snippetAt snippets i) = head := Finset.mem_filter

theorem mem_countedOf : i ∈ countedOf body snippets head ↔ i ∈ counted body snippets ∧ headLine (snippetAt snippets i) = head :=
  mem_withHead snippets

theorem mem_byCount : i ∈ byCount body snippets ↔ i ∈ counted body snippets ∧
    rank (countedOf body snippets (headLine (snippetAt snippets i))) i < headCount body (headLine (snippetAt snippets i)) := by
  simp [byCount]

theorem foundExact_hit (h : state.exact snippet > 0 ∧ state.heads (headLine snippet) > 0) : foundExact state snippet =
      ⟨less state.heads (headLine snippet), less state.exact snippet, state.found ++ [true]⟩ := if_pos h

theorem foundExact_miss (h : ¬ (state.exact snippet > 0 ∧ state.heads (headLine snippet) > 0)) :
    foundExact state snippet = { state with found := state.found ++ [false] } := if_neg h

/-- What the first pass of `votes_in_body` holds before the vote `i`. The finds of a snippet
only matter while a head line is left. -/
structure ExactPass (i : ℕ) (state : Found) : Prop where
  heads : ∀ head, state.heads head = headCount body head - rank (countedOf body snippets head) i
  exact : ∀ t, 0 < state.heads (headLine t) → state.exact t = countFrom t 0 body - rank (votesBy id snippets t) i
  found : state.found = (List.range i).map fun j => decide (j ∈ byCount body snippets)

theorem exactPass_start :
    ExactPass body snippets 0 ⟨fun t => ((splitOn 10 body).map strip).count t, fun t => countFrom t 0 body, []⟩ where
  heads head := by simp [rank, headCount]
  exact t _ := by simp [rank]
  found := rfl

variable {body snippets}

theorem mem_votesBy_self (hi : i < snippets.length) {t : Text} : i ∈ votesBy id snippets t ↔ snippets[i] = t := by
  rw [mem_votesBy, snippetAt_eq snippets hi]
  exact ⟨fun h => h.2, fun h => ⟨hi, h⟩⟩

theorem mem_countedOf_at (hi : i < snippets.length) :
    i ∈ countedOf body snippets head ↔ i ∈ counted body snippets ∧ headLine snippets[i] = head := by
  rw [mem_countedOf, snippetAt_eq snippets hi]

/-- The pass finds the text of the vote `i` exactly when the count does while a head line is left. -/
theorem ExactPass.hit_iff (hi : i < snippets.length) (h : ExactPass body snippets i state) :
    state.exact snippets[i] > 0 ∧ state.heads (headLine snippets[i]) > 0 ↔ i ∈ byCount body snippets := by
  rw [mem_byCount, mem_counted, snippetAt_eq snippets hi]
  constructor
  · rintro ⟨hexact, hheads⟩
    rw [h.exact _ hheads] at hexact
    rw [h.heads] at hheads
    exact ⟨⟨hi, by omega⟩, by omega⟩
  · rintro ⟨⟨-, hexact⟩, hheads⟩
    have hleft : 0 < state.heads (headLine snippets[i]) := by rw [h.heads]; omega
    refine ⟨?_, hleft⟩
    rw [h.exact _ hleft]
    omega

theorem ExactPass.found_succ (h : ExactPass body snippets i state) : state.found ++ [decide (i ∈ byCount body snippets)] =
      (List.range (i + 1)).map fun j => decide (j ∈ byCount body snippets) := by
  rw [range_succ, map_append, h.found]
  rfl

theorem ExactPass.hit (hi : i < snippets.length) (h : ExactPass body snippets i state)
    (hcond : state.exact snippets[i] > 0 ∧ state.heads (headLine snippets[i]) > 0) :
    ExactPass body snippets (i + 1) (foundExact state snippets[i]) := by
  have hmem := (h.hit_iff hi).mp hcond
  have hin : i ∈ counted body snippets := ((mem_byCount _ _).mp hmem).1
  have hfound := h.found_succ
  rw [decide_eq_true hmem] at hfound
  rw [foundExact_hit hcond]
  refine ⟨fun head => ?_, fun t ht => ?_, hfound⟩
  · simp only [less]
    rw [rank_succ]
    split
    · subst head
      rw [if_pos ((mem_countedOf_at hi).mpr ⟨hin, rfl⟩), h.heads]
      omega
    · rename_i hne
      rw [if_neg fun hof => hne ((mem_countedOf_at hi).mp hof).2.symm, h.heads]
      rfl
  · have hheads : 0 < state.heads (headLine t) := by
      simp only [less] at ht
      split at ht
      · rename_i heq
        rw [heq]
        exact hcond.2
      · exact ht
    simp only [less]
    rw [rank_succ]
    split
    · subst t
      rw [if_pos ((mem_votesBy_self hi).mpr rfl), h.exact _ hheads]
      omega
    · rename_i hne
      rw [if_neg fun hself => hne ((mem_votesBy_self hi).mp hself).symm, h.exact _ hheads]
      rfl

theorem ExactPass.miss (hi : i < snippets.length) (h : ExactPass body snippets i state)
    (hcond : ¬ (state.exact snippets[i] > 0 ∧ state.heads (headLine snippets[i]) > 0)) :
    ExactPass body snippets (i + 1) (foundExact state snippets[i]) := by
  have hout := mt (h.hit_iff hi).mpr hcond
  have hfound := h.found_succ
  rw [decide_eq_false hout] at hfound
  rw [foundExact_miss hcond]
  refine ⟨fun head => ?_, fun t ht => ?_, hfound⟩
  · rw [rank_succ, h.heads]
    split
    · rename_i hof
      -- a find without a head line that is left
      obtain ⟨hin, heq⟩ := (mem_countedOf_at hi).mp hof
      rw [mem_byCount, snippetAt_eq snippets hi, heq] at hout
      have hnone := mt (And.intro hin) hout
      omega
    · rfl
  · rw [rank_succ, h.exact t ht]
    split
    · rename_i hself
      have heq := (mem_votesBy_self hi).mp hself
      subst heq
      have hnone : ¬ state.exact snippets[i] > 0 := fun hpos => hcond ⟨hpos, ht⟩
      rw [h.exact _ ht] at hnone
      omega
    · rfl

theorem exactPass_step (hi : i < snippets.length) (h : ExactPass body snippets i state) :
    ExactPass body snippets (i + 1) (foundExact state snippets[i]) := by
  by_cases hcond : state.exact snippets[i] > 0 ∧ state.heads (headLine snippets[i]) > 0
  · exact h.hit hi hcond
  · exact h.miss hi hcond

theorem exactPass (body : Text) (snippets : List Text) : ExactPass body snippets snippets.length
    (snippets.foldl foundExact ⟨fun t => ((splitOn 10 body).map strip).count t, fun t => countFrom t 0 body, []⟩) :=
  foldl_places _ _ (ExactPass body snippets) (exactPass_start body snippets) fun _ hi _ h => exactPass_step hi h

theorem withHead_subset (h : ∀ i ∈ votes, i < snippets.length) (head : Text) :
    withHead snippets votes head ⊆ votesOf snippets head := by
  intro i hi
  obtain ⟨hmem, hhead⟩ := (mem_withHead snippets).mp hi
  exact (mem_votesBy snippets).mpr ⟨h i hmem, hhead⟩

theorem byCount_lt (hi : i ∈ byCount body snippets) : i < snippets.length :=
  ((mem_counted _ _).mp ((mem_byCount _ _).mp hi).1).1

theorem withHead_byCount (head : Text) :
    withHead snippets (byCount body snippets) head = first (countedOf body snippets head) (headCount body head) := by
  ext i
  rw [mem_withHead, mem_byCount, first, Finset.mem_filter, mem_countedOf]
  constructor
  · rintro ⟨⟨hmem, hrank⟩, rfl⟩
    exact ⟨⟨hmem, rfl⟩, hrank⟩
  · rintro ⟨⟨hmem, rfl⟩, hrank⟩
    exact ⟨⟨hmem, hrank⟩, rfl⟩

theorem card_byCount (head : Text) : (withHead snippets (byCount body snippets) head).card =
    min (countedOf body snippets head).card (headCount body head) := by
  rw [withHead_byCount, card_first]

/-- The votes that `votes_in_body` reports. -/
def reported (body : Text) (snippets : List Text) (head : Text) : Finset ℕ :=
  served (votesOf snippets head) (withHead snippets (byCount body snippets) head) (headCount body head)

def leftOf (votes : Finset ℕ) (snippets : List Text) (head : Text) : Finset ℕ :=
  votesOf snippets head \ withHead snippets votes head

theorem mem_leftOf (hi : i < snippets.length) : i ∈ leftOf votes snippets head ↔ headLine snippets[i] = head ∧ i ∉ votes := by
  rw [leftOf, Finset.mem_sdiff, votesOf, mem_votesBy, mem_withHead, snippetAt_eq snippets hi]
  constructor
  · rintro ⟨⟨-, heq⟩, hno⟩
    exact ⟨heq, fun hmem => hno ⟨hmem, heq⟩⟩
  · rintro ⟨heq, hno⟩
    exact ⟨⟨hi, heq⟩, fun hmem => hno hmem.1⟩

/-- What the second pass of `votes_in_body` holds before the vote `i`. -/
structure HeadPass (body : Text) (snippets : List Text) (i : ℕ) (state : Found) : Prop where
  heads : ∀ head, state.heads head =
    headCount body head - (withHead snippets (byCount body snippets) head).card - rank (leftOf (byCount body snippets) snippets head) i
  found : state.found = (List.range i).map fun j => decide (j ∈ reported body snippets (headLine (snippetAt snippets j)))

theorem rank_length {W : Finset ℕ} (h : ∀ i ∈ W, i < snippets.length) : rank W snippets.length = W.card := rank_of_max h

theorem headPass_start (h : ExactPass body snippets snippets.length state) :
    HeadPass body snippets 0 ⟨state.heads, state.exact, []⟩ where
  heads head := by
    have hlen : ∀ i ∈ countedOf body snippets head, i < snippets.length := fun i hi =>
      ((mem_counted _ _).mp ((mem_countedOf _ _).mp hi).1).1
    rw [h.heads, rank_length hlen, card_byCount]
    simp only [rank, Nat.not_lt_zero, Finset.filter_false, Finset.card_empty]
    omega
  found := rfl

theorem headPass_step (hi : i < snippets.length) (h : HeadPass body snippets i state) :
    HeadPass body snippets (i + 1) (foundHead state (snippets[i], decide (i ∈ byCount body snippets))) := by
  have hhead : headLine (snippetAt snippets i) = headLine snippets[i] := by rw [snippetAt_eq snippets hi]
  have hserved : i ∈ reported body snippets (headLine snippets[i]) ↔
      i ∈ byCount body snippets ∨ i ∉ byCount body snippets ∧ 0 < state.heads (headLine snippets[i]) := by
    rw [reported, mem_served, mem_withHead, hhead, h.heads, votesOf, mem_votesBy, hhead]
    simp only [hi, and_true, true_and, Nat.sub_pos_iff_lt]
    rfl
  refine ⟨fun head => ?_, ?_⟩
  · rw [rank_succ]
    simp only [foundHead, Bool.and_eq_true, Bool.not_eq_true', decide_eq_false_iff_not, decide_eq_true_eq]
    split
    · rename_i hit
      simp only [less]
      split
      · subst head
        rw [if_pos ((mem_leftOf hi).mpr ⟨rfl, hit.1⟩), h.heads]
        omega
      · rename_i hne
        rw [if_neg (fun hmem => hne ((mem_leftOf hi).mp hmem).1.symm), h.heads]
        rfl
    · rename_i hmiss
      rw [h.heads]
      split
      · rename_i hmem
        obtain ⟨heq, hno⟩ := (mem_leftOf hi).mp hmem
        have hnone : ¬ 0 < state.heads head := fun hpos => hmiss ⟨hno, heq ▸ hpos⟩
        rw [h.heads] at hnone
        omega
      · rfl
  · rw [range_succ, map_append, ← h.found]
    simp only [foundHead, map_cons, map_nil, hhead, hserved]
    congr 2
    by_cases hdone : i ∈ byCount body snippets <;> simp [hdone]

/-- `votes_in_body` reports the votes that the head lines serve, the finds first. -/
theorem votesInBody_eq (body : Text) (snippets : List Text) : votesInBody body snippets =
    (List.range snippets.length).map fun i => decide (i ∈ reported body snippets (headLine (snippetAt snippets i))) := by
  have hfirst := exactPass body snippets
  unfold votesInBody
  simp only
  generalize snippets.foldl foundExact _ = state at hfirst ⊢
  have hlength : (snippets.zip state.found).length = snippets.length := by simp [hfirst.found]
  have hpass := foldl_places foundHead (snippets.zip state.found) (HeadPass body snippets) (headPass_start hfirst)
    fun i hi t ht => by
      have hvote : i < snippets.length := hlength ▸ hi
      have hget : (snippets.zip state.found)[i] = (snippets[i], decide (i ∈ byCount body snippets)) := by
        simp [hfirst.found]
      rw [hget]
      exact headPass_step hvote ht
  rw [hlength] at hpass
  exact hpass.found

end Counting

section Claims
variable {texts : List (List Text)} {snippets : List Text}
variable {Key : Type} {assigned : List (ℕ × ℕ)} {k i : ℕ}

def blockAt (texts : List (List Text)) (k : ℕ) : List Text := texts.getD k []

def freeBlocks {Key : Type} [DecidableEq Key] (key : List Text → Key) (texts : List (List Text)) (assigned : List (ℕ × ℕ))
    (v : Key) : Finset ℕ :=
  (Finset.range texts.length).filter fun k => k ∉ assigned.map Prod.fst ∧ key (blockAt texts k) = v

theorem mem_freeBlocks [DecidableEq Key] {key : List Text → Key} {v : Key} : k ∈ freeBlocks key texts assigned v ↔
      k < texts.length ∧ k ∉ assigned.map Prod.fst ∧ key (blockAt texts k) = v := by
  rw [freeBlocks, Finset.mem_filter, Finset.mem_range]

theorem claim_spec [DecidableEq Key] (key : List Text → Key) (texts : List (List Text)) (assigned : List (ℕ × ℕ)) (snippet : Text)
    (n : ℕ) :
    (freeBlocks key texts assigned (key (strippedLines snippet)) = ∅ ∧ claim key texts assigned (snippet, n) = assigned) ∨
      ∃ k ∈ freeBlocks key texts assigned (key (strippedLines snippet)),
        claim key texts assigned (snippet, n) = assigned ++ [(k, n)] := by
  have hlookup : ∀ k, (assigned.lookup k).isNone = true ↔ k ∉ assigned.map Prod.fst := by
    intro k
    rw [Option.isNone_iff_eq_none, lookup_eq_none_iff]
    simp only [mem_map, not_exists, not_and, bne_iff_ne, ne_eq]
    exact ⟨fun h p hp heq => h p hp heq.symm, fun h p hp heq => h p hp heq.symm⟩
  unfold claim
  split
  case h_1 hfind =>
    refine .inl ⟨Finset.eq_empty_of_forall_notMem fun k hk => ?_, rfl⟩
    obtain ⟨hlt, hfree, hkey⟩ := mem_freeBlocks.mp hk
    have hmem : (texts[k], k) ∈ texts.zipIdx := mk_mem_zipIdx_iff_getElem?.mpr (by simp [hlt])
    have hno := find?_eq_none.mp hfind _ hmem
    simp only [blockAt, getD_eq_getElem?_getD, hlt, getElem?_eq_getElem, Option.getD_some] at hkey
    simp [(hlookup k).mpr hfree, hkey] at hno
  case h_2 block hfind =>
    have hmem := mem_of_find?_eq_some hfind
    have hyes := find?_some hfind
    rw [Bool.and_eq_true, hlookup, decide_eq_true_eq] at hyes
    have hat : texts[block.2]? = some block.1 := mk_mem_zipIdx_iff_getElem?.mp hmem
    refine .inr ⟨block.2, mem_freeBlocks.mpr ⟨?_, hyes.1, ?_⟩, rfl⟩
    · exact (List.getElem?_eq_some_iff.mp hat).1
    · simp [blockAt, hat, hyes.2]

theorem freeBlocks_append [DecidableEq Key] (key : List Text → Key) (assigned : List (ℕ × ℕ)) (k n : ℕ) (v : Key) :
    freeBlocks key texts (assigned ++ [(k, n)]) v = (freeBlocks key texts assigned v).erase k := by
  ext j
  rw [Finset.mem_erase, mem_freeBlocks, mem_freeBlocks]
  simp only [map_append, map_cons, map_nil, mem_append, mem_singleton, not_or]
  tauto

theorem card_freeBlocks_start [DecidableEq Key] [BEq Key] [LawfulBEq Key] (key : List Text → Key) (texts : List (List Text))
    (v : Key) : (freeBlocks key texts [] v).card = (texts.map key).count v := by
  rw [← card_places key texts []]
  simp [freeBlocks, blockAt]

theorem card_freeBlocks_append [DecidableEq Key] (key : List Text → Key) (hk : k < texts.length)
    (hfree : k ∉ assigned.map Prod.fst) (n : ℕ) (v : Key) : (freeBlocks key texts assigned v).card =
      (freeBlocks key texts (assigned ++ [(k, n)]) v).card + if key (blockAt texts k) = v then 1 else 0 := by
  rw [freeBlocks_append]
  split
  · rename_i hkey
    exact (Finset.card_erase_add_one (mem_freeBlocks.mpr ⟨hk, hfree, hkey⟩)).symm
  · rename_i hkey
    rw [Finset.erase_eq_of_notMem fun hmem => hkey (mem_freeBlocks.mp hmem).2.2]
    rfl

theorem nodup_claim (h : (assigned.map Prod.fst).Nodup) (hfree : k ∉ assigned.map Prod.fst) (n : ℕ) :
    ((assigned ++ [(k, n)]).map Prod.fst).Nodup := by
  rw [map_append, nodup_append]
  refine ⟨h, nodup_singleton k, fun a ha b hb hab => hfree ?_⟩
  have hk : b = k := mem_singleton.mp hb
  rw [← hk, ← hab]
  exact ha

theorem mem_exactVotes : i ∈ exactVotes texts snippets ↔ i < snippets.length ∧
    rank (votesBy strippedLines snippets (strippedLines (snippetAt snippets i))) i <
      texts.count (strippedLines (snippetAt snippets i)) := by
  simp [exactVotes]

theorem head_strippedLines (t : Text) : (strippedLines t).head? = some (headLine t) := by
  unfold strippedLines headLine
  cases h : splitOn 10 t with
  | nil => exact absurd h (splitOn_ne_nil 10 t)
  | cons line lines => rfl

def headBlocks (texts : List (List Text)) (head : Text) : ℕ := (texts.map List.head?).count (some head)

/-- What `_assign_blocks` holds before the vote `i` looks for its exact text. -/
structure ExactBlocks (texts : List (List Text)) (snippets : List Text) (i : ℕ) (assigned : List (ℕ × ℕ)) : Prop where
  votes : assigned.map Prod.snd = (List.range i).filter (· ∈ exactVotes texts snippets)
  blocks : (assigned.map Prod.fst).Nodup
  same : ∀ x ∈ assigned, blockAt texts x.1 = strippedLines (snippetAt snippets x.2)
  free : ∀ lines, (freeBlocks id texts assigned lines).card = texts.count lines - rank (votesBy strippedLines snippets lines) i
  heads : ∀ head, (freeBlocks List.head? texts assigned (some head)).card +
    rank (withHead snippets (exactVotes texts snippets) head) i = headBlocks texts head

theorem exactBlocks_start (texts : List (List Text)) (snippets : List Text) : ExactBlocks texts snippets 0 [] where
  votes := rfl
  blocks := nodup_nil
  same x hx := absurd hx not_mem_nil
  free lines := by rw [card_freeBlocks_start]; simp [rank]
  heads head := by rw [card_freeBlocks_start]; simp [rank, headBlocks]

theorem mem_votesBy_lines (hi : i < snippets.length) {lines : List Text} :
    i ∈ votesBy strippedLines snippets lines ↔ strippedLines snippets[i] = lines := by
  rw [mem_votesBy, snippetAt_eq snippets hi]
  exact ⟨fun h => h.2, fun h => ⟨hi, h⟩⟩

theorem mem_withHead_at {votes : Finset ℕ} (hi : i < snippets.length) {head : Text} :
    i ∈ withHead snippets votes head ↔ i ∈ votes ∧ headLine snippets[i] = head := by
  rw [mem_withHead, snippetAt_eq snippets hi]

theorem ExactBlocks.exact_iff (hi : i < snippets.length) (h : ExactBlocks texts snippets i assigned) :
    i ∈ exactVotes texts snippets ↔ 0 < (freeBlocks id texts assigned (strippedLines snippets[i])).card := by
  rw [mem_exactVotes, snippetAt_eq snippets hi, h.free]
  omega

theorem ExactBlocks.taken (hi : i < snippets.length) (h : ExactBlocks texts snippets i assigned)
    (hk : k ∈ freeBlocks id texts assigned (strippedLines snippets[i])) :
    ExactBlocks texts snippets (i + 1) (assigned ++ [(k, i)]) := by
  obtain ⟨hlt, hfree, htext⟩ := mem_freeBlocks.mp hk
  rw [id_eq] at htext
  have hin : i ∈ exactVotes texts snippets := (h.exact_iff hi).mpr (Finset.card_pos.mpr ⟨k, hk⟩)
  refine ⟨?_, nodup_claim h.blocks hfree i, fun x hx => ?_, fun lines => ?_, fun head => ?_⟩
  · rw [range_succ, filter_append, map_append, h.votes]
    simp [hin]
  · rcases mem_append.mp hx with hx | hx
    · exact h.same x hx
    · rw [mem_singleton.mp hx, htext, snippetAt_eq snippets hi]
  · have hcard := card_freeBlocks_append id hlt hfree i lines
    have hold := h.free lines
    rw [rank_succ]
    by_cases hlines : strippedLines snippets[i] = lines
    · rw [id_eq, if_pos (htext.trans hlines)] at hcard
      rw [if_pos ((mem_votesBy_lines hi).mpr hlines)]
      omega
    · rw [id_eq, if_neg (hlines <| htext.symm.trans ·)] at hcard
      rw [if_neg (mt (mem_votesBy_lines hi).mp hlines)]
      omega
  · have hcard := card_freeBlocks_append List.head? hlt hfree i (some head)
    have hold := h.heads head
    rw [htext, head_strippedLines] at hcard
    rw [rank_succ]
    by_cases hsome : headLine snippets[i] = head
    · rw [if_pos (congrArg some hsome)] at hcard
      rw [if_pos ((mem_withHead_at hi).mpr ⟨hin, hsome⟩)]
      omega
    · rw [if_neg (hsome <| Option.some.inj ·)] at hcard
      rw [if_neg fun hmem => hsome ((mem_withHead_at hi).mp hmem).2]
      omega

theorem ExactBlocks.passed (hi : i < snippets.length) (h : ExactBlocks texts snippets i assigned)
    (hnone : freeBlocks id texts assigned (strippedLines snippets[i]) = ∅) : ExactBlocks texts snippets (i + 1) assigned := by
  have hout : i ∉ exactVotes texts snippets := by
    rw [h.exact_iff hi, hnone]
    simp
  refine ⟨?_, h.blocks, h.same, fun lines => ?_, fun head => ?_⟩
  · rw [range_succ, filter_append, h.votes]
    simp [hout]
  · rw [rank_succ, h.free]
    split
    · rename_i hmem
      have hcard := h.free lines
      rw [← (mem_votesBy_lines hi).mp hmem, hnone, Finset.card_empty] at hcard
      rw [← (mem_votesBy_lines hi).mp hmem]
      omega
    · rfl
  · rw [rank_succ, if_neg fun hmem => hout ((mem_withHead_at hi).mp hmem).1, ← h.heads]
    rfl

theorem exactBlocks_step (hi : i < snippets.length) (h : ExactBlocks texts snippets i assigned) :
    ExactBlocks texts snippets (i + 1) (claim id texts assigned (snippets[i], i)) := by
  rcases claim_spec id texts assigned snippets[i] i with ⟨hnone, heq⟩ | ⟨k, hk, heq⟩
  · rw [heq]
    exact h.passed hi hnone
  · rw [heq]
    exact h.taken hi hk

theorem exactBlocks_all (texts : List (List Text)) (snippets : List Text) :
    ExactBlocks texts snippets snippets.length (assignExact texts snippets) := by
  have hpass := foldl_places (claim id texts) snippets.zipIdx (ExactBlocks texts snippets) (exactBlocks_start texts snippets)
    fun i hi t ht => by
      have hvote : i < snippets.length := by simpa using hi
      rw [getElem_zipIdx, Nat.zero_add]
      exact exactBlocks_step hvote ht
  rwa [length_zipIdx] at hpass

theorem exactVotes_lt (hi : i ∈ exactVotes texts snippets) : i < snippets.length := (mem_exactVotes.mp hi).1

def given (texts : List (List Text)) (snippets : List Text) (head : Text) : Finset ℕ :=
  served (votesOf snippets head) (withHead snippets (exactVotes texts snippets) head) (headBlocks texts head)

def lateVotes (texts : List (List Text)) (snippets : List Text) : Finset ℕ :=
  (Finset.range snippets.length).filter fun i =>
    i ∉ exactVotes texts snippets ∧ i ∈ given texts snippets (headLine (snippetAt snippets i))

/-- What `_assign_blocks` holds before the vote `i` looks for its head line. -/
structure HeadBlocks (texts : List (List Text)) (snippets : List Text) (i : ℕ) (assigned : List (ℕ × ℕ)) : Prop where
  votes : assigned.map Prod.snd =
    (assignExact texts snippets).map Prod.snd ++ (List.range i).filter (· ∈ lateVotes texts snippets)
  blocks : (assigned.map Prod.fst).Nodup
  old : ∀ x ∈ assignExact texts snippets, x ∈ assigned
  other : ∀ x ∈ assigned, x ∈ assignExact texts snippets ∨ blockAt texts x.1 ≠ strippedLines (snippetAt snippets x.2)
  free : ∀ head, (freeBlocks List.head? texts assigned (some head)).card =
    headBlocks texts head - (withHead snippets (exactVotes texts snippets) head).card -
      rank (leftOf (exactVotes texts snippets) snippets head) i

theorem card_exactVotes_le (texts : List (List Text)) (snippets : List Text) (head : Text) :
    (withHead snippets (exactVotes texts snippets) head).card ≤ headBlocks texts head := by
  have hheads := (exactBlocks_all texts snippets).heads head
  rw [rank_length fun i hi => exactVotes_lt ((mem_withHead snippets).mp hi).1] at hheads
  omega

theorem headBlocks_start (texts : List (List Text)) (snippets : List Text) :
    HeadBlocks texts snippets 0 (assignExact texts snippets) where
  votes := (append_nil _).symm
  blocks := (exactBlocks_all texts snippets).blocks
  old _ hx := hx
  other _ hx := .inl hx
  free head := by
    have hheads := (exactBlocks_all texts snippets).heads head
    rw [rank_length fun i hi => exactVotes_lt ((mem_withHead snippets).mp hi).1] at hheads
    simp only [rank, Nat.not_lt_zero, Finset.filter_false, Finset.card_empty]
    omega

theorem exact_taken (hi : i < snippets.length) (hout : i ∉ exactVotes texts snippets) (hk : k < texts.length)
    (hfree : k ∉ (assignExact texts snippets).map Prod.fst) : blockAt texts k ≠ strippedLines (snippetAt snippets i) := by
  intro heq
  have hmem : k ∈ freeBlocks id texts (assignExact texts snippets) (strippedLines (snippetAt snippets i)) :=
    mem_freeBlocks.mpr ⟨hk, hfree, heq⟩
  have hcard := Finset.card_pos.mpr ⟨k, hmem⟩
  rw [(exactBlocks_all texts snippets).free] at hcard
  have hrank := rank_mono (votesBy strippedLines snippets (strippedLines (snippetAt snippets i))) hi.le
  rw [mem_exactVotes] at hout
  exact hout ⟨hi, by omega⟩

theorem HeadBlocks.late_iff (hi : i < snippets.length) (h : HeadBlocks texts snippets i assigned) :
    i ∈ lateVotes texts snippets ↔ i ∉ exactVotes texts snippets ∧
      0 < (freeBlocks List.head? texts assigned (some (headLine snippets[i]))).card := by
  rw [lateVotes, Finset.mem_filter, Finset.mem_range, given, mem_served, mem_withHead_at hi, h.free, votesOf, mem_votesBy,
    snippetAt_eq snippets hi, Nat.sub_pos_iff_lt]
  simp only [hi, and_true, true_and]
  constructor
  · rintro ⟨hout, hcase⟩
    exact ⟨hout, (hcase.resolve_left hout).2⟩
  · rintro ⟨hout, hlt⟩
    exact ⟨hout, .inr ⟨hout, hlt⟩⟩

theorem HeadBlocks.votes_succ (h : HeadBlocks texts snippets i assigned) :
    assigned.map Prod.snd ++ (if i ∈ lateVotes texts snippets then [i] else []) =
      (assignExact texts snippets).map Prod.snd ++ (List.range (i + 1)).filter (· ∈ lateVotes texts snippets) := by
  rw [range_succ, filter_append, ← append_assoc, ← h.votes]
  split
  · rename_i hmem
    simp [hmem]
  · rename_i hmem
    simp [hmem]

theorem HeadBlocks.passed (hi : i < snippets.length) (h : HeadBlocks texts snippets i assigned)
    (hout : i ∉ lateVotes texts snippets) : HeadBlocks texts snippets (i + 1) assigned := by
  have hvotes := h.votes_succ
  rw [if_neg hout, append_nil] at hvotes
  refine ⟨hvotes, h.blocks, h.old, h.other, fun head => ?_⟩
  rw [rank_succ, h.free]
  split
  · rename_i hmem
    obtain ⟨heq, hno⟩ := (mem_leftOf hi).mp hmem
    have hnone : ¬ 0 < (freeBlocks List.head? texts assigned (some (headLine snippets[i]))).card :=
      fun hpos => hout ((h.late_iff hi).mpr ⟨hno, hpos⟩)
    rw [h.free, heq] at hnone
    omega
  · rfl

theorem HeadBlocks.taken (hi : i < snippets.length) (h : HeadBlocks texts snippets i assigned)
    (hout : i ∉ exactVotes texts snippets) (hk : k ∈ freeBlocks List.head? texts assigned (some (headLine snippets[i]))) :
    HeadBlocks texts snippets (i + 1) (assigned ++ [(k, i)]) := by
  obtain ⟨hlt, hfree, hsome⟩ := mem_freeBlocks.mp hk
  have hvotes := h.votes_succ
  rw [if_pos ((h.late_iff hi).mpr ⟨hout, Finset.card_pos.mpr ⟨k, hk⟩⟩)] at hvotes
  refine ⟨?_, nodup_claim h.blocks hfree i, fun x hx => mem_append_left _ (h.old x hx), fun x hx => ?_, fun head => ?_⟩
  · rw [map_append]
    exact hvotes
  · rcases mem_append.mp hx with hx | hx
    · exact h.other x hx
    · rw [mem_singleton.mp hx]
      refine .inr (exact_taken hi hout hlt fun hmem => hfree ?_)
      obtain ⟨y, hy, rfl⟩ := mem_map.mp hmem
      exact mem_map_of_mem (h.old y hy)
  · have hcard := card_freeBlocks_append List.head? hlt hfree i (some head)
    have hold := h.free head
    rw [hsome] at hcard
    rw [rank_succ]
    by_cases hthis : headLine snippets[i] = head
    · rw [if_pos (congrArg some hthis)] at hcard
      rw [if_pos ((mem_leftOf hi).mpr ⟨hthis, hout⟩)]
      omega
    · rw [if_neg (hthis <| Option.some.inj ·)] at hcard
      rw [if_neg fun hmem => hthis ((mem_leftOf hi).mp hmem).1]
      omega

theorem headBlocks_step (hi : i < snippets.length) (h : HeadBlocks texts snippets i assigned) : HeadBlocks texts snippets (i + 1)
      (if i ∉ exactVotes texts snippets then claim List.head? texts assigned (snippets[i], i) else assigned) := by
  by_cases hdone : i ∈ exactVotes texts snippets
  · rw [if_neg (not_not.mpr hdone)]
    exact h.passed hi fun hlate => ((h.late_iff hi).mp hlate).1 hdone
  · rw [if_pos hdone]
    have hspec := claim_spec List.head? texts assigned snippets[i] i
    rw [head_strippedLines] at hspec
    rcases hspec with ⟨hnone, heq⟩ | ⟨k, hk, heq⟩
    · rw [heq]
      apply h.passed hi
      rw [h.late_iff hi, hnone]
      simp
    · rw [heq]
      exact h.taken hi hdone hk

theorem headBlocks_all (texts : List (List Text)) (snippets : List Text) :
    HeadBlocks texts snippets snippets.length (assignBlocks texts snippets) := by
  have hdone : ∀ i < snippets.length, (i ∉ (assignExact texts snippets).map Prod.snd ↔ i ∉ exactVotes texts snippets) := by
    intro i hi
    rw [(exactBlocks_all texts snippets).votes, mem_filter, mem_range]
    simp [hi]
  have hpass := foldl_places (fun assigned item =>
      if decide (item.2 ∉ (assignExact texts snippets).map Prod.snd) then claim List.head? texts assigned item else assigned)
    snippets.zipIdx (HeadBlocks texts snippets) (headBlocks_start texts snippets) fun i hi t ht => by
      have hvote : i < snippets.length := by simpa using hi
      rw [getElem_zipIdx, Nat.zero_add]
      simp only [hdone i hvote, decide_eq_true_eq]
      exact headBlocks_step hvote ht
  rw [length_zipIdx, ← foldl_filter] at hpass
  exact hpass

end Claims

end PublicMinutes
