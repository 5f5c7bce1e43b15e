import StupaWorkflow.CalloutElections
import StupaWorkflow.CandidateErasure
import StupaWorkflow.HeadingFences

/-!
The erasure of a candidate name from the copies of the callout in the minutes. The callout is built
anew, without the number of a repeat, and replaces the blocks that are the old one line by line.
-/
namespace NameErasure
open Py Callout PublicMinutes
open List hiding splitOn

section Model

/-- A closed election with its stored result. -/
structure StoredElection where
  config : ElectionConfig
  result : ElectionResult
  question : Option Text
  round : ℕ
  attempt : ℕ

def eraseNames (mine : ElectionCandidate → Bool) (config : ElectionConfig) : ElectionConfig :=
  { config with candidates := config.candidates.map fun c => if mine c then { c with name := CandidateErasure.erasedCandidateName } else c }

/-- The lines of the callout that the embedding writes. -/
def StoredElection.embedded (v : StoredElection) (config : ElectionConfig) : List Text :=
  strippedLines (buildElectionSnippet
    (electionSnippetOf config (some v.result) v.question (numberOr v.round 1) (numberOr v.attempt 1)) false)

/-- `_callout`. -/
def StoredElection.callout (v : StoredElection) (config : ElectionConfig) : List Text :=
  strippedLines (buildElectionSnippet (electionSnippetOf config (some v.result) v.question (numberOr v.round 1) 1) false)

/-- `_OPENER` on a stripped line. -/
def isOpener : Text → Bool
  | 62 :: line => (text "[!").isPrefixOf (line.dropWhile isSpace)
  | _ => false

def runsOn (line : Text) : Bool := (text ">").isPrefixOf (strip line) && !isOpener (strip line)

def blockEnd (lines : List Text) (start : ℕ) : ℕ := start + 1 + ((lines.drop (start + 1)).takeWhile runsOn).length

def indented (current line : Text) : Text := current.takeWhile isSpace ++ line

abbrev Change := List Text × List Text

def rewriteOne (changes : List Change) (lines : List Text) (start : ℕ) : List Text :=
  let block := ((lines.take (blockEnd lines start)).drop start).map strip
  match changes.find? fun change => block = change.1 with
  | none => lines
  | some change => lines.take start ++ List.zipWith indented (lines.drop start) change.2 ++ lines.drop (start + change.2.length)

/-- The numbers of the opener lines, the first line with the number `n`. -/
def openers (n : ℕ) (lines : List Text) : List ℕ := ((lines.zipIdx n).filter fun x => isOpener (strip x.1)).map Prod.snd

def rewriteCallouts (body : Text) (changes : List Change) : Text :=
  joinLines ((openers 0 (splitOn 10 body)).foldl (rewriteOne changes) (splitOn 10 body))

def changeOf (erased : StoredElection × ElectionConfig) : Change := (erased.1.callout erased.1.config, erased.1.callout erased.2)

/-- `erase_candidate_names` on one text of the meeting of the elections, each with its new configuration. -/
def eraseCandidateNames (erased : List (StoredElection × ElectionConfig)) (body : Text) : Text :=
  let changed := (erased.map changeOf).filter fun change => change.1 ≠ change.2
  if changed = [] then body else rewriteCallouts body changed

end Model

section Purpose

/-- The text goes on with the callout. -/
def Occurs (callout lines : List Text) : Prop :=
  (lines.take callout.length).map strip = callout ∧ ∀ line ∈ lines[callout.length]?, runsOn line = false

instance (callout lines : List Text) : Decidable (Occurs callout lines) := inferInstanceAs (Decidable (_ ∧ ∀ line ∈ lines[_]?, _))

/-- The `n` lines at each place that `here` names read `new`, and each other line is as it was. -/
structure Replaced (here : List Text → Prop) (n : ℕ) (new lines out : List Text) : Prop where
  length : out.length = lines.length
  callouts : ∀ k, here (lines.drop k) → ((out.drop k).take n).map strip = new
  others : ∀ i line, lines[i]? = some line → (∀ k, here (lines.drop k) → k ≤ i → k + n ≤ i) → out[i]? = some line

def NamesLeave (v : StoredElection) (config : ElectionConfig) (body : Text) : Prop :=
  let out := eraseCandidateNames [(v, config)] body
  Replaced (Occurs (v.embedded v.config)) (v.embedded v.config).length (v.embedded config) (splitOn 10 body) (splitOn 10 out) ∧
    eraseCandidateNames [(v, config)] out = out

end Purpose

section Lines

variable {changes : List Change} {old new lines ls : List Text} {l line : Text}

def rewriteBlock (changes : List Change) (block : List Text) : List Text :=
  match changes.find? fun change => block.map strip = change.1 with
  | none => block
  | some change => List.zipWith indented block change.2

/-- The rewriting, block by block. -/
def rewriteLines (changes : List Change) : List Text → List Text
  | [] => []
  | l :: ls =>
    if isOpener (strip l) then rewriteBlock changes (l :: ls.takeWhile runsOn) ++ rewriteLines changes (ls.dropWhile runsOn)
    else l :: rewriteLines changes ls
termination_by ls => ls.length
decreasing_by
  · exact Nat.lt_succ_of_le (dropWhile_sublist _).length_le
  · exact Nat.lt_succ_self _

theorem rewriteBlock_length (hlen : ∀ change ∈ changes, change.1.length = change.2.length) (block : List Text) :
    (rewriteBlock changes block).length = block.length := by
  unfold rewriteBlock
  split
  · rfl
  · next change hfind =>
    have hsame : block.map strip = change.1 := by simpa using find?_some hfind
    have hblock := congrArg List.length hsame
    rw [length_map] at hblock
    rw [length_zipWith, hblock, hlen change (mem_of_find?_eq_some hfind), Nat.min_self]

theorem runsOn_opener (h : l ∈ ls.takeWhile runsOn) : isOpener (strip l) = false := by
  have hruns : runsOn l = true := mem_takeWhile_imp h
  simpa using (Bool.and_eq_true_iff.mp hruns).2

theorem block_append_rest (l : Text) (ls : List Text) : l :: ls.takeWhile runsOn ++ ls.dropWhile runsOn = l :: ls := by
  rw [cons_append, takeWhile_append_dropWhile]

theorem mem_of_drop_succ {k : ℕ} {y : Text} {ys : List Text} (h : (l :: ls).drop (k + 1) = y :: ys) : y ∈ ls :=
  mem_of_mem_drop (i := k) (h ▸ mem_cons_self)

theorem openers_runsOn (n : ℕ) (ls : List Text) : openers n ls = openers (n + (ls.takeWhile runsOn).length) (ls.dropWhile runsOn) := by
  have hnone : openers n (ls.takeWhile runsOn) = [] := by
    rw [openers, map_eq_nil_iff, filter_eq_nil_iff]
    intro x hx
    rw [runsOn_opener (fst_mem_of_mem_zipIdx hx)]
    exact Bool.false_ne_true
  conv_lhs => rw [← takeWhile_append_dropWhile (p := runsOn) (l := ls)]
  rw [openers, zipIdx_append, filter_append, map_append]
  exact congrArg (· ++ _) hnone

/-- One step of the source rewrites the block at the end of what is done. -/
theorem rewriteOne_block (hlen : ∀ change ∈ changes, change.1.length = change.2.length) (done ls : List Text) (l : Text) :
    rewriteOne changes (done ++ l :: ls) done.length =
      done ++ rewriteBlock changes (l :: ls.takeWhile runsOn) ++ ls.dropWhile runsOn := by
  have hsplit : done ++ l :: ls = done ++ (l :: ls.takeWhile runsOn) ++ ls.dropWhile runsOn := by
    rw [append_assoc, block_append_rest]
  have hend : blockEnd (done ++ l :: ls) done.length = (done ++ (l :: ls.takeWhile runsOn)).length := by
    rw [blockEnd, append_cons, drop_left' (by simp), length_append, length_cons]
    omega
  have hblock : ((done ++ l :: ls).take (blockEnd (done ++ l :: ls) done.length)).drop done.length = l :: ls.takeWhile runsOn := by
    rw [hend, hsplit, take_left, drop_left]
  rw [rewriteOne, hblock, rewriteBlock]
  split
  · exact hsplit
  · next change hfind =>
    have hsame : (l :: ls.takeWhile runsOn).map strip = change.1 := by simpa using find?_some hfind
    have hlength : (l :: ls.takeWhile runsOn).length = change.2.length := by
      rw [← hlen change (mem_of_find?_eq_some hfind), ← hsame, length_map]
    have hzip : List.zipWith indented (l :: ls.takeWhile runsOn ++ ls.dropWhile runsOn) (change.2 ++ []) = _ :=
      zipWith_append hlength
    rw [append_nil, zipWith_nil_right, append_nil] at hzip
    rw [hsplit, ← hlength, ← length_append, drop_left]
    simp only [append_assoc, take_left, drop_left, hzip]

theorem foldl_rewriteOne (hlen : ∀ change ∈ changes, change.1.length = change.2.length) (done ls : List Text) :
    (openers done.length ls).foldl (rewriteOne changes) (done ++ ls) = done ++ rewriteLines changes ls := by
  fun_induction rewriteLines changes ls generalizing done with
  | case1 => rfl
  | case2 l ls hopener ih =>
    have hcons : openers done.length (l :: ls) = done.length :: openers (done.length + 1) ls := by
      simp [openers, zipIdx_cons, hopener]
    rw [hcons, foldl_cons, rewriteOne_block hlen, openers_runsOn]
    have hnext := ih (done ++ rewriteBlock changes (l :: ls.takeWhile runsOn))
    rw [length_append, rewriteBlock_length hlen, length_cons] at hnext
    rw [← append_assoc, ← hnext]
    congr 2
    omega
  | case3 l ls hopener ih =>
    have hcons : openers done.length (l :: ls) = openers (done.length + 1) ls := by
      simp [openers, zipIdx_cons, hopener]
    have hnext := ih (done ++ [l])
    rw [length_append, length_singleton] at hnext
    rw [hcons, append_cons, hnext, append_assoc, singleton_append]

/-- The block that the source compares begins the lines and is `old`. -/
def BlockAt (old lines : List Text) : Prop :=
  ∃ l ls, lines = l :: ls ∧ isOpener (strip l) ∧ (l :: ls.takeWhile runsOn).map strip = old

theorem blockAt_cons : BlockAt old (l :: ls) ↔ isOpener (strip l) ∧ (l :: ls.takeWhile runsOn).map strip = old :=
  ⟨fun ⟨_, _, heq, h⟩ => by obtain ⟨rfl, rfl⟩ := List.cons.inj heq; exact h, fun h => ⟨l, ls, rfl, h⟩⟩

theorem not_blockAt_nil (k : ℕ) : ¬ BlockAt old (([] : List Text).drop k) := fun ⟨_, _, h, _⟩ => by simp at h

variable {here : List Text → Prop} {n : ℕ} {block block' rest out : List Text}

theorem Replaced.append (h : Replaced here n new rest out) (hlength : block'.length = block.length)
    (hfirst : here (block ++ rest) → block.length = n ∧ block'.map strip = new)
    (hother : ¬ here (block ++ rest) → block' = block)
    (hinner : ∀ k, 0 < k → k < block.length → ¬ here ((block ++ rest).drop k)) :
    Replaced here n new (block ++ rest) (block' ++ out) where
  length := by rw [length_append, length_append, hlength, h.length]
  callouts k hk := by
    rcases Nat.lt_or_ge k block.length with hlt | hge
    · rcases Nat.eq_zero_or_pos k with rfl | hpos
      · obtain ⟨hn, hnew⟩ := hfirst hk
        rw [drop_zero, take_left' (hlength.trans hn), hnew]
      · exact absurd hk (hinner k hpos hlt)
    · obtain ⟨j, rfl⟩ := Nat.exists_eq_add_of_le hge
      rw [← drop_drop, drop_left] at hk
      rw [← drop_drop, drop_left' hlength]
      exact h.callouts j hk
  others i line hline hout := by
    rcases Nat.lt_or_ge i block.length with hlt | hge
    · have hnot : ¬ here (block ++ rest) := fun hhere => by
        have hn := (hfirst hhere).1
        have := hout 0 hhere (Nat.zero_le i)
        omega
      rw [getElem?_append_left hlt] at hline
      rw [hother hnot, getElem?_append_left hlt, hline]
    · rw [getElem?_append_right hge] at hline
      rw [getElem?_append_right (hlength ▸ hge), hlength]
      refine h.others _ line hline fun k hk hle => ?_
      have := hout (block.length + k) (by rwa [← drop_drop, drop_left]) (by omega)
      omega

theorem strip_indented (h : strip line = line) (current : Text) : strip (indented current line) = line := by
  have hspaces : ∀ c ∈ current.takeWhile isSpace, isSpace c = true := fun c hc => mem_takeWhile_imp hc
  rw [indented, strip, stripWith, dropWhile_append_of_pos hspaces]
  exact h

theorem map_strip_indented (hnew : ∀ line ∈ new, strip line = line) (hlen : block.length = new.length) :
    (List.zipWith indented block new).map strip = new := by
  induction new generalizing block with
  | nil => rw [zipWith_nil_right, map_nil]
  | cons line new ih =>
    obtain ⟨l, block, rfl⟩ := exists_cons_of_length_eq_add_one hlen
    obtain ⟨hline, hnew⟩ := forall_mem_cons.mp hnew
    rw [zipWith_cons_cons, map_cons, strip_indented hline, ih hnew (Nat.succ.inj hlen)]

theorem rewriteBlock_single (block : List Text) :
    rewriteBlock [(old, new)] block = if block.map strip = old then List.zipWith indented block new else block := by
  unfold rewriteBlock
  by_cases h : block.map strip = old <;> simp [h]

/-- The new callout stands line for line in the place of the old one. -/
structure Fits (old new : List Text) : Prop where
  length : old.length = new.length
  ne : old ≠ new
  lines : ∀ line ∈ new, strip line = line ∧ 10 ∉ line
  opens : ∀ line ∈ new.head?, isOpener line = true
  apart : ∀ line ∈ old.head?, line ∉ new.tail

theorem rewriteLines_replaced (hfits : Fits old new) (lines : List Text) :
    Replaced (BlockAt old) old.length new lines (rewriteLines [(old, new)] lines) := by
  fun_induction rewriteLines [(old, new)] lines with
  | case1 => exact ⟨rfl, fun k h => absurd h (not_blockAt_nil k), fun i line h => by simp at h⟩
  | case2 l ls hopener ih =>
    have hhere : BlockAt old (l :: ls.takeWhile runsOn ++ ls.dropWhile runsOn) ↔ (l :: ls.takeWhile runsOn).map strip = old := by
      rw [block_append_rest, blockAt_cons, and_iff_right hopener]
    rw [← block_append_rest l ls]
    refine ih.append (rewriteBlock_length (by simpa using hfits.length) _) (fun h => ?_) (fun h => ?_) fun k hpos hk => ?_
    · have hold := hhere.mp h
      have hlength : (l :: ls.takeWhile runsOn).length = old.length := by rw [← hold, length_map]
      rw [rewriteBlock_single, if_pos hold]
      exact ⟨hlength, map_strip_indented (fun line hline => (hfits.lines line hline).1) (hlength.trans hfits.length)⟩
    · rw [rewriteBlock_single, if_neg fun hold => h (hhere.mpr hold)]
    -- a line inside of the block runs on, so it opens none
    · rintro ⟨l', ls', hdrop, hopens, -⟩
      obtain ⟨j, rfl⟩ := Nat.exists_eq_succ_of_ne_zero hpos.ne'
      rw [drop_append_of_le_length hk.le] at hdrop
      obtain ⟨x, xs, hx⟩ := exists_cons_of_length_pos (l := (l :: ls.takeWhile runsOn).drop (j + 1)) (by simpa using hk)
      rw [hx, cons_append] at hdrop
      rw [← (List.cons.inj hdrop).1, runsOn_opener (mem_of_drop_succ hx)] at hopens
      cases hopens
  | case3 l ls hopener ih =>
    have hnone : ¬ BlockAt old ([l] ++ ls) := fun h => hopener (blockAt_cons.mp h).1
    change Replaced (BlockAt old) old.length new ([l] ++ ls) ([l] ++ rewriteLines [(old, new)] ls)
    refine ih.append rfl (fun h => absurd h hnone) (fun _ => rfl) fun k hpos hk => ?_
    rw [length_singleton] at hk
    omega

theorem rewriteLines_none (hfits : Fits old new) (h : ∀ k, ¬ BlockAt old (lines.drop k)) : rewriteLines [(old, new)] lines = lines := by
  have hreplaced := rewriteLines_replaced hfits lines
  refine ext_getElem? fun i => ?_
  cases hline : lines[i]? with
  | some line => exact hreplaced.others i line hline fun k hk => absurd hk (h k)
  | none =>
    rw [getElem?_eq_none_iff] at hline ⊢
    rwa [hreplaced.length]

theorem takeWhile_append_stop {ys zs : List Text} (h : ∀ z ∈ zs.head?, runsOn z = false) :
    (ys ++ zs).takeWhile runsOn = ys.takeWhile runsOn := by
  induction ys with
  | nil =>
    cases zs with
    | nil => rfl
    | cons z zs => exact takeWhile_cons_of_neg (by simpa using h z rfl)
  | cons y ys ih => rw [cons_append, takeWhile_cons, takeWhile_cons, ih]

theorem not_blockAt_append (hout : ∀ k, ¬ BlockAt old (out.drop k))
    (hblock : ∀ k y ys, block.drop k = y :: ys → ¬ BlockAt old (y :: (ys ++ out))) (k : ℕ) : ¬ BlockAt old ((block ++ out).drop k) := by
  rw [drop_append]
  cases hdrop : block.drop k with
  | nil => exact hout _
  | cons y ys =>
    have hlt : k < block.length := length_lt_of_drop_ne_nil (by rw [hdrop]; exact cons_ne_nil y ys)
    rw [Nat.sub_eq_zero_of_le hlt.le, drop_zero]
    exact hblock k y ys hdrop

theorem rewriteLines_head (hfits : Fits old new) (h : ∀ l ∈ lines.head?, runsOn l = false) :
    ∀ l ∈ (rewriteLines [(old, new)] lines).head?, runsOn l = false := by
  cases lines with
  | nil => simp [rewriteLines]
  | cons l ls =>
    rw [rewriteLines]
    split
    · rw [rewriteBlock_single]
      split
      · next hblock =>
        obtain ⟨line, rest, rfl⟩ := exists_cons_of_length_pos (l := new) (by rw [← hfits.length, ← hblock]; simp)
        intro x hx
        cases hx
        rw [runsOn, strip_indented (hfits.lines line mem_cons_self).1, hfits.opens line rfl, Bool.not_true, Bool.and_false]
      · exact h
    · exact h

/-- After the rewriting no block is the old one: a replaced block is the new one or shorter. -/
theorem rewriteLines_clean (hfits : Fits old new) (lines : List Text) : ∀ k, ¬ BlockAt old ((rewriteLines [(old, new)] lines).drop k) := by
  fun_induction rewriteLines [(old, new)] lines with
  | case1 => exact not_blockAt_nil
  | case2 l ls hopener ih =>
    have hstop : ∀ x ∈ (rewriteLines [(old, new)] (ls.dropWhile runsOn)).head?, runsOn x = false := by
      refine rewriteLines_head hfits fun x hx => ?_
      simpa [Option.mem_def.mp hx] using head?_dropWhile_not runsOn ls
    refine not_blockAt_append ih fun k y ys hdrop hblock => ?_
    obtain ⟨hopens', hold⟩ := blockAt_cons.mp hblock
    rw [takeWhile_append_stop hstop] at hold
    rw [rewriteBlock_single] at hdrop
    split at hdrop
    · next hblock =>
      have hlength : (l :: ls.takeWhile runsOn).length = new.length := by rw [← hfits.length, ← hblock, length_map]
      have hdropped : new.drop k = strip y :: ys.map strip := by
        rw [← map_strip_indented (fun line hline => (hfits.lines line hline).1) hlength, ← map_drop, hdrop, map_cons]
      cases k with
      | zero =>
        have hshort : (ys.takeWhile runsOn).length = ys.length := by
          have := congrArg List.length hold
          rw [hfits.length, ← drop_zero (l := new), hdropped] at this
          simpa using this
        rw [(List.takeWhile_prefix runsOn).eq_of_length hshort] at hold
        exact hfits.ne (hold.symm.trans hdropped.symm)
      | succ k =>
        refine hfits.apart (strip y) (hold ▸ rfl) ?_
        rw [← drop_one]
        exact mem_of_mem_drop (i := k) (by rw [drop_drop, Nat.add_comm, hdropped]; exact mem_cons_self)
    · next hkept =>
      cases k with
      | zero =>
        cases hdrop
        rw [takeWhile_takeWhile] at hold
        exact hkept (by simpa using hold)
      | succ k =>
        rw [runsOn_opener (mem_of_drop_succ hdrop)] at hopens'
        cases hopens'
  | case3 l ls hopener ih =>
    change ∀ k, ¬ BlockAt old (([l] ++ rewriteLines [(old, new)] ls).drop k)
    refine not_blockAt_append ih fun k y ys hdrop hblock => ?_
    cases k with
    | zero =>
      cases hdrop
      exact hopener (blockAt_cons.mp hblock).1
    | succ k => simp at hdrop

end Lines

section Callouts

variable {v : StoredElection} {config : ElectionConfig} {mine : ElectionCandidate → Bool} {view view' : ElectionSnippet}

def headOf (view : ElectionSnippet) : Text := text "> [!abstimmung] **" ++ electionHead view ++ text "**"

def quoted (line : Text) : Text := strip (text "> " ++ line)

theorem snippet_lines (view : ElectionSnippet) :
    strippedLines (buildElectionSnippet view false) = headOf view :: (electionBody view false).map quoted := by
  have hlines : ∀ s ∈ headOf view :: (electionBody view false).map (text "> " ++ ·), 10 ∉ s := by
    refine forall_mem_cons.mpr ⟨?_, fun s hs => ?_⟩
    · exact ((OneLine.append (by decide) (oneLine_electionHead view)).append (by decide)).1
    · obtain ⟨line, hline, rfl⟩ := mem_map.mp hs
      exact (OneLine.append (by decide) (oneLine_electionBody view line hline)).1
  have htrimmed : Trimmed (headOf view) := by
    refine trimmed_of (c := 62) (d := 42) rfl ?_ rfl rfl
    rw [headOf, getLast?_append_of_ne_nil _ (by decide)]
    rfl
  have hsplit := splitOn_joinLines (cons_ne_nil _ _) hlines
  rw [strippedLines, buildElectionSnippet, callout]
  change (splitOn 10 (joinLines (headOf view :: _))).map strip = _
  rw [hsplit, map_cons, htrimmed.strip, map_map]
  rfl

theorem quoted_head (line : Text) : (quoted line).head? = some 62 := (strip_of_head rfl rfl).1

/-- No other line of a callout begins as the head line does and ends with its mark. -/
theorem body_unmarked (view : ElectionSnippet) : ∀ s ∈ electionBody view false, s.head? ≠ some 91 ∨ ∃ c ∈ s.getLast?, isDecimal c = true := by
  have hother {c : ℕ} {rest : Text} (hc : c ≠ 91) : (c :: rest).head? ≠ some 91 := fun h => hc (Option.some.inj h)
  intro s hs
  simp only [electionBody, electionOutcome, mem_cons, mem_append] at hs
  obtain rfl | hs | hs := hs
  · exact .inl (hother (by decide))
  · split at hs
    · unfold electionBallot at hs
      split at hs
      · obtain rfl | rfl := mem_pair.mp hs <;> exact .inl (hother (by decide))
      · exact .inr (mem_singleton.mp hs ▸ votesText_getLast? view)
    · cases hs
  · split at hs
    · simp only [mem_append] at hs
      obtain (((hs | hs) | hs) | hs) | hs := hs
      · exact .inl (mem_singleton.mp hs ▸ hother (by decide))
      · simp at hs
      all_goals
        split at hs
        · exact .inl (mem_singleton.mp hs ▸ hother (by decide))
        · cases hs
    · cases hs

theorem headOf_not_mem (view view' : ElectionSnippet) : headOf view ∉ (electionBody view' false).map quoted := by
  intro hmem
  obtain ⟨s, hs, heq⟩ := mem_map.mp hmem
  rcases body_unmarked view' s hs with hhead | ⟨c, hc, hdecimal⟩
  · obtain ⟨t, ht⟩ := (strip_of_head (s := text "> " ++ s) rfl rfl).2
    rw [← quoted, heq] at ht
    have hthird : (headOf view ++ t)[2]? = some 91 := rfl
    rw [ht] at hthird
    exact hhead (head?_eq_getElem? ▸ hthird)
  · have hlast : (text "> " ++ s).getLast? = some c := by
      rw [getLast?_append, Option.mem_def.mp hc]
      rfl
    rw [quoted, (trimmed_of rfl hlast rfl (not_isSpace_of_isDecimal hdecimal)).strip] at heq
    rw [heq, headOf, getLast?_append_of_ne_nil _ (by decide)] at hlast
    cases hlast
    cases hdecimal

def StoredElection.head (v : StoredElection) (attempt : ℕ) : Text :=
  headOf (electionSnippetOf v.config (some v.result) v.question (numberOr v.round 1) attempt)

def StoredElection.body (v : StoredElection) (config : ElectionConfig) : List Text :=
  (electionBody (electionSnippetOf config (some v.result) v.question (numberOr v.round 1) 1) false).map quoted

theorem embedded_eq (v : StoredElection) (config : ElectionConfig) : v.embedded config = v.head (numberOr v.attempt 1) :: v.body config :=
  snippet_lines _

theorem callout_eq (v : StoredElection) (config : ElectionConfig) : v.callout config = v.head 1 :: v.body config := snippet_lines _

theorem electionBody_length (view : ElectionSnippet) : (electionBody view false).length =
    1 + if view.closed then (if view.yes.isSome && view.no.isSome then 2 else 1) +
      (1 + view.byLot.toNat + view.lotPending.toNat + if view.runoffSeats = 0 then 0 else 1) else 0 := by
  obtain ⟨_, _, _, _, _, yes, no, byLot, lotPending, _, runoffSeats, closed, _⟩ := view
  cases closed
  · rfl
  · simp only [electionBody, electionBallot, electionOutcome]
    by_cases hseats : runoffSeats = 0 <;> cases yes <;> cases no <;> cases byLot <;> cases lotPending <;> simp [hseats]

theorem body_length : (v.body (eraseNames mine config)).length = (v.body config).length := by
  rw [StoredElection.body, StoredElection.body, length_map, length_map, electionBody_length, electionBody_length]
  rfl

theorem ballotNumber_inj {m n : ℕ} (h : ballotNumber m = ballotNumber n) : m = n := by
  have hdecimal : decimal m = decimal n := append_cancel_left (append_cancel_right h)
  rw [← decimalsValue_decimal m, hdecimal, decimalsValue_decimal]

theorem electionHead_inj (view : ElectionSnippet) {attempt : ℕ} (hround : view.round ≠ 0) (hpos : attempt ≠ 0)
    (h : electionHead { view with attempt := attempt } = electionHead { view with attempt := 1 }) : attempt = 1 := by
  change (if view.round + attempt - 1 > 1 then mdEscape view.question ++ text " " ++ ballotNumber (view.round + attempt - 1)
    else mdEscape view.question) = if view.round > 1 then mdEscape view.question ++ text " " ++ ballotNumber view.round
    else mdEscape view.question at h
  by_contra hne
  rw [if_pos (by omega)] at h
  by_cases hlate : view.round > 1
  · rw [if_pos hlate] at h
    have := ballotNumber_inj (append_cancel_left h)
    omega
  · rw [if_neg hlate] at h
    have := congrArg List.length h
    simp [ballotNumber, text] at this

theorem numberOr_pos (n : ℕ) : numberOr n 1 ≠ 0 := by
  unfold numberOr
  split <;> omega

theorem head_inj (h : v.head (numberOr v.attempt 1) = v.head 1) : numberOr v.attempt 1 = 1 :=
  electionHead_inj (electionSnippetOf v.config (some v.result) v.question (numberOr v.round 1) 1) (numberOr_pos v.round)
    (numberOr_pos v.attempt) (append_cancel_left (append_cancel_right h))

theorem mem_strippedLines {t line : Text} (h : line ∈ strippedLines t) : strip line = line ∧ 10 ∉ line := by
  obtain ⟨part, hpart, rfl⟩ := mem_map.mp h
  exact ⟨stripWith_idem isSpace part, fun hmem => mem_splitOn hpart (Filenames.mem_of_mem_stripWith hmem)⟩

/-- Where no line of the old callout but its head opens a callout, the source finds the callouts of the text. -/
theorem occurs_iff {head : Text} {body ls : List Text} (hhead : isOpener head = true) (hbody : ∀ line ∈ body, line.head? = some 62)
    (hplain : ∀ line ∈ body, isOpener line = false) : Occurs (head :: body) ls ↔ BlockAt (head :: body) ls := by
  cases ls with
  | nil => exact iff_of_false (fun h => by cases h.1) (not_blockAt_nil 0)
  | cons l ls =>
    rw [blockAt_cons]
    constructor
    · rintro ⟨hmap, hstop⟩
      rw [length_cons, take_succ_cons, map_cons, List.cons.injEq] at hmap
      obtain ⟨rfl, hmap⟩ := hmap
      have hruns : ∀ x ∈ ls.take body.length, runsOn x = true := by
        intro x hx
        have hline : strip x ∈ body := hmap ▸ mem_map_of_mem hx
        obtain ⟨rest, hrest⟩ := head?_eq_some_iff.mp (hbody _ hline)
        rw [runsOn, hplain _ hline, hrest]
        rfl
      have htake : ls.takeWhile runsOn = ls.take body.length := by
        conv_lhs => rw [← take_append_drop body.length ls]
        rw [takeWhile_append_stop (by rwa [head?_drop]), takeWhile_eq_self_iff.mpr hruns]
      exact ⟨hhead, by rw [map_cons, htake, hmap]⟩
    · rintro ⟨-, hmap⟩
      have hlength : (l :: ls.takeWhile runsOn).length = (head :: body).length := by rw [← hmap, length_map]
      rw [Occurs, ← block_append_rest l ls, take_left' hlength, getElem?_append_right hlength.le, hlength, Nat.sub_self, ← head?_eq_getElem?]
      exact ⟨hmap, fun x hx => by simpa [Option.mem_def.mp hx] using head?_dropWhile_not runsOn ls⟩

theorem erase_unchanged (h : v.body v.config = v.body config) (text : Text) : eraseCandidateNames [(v, config)] text = text := by
  have hsame : v.callout v.config = v.callout config := by rw [callout_eq, callout_eq, h]
  simp [eraseCandidateNames, changeOf, hsame]

theorem rewriteLines_newline {old new lines : List Text} (hfits : Fits old new) (h : ∀ s ∈ lines, 10 ∉ s) :
    ∀ s ∈ rewriteLines [(old, new)] lines, 10 ∉ s := by
  fun_induction rewriteLines [(old, new)] lines with
  | case1 => exact h
  | case2 l ls hopener ih =>
    rw [← block_append_rest l ls] at h
    obtain ⟨hblock, hrest⟩ := forall_mem_append.mp h
    refine forall_mem_append.mpr ⟨?_, ih hrest⟩
    rw [rewriteBlock_single]
    split
    · intro s hs hmem
      rw [← map_uncurry_zip_eq_zipWith] at hs
      obtain ⟨p, hp, rfl⟩ := mem_map.mp hs
      obtain ⟨hcurrent, hline⟩ := of_mem_zip hp
      rcases mem_append.mp hmem with hmem | hmem
      · exact hblock _ hcurrent ((takeWhile_sublist _).subset hmem)
      · exact (hfits.lines _ hline).2 hmem
    · exact hblock
  | case3 l ls hopener ih =>
    obtain ⟨hl, hls⟩ := forall_mem_cons.mp h
    exact forall_mem_cons.mpr ⟨hl, ih hls⟩

theorem fits (hne : v.body v.config ≠ v.body (eraseNames mine v.config)) :
    Fits (v.callout v.config) (v.callout (eraseNames mine v.config)) where
  length := by rw [callout_eq, callout_eq, length_cons, length_cons, body_length]
  ne h := by
    rw [callout_eq, callout_eq] at h
    exact hne (List.cons.inj h).2
  lines _ hline := mem_strippedLines hline
  opens := by
    rw [callout_eq]
    rintro _ ⟨⟩
    rfl
  apart := by
    rw [callout_eq, callout_eq]
    rintro _ ⟨⟩
    exact headOf_not_mem _ _

theorem splitOn_erase (hfits : Fits (v.callout v.config) (v.callout config)) (body : Text) :
    splitOn 10 (eraseCandidateNames [(v, config)] body) = rewriteLines [(v.callout v.config, v.callout config)] (splitOn 10 body) := by
  have hfilter : ([(v, config)].map changeOf).filter (fun change => change.1 ≠ change.2) = [(v.callout v.config, v.callout config)] := by
    simp [changeOf, hfits.ne]
  have hlengths : ∀ change ∈ [(v.callout v.config, v.callout config)], change.1.length = change.2.length := by simpa using hfits.length
  have hsome : rewriteLines [(v.callout v.config, v.callout config)] (splitOn 10 body) ≠ [] := by
    rw [← length_pos_iff, (rewriteLines_replaced hfits _).length, length_pos_iff]
    exact splitOn_ne_nil 10 body
  unfold eraseCandidateNames
  dsimp only
  rw [hfilter, if_neg (cons_ne_nil _ _), rewriteCallouts]
  exact (congrArg (fun l => splitOn 10 (joinLines l)) (foldl_rewriteOne hlengths [] (splitOn 10 body))).trans
    (splitOn_joinLines hsome (rewriteLines_newline hfits fun s hs => mem_splitOn hs))

theorem names_leave_iff (v : StoredElection) (mine : ElectionCandidate → Bool) :
    (∀ body, NamesLeave v (eraseNames mine v.config) body) ↔
      v.embedded v.config = v.embedded (eraseNames mine v.config) ∨
        (numberOr v.attempt 1 = 1 ∧ ∀ line ∈ (v.embedded v.config).tail, isOpener line = false) := by
  have hstripped : ∀ line ∈ v.embedded v.config, strip line = line ∧ 10 ∉ line := fun line => mem_strippedLines
  simp only [embedded_eq, List.cons.injEq, true_and, tail_cons] at hstripped ⊢
  constructor
  · intro h
    by_contra hnot
    obtain ⟨hne, hattempt⟩ := not_or.mp hnot
    let lines := v.head (numberOr v.attempt 1) :: v.body v.config
    have hlines : splitOn 10 (joinLines lines) = lines :=
      splitOn_joinLines (cons_ne_nil _ _) fun s hs => (hstripped s hs).2
    have hmap : lines.map strip = lines :=
      (map_congr_left fun s hs => (hstripped s hs).1).trans (map_id _)
    have hnone : ∀ k, ¬ BlockAt (v.callout v.config) (lines.drop k)
      | 0 => fun hblock => by
        obtain ⟨-, hold⟩ := blockAt_cons.mp hblock
        rw [callout_eq, map_cons, (hstripped _ mem_cons_self).1, List.cons.injEq] at hold
        obtain ⟨hhead, hbody⟩ := hold
        have hall : (v.body v.config).takeWhile runsOn = v.body v.config :=
          (List.takeWhile_prefix runsOn).eq_of_length (by rw [← length_map strip, hbody])
        refine hattempt ⟨head_inj hhead, fun line hline => ?_⟩
        rw [← (hstripped line (mem_cons_of_mem _ hline)).1]
        exact runsOn_opener (hall.symm ▸ hline)
      | k + 1 => fun ⟨l, ls, hdrop, _, hold⟩ => by
        have hmem : l ∈ v.body v.config := mem_of_drop_succ hdrop
        rw [callout_eq, map_cons, (hstripped l (mem_cons_of_mem _ hmem)).1] at hold
        exact headOf_not_mem _ _ ((List.cons.inj hold).1 ▸ hmem)
    obtain ⟨hreplaced, -⟩ := h (joinLines lines)
    rw [hlines, splitOn_erase (fits hne), hlines, rewriteLines_none (fits hne) hnone, embedded_eq, embedded_eq] at hreplaced
    have hnew := hreplaced.callouts 0 ⟨(congrArg _ (take_length)).trans hmap, fun _ h => by simp [lines] at h⟩
    rw [drop_zero, take_length, hmap] at hnew
    exact hne (List.cons.inj hnew).2
  · intro h body
    by_cases hne : v.body v.config = v.body (eraseNames mine v.config)
    · simp only [NamesLeave, erase_unchanged hne, and_true, embedded_eq, hne]
      exact ⟨rfl, fun k hk => hk.1, fun i line hline _ => hline⟩
    · obtain ⟨hattempt, hplain⟩ := h.resolve_left hne
      have hsame (config : ElectionConfig) : v.embedded config = v.callout config := by rw [embedded_eq, callout_eq, hattempt]
      have hoccurs : Occurs (v.callout v.config) = BlockAt (v.callout v.config) := by
        rw [callout_eq]
        refine funext fun ls => propext (occurs_iff rfl (fun line hline => ?_) hplain)
        obtain ⟨s, -, rfl⟩ := mem_map.mp hline
        exact quoted_head s
      refine ⟨?_, ?_⟩
      · rw [hsame, hsame, hoccurs, splitOn_erase (fits hne)]
        exact rewriteLines_replaced (fits hne) _
      · rw [← joinLines_splitOn (eraseCandidateNames _ (eraseCandidateNames _ body)), splitOn_erase (fits hne), splitOn_erase (fits hne),
          rewriteLines_none (fits hne) (rewriteLines_clean (fits hne) _), ← splitOn_erase (fits hne), joinLines_splitOn]

/-- The second attempt at an election of two candidates, of whom the first was not elected. -/
def repeated : StoredElection :=
  ⟨⟨1, [⟨text "c1", text "Anna"⟩, ⟨text "c2", text "Bo"⟩]⟩, { counts := [(text "c1", 1), (text "c2", 3)], elected := [text "c2"] },
    some (text "Vorsitz"), 1, 2⟩

theorem repeated_keeps_name : ¬ ∀ body, NamesLeave repeated (eraseNames (fun c => c.id = text "c1") repeated.config) body := by
  intro h
  have hnew := (h (joinLines (repeated.embedded repeated.config))).1.callouts 0 (by decide +kernel)
  revert hnew
  decide +kernel

end Callouts

end NameErasure
