import StupaWorkflow.PublicMinutes

/-!
The demotion of the headings of an agenda item against the code blocks of Markdown.
-/
namespace PublicMinutes
open Py
open List hiding splitOn splitOn_ne_nil

section Markdown

def run (mark : ℕ) (line : Text) : ℕ := ((lstrip line).takeWhile fun c => c = mark).length

def afterRun (mark : ℕ) (line : Text) : Text := (lstrip line).dropWhile fun c => c = mark

def isBlank (c : ℕ) : Bool := c = 32 || c = 9 || c = 13

/-- An ATX heading ends its number signs with a blank or with the line. -/
def atxLevel (line : Text) : Option ℕ :=
  if 1 ≤ run 35 line ∧ run 35 line ≤ 6 ∧ (afterRun 35 line).head?.all isBlank then some (run 35 line) else none

/-- The line that opened a block. -/
structure Fence where
  mark : ℕ
  length : ℕ
  valid : mark ≠ 35 ∧ 3 ≤ length

def opens (line : Text) : Option Fence :=
  if h : 3 ≤ run 96 line ∧ 96 ∉ afterRun 96 line then some ⟨96, run 96 line, by decide, h.1⟩
  else if h : 3 ≤ run 126 line then some ⟨126, run 126 line, by decide, h⟩
  else none

def closes (fence : Fence) (line : Text) : Bool :=
  fence.length ≤ run fence.mark line && (afterRun fence.mark line).all isBlank

def afterLine : Option Fence → Text → Option Fence
  | none, line => opens line
  | some fence, line => if closes fence line then none else some fence

/-- Line `i` stands in a block, the two fences of the block included. -/
def inBlock (lines : List Text) (i : ℕ) : Bool :=
  ((lines.take i).foldl afterLine none).isSome || lines[i]?.any fun line => (opens line).isSome

/-- The demotion as a reader of Markdown wants it. -/
structure Respects (lines out : List Text) : Prop where
  length : out.length = lines.length
  place : ∀ (i : ℕ) line, lines[i]? = some line →
    out[i]? = some line ∨ ∃ s t, line = s ++ 35 :: t ∧ out[i]? = some (s ++ 35 :: 35 :: t)
  fenced : ∀ (i : ℕ) line, lines[i]? = some line → inBlock lines i = true → out[i]? = some line
  raised : ∀ (i : ℕ) line k, lines[i]? = some line → inBlock lines i = false → atxLevel line = some k → k ≤ 5 →
    ∃ heading, out[i]? = some heading ∧ atxLevel heading = some (k + 1)
  topless : ∀ (i : ℕ) line, out[i]? = some line → inBlock out i = false → atxLevel line ≠ some 1

end Markdown

section Demotion

variable {line : Text}

/-- The heading that the code looks for. -/
def Marked (line : Text) : Prop :=
  1 ≤ run 35 line ∧ run 35 line ≤ 5 ∧ ((afterRun 35 line).head? = some 32 ∨ (afterRun 35 line).head? = some 9)

instance : DecidablePred Marked := fun _ => inferInstanceAs (Decidable (_ ∧ _ ∧ (_ ∨ _)))

def withHash (line : Text) : Text := (line.takeWhile fun c => c ≠ 35) ++ 35 :: line.dropWhile fun c => c ≠ 35

theorem demoted_eq (line : Text) : demoted line = if Marked line then withHash line else line := by
  have hrest : (lstrip line).drop ((lstrip line).takeWhile fun c => c = 35).length = afterRun 35 line := by
    have hsplit := takeWhile_append_dropWhile (p := fun c => c = 35) (l := lstrip line)
    nth_rewrite 2 [← hsplit]
    exact drop_left
  simp only [demoted, hrest]
  rfl

theorem split_hash (h : 1 ≤ run 35 line) :
    ∃ s t, line = s ++ 35 :: t ∧ (∀ c ∈ s, isSpace c = true) ∧ lstrip line = 35 :: t := by
  cases hline : lstrip line with
  | nil => simp [run, hline] at h
  | cons c t =>
    have hc : c = 35 := by
      by_contra hne
      simp [run, hline, hne] at h
    refine ⟨line.takeWhile isSpace, t, ?_, fun c hc => mem_takeWhile_imp hc, by rw [hc]⟩
    rw [← hc, ← hline]
    exact (takeWhile_append_dropWhile ..).symm

theorem lstrip_spaces {s : Text} (hs : ∀ c ∈ s, isSpace c = true) (t : Text) : lstrip (s ++ 35 :: t) = 35 :: t := by
  rw [lstrip, dropWhile_append_of_pos hs, dropWhile_cons_of_neg (by decide)]

theorem withHash_spaces {s : Text} (hs : ∀ c ∈ s, isSpace c = true) (t : Text) :
    withHash (s ++ 35 :: t) = s ++ 35 :: 35 :: t := by
  have hpos : ∀ c ∈ s, decide (c ≠ 35) = true := by
    intro c hc
    have hspace := hs c hc
    simp only [decide_eq_true_eq]
    rintro rfl
    exact absurd hspace (by decide)
  rw [withHash, takeWhile_append_of_pos hpos, dropWhile_append_of_pos hpos]
  simp

/-- One number sign more, and nothing else: the run is longer by one and the text after it is the same. -/
theorem withHash_hash (h : 1 ≤ run 35 line) :
    (∃ s t, line = s ++ 35 :: t ∧ withHash line = s ++ 35 :: 35 :: t) ∧ run 35 (withHash line) = run 35 line + 1 ∧
      afterRun 35 (withHash line) = afterRun 35 line := by
  obtain ⟨s, t, rfl, hs, hline⟩ := split_hash h
  have hdemoted : lstrip (withHash (s ++ 35 :: t)) = 35 :: 35 :: t := by
    rw [withHash_spaces hs, lstrip_spaces hs]
  refine ⟨⟨s, t, rfl, withHash_spaces hs t⟩, ?_, ?_⟩
  · simp [run, hdemoted, hline]
  · simp [afterRun, hdemoted, hline]

theorem run_other {mark : ℕ} (h : 1 ≤ run 35 line) (hmark : mark ≠ 35) : run mark line = 0 := by
  obtain ⟨s, t, -, -, hline⟩ := split_hash h
  simp [run, hline, Ne.symm hmark]

/-- A line that begins with a number sign is no fence, for Markdown and for the code. -/
theorem afterLine_hash (block : Option Fence) (h : 1 ≤ run 35 line) : afterLine block line = block := by
  cases block with
  | none => simp [afterLine, opens, run_other h]
  | some fence =>
    have hopen : closes fence line = false := by
      have := fence.valid.2
      rw [closes, run_other h fence.valid.1]
      simp only [Bool.and_eq_false_iff, decide_eq_false_iff_not]
      omega
    simp [afterLine, hopen]

theorem isFence_hash (h : 1 ≤ run 35 line) : isFence line = false := by
  obtain ⟨s, t, -, -, hline⟩ := split_hash h
  simp [isFence, hline, List.replicate, List.isPrefixOf]

theorem afterLine_demoted (block : Option Fence) (line : Text) : afterLine block (demoted line) = afterLine block line := by
  rw [demoted_eq]
  split
  · next h =>
      have hrun := (withHash_hash h.1).2.1
      rw [afterLine_hash block h.1, afterLine_hash block (by omega)]
  · rfl

theorem atxLevel_some {k : ℕ} (h : atxLevel line = some k) : k = run 35 line ∧ 1 ≤ k := by
  unfold atxLevel at h
  split at h
  · next hlevel =>
      cases h
      exact ⟨rfl, hlevel.1⟩
  · cases h

theorem atxLevel_marked (h : Marked line) : atxLevel line = some (run 35 line) := by
  have hblank : (afterRun 35 line).head?.all isBlank = true := by
    rcases h.2.2 with hhead | hhead <;> rw [hhead] <;> rfl
  rw [atxLevel, if_pos ⟨h.1, by have := h.2.1; omega, hblank⟩]

theorem atxLevel_withHash (h : Marked line) : atxLevel (withHash line) = some (run 35 line + 1) := by
  have hblank : (afterRun 35 line).head?.all isBlank = true := by
    rcases h.2.2 with hhead | hhead <;> rw [hhead] <;> rfl
  obtain ⟨-, hrun, hafter⟩ := withHash_hash h.1
  rw [atxLevel, hrun, hafter, if_pos ⟨by omega, by have := h.2.1; omega, hblank⟩]

end Demotion

section Lines

/-- An odd number of the lines is a fence for the code. -/
def odd (lines : List Text) : Bool := lines.countP isFence % 2 = 1

theorem odd_cons (line : Text) (lines : List Text) : odd (line :: lines) = (isFence line ^^ odd lines) := by
  unfold odd
  rw [countP_cons]
  cases isFence line with
  | false => simp
  | true =>
    rw [if_pos rfl, Bool.true_xor, ← decide_not, decide_eq_decide]
    omega

theorem demoteLines_get (inside : Bool) (lines : List Text) (i : ℕ) : (demoteLines inside lines)[i]? =
    lines[i]?.map fun line => if isFence line || (inside ^^ odd (lines.take i)) then line else demoted line := by
  induction lines generalizing inside i with
  | nil => rfl
  | cons line lines ih =>
    cases i with
    | zero => simp [demoteLines, odd]
    | succ i =>
      rw [demoteLines, getElem?_cons_succ, ih, getElem?_cons_succ, take_succ_cons, odd_cons, Bool.xor_assoc]

theorem demoteLines_length (inside : Bool) (lines : List Text) : (demoteLines inside lines).length = lines.length := by
  induction lines generalizing inside with
  | nil => rfl
  | cons line lines ih => rw [demoteLines, length_cons, ih, length_cons]

theorem foldl_demoted (inside : Bool) (block : Option Fence) (lines : List Text) (i : ℕ) :
    ((demoteLines inside lines).take i).foldl afterLine block = (lines.take i).foldl afterLine block := by
  induction lines generalizing inside block i with
  | nil => rfl
  | cons line lines ih =>
    cases i with
    | zero => rfl
    | succ i =>
      have hline : afterLine block (if isFence line || inside then line else demoted line) = afterLine block line := by
        split
        · rfl
        · exact afterLine_demoted block line
      rw [demoteLines, take_succ_cons, foldl_cons, ih, hline]
      rfl

theorem demoted_newline (h : 10 ∉ line) : 10 ∉ demoted line := by
  rw [demoted_eq]
  split
  · next hmarked =>
      obtain ⟨s, t, rfl, heq⟩ := (withHash_hash hmarked.1).1
      rw [heq]
      simpa using h
  · exact h

theorem demoteLines_newline {inside : Bool} {lines : List Text} (h : ∀ s ∈ lines, 10 ∉ s) :
    ∀ s ∈ demoteLines inside lines, 10 ∉ s := by
  induction lines generalizing inside with
  | nil => exact h
  | cons line lines ih =>
    obtain ⟨hline, hlines⟩ := forall_mem_cons.mp h
    refine forall_mem_cons.mpr ⟨?_, ih hlines⟩
    split
    · exact hline
    · exact demoted_newline hline

theorem mem_splitOn {sep : ℕ} {s part : Text} (h : part ∈ splitOn sep s) : sep ∉ part := by
  induction s generalizing part with
  | nil => simp_all [splitOn]
  | cons c s ih =>
    obtain ⟨first, rest, hs⟩ := exists_cons_of_ne_nil (splitOn_ne_nil sep s)
    have hfirst : sep ∉ first := ih (hs ▸ mem_cons_self)
    rw [splitOn, hs] at h
    split at h
    · rcases mem_cons.mp h with rfl | h
      · exact not_mem_nil
      · exact ih (hs ▸ h)
    · next hc =>
        rcases mem_cons.mp h with rfl | h
        · simpa [hfirst] using Ne.symm hc
        · exact ih (hs ▸ mem_cons_of_mem _ h)

/-- The lines of the demoted text. -/
theorem splitOn_demoteHeadings (markdown : Text) :
    splitOn 10 (demoteHeadings markdown) = demoteLines false (splitOn 10 markdown) := by
  refine splitOn_joinLines ?_ (demoteLines_newline fun s hs => mem_splitOn hs)
  obtain ⟨line, lines, h⟩ := exists_cons_of_ne_nil (splitOn_ne_nil 10 markdown)
  rw [h, demoteLines]
  exact cons_ne_nil _ _

end Lines

section Respected

/-- For a heading of level 1 to 5 the parity of the code and the blocks of Markdown agree. -/
def Aligned (lines : List Text) : Prop :=
  ∀ (i : ℕ) line k, lines[i]? = some line → atxLevel line = some k → k ≤ 5 →
    if Marked line then inBlock lines i = odd (lines.take i) else inBlock lines i = true

variable {lines : List Text} {line : Text} {i k : ℕ}

theorem inBlock_demoted (lines : List Text) (i : ℕ) : inBlock (demoteLines false lines) i = inBlock lines i := by
  have hopens : (demoteLines false lines)[i]?.any (fun line => (opens line).isSome) =
      lines[i]?.any fun line => (opens line).isSome := by
    rw [demoteLines_get, Option.any_map]
    refine congrFun (congrArg Option.any (funext fun line => ?_)) _
    split
    · rfl
    · exact congrArg Option.isSome (afterLine_demoted none line)
  rw [inBlock, foldl_demoted, hopens]
  rfl

theorem demoteLines_marked (hline : lines[i]? = some line) (hmarked : Marked line) : (demoteLines false lines)[i]? =
    some (if odd (lines.take i) then line else withHash line) := by
  rw [demoteLines_get, hline, Option.map_some, isFence_hash hmarked.1, demoted_eq, if_pos hmarked]
  simp

theorem demoteLines_other (hline : lines[i]? = some line) (hmarked : ¬ Marked line) :
    (demoteLines false lines)[i]? = some line := by
  rw [demoteLines_get, hline, Option.map_some, demoted_eq, if_neg hmarked, ite_self]

theorem withHash_ne (h : Marked line) : withHash line ≠ line := by
  intro heq
  have hrun := (withHash_hash h.1).2.1
  rw [heq] at hrun
  omega

theorem Aligned.respects (h : Aligned lines) : Respects lines (demoteLines false lines) where
  length := demoteLines_length false lines
  place i line hline := by
    by_cases hmarked : Marked line
    · rw [demoteLines_marked hline hmarked]
      split
      · exact .inl rfl
      · obtain ⟨s, t, hs, heq⟩ := (withHash_hash hmarked.1).1
        exact .inr ⟨s, t, hs, congrArg some heq⟩
    · exact .inl (demoteLines_other hline hmarked)
  fenced i line hline hin := by
    by_cases hmarked : Marked line
    · have hodd := h i line _ hline (atxLevel_marked hmarked) hmarked.2.1
      rw [if_pos hmarked, hin] at hodd
      rw [demoteLines_marked hline hmarked, if_pos hodd.symm]
    · exact demoteLines_other hline hmarked
  raised i line k hline hout hlevel hk := by
    have hodd := h i line k hline hlevel hk
    by_cases hmarked : Marked line
    · rw [if_pos hmarked, hout] at hodd
      rw [demoteLines_marked hline hmarked, ← hodd, (atxLevel_some hlevel).1]
      exact ⟨_, rfl, atxLevel_withHash hmarked⟩
    · rw [if_neg hmarked, hout] at hodd
      cases hodd
  topless i line hline hout hlevel := by
    rw [inBlock_demoted] at hout
    have hsource := demoteLines_get false lines i
    rw [hline] at hsource
    obtain ⟨source, hget, -⟩ := Option.map_eq_some_iff.mp hsource.symm
    by_cases hmarked : Marked source
    · have hodd := h i source _ hget (atxLevel_marked hmarked) hmarked.2.1
      rw [if_pos hmarked, hout] at hodd
      rw [demoteLines_marked hget hmarked, ← hodd] at hline
      cases hline
      rw [if_neg Bool.false_ne_true, atxLevel_withHash hmarked] at hlevel
      have := hmarked.1
      simp only [Option.some.injEq] at hlevel
      omega
    · rw [demoteLines_other hget hmarked] at hline
      cases hline
      have hodd := h i line 1 hget hlevel (by decide)
      rw [if_neg hmarked, hout] at hodd
      cases hodd

theorem Respects.aligned (h : Respects lines (demoteLines false lines)) : Aligned lines := by
  intro i line k hline hlevel hk
  have hkept : inBlock lines i = false → (demoteLines false lines)[i]? ≠ some line := by
    intro hout hsame
    obtain ⟨heading, hheading, hraised⟩ := h.raised i line k hline hout hlevel hk
    rw [hsame] at hheading
    cases hheading
    rw [hlevel] at hraised
    simp at hraised
  by_cases hmarked : Marked line
  · have hget := demoteLines_marked hline hmarked
    rw [if_pos hmarked]
    cases hin : inBlock lines i with
    | false =>
      cases hodd : odd (lines.take i) with
      | false => rfl
      | true =>
        rw [hodd] at hget
        exact absurd hget (hkept hin)
    | true =>
      cases hodd : odd (lines.take i) with
      | false =>
        rw [hodd, h.fenced i line hline hin] at hget
        exact absurd (Option.some.inj hget).symm (withHash_ne hmarked)
      | true => rfl
  · rw [if_neg hmarked]
    by_contra hout
    exact hkept (Bool.eq_false_iff.mpr hout) (demoteLines_other hline hmarked)

/-- Demotion respects the code blocks of a text exactly when they align at its headings. -/
theorem fences_respected_iff (markdown : Text) :
    Respects (splitOn 10 markdown) (splitOn 10 (demoteHeadings markdown)) ↔ Aligned (splitOn 10 markdown) := by
  rw [splitOn_demoteHeadings]
  exact ⟨Respects.aligned, Aligned.respects⟩

/-- A block of four backticks with three in it. -/
def nested : Text := joinLines [text "````", text "```", text "# x", text "```", text "````"]

theorem nested_demoted : ¬ Respects (splitOn 10 nested) (splitOn 10 (demoteHeadings nested)) := by
  intro h
  have hkept := h.fenced 2 (text "# x") (by decide) (by decide)
  revert hkept
  decide

end Respected

end PublicMinutes
