import Mathlib.Data.Nat.Log
import StupaWorkflow.Lexorank
import StupaWorkflow.Raises

/-!
How ranks grow at the end of a column: each append halves the room above the first digit that is
no `z`, and a run of `z` makes the next rank longer. This gives the number of appends within the
longest rank.
-/
namespace Lexorank
open Py Raises List

def maxLength : ℕ := 50

/-- `except RankError`. -/
def Raised.isRankError : Raised → Bool
  | .rankError _ => true
  | .indexError => false

/-- The digit `z`. -/
def topDigit : ℕ := 122

/-- How many digits `z` the text starts with. -/
def topRun (rank : Text) : ℕ := (rank.takeWhile (· = topDigit)).length

/-- The room above the first digit that is no `z`; a text that ends there goes on with `0`. -/
def gap (rank : Text) : ℕ :=
  match rank.dropWhile (· = topDigit) with
  | [] => base
  | char :: _ => base - digitTable.idxOf char

def appendRoom (rank : Text) : ℕ :=
  if topRun rank < maxLength then Nat.clog 2 (gap rank) + 6 * (maxLength - 1 - topRun rank) else 0

/-- `_chain` and `_ranks_after`: ascending ranks after `last`, each by `next`. -/
def chain {ε : Type} (next : Option Text → Except ε Text) : Option Text → ℕ → Except ε (List Text)
  | _, 0 => .ok []
  | last, count + 1 => do
      let first ← next last
      let rest ← chain next (some first) count
      return first :: rest

theorem chain_length {ε : Type} {next : Option Text → Except ε Text} {last : Option Text} {count : ℕ} {ranks : List Text}
    (h : chain next last count = .ok ranks) : ranks.length = count := by
  induction count generalizing last ranks with
  | zero =>
    obtain rfl : [] = ranks := Except.ok.inj h
    rfl
  | succ count ih =>
    obtain ⟨first, -, h⟩ := bind_ok.mp h
    obtain ⟨rest, hrest, heq⟩ := bind_ok.mp h
    obtain rfl : first :: rest = ranks := Except.ok.inj heq
    rw [length_cons, ih hrest]

section Checks

variable {rank : Text} {low high : Option Text}

theorem digit_ok {char value : ℕ} (h : digit char = .ok value) : char ∈ digitTable := by
  unfold digit at h
  split at h
  · assumption
  · cases h

theorem isRank_of_check (h : check rank = .ok ()) : IsRank rank := by
  obtain ⟨_, hends, hdigits⟩ := bind_ok.mp h
  have hends := raiseUnless_ok.mp hends
  rw [Bool.and_eq_true, decide_eq_true_eq, decide_eq_true_eq] at hends
  refine ⟨hends.1, fun char hchar => ?_, hends.2⟩
  obtain ⟨value, hvalue, -⟩ := bind_ok.mp (forM_ok hdigits char hchar)
  exact digit_ok hvalue

theorem bounds_of_checks (hlow : checkBound low = .ok ()) (hhigh : checkBound high = .ok ())
    (horder : checkOrder low high = .ok ()) : Bounds low high := by
  refine ⟨?_, ?_, ?_⟩
  · rintro l rfl
    exact isRank_of_check hlow
  · rintro d rfl
    exact isRank_of_check hhigh
  · rintro l rfl d rfl
    exact of_decide_eq_true (raiseUnless_ok.mp horder)

theorem bounds_of_between (h : between low high = .ok rank) : Bounds low high := by
  obtain ⟨_, hlow, h⟩ := bind_ok.mp h
  obtain ⟨_, hhigh, h⟩ := bind_ok.mp h
  obtain ⟨_, horder, -⟩ := bind_ok.mp h
  exact bounds_of_checks hlow hhigh horder

theorem inside_of_between (h : between low high = .ok rank) : Inside low high rank := by
  obtain ⟨found, hfound, hinside⟩ := between_inside (bounds_of_between h)
  rw [← Except.ok.inj (hfound.symm.trans h)]
  exact hinside

end Checks

section Fresh

theorem spread_length {count : ℕ} (h : count < base ^ maxLength) : ∀ rank ∈ spread count, rank.length ≤ maxLength := by
  have hwidth : width count ≤ maxLength := Nat.find_min' (exists_width count) ⟨by decide, h⟩
  intro rank hrank
  obtain ⟨index, -, rfl⟩ := mem_map.mp hrank
  have hlen := (List.rdropWhile_prefix (fun c => decide (c = 48))
    (digits (index * (base ^ width count / (count + 1))) (width count))).length_le
  rw [digits, length_map, DigitStrings.length_digits] at hlen
  exact hlen.trans hwidth

end Fresh

section Growth

variable {rank low pre : Text}
variable {char : ℕ}

theorem digitTable_idxOf {value : ℕ} (h : value < base) : digitTable.idxOf (digitChar value) = value := by
  have hall : ∀ value < base, digitTable.idxOf (digitChar value) = value := by decide
  exact hall value h

theorem topDigit_value : digitTable.idxOf topDigit = 35 := by decide

theorem digitChar_top : digitChar 35 = topDigit := by decide

/-- The value of a digit other than `z` leaves room. -/
theorem idxOf_lt (h : char ∈ digitTable) (hne : char ≠ topDigit) : digitTable.idxOf char + 1 < base := by
  have hall : ∀ char ∈ digitTable, char ≠ topDigit → digitTable.idxOf char + 1 < base := by decide
  exact hall char h hne

theorem gap_cons_top (low : Text) : gap (topDigit :: low) = gap low := by
  simp [gap]

theorem topRun_cons_top (low : Text) : topRun (topDigit :: low) = topRun low + 1 := by
  simp [topRun]

theorem topRun_cons (h : char ≠ topDigit) (low : Text) : topRun (char :: low) = 0 := by
  simp [topRun, h]

theorem gap_cons (h : char ≠ topDigit) (low : Text) : gap (char :: low) = base - digitTable.idxOf char := by
  simp [gap, h]

theorem two_le_gap (h : IsRest low) : 2 ≤ gap low ∧ gap low ≤ base := by
  induction low with
  | nil => decide
  | cons char low ih =>
    by_cases htop : char = topDigit
    · rw [htop, gap_cons_top]
      exact ih h.tail
    · have hlt := idxOf_lt h.head htop
      rw [gap_cons htop]
      omega

/-- The rank after `low` at the open end: its run of `z`, and the digit in the middle of the room. -/
theorem midpointLoop_append (h : IsRest low) (pre : Text) : midpointLoop ⟨pre, low, none⟩ =
    .ok (pre ++ List.replicate (topRun low) topDigit ++ [digitChar (base - (gap low + 1) / 2)]) := by
  induction low generalizing pre with
  | nil =>
    have hturn := turn_open pre (show lowDigit [] = .ok 0 from rfl)
    rw [if_pos (by decide)] at hturn
    have hmid : digitChar ((0 + base) / 2) = digitChar (base - (gap [] + 1) / 2) := by decide
    rw [midpointLoop_done hturn, hmid]
    simp [topRun]
  | cons char low ih =>
    obtain ⟨lo, hlo, hdigit, hchar⟩ := lowDigit_rest h
    have hvalue : digitTable.idxOf char = lo := by rw [← hchar char low rfl, digitTable_idxOf hlo]
    have hturn := turn_open pre hdigit
    by_cases htop : char = topDigit
    · rw [htop, topDigit_value] at hvalue
      rw [← hvalue, if_neg (by decide), digitChar_top] at hturn
      rw [midpointLoop_again hturn, htop, gap_cons_top, topRun_cons_top, tail_cons, ih h.tail]
      simp [replicate_succ]
    · have hlt := idxOf_lt h.head htop
      rw [hvalue] at hlt
      rw [if_pos hlt] at hturn
      rw [midpointLoop_done hturn, topRun_cons htop, gap_cons htop, hvalue]
      have hmid : (lo + base) / 2 = base - (base - lo + 1) / 2 := by omega
      rw [hmid]
      simp

/-- The rank that an append writes after `low`. -/
def appended (low : Text) : Text := List.replicate (topRun low) topDigit ++ [digitChar (base - (gap low + 1) / 2)]

theorem length_appended (low : Text) : (appended low).length = topRun low + 1 := by
  simp [appended]

theorem between_append {last : Option Text} (h : ∀ rank ∈ last, IsRank rank) :
    between last none = .ok (appended (last.getD [])) := by
  have hrest : IsRest (last.getD []) := by
    cases last with
    | none => exact .inl rfl
    | some rank => exact .inr (h rank rfl)
  have hloop := midpointLoop_append hrest []
  cases last with
  | none => exact hloop
  | some rank =>
    have hcheck : check rank = .ok () := check_rank (h rank rfl)
    simp only [between, hcheck, checkBound, checkOrder, bind, Except.bind]
    exact hloop

theorem topRun_replicate (k : ℕ) (h : char ≠ topDigit) :
    topRun (List.replicate k topDigit ++ [char]) = k ∧ gap (List.replicate k topDigit ++ [char]) = base - digitTable.idxOf char := by
  induction k with
  | zero => exact ⟨topRun_cons h [], gap_cons h []⟩
  | succ k ih =>
    rw [replicate_succ, cons_append, topRun_cons_top, gap_cons_top, ih.1, ih.2]
    exact ⟨rfl, rfl⟩

theorem topRun_full (k : ℕ) : topRun (List.replicate k topDigit) = k ∧ gap (List.replicate k topDigit) = base := by
  induction k with
  | zero => exact ⟨rfl, rfl⟩
  | succ k ih =>
    rw [replicate_succ, topRun_cons_top, gap_cons_top, ih.1, ih.2]
    exact ⟨rfl, rfl⟩

theorem growth_appended (h : IsRest low) :
    (2 < gap low ∧ topRun (appended low) = topRun low ∧ gap (appended low) = (gap low + 1) / 2) ∨
      (gap low = 2 ∧ topRun (appended low) = topRun low + 1 ∧ gap (appended low) = base) := by
  obtain ⟨hlo, hhi⟩ := two_le_gap h
  have hbase : base = 36 := rfl
  rcases hlo.eq_or_lt with htwo | hmore
  · have hlast : base - (gap low + 1) / 2 = 35 := by omega
    refine .inr ⟨htwo.symm, ?_⟩
    rw [appended, hlast, digitChar_top, ← replicate_succ']
    exact topRun_full _
  · have hvalue : digitTable.idxOf (digitChar (base - (gap low + 1) / 2)) = base - (gap low + 1) / 2 :=
      digitTable_idxOf (by omega)
    have hne : digitChar (base - (gap low + 1) / 2) ≠ topDigit := by
      intro heq
      rw [heq, topDigit_value] at hvalue
      omega
    obtain ⟨hrun, hgap⟩ := topRun_replicate (topRun low) hne
    refine .inl ⟨hmore, hrun, ?_⟩
    rw [appended, hgap, hvalue]
    omega

theorem appendRoom_appended (h : IsRest low) (hfits : topRun low < maxLength) :
    appendRoom (appended low) + 1 = appendRoom low := by
  obtain ⟨hlo, -⟩ := two_le_gap h
  have hhalf : Nat.clog 2 (gap low) = Nat.clog 2 ((gap low + 1) / 2) + 1 := Nat.clog_of_two_le (by decide) hlo
  rw [appendRoom, appendRoom, if_pos hfits]
  rcases growth_appended h with ⟨-, hrun, hgap⟩ | ⟨htwo, hrun, hgap⟩
  · rw [hrun, hgap, if_pos hfits, hhalf]
    omega
  · have hone : Nat.clog 2 2 = 1 := by decide
    have hsix : Nat.clog 2 base = 6 := by decide
    rw [hrun, hgap, htwo, hone, hsix]
    split <;> omega

theorem chain_fits {last : Option Text} (h : ∀ rank ∈ last, IsRank rank) (count : ℕ) :
    ∃ ranks, chain (fun low => between low none) last count = .ok ranks ∧ (∀ rank ∈ ranks, IsRank rank) ∧
      ((∀ rank ∈ ranks, rank.length ≤ maxLength) ↔ count ≤ appendRoom (last.getD [])) := by
  induction count generalizing last with
  | zero => exact ⟨[], rfl, by simp, by simp⟩
  | succ count ih =>
    have hrest : IsRest (last.getD []) := by
      cases last with
      | none => exact .inl rfl
      | some rank => exact .inr (h rank rfl)
    have hfirst := between_append h
    obtain ⟨rank, hrank, hinside⟩ := between_inside (show Bounds last none from ⟨h, by simp, by simp⟩)
    obtain rfl : rank = appended (last.getD []) := Except.ok.inj (hrank.symm.trans hfirst)
    have hnext : ∀ rank ∈ some (appended (last.getD [])), IsRank rank := by simpa using hinside.isRank
    obtain ⟨ranks, hranks, hvalid, hfits⟩ := ih hnext
    refine ⟨appended (last.getD []) :: ranks, ?_, by simpa using ⟨hinside.isRank, hvalid⟩, ?_⟩
    · rw [chain, hfirst]
      simp only [bind, Except.bind, hranks]
      rfl
    · rw [forall_mem_cons, hfits, length_appended, Option.getD_some]
      by_cases hroom : topRun (last.getD []) < maxLength
      · have hstep := appendRoom_appended hrest hroom
        omega
      · have hnone : appendRoom (last.getD []) = 0 := if_neg hroom
        omega

end Growth

end Lexorank
