import StupaWorkflow.PyText

/-!
Dates and times of the day with the texts that Python writes for them. Every text
has fixed widths, so it is read by its positions.
-/
namespace Py

def digits : ℕ → ℕ → Text
  | 0, _ => []
  | width + 1, n => digits width (n / 10) ++ [48 + n % 10]

structure Date where
  year : ℕ
  month : ℕ
  day : ℕ
  deriving DecidableEq

/-- `datetime.time`. -/
structure Clock where
  hour : ℕ
  minute : ℕ
  second : ℕ
  microsecond : ℕ
  deriving DecidableEq

/-- `datetime.datetime` in UTC. -/
structure Datetime where
  date : Date
  clock : Clock
  deriving DecidableEq

def Date.isoformat (d : Date) : Text := digits 4 d.year ++ [45] ++ digits 2 d.month ++ [45] ++ digits 2 d.day

def Datetime.parts (t : Datetime) : List ℕ :=
  [t.date.year, t.date.month, t.date.day, t.clock.hour, t.clock.minute, t.clock.second, t.clock.microsecond]

theorem digits_isDigit {width n c : ℕ} (h : c ∈ digits width n) : isDigit c := by
  induction width generalizing n with
  | zero => simp [digits] at h
  | succ width ih =>
    rcases List.mem_append.mp h with h | h
    · exact ih h
    · have := Nat.mod_lt n (by decide : 10 > 0)
      rw [List.mem_singleton.mp h]
      simp only [isDigit, Bool.and_eq_true, decide_eq_true_eq]
      omega

@[simp] theorem digits_length (width n : ℕ) : (digits width n).length = width := by
  induction width generalizing n with
  | zero => rfl
  | succ width ih => simp [digits, ih]

end Py
