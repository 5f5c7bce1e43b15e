import StupaWorkflow.PyText

/-!
The days of the calendar as `date.toordinal` counts them: the first of January of
the year one is day 1.
-/
namespace Py

def isLeap (year : ℕ) : Bool := year % 4 = 0 && (year % 100 ≠ 0 || year % 400 = 0)

def daysBeforeYear (year : ℕ) : ℕ :=
  let y := year - 1
  y * 365 + y / 4 - y / 100 + y / 400

def daysBeforeMonth (year month : ℕ) : ℕ :=
  [0, 0, 31, 59, 90, 120, 151, 181, 212, 243, 273, 304, 334].getD month 0 + if 2 < month && isLeap year then 1 else 0

/-- `date(year, month, day).toordinal()`. -/
def toOrdinal (year month day : ℕ) : ℕ := daysBeforeYear year + daysBeforeMonth year month + day

def daysInMonth (year month : ℕ) : ℕ :=
  [0, 31, 28, 31, 30, 31, 30, 31, 31, 30, 31, 30, 31].getD month 0 + if month = 2 && isLeap year then 1 else 0

/-- `date(year, month, day)`, as its ordinal; `none` is the `ValueError`. -/
def ofCalendar (year month day : ℕ) : Option ℕ :=
  if 1 ≤ year && year ≤ 9999 && 1 ≤ month && month ≤ 12 && 1 ≤ day && day ≤ daysInMonth year month then
    some (toOrdinal year month day)
  else none

def weekday (ordinal : ℕ) : ℕ := (ordinal + 6) % 7

def firstMonday (year : ℕ) : ℤ :=
  let first := toOrdinal year 1 1
  (first : ℤ) - weekday first + if 3 < weekday first then 7 else 0

def hasWeek53 (year : ℕ) : Bool :=
  weekday (toOrdinal year 1 1) = 3 || weekday (toOrdinal year 1 1) = 2 && isLeap year

/-- `date.fromisocalendar(year, week, day)`, as its ordinal. -/
def ofIsoCalendar (year week day : ℕ) : Option ℕ :=
  let ordinal := firstMonday year + 7 * ((week : ℤ) - 1) + day - 1
  if 1 ≤ year && year ≤ 9999 && 1 ≤ week && (week ≤ 52 || week = 53 && hasWeek53 year) && 1 ≤ day && day ≤ 7 &&
      1 ≤ ordinal && ordinal ≤ toOrdinal 9999 12 31 then
    some ordinal.toNat
  else none

def hasShape : Text → Text → Bool
  | [], [] => true
  | 48 :: shape, c :: s => isDigit c && hasShape shape s
  | x :: shape, c :: s => c == x && hasShape shape s
  | _, _ => false

/-- `date.fromisoformat(s)`, as its ordinal; `none` is the `ValueError`. -/
def ofIsoFormat (s : Text) : Option ℕ :=
  let part (start width : ℕ) := digitsValue (((s.filter isDigit).drop start).take width)
  if hasShape (text "0000-00-00") s || hasShape (text "00000000") s then ofCalendar (part 0 4) (part 4 2) (part 6 2)
  else if hasShape (text "0000-W00-0") s || hasShape (text "0000W000") s then ofIsoCalendar (part 0 4) (part 4 2) (part 6 1)
  else if hasShape (text "0000-W00") s || hasShape (text "0000W00") s then ofIsoCalendar (part 0 4) (part 4 2) 1
  else none

theorem div_succ_of (y n : ℕ) : (y + 1) / n = y / n + if (y + 1) % n = 0 then 1 else 0 := by
  rw [Nat.succ_div]
  simp only [Nat.dvd_iff_mod_eq_zero]

variable {year later month : ℕ}

theorem daysBeforeYear_succ (h : 1 ≤ year) :
    daysBeforeYear (year + 1) = daysBeforeYear year + 365 + if isLeap year then 1 else 0 := by
  obtain ⟨y, rfl⟩ : ∃ y, year = y + 1 := ⟨year - 1, by omega⟩
  have hcentury : y / 100 ≤ y * 365 := by omega
  have h4 : (y + 1) % 100 = 0 → (y + 1) % 4 = 0 := by omega
  have h100 : (y + 1) % 400 = 0 → (y + 1) % 100 = 0 := by omega
  simp only [daysBeforeYear, isLeap, Nat.add_sub_cancel, div_succ_of y 4,
    div_succ_of y 100, div_succ_of y 400, Bool.and_eq_true, Bool.or_eq_true,
    decide_eq_true_eq]
  generalize y / 4 = a, y / 100 = b, y / 400 = c at hcentury ⊢
  by_cases hfour : (y + 1) % 4 = 0 <;> by_cases hundred : (y + 1) % 100 = 0 <;>
    by_cases hquad : (y + 1) % 400 = 0 <;> simp [hfour, hundred, hquad] at h4 h100 ⊢ <;> omega

theorem toOrdinal_next (h : 1 ≤ year) (month day : ℕ) : toOrdinal year month day + 365 ≤ toOrdinal (year + 1) month day := by
  rw [toOrdinal, toOrdinal, daysBeforeYear_succ h, daysBeforeMonth, daysBeforeMonth]
  by_cases hmonth : 2 < month <;> by_cases hleap : isLeap year <;> simp [hmonth, hleap] <;> omega

theorem toOrdinal_mono (h : 1 ≤ year) (hle : year ≤ later) (month day : ℕ) :
    toOrdinal year month day ≤ toOrdinal later month day := by
  induction later, hle using Nat.le_induction with
  | base => exact le_rfl
  | succ later hle ih =>
    have := toOrdinal_next (h.trans hle) month day
    omega

theorem daysBeforeMonth_lt (year : ℕ) (hmonth : 1 ≤ month) (hlt : month < later) (hlater : later ≤ 12) :
    daysBeforeMonth year month + 28 ≤ daysBeforeMonth year later := by
  have htable : ∀ leap : Bool, ∀ l < 13, ∀ m < l, 1 ≤ m →
      [0, 0, 31, 59, 90, 120, 151, 181, 212, 243, 273, 304, 334].getD m 0 + (if 2 < m && leap then 1 else 0) + 28 ≤
        [0, 0, 31, 59, 90, 120, 151, 181, 212, 243, 273, 304, 334].getD l 0 + if 2 < l && leap then 1 else 0 := by
    decide
  exact htable (isLeap year) later (by omega) month hlt hmonth

theorem toOrdinal_inj {day month' day' : ℕ} (hm : 1 ≤ month ∧ month ≤ 12) (hd : 1 ≤ day ∧ day ≤ 28)
    (hm' : 1 ≤ month' ∧ month' ≤ 12) (hd' : 1 ≤ day' ∧ day' ≤ 28) (h : toOrdinal year month day = toOrdinal year month' day') :
    month = month' ∧ day = day' := by
  rw [toOrdinal, toOrdinal] at h
  rcases lt_trichotomy month month' with hlt | rfl | hgt
  · have := daysBeforeMonth_lt year hm.1 hlt hm'.2
    omega
  · exact ⟨rfl, by omega⟩
  · have := daysBeforeMonth_lt year hm'.1 hgt hm.2
    omega

example : toOrdinal 2024 3 1 = toOrdinal 2024 2 28 + 2 := by decide

end Py
