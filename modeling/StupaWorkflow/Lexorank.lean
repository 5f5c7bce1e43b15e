import StupaWorkflow.DigitStrings
import StupaWorkflow.PyText

/-!
The sort keys of the cards of a todo column. A rank is a string over `0-9a-z` that
does not end with `0`; `between` finds one between two neighbors and `spread` gives a
fresh order.
-/
namespace Lexorank
open Py List

/-- `DIGITS`. -/
def digitTable : Text := text "0123456789abcdefghijklmnopqrstuvwxyz"

def base : ℕ := digitTable.length

def digitChar (value : ℕ) : ℕ := digitTable.getD value 48

inductive RankError where
  | digit (char : ℕ)
  | rank (rank : Text)
  | notBelow (low high : Text)
  deriving DecidableEq

inductive Raised where
  | rankError (e : RankError)
  | indexError
  deriving DecidableEq

def digit (char : ℕ) : Except Raised ℕ :=
  if char ∈ digitTable then .ok (digitTable.idxOf char) else .error (.rankError (.digit char))

def check (rank : Text) : Except Raised Unit := do
  raiseUnless (rank ≠ [] && rank.getLast? ≠ some 48) (.rankError (.rank rank))
  rank.forM fun char => do
    let _ ← digit char

/-- `_shared`: the length of the common prefix of `low`, padded with `0`, and `high`. -/
def shared : Text → Text → Except Raised ℕ
  | _, [] => .error .indexError
  | [], h :: high => if h = 48 then (shared [] high).map (· + 1) else .ok 0
  | l :: low, h :: high => if h = l then (shared low high).map (· + 1) else .ok 0

/-- The variables of the loop of `_midpoint`. -/
structure Loop where
  pre : Text
  low : Text
  high : Option Text
  deriving DecidableEq

inductive Turn where
  | done (rank : Text)
  | again (s : Loop)
  deriving DecidableEq

def skipShared (s : Loop) : Except Raised Loop :=
  match s.high with
  | none => .ok s
  | some high => (shared s.low high).map fun n => ⟨s.pre ++ high.take n, s.low.drop n, some (high.drop n)⟩

/-- The value of the first digit of `low`; the padding is `0`. -/
def lowDigit : Text → Except Raised ℕ
  | [] => .ok 0
  | l :: _ => digit l

/-- The value of the first digit of `high`; the open end is above all digits. -/
def highDigit : Option Text → Except Raised ℕ
  | none => .ok base
  | some [] => .error .indexError
  | some (h :: _) => digit h

/-- One turn of the loop of `_midpoint`. -/
def turn (s : Loop) : Except Raised Turn := do
  let s ← skipShared s
  let lo ← lowDigit s.low
  let hi ← highDigit s.high
  if lo + 1 < hi then return .done (s.pre ++ [digitChar ((lo + hi) / 2)])
  else match s.high with
    | some (h :: _ :: _) => return .done (s.pre ++ [h])
    | _ => return .again ⟨s.pre ++ [digitChar lo], s.low.tail, none⟩

def Loop.left (s : Loop) : ℕ := s.low.length + if s.high.isSome then 1 else 0

/-- A turn that goes on shortens `low`, or is the one that opens the upper end. -/
theorem left_lt {s t : Loop} (h : turn s = .ok (.again t)) : t.left < s.left := by
  obtain ⟨s', hskip, h⟩ := bind_ok.mp h
  obtain ⟨lo, hlo, h⟩ := bind_ok.mp h
  obtain ⟨hi, hhi, h⟩ := bind_ok.mp h
  have hlow : s'.low.length ≤ s.low.length ∧ (s.high = none → s' = s) := by
    unfold skipShared at hskip
    split at hskip
    next hnone => cases hskip; exact ⟨le_refl _, fun _ => rfl⟩
    next high hsome =>
      cases hshared : shared s.low high with
      | error e => rw [hshared] at hskip; cases hskip
      | ok n =>
        rw [hshared] at hskip
        cases hskip
        exact ⟨by simp, fun hnone => by rw [hsome] at hnone; cases hnone⟩
  split at h
  · cases h
  · next hclose =>
      split at h
      · cases h
      · cases h
        cases hhigh : s.high with
        | some high => simp [Loop.left, hhigh]; omega
        | none =>
          obtain rfl := hlow.2 hhigh
          rw [hhigh] at hhi
          cases hlist : s'.low with
          | nil =>
            rw [hlist] at hlo
            cases hlo
            cases hhi
            exact absurd (by decide) hclose
          | cons l low => simp [Loop.left, hhigh, hlist]

/-- `_midpoint`: the turns of the loop up to its result. -/
def midpointLoop (s : Loop) : Except Raised Text :=
  match _h : turn s with
  | .error e => .error e
  | .ok (.done rank) => .ok rank
  | .ok (.again t) => midpointLoop t
termination_by s.left
decreasing_by exact left_lt _h

def midpoint (low : Text) (high : Option Text) : Except Raised Text := midpointLoop ⟨[], low, high⟩

def checkBound : Option Text → Except Raised Unit
  | none => .ok ()
  | some rank => check rank

def checkOrder : Option Text → Option Text → Except Raised Unit
  | some low, some high => raiseUnless (low < high) (.rankError (.notBelow low high))
  | _, _ => .ok ()

/-- A rank strictly between two ranks; `none` is the open end. -/
def between (low high : Option Text) : Except Raised Text := do
  checkBound low
  checkBound high
  checkOrder low high
  midpoint (low.getD []) high

def digits (value width : ℕ) : Text := (DigitStrings.digits base value width).map digitChar

theorem exists_width (count : ℕ) : ∃ w, 1 ≤ w ∧ count < base ^ w :=
  ⟨count + 1, by omega, (Nat.lt_pow_self (by decide)).trans (Nat.pow_lt_pow_succ (by decide))⟩

def width (count : ℕ) : ℕ := Nat.find (exists_width count)

def spread (count : ℕ) : List Text :=
  let step := base ^ width count / (count + 1)
  (List.range' 1 count).map fun index => (digits (index * step) (width count)).rdropWhile (· = 48)

section Digits

variable {value char : ℕ}

theorem digitChar_eq (h : value < base) : digitChar value = if value < 10 then 48 + value else 87 + value := by
  have hall : ∀ v < 36, digitChar v = if v < 10 then 48 + v else 87 + v := by decide
  exact hall value h

theorem digitChar_lt {d e : ℕ} (h : d < e) (he : e < base) : digitChar d < digitChar e := by
  rw [digitChar_eq (h.trans he), digitChar_eq he]
  split <;> split <;> omega

theorem digitChar_mem (h : value < base) : digitChar value ∈ digitTable := by
  rw [digitChar, getD_eq_getElem?_getD, getElem?_eq_getElem h, Option.getD_some]
  exact getElem_mem h

theorem digitChar_ne_zero (hpos : 0 < value) (h : value < base) : digitChar value ≠ 48 :=
  (digitChar_lt hpos h).ne'

theorem digit_mem (h : char ∈ digitTable) : ∃ value < base, digit char = .ok value ∧ digitChar value = char := by
  have hlt : digitTable.idxOf char < digitTable.length := idxOf_lt_length_iff.mpr h
  refine ⟨digitTable.idxOf char, hlt, if_pos h, ?_⟩
  rw [digitChar, getD_eq_getElem?_getD, getElem?_eq_getElem hlt, Option.getD_some]
  exact getElem_idxOf hlt

theorem le_of_mem_digits (h : char ∈ digitTable) : 48 ≤ char := by
  have hall : ∀ c ∈ digitTable, 48 ≤ c := by decide
  exact hall char h

end Digits

/-- A string over the digits that does not end with `0`. -/
structure IsRank (rank : Text) : Prop where
  nonempty : rank ≠ []
  digits : ∀ char ∈ rank, char ∈ digitTable
  last : rank.getLast? ≠ some 48

def IsRest (s : Text) : Prop := s = [] ∨ IsRank s

section Ranks

variable {rank low high pre : Text}

theorem IsRank.append (hpre : ∀ char ∈ pre, char ∈ digitTable) (h : IsRank rank) : IsRank (pre ++ rank) := by
  refine ⟨append_ne_nil_of_right_ne_nil pre h.nonempty, fun char hchar => ?_, ?_⟩
  · rcases mem_append.mp hchar with hmem | hmem
    · exact hpre char hmem
    · exact h.digits char hmem
  · rw [getLast?_append_of_ne_nil pre h.nonempty]
    exact h.last

theorem isRank_singleton {value : ℕ} (hpos : 0 < value) (h : value < base) : IsRank [digitChar value] :=
  ⟨cons_ne_nil _ _, by simpa using digitChar_mem h, by simpa using digitChar_ne_zero hpos h⟩

theorem IsRest.drop (h : IsRest rank) (n : ℕ) : IsRest (rank.drop n) := by
  rcases h with rfl | h
  · exact .inl (drop_nil)
  · by_cases hnil : rank.drop n = []
    · exact .inl hnil
    · refine .inr ⟨hnil, fun char hchar => h.digits char (mem_of_mem_drop hchar), ?_⟩
      rw [getLast?_drop, if_neg (by simpa using hnil)]
      exact h.last

theorem IsRest.head {l : ℕ} (h : IsRest (l :: low)) : l ∈ digitTable := by
  rcases h with h | h
  · cases h
  · exact h.digits l mem_cons_self

theorem IsRest.tail {l : ℕ} (h : IsRest (l :: low)) : IsRest low := h.drop 1

theorem check_rank (h : IsRank rank) : check rank = .ok () := by
  refine bind_ok.mpr ⟨(), raiseUnless_ok.mpr (by simp [h.nonempty, h.last]), ?_⟩
  refine ok_forM fun char hchar => ?_
  obtain ⟨value, -, hdigit, -⟩ := digit_mem (h.digits char hchar)
  exact bind_ok.mpr ⟨value, hdigit, rfl⟩

end Ranks

section Turns

variable {s t : Loop} {pre low high rank : Text} {lo hi : ℕ}

theorem midpointLoop_done (h : turn s = .ok (.done rank)) : midpointLoop s = .ok rank := by
  rw [midpointLoop]
  split <;> simp_all

theorem midpointLoop_again (h : turn s = .ok (.again t)) : midpointLoop s = midpointLoop t := by
  rw [midpointLoop]
  split <;> simp_all

theorem turn_open (pre : Text) (hlo : lowDigit low = .ok lo) :
    turn ⟨pre, low, none⟩ =
      if lo + 1 < base then .ok (.done (pre ++ [digitChar ((lo + base) / 2)]))
      else .ok (.again ⟨pre ++ [digitChar lo], low.tail, none⟩) := by
  simp only [turn, skipShared, hlo, highDigit, bind, Except.bind, pure, Except.pure]

theorem lowDigit_rest (h : IsRest low) : ∃ value < base, lowDigit low = .ok value ∧
    ∀ l rest, low = l :: rest → digitChar value = l := by
  cases low with
  | nil => exact ⟨0, by decide, rfl, by simp⟩
  | cons l low =>
    obtain ⟨value, hvalue, hdigit, hchar⟩ := digit_mem h.head
    refine ⟨value, hvalue, hdigit, ?_⟩
    rintro _ _ ⟨rfl, rfl⟩
    exact hchar

theorem rest_lt (hdigit : ∀ l rest, low = l :: rest → digitChar lo = l) {value : ℕ} (hlt : lo < value)
    (hvalue : value < base) (rest : Text) : low < digitChar value :: rest := by
  cases low with
  | nil => exact nil_lt_cons _ _
  | cons l low =>
    rw [← hdigit l low rfl]
    exact cons_lt_cons_iff.mpr (.inl (digitChar_lt hlt hvalue))

/-- With an open upper end the loop gives a rank above `low`, by induction on its length. -/
theorem midpointLoop_open (hlow : IsRest low) (pre : Text) :
    ∃ rank, midpointLoop ⟨pre, low, none⟩ = .ok (pre ++ rank) ∧ IsRank rank ∧ low < rank := by
  induction low generalizing pre with
  | nil =>
    have hpad : lowDigit [] = .ok 0 := rfl
    have hturn := turn_open pre hpad
    rw [if_pos (by decide)] at hturn
    exact ⟨_, midpointLoop_done hturn, isRank_singleton (by decide) (by decide), nil_lt_cons _ _⟩
  | cons l low ih =>
    obtain ⟨lo, hlo, hdigit, hchar⟩ := lowDigit_rest hlow
    have hturn := turn_open pre hdigit
    by_cases hroom : lo + 1 < base
    · rw [if_pos hroom] at hturn
      have hmid : lo < (lo + base) / 2 ∧ (lo + base) / 2 < base := by omega
      exact ⟨_, midpointLoop_done hturn, isRank_singleton (by omega) hmid.2, rest_lt hchar hmid.1 hmid.2 []⟩
    · rw [if_neg hroom, hchar l low rfl] at hturn
      obtain ⟨rank, hloop, hrank, hlt⟩ := ih hlow.tail (pre ++ [l])
      refine ⟨l :: rank, ?_, ?_, cons_lt_cons_iff.mpr (.inr ⟨rfl, hlt⟩)⟩
      · rw [midpointLoop_again hturn]
        simpa using hloop
      · have hfirst : ∀ char ∈ [l], char ∈ digitTable := by simpa using hlow.head
        exact hrank.append hfirst

end Turns

section Shared

variable {low high : Text}

/-- The two texts differ behind their common prefix, and `low` is the smaller one there. -/
structure Apart (low high : Text) (n : ℕ) : Prop where
  found : shared low high = .ok n
  below : ∃ h rest, high.drop n = h :: rest ∧
    (low.drop n = [] ∧ h ≠ 48 ∨ ∃ l rest', low.drop n = l :: rest' ∧ l < h)
  above : ∀ rank, low.drop n < rank → low < high.take n ++ rank

theorem Apart.step {l h : ℕ} (heq : l = h) {n : ℕ} (hn : Apart low high n) : Apart (l :: low) (h :: high) (n + 1) := by
  subst heq
  refine ⟨?_, hn.below, fun rank hrank => ?_⟩
  · rw [shared, if_pos rfl, hn.found]
    rfl
  · exact cons_lt_cons_iff.mpr (.inr ⟨rfl, hn.above rank hrank⟩)

theorem apart_padded (hhigh : IsRest high) (hne : high ≠ []) : ∃ n, Apart [] high n := by
  induction high with
  | nil => exact absurd rfl hne
  | cons h high ih =>
    by_cases hzero : h = 48
    · -- a rank does not end with the padding
      have hmore : high ≠ [] := by
        rintro rfl
        rcases hhigh with hnil | hrank
        · cases hnil
        · exact hrank.last (by rw [hzero]; rfl)
      obtain ⟨n, hn⟩ := ih hhigh.tail hmore
      refine ⟨n + 1, ?_, by simpa using hn.below, fun rank _ => nil_lt_cons _ _⟩
      rw [shared, if_pos hzero, hn.found]
      rfl
    · refine ⟨0, by rw [shared, if_neg hzero], ⟨h, high, rfl, .inl ⟨rfl, hzero⟩⟩, fun rank hrank => hrank⟩

theorem apart_of_lt (hhigh : IsRest high) (h : low < high) : ∃ n, Apart low high n := by
  induction low generalizing high with
  | nil =>
    apply apart_padded hhigh
    rintro rfl
    exact not_lt_nil _ h
  | cons l low ih =>
    cases high with
    | nil => exact absurd h (not_lt_nil _)
    | cons d high =>
      rcases cons_lt_cons_iff.mp h with hlt | ⟨heq, hrest⟩
      · refine ⟨0, by rw [shared, if_neg hlt.ne'], ⟨d, high, rfl, .inr ⟨l, low, rfl, hlt⟩⟩, fun rank hrank => hrank⟩
      · obtain ⟨n, hn⟩ := ih hhigh.tail hrest
        exact ⟨n + 1, hn.step heq⟩

end Shared

section Between

variable {low high : Text}

theorem turn_apart {n h lo hi : ℕ} {rest : Text} (hn : shared low high = .ok n) (hdrop : high.drop n = h :: rest)
    (hlo : lowDigit (low.drop n) = .ok lo) (hhi : digit h = .ok hi) :
    turn ⟨[], low, some high⟩ =
      if lo + 1 < hi then .ok (.done (high.take n ++ [digitChar ((lo + hi) / 2)]))
      else match rest with
        | [] => .ok (.again ⟨high.take n ++ [digitChar lo], (low.drop n).tail, none⟩)
        | _ :: _ => .ok (.done (high.take n ++ [h])) := by
  have hskip : skipShared ⟨[], low, some high⟩ = .ok ⟨high.take n, low.drop n, some (h :: rest)⟩ := by
    simp [skipShared, hn, hdrop, Except.map]
  simp only [turn, hskip, hlo, highDigit, hhi, bind, Except.bind, pure, Except.pure]
  split
  · rfl
  · cases rest <;> rfl

theorem digits_apart {s : Text} {h lo hi : ℕ}
    (hsmaller : s = [] ∧ h ≠ 48 ∨ ∃ l rest, s = l :: rest ∧ l < h) (hlo : lo < base)
    (hdigit : lowDigit s = .ok lo) (hlochar : ∀ l rest, s = l :: rest → digitChar lo = l) (hchar : digitChar hi = h) :
    lo < hi := by
  rcases hsmaller with ⟨rfl, hne⟩ | ⟨l, rest, rfl, hlh⟩
  · cases hdigit
    by_contra hzero
    obtain rfl : hi = 0 := by omega
    exact hne hchar.symm
  · by_contra hle
    have hge : digitChar hi ≤ digitChar lo := by
      rcases Nat.lt_or_eq_of_le (not_lt.mp hle) with hlt | heq
      · exact (digitChar_lt hlt hlo).le
      · rw [heq]
    rw [hchar, hlochar l rest rfl] at hge
    omega

/-- Between two ranks the loop gives a rank: the first turn finds a digit between, takes a prefix of `high`, or opens the
upper end behind the digit of `low`. -/
theorem midpoint_below (hlow : IsRest low) (hhigh : IsRank high) (h : low < high) :
    ∃ rank, midpoint low (some high) = .ok rank ∧ IsRank rank ∧ low < rank ∧ rank < high := by
  obtain ⟨n, hn⟩ := apart_of_lt (.inr hhigh) h
  obtain ⟨d, rest, hdrop, hsmaller⟩ := hn.below
  have hdigits : ∀ char ∈ high.take n, char ∈ digitTable := fun char hchar => hhigh.digits char (mem_of_mem_take hchar)
  have hrest : IsRest (d :: rest) := hdrop ▸ IsRest.drop (.inr hhigh) n
  obtain ⟨hi, hhi, hdigit, hchar⟩ := digit_mem hrest.head
  obtain ⟨lo, hlo, hlodigit, hlochar⟩ := lowDigit_rest (hlow.drop n)
  have hlt := digits_apart hsmaller hlo hlodigit hlochar hchar
  have hsplit : high.take n ++ d :: rest = high := by rw [← hdrop, take_append_drop]
  -- a rank for the parts behind the common prefix is a rank for the whole
  have hjoin : ∀ rank, IsRank rank → low.drop n < rank → rank < d :: rest →
      IsRank (high.take n ++ rank) ∧ low < high.take n ++ rank ∧ high.take n ++ rank < high := by
    intro rank hrank hbelow habove
    refine ⟨hrank.append hdigits, hn.above rank hbelow, ?_⟩
    conv_rhs => rw [← hsplit]
    exact DigitStrings.append_lt_append _ habove
  have hturn := turn_apart hn.found hdrop hlodigit hdigit
  by_cases hroom : lo + 1 < hi
  · rw [if_pos hroom] at hturn
    have hmid : lo < (lo + hi) / 2 ∧ (lo + hi) / 2 < hi := by omega
    refine ⟨_, midpointLoop_done hturn, hjoin _ (isRank_singleton (by omega) (by omega)) ?_ ?_⟩
    · exact rest_lt hlochar hmid.1 (by omega) []
    · rw [← hchar]
      exact cons_lt_cons_iff.mpr (.inl (digitChar_lt hmid.2 hhi))
  · rw [if_neg hroom] at hturn
    cases rest with
    | cons e rest =>
      refine ⟨_, midpointLoop_done hturn, hjoin _ ?_ ?_ ?_⟩
      · rw [← hchar]
        exact isRank_singleton (by omega) hhi
      · rw [← hchar]
        exact rest_lt hlochar hlt hhi []
      · exact cons_lt_cons_iff.mpr (.inr ⟨rfl, nil_lt_cons _ _⟩)
    | nil =>
      obtain ⟨rank, hloop, hrank, habove⟩ :=
        midpointLoop_open (IsRest.drop (hlow.drop n) 1) (high.take n ++ [digitChar lo])
      rw [drop_one] at hloop habove
      rw [append_assoc, singleton_append] at hloop
      refine ⟨_, (midpointLoop_again hturn).trans hloop, hjoin _ ?_ ?_ ?_⟩
      · have hfirst : ∀ char ∈ [digitChar lo], char ∈ digitTable := by simpa using digitChar_mem hlo
        exact hrank.append hfirst
      · cases hcons : low.drop n with
        | nil => exact nil_lt_cons _ _
        | cons l rest' =>
          rw [hcons] at habove
          exact cons_lt_cons_iff.mpr (.inr ⟨(hlochar l rest' hcons).symm, habove⟩)
      · rw [← hchar]
        exact cons_lt_cons_iff.mpr (.inl (digitChar_lt hlt hhi))

/-- The bounds of an insertion: ranks in their order, or an open end. -/
structure Bounds (low high : Option Text) : Prop where
  lowRank : ∀ l ∈ low, IsRank l
  highRank : ∀ h ∈ high, IsRank h
  lt : ∀ l ∈ low, ∀ h ∈ high, l < h

structure Inside (low high : Option Text) (rank : Text) : Prop where
  isRank : IsRank rank
  above : ∀ l ∈ low, l < rank
  below : ∀ h ∈ high, rank < h

theorem between_inside {low high : Option Text} (h : Bounds low high) :
    ∃ rank, between low high = .ok rank ∧ Inside low high rank := by
  have hlow : checkBound low = .ok () := by
    cases low with
    | none => rfl
    | some l => exact check_rank (h.lowRank l rfl)
  have hhigh : checkBound high = .ok () := by
    cases high with
    | none => rfl
    | some d => exact check_rank (h.highRank d rfl)
  have horder : checkOrder low high = .ok () := by
    cases low with
    | none => rfl
    | some l =>
      cases high with
      | none => rfl
      | some d => exact raiseUnless_ok.mpr (decide_eq_true (h.lt l rfl d rfl))
  have hbetween : between low high = midpoint (low.getD []) high := by
    simp only [between, hlow, hhigh, horder, bind, Except.bind]
  have hrest : IsRest (low.getD []) := by
    cases low with
    | none => exact .inl rfl
    | some l => exact .inr (h.lowRank l rfl)
  have habove : ∀ rank, low.getD [] < rank → ∀ l ∈ low, l < rank := by
    rintro rank hlt l hl
    rw [Option.mem_def.mp hl] at hlt
    exact hlt
  rw [hbetween]
  cases high with
  | none =>
    obtain ⟨rank, hrank, hvalid, hlt⟩ := midpointLoop_open hrest []
    exact ⟨rank, hrank, hvalid, habove rank hlt, by simp⟩
  | some d =>
    have hlt : low.getD [] < d := by
      cases low with
      | none =>
        obtain ⟨x, xs, rfl⟩ := exists_cons_of_ne_nil (h.highRank d rfl).nonempty
        exact nil_lt_cons _ _
      | some l => exact h.lt l rfl d rfl
    obtain ⟨rank, hrank, hvalid, hlt, hunder⟩ := midpoint_below hrest (h.highRank d rfl) hlt
    exact ⟨rank, hrank, hvalid, habove rank hlt, by simpa using hunder⟩

end Between

section Column

variable {ranks : List Text}

structure Ordered (ranks : List Text) : Prop where
  isRank : ∀ rank ∈ ranks, IsRank rank
  sorted : ranks.Pairwise (· < ·)

def insertAt (position : ℕ) (ranks : List Text) : Except Raised (List Text) := do
  let rank ← between (ranks.take position).getLast? (ranks.drop position).head?
  return ranks.take position ++ rank :: ranks.drop position

def insertAll : List ℕ → List Text → Except Raised (List Text)
  | [], ranks => .ok ranks
  | position :: positions, ranks => do
      let ranks ← insertAt position ranks
      insertAll positions ranks

theorem Ordered.bounds (h : Ordered ranks) (position : ℕ) :
    Bounds (ranks.take position).getLast? (ranks.drop position).head? := by
  refine ⟨fun l hl => ?_, fun d hd => ?_, fun l hl d hd => ?_⟩
  · exact h.isRank l (mem_of_mem_take (mem_of_getLast? hl))
  · exact h.isRank d (mem_of_mem_drop (mem_of_head? hd))
  · have hsorted := h.sorted
    rw [← take_append_drop position ranks, pairwise_append] at hsorted
    exact hsorted.2.2 l (mem_of_getLast? hl) d (mem_of_head? hd)

theorem lt_of_getLast? {above : List Text} {rank : Text} (h : above.Pairwise (· < ·))
    (hlast : ∀ l ∈ above.getLast?, l < rank) : ∀ l ∈ above, l < rank := by
  rcases eq_nil_or_concat' above with rfl | ⟨front, last, rfl⟩
  · simp
  · have hrank : last < rank := hlast last (by simp)
    rw [pairwise_append] at h
    intro l hl
    rcases mem_append.mp hl with hfront | hsingle
    · exact lt_trans (h.2.2 l hfront last (by simp)) hrank
    · rwa [mem_singleton.mp hsingle]

theorem lt_of_head? {below : List Text} {rank : Text} (h : below.Pairwise (· < ·))
    (hhead : ∀ d ∈ below.head?, rank < d) : ∀ d ∈ below, rank < d := by
  cases below with
  | nil => simp
  | cons first below =>
    have hrank : rank < first := hhead first rfl
    intro d hd
    rcases mem_cons.mp hd with rfl | hd
    · exact hrank
    · exact lt_trans hrank ((pairwise_cons.mp h).1 d hd)

theorem insertAt_ordered (h : Ordered ranks) (position : ℕ) :
    ∃ ranks', insertAt position ranks = .ok ranks' ∧ Ordered ranks' ∧ ranks'.length = ranks.length + 1 := by
  obtain ⟨rank, hrank, hinside⟩ := between_inside (h.bounds position)
  refine ⟨ranks.take position ++ rank :: ranks.drop position, by rw [insertAt, hrank]; rfl, ⟨?_, ?_⟩, ?_⟩
  · intro r hr
    rcases mem_append.mp hr with hr | hr
    · exact h.isRank r (mem_of_mem_take hr)
    · rcases mem_cons.mp hr with rfl | hr
      · exact hinside.isRank
      · exact h.isRank r (mem_of_mem_drop hr)
  · have hsorted := h.sorted
    rw [← take_append_drop position ranks, pairwise_append] at hsorted
    obtain ⟨habove, hbelow, hcross⟩ := hsorted
    have hup := lt_of_getLast? habove hinside.above
    have hdown := lt_of_head? hbelow hinside.below
    rw [pairwise_append]
    refine ⟨habove, pairwise_cons.mpr ⟨hdown, hbelow⟩, fun l hl d hd => ?_⟩
    rcases mem_cons.mp hd with rfl | hd
    · exact hup l hl
    · exact hcross l hl d hd
  · conv_rhs => rw [← take_append_drop position ranks]
    simp only [length_append, length_cons]
    omega

theorem insertAll_ordered (h : Ordered ranks) (positions : List ℕ) :
    ∃ ranks', insertAll positions ranks = .ok ranks' ∧ Ordered ranks' ∧
      ranks'.length = ranks.length + positions.length := by
  induction positions generalizing ranks with
  | nil => exact ⟨ranks, rfl, h, rfl⟩
  | cons position positions ih =>
    obtain ⟨next, hnext, hordered, hlen⟩ := insertAt_ordered h position
    obtain ⟨last, hlast, hdone, hcount⟩ := ih hordered
    refine ⟨last, by rw [insertAll, hnext]; exact hlast, hdone, ?_⟩
    rw [length_cons]
    omega

/-- Between two ranks or an open end there is always a rank, so cards can come in at any positions without end. -/
theorem between_ranks :
    (∀ low high, Bounds low high → ∃ rank, between low high = .ok rank ∧ Inside low high rank) ∧
      ∀ ranks, Ordered ranks → ∀ positions, ∃ ranks', insertAll positions ranks = .ok ranks' ∧ Ordered ranks' ∧
        ranks'.length = ranks.length + positions.length :=
  ⟨fun _ _ h => between_inside h, fun _ h positions => insertAll_ordered h positions⟩

/-- The column of the cards `a` and `b`. -/
theorem between_ranks_letters :
    (∃ rank, between (some (text "a")) (some (text "b")) = .ok rank ∧
        Inside (some (text "a")) (some (text "b")) rank) ∧
      ∃ ranks, insertAll [1, 1, 0] [text "a", text "b"] = .ok ranks ∧ Ordered ranks ∧ ranks.length = 5 := by
  have ha : IsRank (text "a") := ⟨by decide, by decide, by decide⟩
  have hb : IsRank (text "b") := ⟨by decide, by decide, by decide⟩
  constructor
  · exact between_ranks.1 _ _ ⟨by rintro l ⟨⟩; exact ha, by rintro h ⟨⟩; exact hb, by rintro l ⟨⟩ h ⟨⟩; decide⟩
  · exact between_ranks.2 _ ⟨by simp [ha, hb], by decide⟩ _

end Column

section Spread

theorem width_spec (count : ℕ) : 1 ≤ width count ∧ count < base ^ width count := Nat.find_spec (exists_width count)

theorem step_spec (count : ℕ) :
    0 < base ^ width count / (count + 1) ∧ count * (base ^ width count / (count + 1)) < base ^ width count := by
  have hfits := (width_spec count).2
  have hstep : 0 < base ^ width count / (count + 1) := Nat.div_pos hfits (Nat.succ_pos count)
  have hall := Nat.div_mul_le_self (base ^ width count) (count + 1)
  refine ⟨hstep, ?_⟩
  calc count * (base ^ width count / (count + 1)) < (count + 1) * (base ^ width count / (count + 1)) :=
        Nat.mul_lt_mul_of_pos_right (Nat.lt_succ_self count) hstep
    _ ≤ base ^ width count := by rwa [Nat.mul_comm]

theorem isRank_stripped {value width : ℕ} (hpos : 0 < value) (hfits : value < base ^ width) :
    IsRank ((digits value width).rdropWhile (· = 48)) := by
  have hne : DigitStrings.stripped 48 (digits value width) ≠ [] := by
    obtain ⟨d, hd, hd0⟩ := DigitStrings.exists_digit_ne_zero hpos hfits
    refine DigitStrings.stripped_ne_nil ⟨digitChar d, mem_map_of_mem hd, ?_⟩
    exact digitChar_ne_zero (Nat.pos_of_ne_zero hd0) (DigitStrings.digits_lt_base (by decide) hd)
  refine ⟨hne, fun char hchar => ?_, ?_⟩
  · obtain ⟨d, hd, rfl⟩ := mem_map.mp ((DigitStrings.stripped_sublist _).subset hchar)
    exact digitChar_mem (DigitStrings.digits_lt_base (by decide) hd)
  · intro hlast
    have hget := getLast?_eq_some_getLast hne
    exact DigitStrings.stripped_getLast _ hne (Option.some.inj (hget.symm.trans hlast))

theorem stripped_lt {value other width : ℕ} (h : value < other) (hfits : other < base ^ width) :
    (digits value width).rdropWhile (· = 48) < (digits other width).rdropWhile (· = 48) := by
  have hdigit : ∀ d ∈ DigitStrings.digits base value width, d < base := fun d => DigitStrings.digits_lt_base (by decide)
  change DigitStrings.stripped 48 _ < DigitStrings.stripped 48 _
  refine DigitStrings.stripped_lt ?_ ?_ ?_
  · intro char hchar
    obtain ⟨d, hd, rfl⟩ := mem_map.mp hchar
    exact le_of_mem_digits (digitChar_mem (hdigit d hd))
  · rw [digits, digits, length_map, length_map, DigitStrings.length_digits, DigitStrings.length_digits]
  · refine DigitStrings.map_lt_map (fun d e => digitChar_lt) hdigit ?_ (DigitStrings.digits_lt h hfits)
    exact fun d => DigitStrings.digits_lt_base (by decide)

theorem spread_ordered (count : ℕ) : Ordered (spread count) := by
  obtain ⟨hstep, hall⟩ := step_spec count
  have hindex : ∀ {index}, index ∈ List.range' 1 count →
      0 < index * (base ^ width count / (count + 1)) ∧ index * (base ^ width count / (count + 1)) < base ^ width count := by
    intro index hmem
    obtain ⟨hlow, hhigh⟩ := mem_range'_1.mp hmem
    refine ⟨Nat.mul_pos hlow hstep, lt_of_le_of_lt (Nat.mul_le_mul_right _ ?_) hall⟩
    omega
  constructor
  · intro rank hrank
    obtain ⟨index, hmem, rfl⟩ := mem_map.mp hrank
    exact isRank_stripped (hindex hmem).1 (hindex hmem).2
  · rw [spread, pairwise_map]
    refine List.Pairwise.imp_of_mem (fun {i j} _ hj hlt => ?_) pairwise_lt_range'
    exact stripped_lt (Nat.mul_lt_mul_of_pos_right hlt hstep) (hindex hj).2

/-- A fresh order has the asked number of ranks in ascending order, with room between any two neighbors and at the ends. -/
theorem spread_ranks (count : ℕ) :
    (spread count).length = count ∧ (∀ rank ∈ spread count, IsRank rank) ∧ (spread count).Pairwise (· < ·) ∧
      ∀ i, ∃ rank, between (spread count)[i]? (spread count)[i + 1]? = .ok rank ∧
        Inside (spread count)[i]? (spread count)[i + 1]? rank := by
  have hordered := spread_ordered count
  refine ⟨by simp [spread], hordered.isRank, hordered.sorted, fun i => between_inside ⟨?_, ?_, ?_⟩⟩
  · exact fun l hl => hordered.isRank l (mem_of_getElem? hl)
  · exact fun d hd => hordered.isRank d (mem_of_getElem? hd)
  · intro l hl d hd
    obtain ⟨hi, rfl⟩ := List.getElem?_eq_some_iff.mp hl
    obtain ⟨hj, rfl⟩ := List.getElem?_eq_some_iff.mp hd
    exact pairwise_iff_getElem.mp hordered.sorted i (i + 1) hi hj (Nat.lt_succ_self i)

end Spread

end Lexorank
