import Mathlib.Algebra.Group.Nat.Defs
import Mathlib.Data.List.DropRight
import Mathlib.Data.List.Lex
import Mathlib.Order.Lattice

/-!
Strings of digits in their lexicographic order. Strings of one width are ordered as
the numbers they write, and they stay so without the least digit at their ends.
-/
namespace DigitStrings
open List

section Width

variable {base : ℕ}
variable {value width other : ℕ}

def digits (base value width : ℕ) : List ℕ := (List.range width).reverse.map fun place => value / base ^ place % base

theorem digits_succ (value width : ℕ) :
    digits base value (width + 1) = value / base ^ width % base :: digits base value width := by
  rw [digits, range_succ, reverse_append, reverse_singleton, singleton_append, map_cons, digits]

theorem length_digits (value width : ℕ) : (digits base value width).length = width := by
  rw [digits, length_map, length_reverse, length_range]

theorem digits_lt_base (hbase : 0 < base) {d : ℕ} (hd : d ∈ digits base value width) : d < base := by
  obtain ⟨place, _, rfl⟩ := mem_map.mp hd
  exact Nat.mod_lt _ hbase

theorem digits_lt_of_mod (h : value % base ^ width < other % base ^ width) :
    digits base value width < digits base other width := by
  induction width with
  | zero => simp [Nat.mod_one] at h
  | succ width ih =>
    rw [digits_succ, digits_succ, cons_lt_cons_iff]
    rw [Nat.mod_pow_succ, Nat.mod_pow_succ] at h
    rcases lt_trichotomy (value / base ^ width % base) (other / base ^ width % base) with hlt | heq | hgt
    · exact .inl hlt
    · rw [heq, Nat.add_lt_add_iff_right] at h
      exact .inr ⟨heq, ih h⟩
    · -- a smaller first digit outweighs all the digits behind it
      rcases Nat.eq_zero_or_pos (base ^ width) with hzero | hpos
      · simp [hzero] at hgt
      · have hrest : value % base ^ width + base ^ width * (value / base ^ width % base) ≥
            base ^ width * (other / base ^ width % base + 1) :=
          (Nat.mul_le_mul_left _ hgt).trans (Nat.le_add_left _ _)
        have hmod := Nat.mod_lt other hpos
        rw [Nat.mul_add, Nat.mul_one] at hrest
        omega

theorem digits_lt (h : value < other) (hfits : other < base ^ width) : digits base value width < digits base other width := by
  apply digits_lt_of_mod
  rwa [Nat.mod_eq_of_lt (h.trans hfits), Nat.mod_eq_of_lt hfits]

theorem exists_digit_ne_zero (hpos : 0 < value) (hfits : value < base ^ width) : ∃ d ∈ digits base value width, d ≠ 0 := by
  induction width generalizing value with
  | zero => simp at hfits; omega
  | succ width ih =>
    rw [digits_succ]
    by_cases hlead : value / base ^ width % base = 0
    · have hmod : value % base ^ width = value := by
        have := Nat.mod_pow_succ (x := value) (b := base) (k := width)
        rw [Nat.mod_eq_of_lt hfits, hlead, Nat.mul_zero, Nat.add_zero] at this
        exact this.symm
      have hlow : value < base ^ width := by
        rcases Nat.eq_zero_or_pos (base ^ width) with hzero | hposw
        · rw [Nat.pow_succ, hzero, Nat.zero_mul] at hfits
          omega
        · rw [← hmod]
          exact Nat.mod_lt _ hposw
      obtain ⟨d, hd, hne⟩ := ih hpos hlow
      exact ⟨d, mem_cons_of_mem _ hd, hne⟩
    · exact ⟨_, mem_cons_self, hlead⟩

end Width

section Order

variable {Sym : Type*} [LinearOrder Sym]

theorem map_lt_map {digit : ℕ → Sym} {base : ℕ} (hdigit : ∀ d e, d < e → e < base → digit d < digit e) {a b : List ℕ}
    (ha : ∀ d ∈ a, d < base) (hb : ∀ d ∈ b, d < base) (h : a < b) : a.map digit < b.map digit := by
  induction a generalizing b with
  | nil =>
    cases b with
    | nil => exact absurd h (not_lt_nil _)
    | cons e b => exact nil_lt_cons _ _
  | cons d a ih =>
    cases b with
    | nil => exact absurd h (not_lt_nil _)
    | cons e b =>
      rw [map_cons, map_cons, cons_lt_cons_iff]
      rcases cons_lt_cons_iff.mp h with hlt | ⟨rfl, hrest⟩
      · exact .inl (hdigit d e hlt (hb e mem_cons_self))
      · refine .inr ⟨rfl, ih ?_ ?_ hrest⟩
        · exact fun x hx => ha x (mem_cons_of_mem d hx)
        · exact fun x hx => hb x (mem_cons_of_mem d hx)

theorem append_lt_append (pre : List Sym) {a b : List Sym} (h : a < b) : pre ++ a < pre ++ b := by
  induction pre with
  | nil => exact h
  | cons x pre ih => exact cons_lt_cons_iff.mpr (.inr ⟨rfl, ih⟩)

variable {zero : Sym}

/-- The string without the least digit at its end. -/
def stripped (zero : Sym) (s : List Sym) : List Sym := s.rdropWhile (· = zero)

theorem stripped_cons (x : Sym) (s : List Sym) :
    stripped zero (x :: s) = if stripped zero s = [] ∧ x = zero then [] else x :: stripped zero s := by
  induction s using List.reverseRecOn with
  | nil => by_cases hx : x = zero <;> simp [stripped, rdropWhile_singleton, hx]
  | append_singleton s y ih =>
    rw [stripped, stripped, ← cons_append]
    by_cases hy : y = zero
    · rw [rdropWhile_concat_pos _ _ _ (by simpa using hy), rdropWhile_concat_pos _ _ _ (by simpa using hy)]
      exact ih
    · rw [rdropWhile_concat_neg _ _ _ (by simpa using hy), rdropWhile_concat_neg _ _ _ (by simpa using hy)]
      simp

theorem stripped_sublist (s : List Sym) : (stripped zero s).Sublist s := (List.rdropWhile_prefix _ s).sublist

theorem stripped_getLast (s : List Sym) (h : stripped zero s ≠ []) : (stripped zero s).getLast h ≠ zero := by
  simpa [stripped] using rdropWhile_last_not (fun x => decide (x = zero)) s h

theorem stripped_ne_nil {s : List Sym} (h : ∃ x ∈ s, x ≠ zero) : stripped zero s ≠ [] := by
  obtain ⟨x, hx, hne⟩ := h
  intro hnil
  exact hne (by simpa using rdropWhile_eq_nil_iff.mp hnil x hx)

theorem stripped_lt {a b : List Sym} (hzero : ∀ x ∈ a, zero ≤ x) (hlen : a.length = b.length) (h : a < b) :
    stripped zero a < stripped zero b := by
  induction a generalizing b with
  | nil =>
    cases b with
    | nil => exact absurd h (not_lt_nil _)
    | cons y b => simp at hlen
  | cons x a ih =>
    cases b with
    | nil => simp at hlen
    | cons y b =>
      rw [stripped_cons, stripped_cons]
      rcases cons_lt_cons_iff.mp h with hlt | ⟨rfl, hrest⟩
      · have hy : ¬ (stripped zero b = [] ∧ y = zero) := fun hy =>
          absurd (hy.2 ▸ hlt) (not_lt.mpr (hzero x mem_cons_self))
        rw [if_neg hy]
        split
        · exact nil_lt_cons _ _
        · exact cons_lt_cons_iff.mpr (.inl hlt)
      · have htail := ih (fun z hz => hzero z (mem_cons_of_mem x hz)) (by simpa using hlen) hrest
        have hb : ¬ (stripped zero b = [] ∧ x = zero) := fun hb => not_lt_nil _ (hb.1 ▸ htail)
        rw [if_neg hb]
        split
        · exact nil_lt_cons _ _
        · exact cons_lt_cons_iff.mpr (.inr ⟨rfl, htail⟩)

end Order

end DigitStrings
