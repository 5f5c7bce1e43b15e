import Mathlib.Data.Rat.Floor
import Mathlib.Tactic.Positivity

/-!
Amounts of money in a column `Numeric(12, 2)`: a stored amount is rounded to whole
cents, half away from zero.
-/
namespace Decimals

def maxAmount : ℚ := 9999999999.99

def cents (q : ℚ) : ℚ := if 0 ≤ q then (⌊q * 100 + 1 / 2⌋ : ℤ) / 100 else -((⌊-q * 100 + 1 / 2⌋ : ℤ) / 100)

variable {q p : ℚ}

attribute [local simp] cents

theorem cents_nonneg (hq : 0 ≤ q) : 0 ≤ cents q := by
  have hfloor : 0 ≤ ⌊q * 100 + 1 / 2⌋ := Int.floor_nonneg.mpr (by linarith)
  rw [cents, if_pos hq]
  positivity

theorem cents_nonpos (hq : ¬ 0 ≤ q) : cents q ≤ 0 := by
  have hfloor : 0 ≤ ⌊-q * 100 + 1 / 2⌋ := Int.floor_nonneg.mpr (by linarith)
  rw [cents, if_neg hq, neg_nonpos]
  positivity

theorem cents_mono (hpq : p ≤ q) : cents p ≤ cents q := by
  by_cases hp : 0 ≤ p
  · have hfloor : ⌊p * 100 + 1 / 2⌋ ≤ ⌊q * 100 + 1 / 2⌋ := Int.floor_le_floor (by linarith)
    rw [cents, cents, if_pos hp, if_pos (hp.trans hpq)]
    exact div_le_div_of_nonneg_right (by exact_mod_cast hfloor) (by norm_num)
  · by_cases hq : 0 ≤ q
    · exact (cents_nonpos hp).trans (cents_nonneg hq)
    · have hfloor : ⌊-q * 100 + 1 / 2⌋ ≤ ⌊-p * 100 + 1 / 2⌋ := Int.floor_le_floor (by linarith)
      rw [cents, cents, if_neg hp, if_neg hq]
      exact neg_le_neg (div_le_div_of_nonneg_right (by exact_mod_cast hfloor) (by norm_num))

theorem cents_eq_self : cents q = q ↔ ∃ n : ℤ, q = n / 100 := by
  constructor
  · intro hround
    rw [cents] at hround
    split at hround
    · exact ⟨_, hround.symm⟩
    · refine ⟨-⌊-q * 100 + 1 / 2⌋, ?_⟩
      rw [Int.cast_neg, neg_div]
      exact hround.symm
  · rintro ⟨n, rfl⟩
    have hfloor : ∀ z : ℤ, ⌊(z : ℚ) / 100 * 100 + 1 / 2⌋ = z := by
      intro z
      rw [div_mul_cancel₀ _ (by norm_num), Int.floor_eq_iff]
      constructor <;> linarith
    rw [cents]
    split
    · rw [hfloor]
    · have hneg : -((n : ℚ) / 100) = ((-n : ℤ) : ℚ) / 100 := by
        push_cast
        ring
      rw [hneg, hfloor]
      push_cast
      ring

theorem cents_idem (q : ℚ) : cents (cents q) = cents q := by
  rw [cents_eq_self, cents]
  split
  · exact ⟨_, rfl⟩
  · refine ⟨-⌊-q * 100 + 1 / 2⌋, ?_⟩
    push_cast
    ring

theorem cents_sub (hp : cents p = p) (hq : cents q = q) : cents (p - q) = p - q := by
  obtain ⟨m, rfl⟩ := cents_eq_self.mp hp
  obtain ⟨n, rfl⟩ := cents_eq_self.mp hq
  refine cents_eq_self.mpr ⟨m - n, ?_⟩
  push_cast
  ring

theorem cents_sum {amounts : List ℚ} (h : ∀ a ∈ amounts, cents a = a) : cents amounts.sum = amounts.sum := by
  rw [cents_eq_self]
  induction amounts with
  | nil => exact ⟨0, by simp⟩
  | cons a amounts ih =>
    obtain ⟨n, hn⟩ := ih fun b hb => h b (List.mem_cons_of_mem _ hb)
    obtain ⟨m, hm⟩ := cents_eq_self.mp (h a List.mem_cons_self)
    refine ⟨m + n, ?_⟩
    rw [List.sum_cons, hm, hn]
    push_cast
    ring

theorem cents_le (hpq : p ≤ q) (hq : cents q = q) : cents p ≤ q := hq ▸ cents_mono hpq

theorem le_cents (hpq : p ≤ q) (hp : cents p = p) : p ≤ cents q := hp ▸ cents_mono hpq

end Decimals
