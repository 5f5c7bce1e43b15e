import StupaWorkflow.PyDecimal

/-!
The addition of the default context of the `decimal` module: the exact sum, rounded half to even
to 28 digits, with the exponents of the context.
-/
namespace Py

structure FiniteDecimal where
  coefficient : ℤ
  exponent : ℤ
  deriving DecidableEq

namespace FiniteDecimal

/-- `prec`. -/
def precision : ℕ := 28

/-- `Emax`. -/
def maxAdjusted : ℤ := 999999

/-- `Etiny`: the exponent of the last digit of the smallest number. -/
def tiny : ℤ := -1000026

def zero : FiniteDecimal := ⟨0, 0⟩

/-- The finite numbers of the `Decimal` type. -/
def ofDecimal : Decimal → Option FiniteDecimal
  | .finite c e => some ⟨c, e⟩
  | _ => none

def adjusted (c e : ℤ) : ℤ := e + (decimal c.natAbs).length - 1

/-- A number without its last digits, the nearest one and the even one of two. -/
def halfEven (n digits : ℕ) : ℕ :=
  let unit := 10 ^ digits
  if unit < 2 * (n % unit) ∨ (unit = 2 * (n % unit) ∧ n / unit % 2 = 1) then n / unit + 1 else n / unit

def rounded (c e : ℤ) : FiniteDecimal :=
  if c = 0 then ⟨0, min (max e tiny) maxAdjusted⟩
  else
    let target := max (max e (adjusted c e - (precision - 1))) tiny
    if target = e then ⟨c, e⟩
    else
      let n := halfEven c.natAbs (target - e).toNat
      if n = 10 ^ precision then ⟨c.sign * 10 ^ (precision - 1), target + 1⟩ else ⟨c.sign * n, target⟩

def roundedSum (a b : FiniteDecimal) : FiniteDecimal :=
  let e := min a.exponent b.exponent
  rounded (a.coefficient * 10 ^ (a.exponent - e).toNat + b.coefficient * 10 ^ (b.exponent - e).toNat) e

def isTooLarge (d : FiniteDecimal) : Bool := d.coefficient ≠ 0 && maxAdjusted < adjusted d.coefficient d.exponent

/-- `a + b`; `none` is the `Overflow`. -/
def add (a b : FiniteDecimal) : Option FiniteDecimal := if (roundedSum a b).isTooLarge then none else some (roundedSum a b)

def compare (a b : FiniteDecimal) : Ordering := Decimal.compareFinite a.coefficient a.exponent b.coefficient b.exponent

def isNegative (d : FiniteDecimal) : Bool := d.coefficient < 0

example : add ⟨15, -1⟩ ⟨250, -2⟩ = some ⟨400, -2⟩ := by decide

end FiniteDecimal
end Py
