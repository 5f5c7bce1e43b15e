import StupaWorkflow.PyText

/-!
The `decimal` module of Python: the exact reading of a text and the comparisons. A number keeps
its coefficient and its exponent.
-/
namespace Py

inductive Decimal where
  | finite (coefficient : ℤ) (exponent : ℤ)
  | infinity (negative : Bool)
  | nan (signaling : Bool)
  deriving DecidableEq

namespace Decimal

/-- `MAX_EMAX`, and `MIN_ETINY` without its sign. -/
def maxExponent : ℤ := 999999999999999999

def minExponent : ℤ := -1999999999999999997

def readExponent : Text → Option ℤ
  | [] => some 0
  | c :: rest =>
    let (negative, ds) := match rest with
      | 45 :: ds => (true, ds)
      | 43 :: ds => (false, ds)
      | ds => (false, ds)
    if c = 101 && !ds.isEmpty && ds.all isDigit then
      some (if negative then -(digitsValue ds : ℤ) else digitsValue ds)
    else none

/-- The value fits the largest context without rounding. -/
def inRange (coefficient : ℕ) (exponent : ℤ) : Bool :=
  minExponent ≤ exponent && exponent + ((decimal coefficient).length - 1 : ℤ) ≤ maxExponent

def readNumber (negative : Bool) (s : Text) : Option Decimal :=
  let whole := s.takeWhile isDigit
  let rest := s.dropWhile isDigit
  let (fraction, tail) := match rest with
    | 46 :: rest => (rest.takeWhile isDigit, rest.dropWhile isDigit)
    | rest => ([], rest)
  let coefficient := digitsValue (whole ++ fraction)
  if whole.isEmpty && fraction.isEmpty then none
  else
    (readExponent tail).bind fun e =>
      let exponent := e - fraction.length
      if inRange coefficient exponent then some (.finite (if negative then -(coefficient : ℤ) else coefficient) exponent)
      else none

def readUnsigned (negative : Bool) (s : Text) : Option Decimal :=
  if text "nan" <+: s && (s.drop 3).all isDigit then some (.nan false)
  else if text "snan" <+: s && (s.drop 4).all isDigit then some (.nan true)
  else if s = text "inf" || s = text "infinity" then some (.infinity negative)
  else readNumber negative s

def asciiDigit (c : ℕ) : ℕ :=
  match decimalValue c with
  | some d => 48 + d
  | none => c

/-- `Decimal(s)`; `none` is the `InvalidOperation`. Space around the text and every
underscore are dropped. -/
def ofText (s : Text) : Option Decimal :=
  match asciiLower (((strip s).filter (· ≠ 95)).map asciiDigit) with
  | 45 :: rest => readUnsigned true rest
  | 43 :: rest => readUnsigned false rest
  | rest => readUnsigned false rest

def isNan : Decimal → Bool
  | .nan _ => true
  | _ => false

def isSnan : Decimal → Bool
  | .nan signaling => signaling
  | _ => false

def compareFinite (c e c' e' : ℤ) : Ordering :=
  compare (c * 10 ^ (e - min e e').toNat) (c' * 10 ^ (e' - min e e').toNat)

def order : Decimal → Decimal → Option Ordering
  | .nan _, _ => none
  | _, .nan _ => none
  | .finite c e, .finite c' e' => some (compareFinite c e c' e')
  | .infinity n, .infinity n' => some (compare n' n)
  | .infinity n, .finite _ _ => some (if n then .lt else .gt)
  | .finite _ _, .infinity n => some (if n then .gt else .lt)

theorem order_none {a b : Decimal} : order a b = none ↔ (a.isNan || b.isNan) = true := by
  cases a <;> cases b <;> simp [order, isNan]

theorem isNan_of_isSnan {a : Decimal} (h : a.isSnan = true) : a.isNan = true := by
  cases a with
  | nan => rfl
  | _ => cases h

end Decimal
end Py
