import StupaWorkflow.GuardModel

/-!
The JsonLogic subset behind `visibleIf` and `compute`: the walk of the validator at save time and
the evaluation. An expression is a literal or an object with one operator.
-/
namespace JsonLogic
open Py

abbrev Members := List (Text × Json)

def maxDepth : ℕ := 64

inductive Operator where
  | eq | ne | gt | ge | lt | le | and | or | not | add | subtract | multiply | divide | isIn
  deriving DecidableEq

/-- The keys of `_EVALUATORS`. -/
def Operator.ofKey (key : Text) : Option Operator :=
  [(text "==", Operator.eq), (text "!=", .ne), (text ">", .gt), (text ">=", .ge), (text "<", .lt), (text "<=", .le),
    (text "and", .and), (text "or", .or), (text "not", .not), (text "+", .add), (text "-", .subtract),
    (text "*", .multiply), (text "/", .divide), (text "in", .isIn)].lookup key

def varKey : Text := text "var"

/-- `JSONLOGIC_OPERATORS`. -/
def isOperator (key : Text) : Bool := (Operator.ofKey key).isSome || key = varKey

inductive LogicError where
  | tooDeep
  | oneOperator (keys : List Text)
  | unknownOperator (key : Text)
  | operands (op : Operator)
  | number
  | divisionByZero
  | haystack
  | varPath
  deriving DecidableEq

/-- What Python raises; only the first is a `JsonLogicError`. -/
inductive Raised where
  | logic (e : LogicError)
  | typeError
  | valueError
  | overflowError
  deriving DecidableEq

/-- The arithmetic of the `float` type on the texts of its numbers. Two numbers are
summed and multiplied as `sum` and `math.prod` do, with rounding of their own. -/
structure Floats extends Guards.Builtins where
  ofInt : ℤ → Text
  negate : Text → Text
  subtract : Text → Text → Text
  divide : Text → Text → Text
  sum : List Text → Text
  product : List Text → Text
  less : Text → Text → Bool
  same : Text → Text → Bool
  sameInt : Text → ℤ → Bool

/-- The integers that round to no finite double. -/
def overflows (z : ℤ) : Bool := 2 ^ 1024 - 2 ^ 970 ≤ z.natAbs

section Values

variable (F : Floats)

def num : Json → Except Raised Text
  | .int z => if overflows z then .error .overflowError else .ok (F.ofInt z)
  | .float literal => .ok literal
  | v => if displays v then .error (.logic .number) else .error .valueError

def intOfBool (b : Bool) : ℤ := if b then 1 else 0

mutual

/-- `left == right`: booleans are numbers, and objects have no order. -/
def equal : Json → Json → Bool
  | .null, .null => true
  | .bool b, .bool c => b = c
  | .bool b, .int z => intOfBool b = z
  | .bool b, .float t => F.sameInt t (intOfBool b)
  | .int z, .bool b => z = intOfBool b
  | .int z, .int w => z = w
  | .int z, .float t => F.sameInt t z
  | .float t, .bool b => F.sameInt t (intOfBool b)
  | .float t, .int z => F.sameInt t z
  | .float t, .float u => F.same t u
  | .str s, .str t => s = t
  | .arr vs, .arr ws => equalItems vs ws
  | .obj ms, .obj ns => ms.length = ns.length && equalMembers ms ns
  | _, _ => false

def equalItems : List Json → List Json → Bool
  | [], [] => true
  | v :: vs, w :: ws => equal v w && equalItems vs ws
  | _, _ => false

def equalMembers : List (Text × Json) → List (Text × Json) → Bool
  | [], _ => true
  | (k, v) :: ms, ns =>
    (match ns.lookup k with
      | some w => equal v w
      | none => false) && equalMembers ms ns

end

/-- `bool(value)`. -/
def truthy (v : Json) : Bool := Guards.truthy F.toBuiltins v

/-- `needle in haystack` of two texts. -/
def isInfix (needle : Text) : Text → Bool
  | [] => needle.isEmpty
  | c :: rest => needle.isPrefixOf (c :: rest) || isInfix needle rest

/-- A comparison of two operands that `_num` coerces. -/
def compare (op : Operator) (holds : Text → Text → Bool) : List Json → Except Raised Json
  | [a, b] => do
      let x ← num F a
      let y ← num F b
      return .bool (holds x y)
  | _ => .error (.logic (.operands op))

def evalSubtract : List Json → Except Raised Json
  | [a] => do
      let x ← num F a
      return .float (F.negate x)
  | [a, b] => do
      let x ← num F a
      let y ← num F b
      return .float (F.subtract x y)
  | _ => .error (.logic (.operands .subtract))

def evalDivide : List Json → Except Raised Json
  | [a, b] => do
      let divisor ← num F b
      if F.floatIsZero divisor then .error (.logic .divisionByZero)
      else do
        let x ← num F a
        return .float (F.divide x divisor)
  | _ => .error (.logic (.operands .divide))

def evalIn : List Json → Except Raised Json
  | [needle, .arr items] => .ok (.bool (items.any (equal F needle)))
  | [.str needle, .str haystack] => .ok (.bool (isInfix needle haystack))
  | [_, .str _] => .error .typeError
  | [_, _] => .error (.logic .haystack)
  | _ => .error (.logic (.operands .isIn))

def evalAdd (args : List Json) : Except Raised Json :=
  if args = [] then .error (.logic (.operands .add)) else (args.mapM (num F)).map fun xs => .float (F.sum xs)

def evalMultiply (args : List Json) : Except Raised Json :=
  if args = [] then .error (.logic (.operands .multiply)) else (args.mapM (num F)).map fun xs => .float (F.product xs)

/-- `_EVALUATORS`. -/
def evaluator (op : Operator) (args : List Json) : Except Raised Json :=
  match op, args with
  | .eq, [a, b] => .ok (.bool (equal F a b))
  | .ne, [a, b] => .ok (.bool (!equal F a b))
  | .gt, args => compare F .gt (fun x y => F.less y x) args
  | .ge, args => compare F .ge (fun x y => F.less y x || F.same x y) args
  | .lt, args => compare F .lt F.less args
  | .le, args => compare F .le (fun x y => F.less x y || F.same x y) args
  | .and, args => .ok (.bool (args.all (truthy F)))
  | .or, args => .ok (.bool (args.any (truthy F)))
  | .not, [a] => .ok (.bool (!truthy F a))
  | .add, args => evalAdd F args
  | .subtract, args => evalSubtract F args
  | .multiply, args => evalMultiply F args
  | .divide, args => evalDivide F args
  | .isIn, args => evalIn F args
  | op, _ => .error (.logic (.operands op))

end Values

section Var

/-- Split the argument of `var` into the path and the fallback. -/
def varSpec : Json → Json × Json
  | .arr [] => (.str [], .null)
  | .arr [path] => (path, .null)
  | .arr (path :: fallback :: _) => (path, fallback)
  | path => (path, .null)

/-- Go down one path segment; `none` is `_MISSING`. A segment of digits that is no
decimal number raises at a list. -/
def step (current : Option Json) (part : Text) : Except Raised (Option Json) :=
  match current with
  | some (.obj members) => .ok (members.lookup part)
  | some (.arr items) =>
    if isDigitText part then
      match intOfDigits part with
      | some i => .ok items[i]?
      | none => .error .valueError
    else .ok none
  | _ => .ok none

def resolveVar (path : Json) (ctx : Members) : Except Raised Json :=
  match varSpec path with
  | (.null, _) => .ok (.obj ctx)
  | (.str target, fallback) =>
    if target = [] then .ok (.obj ctx)
    else do
      let resolved ← (splitOn 46 target).foldlM step (some (.obj ctx))
      return resolved.getD fallback
  | _ => .error (.logic .varPath)

end Var

def asArgs : Json → List Json
  | .arr items => items
  | v => [v]

/-- `eval_jsonlogic` with the nesting that is left. -/
def evalWith (F : Floats) (ctx : Members) : ℕ → Json → Except Raised Json
  | 0, .obj _ => .error (.logic .tooDeep)
  | left + 1, .obj members =>
    match members with
    | [(key, raw)] =>
      if key = varKey then resolveVar raw ctx
      else
        match Operator.ofKey key with
        | none => .error (.logic (.unknownOperator key))
        | some op => do
            let args ← (asArgs raw).mapM (evalWith F ctx left)
            evaluator F op args
    | _ => .error (.logic (.oneOperator (members.map (·.1))))
  | _, v => .ok v

def evalJsonlogic (F : Floats) (expr : Json) (ctx : Members) : Except Raised Json := evalWith F ctx maxDepth expr

/-- `validate_jsonlogic` with the nesting that is left. -/
def validateWith : ℕ → Json → Except LogicError Unit
  | 0, .obj _ => .error .tooDeep
  | left + 1, .obj members =>
    match members with
    | [(key, raw)] =>
      if !isOperator key then .error (.unknownOperator key)
      else if key = varKey then .ok ()
      else (asArgs raw).forM (validateWith left)
    | _ => .error (.oneOperator (members.map (·.1)))
  | _, _ => .ok ()

def validateJsonlogic (expr : Json) : Except LogicError Unit := validateWith maxDepth expr

section Whole

def wholeValue : Text → ℤ
  | 45 :: digits => -(digitsValue (digits.takeWhile isDigit))
  | digits => digitsValue (digits.takeWhile isDigit)

def wholeText (z : ℤ) : Text := intText z ++ text ".0"

/-- The arithmetic of the doubles on small whole numbers whose quotients are whole. -/
def wholeFloats : Floats where
  floatText := fun literal => literal
  floatIsZero := fun literal => wholeValue literal = 0
  display := fun _ => none
  ofInt := wholeText
  negate := fun x => wholeText (-wholeValue x)
  subtract := fun x y => wholeText (wholeValue x - wholeValue y)
  divide := fun x y => wholeText (wholeValue x / wholeValue y)
  sum := fun xs => wholeText (xs.map wholeValue).sum
  product := fun xs => wholeText (xs.map wholeValue).prod
  less := fun x y => wholeValue x < wholeValue y
  same := fun x y => wholeValue x = wholeValue y
  sameInt := fun x z => wholeValue x = z

example : evalJsonlogic wholeFloats (.obj [(text "in", .arr [.str (text "b"), .obj [(varKey, .str (text "x"))]])])
    [(text "x", .arr [.str (text "a"), .str (text "b")])] = .ok (.bool true) := rfl

end Whole

end JsonLogic
