import StupaWorkflow.PyText

/-!
The `json` module of Python: `dumps` with ASCII output and `loads` as the C scanner reads it.
-/
namespace Py

inductive Json where
  | null
  | bool (b : Bool)
  | int (z : ℤ)
  | float (literal : Text)
  | str (s : Text)
  | arr (items : List Json)
  | obj (members : List (Text × Json))

namespace Json

inductive LoadsError where
  | invalid
  | recursion
  deriving DecidableEq

def isSpace (c : ℕ) : Bool := c == 32 || c == 9 || c == 10 || c == 13

def skipSpace (s : Text) : Text := s.dropWhile isSpace

def hexValue (c : ℕ) : Option ℕ :=
  if 48 ≤ c && c ≤ 57 then some (c - 48)
  else if 97 ≤ c && c ≤ 102 then some (c - 87)
  else if 65 ≤ c && c ≤ 70 then some (c - 55)
  else none

/-- Four hex digits of a `\u` escape. -/
def hex4 (a b c d : ℕ) : Option ℕ := do
  return ((← hexValue a) * 16 + (← hexValue b)) * 256 + (← hexValue c) * 16 + (← hexValue d)

def shortEscape (c : ℕ) : Option ℕ :=
  if c == 34 || c == 92 || c == 47 then some c
  else if c == 98 then some 8
  else if c == 102 then some 12
  else if c == 110 then some 10
  else if c == 114 then some 13
  else if c == 116 then some 9
  else none

/-- The text after an opening quote, up to and without its closing quote. A high
surrogate escape joins with a low one that follows it directly. -/
def scanString : Text → Option (Text × Text)
  | [] => none
  | 34 :: rest => some ([], rest)
  | 92 :: 117 :: a :: b :: c :: d :: rest =>
    match hex4 a b c d with
    | none => none
    | some high =>
      match rest with
      | 92 :: 117 :: a' :: b' :: c' :: d' :: rest' =>
        match hex4 a' b' c' d' with
        | none => none
        | some low =>
          if 0xD800 ≤ high && high ≤ 0xDBFF && 0xDC00 ≤ low && low ≤ 0xDFFF then
            (scanString rest').map fun (s, r) =>
              ((0x10000 + (high - 0xD800) * 0x400 + (low - 0xDC00)) :: s, r)
          else (scanString (92 :: 117 :: a' :: b' :: c' :: d' :: rest')).map fun (s, r) =>
            (high :: s, r)
      | rest => (scanString rest).map fun (s, r) => (high :: s, r)
  | 92 :: c :: rest =>
    match shortEscape c with
    | none => none
    | some e => (scanString rest).map fun (s, r) => (e :: s, r)
  | c :: rest => if c < 32 || c == 92 then none else (scanString rest).map fun (s, r) => (c :: s, r)

def scanFrac : Text → Text × Text
  | 46 :: rest =>
    match rest.takeWhile isDigit with
    | [] => ([], 46 :: rest)
    | ds => (46 :: ds, rest.dropWhile isDigit)
  | s => ([], s)

/-- An exponent: `e` or `E`, an optional sign and at least one digit. -/
def scanExp : Text → Text × Text
  | c :: rest =>
    if c == 101 || c == 69 then
      let sign := rest.takeWhile fun x => x == 43 || x == 45
      let tail := rest.drop sign.length
      match tail.takeWhile isDigit with
      | [] => ([], c :: rest)
      | ds => if sign.length ≤ 1 then (c :: sign ++ ds, tail.dropWhile isDigit) else ([], c :: rest)
    else ([], c :: rest)
  | [] => ([], [])

/-- The integer part: `0`, or digits that do not start with `0`. -/
def scanDigits : Text → Option (Text × Text)
  | 48 :: rest => some ([48], rest)
  | s =>
    match s.takeWhile isDigit with
    | [] => none
    | ds => some (ds, s.dropWhile isDigit)

def scanNumber (s : Text) : Except LoadsError (Json × Text) :=
  let (sign, body) := match s with
    | 45 :: rest => ([45], rest)
    | s => ([], s)
  match scanDigits body with
  | none => .error .invalid
  | some (ds, rest) =>
    let (frac, rest₁) := scanFrac rest
    let (exp, rest₂) := scanExp rest₁
    if frac.isEmpty && exp.isEmpty then
      if ds.length ≤ maxIntDigits then
        let n : ℤ := digitsValue ds
        .ok (.int (if sign.isEmpty then n else -n), rest₂)
      else .error .invalid
    else .ok (.float (sign ++ ds ++ frac ++ exp), rest₂)

/-- `d[key] = value`: a repeated key keeps its place and takes the last value. -/
def setMember (key : Text) (v : Json) : List (Text × Json) → List (Text × Json)
  | [] => [(key, v)]
  | (k, w) :: ms => if k = key then (k, v) :: ms else (k, w) :: setMember key v ms

/-- The items after `[` or `,`. The counter bounds the number of items by the
length of the text. -/
def scanItems (value : Text → Except LoadsError (Json × Text)) :
    ℕ → Text → Except LoadsError (List Json × Text)
  | 0, _ => .error .invalid
  | n + 1, s => do
      let (v, rest) ← value (skipSpace s)
      match skipSpace rest with
      | 93 :: rest' => return ([v], rest')
      | 44 :: rest' =>
        let (vs, rest'') ← scanItems value n rest'
        return (v :: vs, rest'')
      | _ => .error .invalid

/-- The members after `{` or `,`, added to the members read so far. -/
def scanMembers (value : Text → Except LoadsError (Json × Text)) :
    ℕ → List (Text × Json) → Text → Except LoadsError (List (Text × Json) × Text)
  | 0, _, _ => .error .invalid
  | n + 1, acc, s =>
    match skipSpace s with
    | 34 :: s' =>
      match scanString s' with
      | none => .error .invalid
      | some (key, rest) =>
        match skipSpace rest with
        | 58 :: rest' => do
            let (v, rest'') ← value (skipSpace rest')
            match skipSpace rest'' with
            | 125 :: tail => return (setMember key v acc, tail)
            | 44 :: tail => scanMembers value n (setMember key v acc) tail
            | _ => .error .invalid
        | _ => .error .invalid
    | _ => .error .invalid

/-- A literal word such as `null`. -/
def scanWord (word : Text) (v : Json) (s : Text) : Except LoadsError (Json × Text) :=
  if word <+: s then .ok (v, s.drop word.length) else .error .invalid

def scanOnce : ℕ → Text → Except LoadsError (Json × Text)
  | _, [] => .error .invalid
  | depth, c :: rest =>
    if c = 34 then
      match scanString rest with
      | none => .error .invalid
      | some (s, tail) => .ok (.str s, tail)
    else if c = 123 then
      match depth with
      | 0 => .error .recursion
      | depth + 1 =>
        match skipSpace rest with
        | 125 :: tail => .ok (.obj [], tail)
        | body => (scanMembers (scanOnce depth) body.length [] body).map fun (ms, tail) => (.obj ms, tail)
    else if c = 91 then
      match depth with
      | 0 => .error .recursion
      | depth + 1 =>
        match skipSpace rest with
        | 93 :: tail => .ok (.arr [], tail)
        | body => (scanItems (scanOnce depth) body.length body).map fun (vs, tail) => (.arr vs, tail)
    else if c = 110 then scanWord (text "null") .null (c :: rest)
    else if c = 116 then scanWord (text "true") (.bool true) (c :: rest)
    else if c = 102 then scanWord (text "false") (.bool false) (c :: rest)
    else if c = 78 then scanWord (text "NaN") (.float (text "NaN")) (c :: rest)
    else if c = 73 then scanWord (text "Infinity") (.float (text "Infinity")) (c :: rest)
    else if text "-Infinity" <+: c :: rest then
      .ok (.float (text "-Infinity"), (c :: rest).drop 9)
    else scanNumber (c :: rest)

def loads (depth : ℕ) (s : Text) : Except LoadsError Json :=
  if s.head? = some 0xFEFF then .error .invalid
  else do
    let (v, rest) ← scanOnce depth (skipSpace s)
    if skipSpace rest = [] then return v else .error .invalid

/-- `json.loads` of a text that is too short to reach the recursion limit. -/
def loadsAll (s : Text) : Except LoadsError Json := loads s.length s

def hexDigit (n : ℕ) : ℕ := if n < 10 then 48 + n else 87 + n

def unicodeEscape (c : ℕ) : Text :=
  [92, 117, hexDigit (c / 4096 % 16), hexDigit (c / 256 % 16), hexDigit (c / 16 % 16), hexDigit (c % 16)]

def escapeChar (c : ℕ) : Text :=
  if c = 34 then [92, 34]
  else if c = 92 then [92, 92]
  else if c = 10 then [92, 110]
  else if c = 13 then [92, 114]
  else if c = 9 then [92, 116]
  else if c = 12 then [92, 102]
  else if c = 8 then [92, 98]
  else if 32 ≤ c ∧ c ≤ 126 then [c]
  else if c < 0x10000 then unicodeEscape c
  else unicodeEscape (0xD800 + (c - 0x10000) / 0x400 % 0x400) ++ unicodeEscape (0xDC00 + (c - 0x10000) % 0x400)

def quote (s : Text) : Text := 34 :: s.flatMap escapeChar ++ [34]

mutual

/-- `json.dumps` with the separators of items and of keys. -/
def dumps (comma colon : Text) : Json → Text
  | .null => text "null"
  | .bool b => if b then text "true" else text "false"
  | .int z => intText z
  | .float s => s
  | .str s => quote s
  | .arr items => 91 :: dumpsItems comma colon items ++ [93]
  | .obj members => 123 :: dumpsMembers comma colon members ++ [125]

def dumpsItems (comma colon : Text) : List Json → Text
  | [] => []
  | [v] => dumps comma colon v
  | v :: vs => dumps comma colon v ++ comma ++ dumpsItems comma colon vs

def dumpsMembers (comma colon : Text) : List (Text × Json) → Text
  | [] => []
  | [(k, v)] => quote k ++ colon ++ dumps comma colon v
  | (k, v) :: ms => quote k ++ colon ++ dumps comma colon v ++ comma ++ dumpsMembers comma colon ms

end

end Json
end Py

namespace JsonLogic
open Py

mutual

/-- `repr(value)` works: no integer in it has too many digits. -/
def displays : Json → Bool
  | .int z => (decimal z.natAbs).length ≤ maxIntDigits
  | .arr items => displaysItems items
  | .obj members => displaysMembers members
  | _ => true

def displaysItems : List Json → Bool
  | [] => true
  | v :: vs => displays v && displaysItems vs

def displaysMembers : List (Text × Json) → Bool
  | [] => true
  | (_, v) :: ms => displays v && displaysMembers ms

end

end JsonLogic
