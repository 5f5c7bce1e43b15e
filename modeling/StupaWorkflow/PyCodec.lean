import StupaWorkflow.Json

/-!
Byte codecs of the Python standard library: UTF-8, UTF-16 and UTF-32 as
`json.loads` picks them for bytes, strict base64, and the percent decoding of a
URL query. A byte is a number below 256.
-/
namespace Py

def utf8Char (c : ℕ) : Option (List ℕ) :=
  if c < 0x80 then some [c]
  else if c < 0x800 then some [0xC0 + c / 0x40, 0x80 + c % 0x40]
  else if 0xD800 ≤ c ∧ c < 0xE000 then none
  else if c < 0x10000 then some [0xE0 + c / 0x1000, 0x80 + c / 0x40 % 0x40, 0x80 + c % 0x40]
  else if c < 0x110000 then
    some [0xF0 + c / 0x40000, 0x80 + c / 0x1000 % 0x40, 0x80 + c / 0x40 % 0x40, 0x80 + c % 0x40]
  else none

/-- `s.encode("utf-8")`; `none` is the `UnicodeEncodeError`. -/
def utf8Encode : Text → Option (List ℕ)
  | [] => some []
  | c :: cs => do return (← utf8Char c) ++ (← utf8Encode cs)

def isCont (b : ℕ) : Bool := 0x80 ≤ b && b ≤ 0xBF

def secondOk (surrogates : Bool) (a b : ℕ) : Bool :=
  if a == 0xE0 then 0xA0 ≤ b && b ≤ 0xBF
  else if a == 0xED then 0x80 ≤ b && (b ≤ 0x9F || (surrogates && b ≤ 0xBF))
  else if a == 0xF0 then 0x90 ≤ b && b ≤ 0xBF
  else if a == 0xF4 then 0x80 ≤ b && b ≤ 0x8F
  else isCont b

def join2 (a b : ℕ) : ℕ := (a - 0xC0) * 0x40 + (b - 0x80)
def join3 (a b c : ℕ) : ℕ := ((a - 0xE0) * 0x40 + (b - 0x80)) * 0x40 + (c - 0x80)
def join4 (a b c d : ℕ) : ℕ := (((a - 0xF0) * 0x40 + (b - 0x80)) * 0x40 + (c - 0x80)) * 0x40 + (d - 0x80)

/-- UTF-8 with the error handler `surrogatepass`. -/
def utf8Decode : List ℕ → Option Text
  | [] => some []
  | a :: rest =>
    if a < 0x80 then (utf8Decode rest).map (a :: ·)
    else if 0xC2 ≤ a ∧ a ≤ 0xDF then
      match rest with
      | b :: rest₁ => if isCont b then (utf8Decode rest₁).map (join2 a b :: ·) else none
      | _ => none
    else if 0xE0 ≤ a ∧ a ≤ 0xEF then
      match rest with
      | b :: c :: rest₂ =>
        if secondOk true a b && isCont c then (utf8Decode rest₂).map (join3 a b c :: ·) else none
      | _ => none
    else if 0xF0 ≤ a ∧ a ≤ 0xF4 then
      match rest with
      | b :: c :: d :: rest₃ =>
        if secondOk true a b && isCont c && isCont d then (utf8Decode rest₃).map (join4 a b c d :: ·)
        else none
      | _ => none
    else none

/-- UTF-8 with the error handler `replace`: one U+FFFD for each broken start. -/
def utf8Replace : List ℕ → Text
  | [] => []
  | a :: rest =>
    if a < 0x80 then a :: utf8Replace rest
    else if 0xC2 ≤ a ∧ a ≤ 0xDF then
      match rest with
      | b :: rest₁ => if isCont b then join2 a b :: utf8Replace rest₁ else 0xFFFD :: utf8Replace (b :: rest₁)
      | [] => [0xFFFD]
    else if 0xE0 ≤ a ∧ a ≤ 0xEF then
      match rest with
      | b :: c :: rest₂ =>
        if !secondOk false a b then 0xFFFD :: utf8Replace (b :: c :: rest₂)
        else if isCont c then join3 a b c :: utf8Replace rest₂
        else 0xFFFD :: utf8Replace (c :: rest₂)
      | [b] => if secondOk false a b then [0xFFFD] else 0xFFFD :: utf8Replace [b]
      | [] => [0xFFFD]
    else if 0xF0 ≤ a ∧ a ≤ 0xF4 then
      match rest with
      | b :: c :: d :: rest₃ =>
        if !secondOk false a b then 0xFFFD :: utf8Replace (b :: c :: d :: rest₃)
        else if !isCont c then 0xFFFD :: utf8Replace (c :: d :: rest₃)
        else if isCont d then join4 a b c d :: utf8Replace rest₃
        else 0xFFFD :: utf8Replace (d :: rest₃)
      | [b, c] =>
        if !secondOk false a b then 0xFFFD :: utf8Replace [b, c]
        else if isCont c then [0xFFFD] else 0xFFFD :: utf8Replace [c]
      | [b] => if secondOk false a b then [0xFFFD] else 0xFFFD :: utf8Replace [b]
      | [] => [0xFFFD]
    else 0xFFFD :: utf8Replace rest

/-- The 16-bit units of an even number of bytes. -/
def units16 (big : Bool) : List ℕ → Option (List ℕ)
  | [] => some []
  | [_] => none
  | a :: b :: rest => (units16 big rest).map ((if big then a * 256 + b else b * 256 + a) :: ·)

def joinSurrogates : List ℕ → Text
  | [] => []
  | [u] => [u]
  | u :: w :: rest =>
    if 0xD800 ≤ u ∧ u ≤ 0xDBFF ∧ 0xDC00 ≤ w ∧ w ≤ 0xDFFF then
      (0x10000 + (u - 0xD800) * 0x400 + (w - 0xDC00)) :: joinSurrogates rest
    else u :: joinSurrogates (w :: rest)

def utf16Decode (big : Bool) (bytes : List ℕ) : Option Text := (units16 big bytes).map joinSurrogates

def utf32Decode (big : Bool) : List ℕ → Option Text
  | [] => some []
  | a :: b :: c :: d :: rest =>
    let code := if big then ((a * 256 + b) * 256 + c) * 256 + d else ((d * 256 + c) * 256 + b) * 256 + a
    if code < 0x110000 then (utf32Decode big rest).map (code :: ·) else none
  | _ => none

/-- The text of JSON bytes: `detect_encoding`, then a decode with `surrogatepass`. -/
def decodeJsonBytes (bytes : List ℕ) : Option Text :=
  match bytes with
  | 0 :: 0 :: 0xFE :: 0xFF :: rest => utf32Decode true rest
  | 0xFF :: 0xFE :: 0 :: 0 :: rest => utf32Decode false rest
  | 0xFE :: 0xFF :: rest => utf16Decode true rest
  | 0xFF :: 0xFE :: rest => utf16Decode false rest
  | 0xEF :: 0xBB :: 0xBF :: rest => utf8Decode rest
  | a :: b :: c :: d :: _ =>
    if a = 0 then if b = 0 then utf32Decode true bytes else utf16Decode true bytes
    else if b = 0 then
      if c = 0 ∧ d = 0 then utf32Decode false bytes else utf16Decode false bytes
    else utf8Decode bytes
  | [a, b] => if a = 0 then utf16Decode true bytes else if b = 0 then utf16Decode false bytes else utf8Decode bytes
  | _ => utf8Decode bytes

/-- `json.loads` of bytes. -/
def loadsBytes (depth : ℕ) (bytes : List ℕ) : Except Json.LoadsError Json :=
  match decodeJsonBytes bytes with
  | none => .error .invalid
  | some s => Json.loads depth s

def base64Value (c : ℕ) : Option ℕ :=
  if 65 ≤ c ∧ c ≤ 90 then some (c - 65)
  else if 97 ≤ c ∧ c ≤ 122 then some (c - 71)
  else if 48 ≤ c ∧ c ≤ 57 then some (c + 4)
  else if c = 43 then some 62
  else if c = 47 then some 63
  else none

def base64Char (n : ℕ) : ℕ :=
  if n < 26 then 65 + n
  else if n < 52 then 71 + n
  else if n < 62 then n - 4
  else if n = 62 then 43
  else 47

/-- `base64.b64decode(s, validate=True)`: groups of four characters, with the
padding at the end of the last group only. -/
def b64decode : Text → Option (List ℕ)
  | [] => some []
  | a :: b :: 61 :: 61 :: rest => do
      let x ← base64Value a
      let y ← base64Value b
      if rest = [] then some [x * 4 + y / 16] else none
  | a :: b :: c :: 61 :: rest => do
      let x ← base64Value a
      let y ← base64Value b
      let z ← base64Value c
      if rest = [] then some [x * 4 + y / 16, y % 16 * 16 + z / 4] else none
  | a :: b :: c :: d :: rest => do
      let x ← base64Value a
      let y ← base64Value b
      let z ← base64Value c
      let w ← base64Value d
      return [x * 4 + y / 16, y % 16 * 16 + z / 4, z % 4 * 64 + w] ++ (← b64decode rest)
  | _ => none

def b64encode : List ℕ → Text
  | [] => []
  | [a] => [base64Char (a / 4), base64Char (a % 4 * 16), 61, 61]
  | [a, b] => [base64Char (a / 4), base64Char (a % 4 * 16 + b / 16), base64Char (b % 16 * 4), 61]
  | a :: b :: c :: rest =>
    base64Char (a / 4) :: base64Char (a % 4 * 16 + b / 16) ::
      base64Char (b % 16 * 4 + c / 64) :: base64Char (c % 64) :: b64encode rest

def unquoteRun : List ℕ → Text → Text
  | acc, [] => utf8Replace acc
  | acc, 37 :: h :: l :: rest =>
    match Json.hexValue h, Json.hexValue l with
    | some x, some y => unquoteRun (acc ++ [x * 16 + y]) rest
    | _, _ => unquoteRun (acc ++ [37]) (h :: l :: rest)
  | acc, c :: rest =>
    if c < 128 then unquoteRun (acc ++ [c]) rest else utf8Replace acc ++ c :: unquoteRun [] rest

def unquote (s : Text) : Text := if s.contains 37 then unquoteRun [] s else s

/-- `s.split(sep, 1)` as the text before and after the first separator. -/
def splitOnce (sep : ℕ) (s : Text) : Option (Text × Text) :=
  if s.contains sep then some (s.takeWhile (· ≠ sep), (s.dropWhile (· ≠ sep)).drop 1) else none

/-- `urlparse("//x?" + rest).query`: tabs and line breaks drop out, a fragment ends it. -/
def urlQuery (rest : Text) : Text :=
  (rest.filter fun c => c ≠ 9 ∧ c ≠ 10 ∧ c ≠ 13).takeWhile (· ≠ 35)

/-- The pairs of `urllib.parse.parse_qs`, without blank values. -/
def parseQs (query : Text) : List (Text × Text) :=
  (splitOn 38 query).filterMap fun part =>
    match splitOnce 61 part with
    | none => none
    | some (name, value) =>
      if value = [] then none
      else
        let plain := fun t : Text => unquote (t.map fun c => if c = 43 then 32 else c)
        some (plain name, plain value)

variable {a bytes : List ℕ}

theorem utf8Char_cases {c : ℕ} (h : utf8Char c = some a) : (c < 0x80 ∧ a = [c]) ∨
    (c < 0x800 ∧ 0x80 ≤ c ∧ a = [0xC0 + c / 0x40, 0x80 + c % 0x40]) ∨
    (c < 0x10000 ∧ 0x800 ≤ c ∧ a = [0xE0 + c / 0x1000, 0x80 + c / 0x40 % 0x40, 0x80 + c % 0x40]) ∨
    (c < 0x110000 ∧ 0x10000 ≤ c ∧
      a = [0xF0 + c / 0x40000, 0x80 + c / 0x1000 % 0x40, 0x80 + c / 0x40 % 0x40, 0x80 + c % 0x40]) := by
  unfold utf8Char at h
  split at h
  · exact .inl ⟨‹_›, by simpa using h.symm⟩
  · split at h
    · exact .inr (.inl ⟨‹_›, by omega, by simpa using h.symm⟩)
    · split at h
      · cases h
      · split at h
        · exact .inr (.inr (.inl ⟨‹_›, by omega, by simpa using h.symm⟩))
        · split at h
          · exact .inr (.inr (.inr ⟨‹_›, by omega, by simpa using h.symm⟩))
          · cases h

theorem utf8Char_append_inj {c d : ℕ} {b s t : List ℕ} (hc : utf8Char c = some a) (hd : utf8Char d = some b) (h : a ++ s = b ++ t) :
    c = d ∧ s = t := by
  obtain ⟨_, rfl⟩ | ⟨_, _, rfl⟩ | ⟨_, _, rfl⟩ | ⟨_, _, rfl⟩ := utf8Char_cases hc <;>
    obtain ⟨_, rfl⟩ | ⟨_, _, rfl⟩ | ⟨_, _, rfl⟩ | ⟨_, _, rfl⟩ := utf8Char_cases hd <;>
    simp only [List.cons_append, List.nil_append, List.cons.injEq] at h <;>
    first
      | exact ⟨by omega, h.2⟩
      | exact ⟨by omega, h.2.2⟩
      | exact ⟨by omega, h.2.2.2⟩
      | exact ⟨by omega, h.2.2.2.2⟩
      | omega

theorem utf8Encode_cons {c : ℕ} {s : Text} (h : utf8Encode (c :: s) = some bytes) :
    ∃ a rest, utf8Char c = some a ∧ utf8Encode s = some rest ∧ bytes = a ++ rest := by
  simp only [utf8Encode, bind, Option.bind_eq_some_iff] at h
  obtain ⟨a, ha, rest, hrest, hb⟩ := h
  exact ⟨a, rest, ha, hrest, by simpa using hb.symm⟩

theorem utf8Char_ne_nil {c : ℕ} (h : utf8Char c = some a) : a ≠ [] := by
  obtain ⟨_, rfl⟩ | ⟨_, _, rfl⟩ | ⟨_, _, rfl⟩ | ⟨_, _, rfl⟩ := utf8Char_cases h <;> simp

theorem utf8Encode_inj {s t : Text} (hs : utf8Encode s = some bytes) (ht : utf8Encode t = some bytes) : s = t := by
  induction s generalizing t bytes with
  | nil =>
    cases t with
    | nil => rfl
    | cons d t =>
      obtain ⟨b, rest, hb, _, hbytes⟩ := utf8Encode_cons ht
      have hnil : bytes = [] := by simpa [utf8Encode] using hs.symm
      exact absurd (List.append_eq_nil_iff.mp (hbytes.symm.trans hnil)).1 (utf8Char_ne_nil hb)
  | cons c s ih =>
    obtain ⟨a, rest, ha, hrest, rfl⟩ := utf8Encode_cons hs
    cases t with
    | nil =>
      have hnil : a ++ rest = [] := by simpa [utf8Encode] using ht.symm
      exact absurd (List.append_eq_nil_iff.mp hnil).1 (utf8Char_ne_nil ha)
    | cons d t =>
      obtain ⟨b, rest', hb, hrest', hbytes⟩ := utf8Encode_cons ht
      obtain ⟨rfl, rfl⟩ := utf8Char_append_inj ha hb hbytes
      rw [ih hrest hrest']

end Py
