import Mathlib.Tactic.IntervalCases
import StupaWorkflow.StorageKeys

/-!
`UUID(text)`: the constructor drops the URN head, braces and dashes and reads the
rest with `int(..., 16)`. It accepts more texts than `str(uuid)` writes, so two
texts can name one UUID; the text of a UUID names this UUID.
-/
namespace StorageKeys
open Py List

section Parse

/-- `s.replace(part, "")`; the counter skips the rest of a found part. -/
def removeAll (part : Text) : ℕ → Text → Text
  | _, [] => []
  | skip + 1, _ :: rest => removeAll part skip rest
  | 0, c :: rest =>
    if part.isPrefixOf (c :: rest) then removeAll part (part.length - 1) rest
    else c :: removeAll part 0 rest

/-- The spaces that `int` skips: the control characters below the space are not among them. -/
def intSpace (c : ℕ) : Bool := (9 ≤ c && c ≤ 13) || c == 32 || (127 < c && isSpace c)

def hexValue (c : ℕ) : Option ℕ :=
  if 97 ≤ c && c ≤ 102 then some (c - 87)
  else if 65 ≤ c && c ≤ 70 then some (c - 55)
  else decimalValue c

def hexTail : ℕ → Text → Option ℕ
  | n, [] => some n
  | n, 95 :: c :: rest => (hexValue c).bind fun d => hexTail (16 * n + d) rest
  | n, c :: rest => (hexValue c).bind fun d => hexTail (16 * n + d) rest

/-- The optional `0x`, with an underscore after it. -/
def dropHexMark : Text → Text
  | 48 :: 120 :: 95 :: rest => rest
  | 48 :: 88 :: 95 :: rest => rest
  | 48 :: 120 :: rest => rest
  | 48 :: 88 :: rest => rest
  | s => s

def dropPlus : Text → Text
  | 43 :: rest => rest
  | s => s

/-- `int(s, 16)` of a text without a minus sign; `none` is the `ValueError`. -/
def intBase16 (s : Text) : Option ℕ :=
  match dropHexMark (dropPlus (stripWith intSpace s)) with
  | [] => none
  | c :: rest => (hexValue c).bind fun d => hexTail d rest

/-- The digits that `UUID(text)` reads. -/
def uuidDigits (s : Text) : Text :=
  (stripWith (fun c => c == 123 || c == 125) (removeAll (text "uuid:") 0 (removeAll (text "urn:") 0 s))).filter (· ≠ 45)

/-- `UUID(text)`; `none` is the `ValueError`. -/
def Uuid.ofText (s : Text) : Option Uuid :=
  if (uuidDigits s).length = 32 then
    (intBase16 (uuidDigits s)).bind fun n => if h : n < 2 ^ 128 then some ⟨n, h⟩ else none
  else none

end Parse

section RoundTrip

theorem removeAll_absent {part s : Text} {c : ℕ} (hc : c ∈ part) (hs : c ∉ s) : removeAll part 0 s = s := by
  induction s with
  | nil => rfl
  | cons d rest ih =>
    have hpre : ¬ part.isPrefixOf (d :: rest) := by
      intro h
      exact hs ((List.isPrefixOf_iff_prefix.mp h).subset hc)
    rw [removeAll, if_neg hpre, ih fun h => hs (mem_cons_of_mem d h)]

theorem stripWith_none {p : ℕ → Bool} {s : Text} (h : ∀ c ∈ s, p c = false) : stripWith p s = s := by
  have hdrop : ∀ t : Text, (∀ c ∈ t, p c = false) → t.dropWhile p = t := by
    intro t ht
    cases t with
    | nil => rfl
    | cons c rest => rw [dropWhile_cons, ht c mem_cons_self]; rfl
  rw [stripWith, hdrop s h, hdrop s.reverse fun c hc => h c (mem_reverse.mp hc), reverse_reverse]

def lowerHex (c : ℕ) : ℕ := if c < 58 then c - 48 else c - 87

theorem hexValue_lower {c : ℕ} (h : (48 ≤ c ∧ c ≤ 57) ∨ (97 ≤ c ∧ c ≤ 102)) : hexValue c = some (lowerHex c) := by
  rcases h with ⟨h1, h2⟩ | ⟨h1, h2⟩
  · interval_cases c <;> decide
  · interval_cases c <;> decide

theorem hexTail_lower {s : Text} (h : ∀ c ∈ s, (48 ≤ c ∧ c ≤ 57) ∨ (97 ≤ c ∧ c ≤ 102)) (n : ℕ) :
    hexTail n s = some (s.foldl (fun n c => 16 * n + lowerHex c) n) := by
  induction s generalizing n with
  | nil => rfl
  | cons c rest ih =>
    have hc := h c mem_cons_self
    have hne : c ≠ 95 := by omega
    rw [hexTail.eq_3 n c rest (by rintro d r rfl; exact absurd rfl hne)]
    rw [hexValue_lower hc, Option.bind_some, ih fun d hd => h d (mem_cons_of_mem c hd), foldl_cons]

theorem lowerHex_hexDigit {n : ℕ} (h : n < 16) : lowerHex (hexDigit n) = n := by
  unfold lowerHex hexDigit
  split <;> split <;> omega

theorem hexDigits_value {width n : ℕ} (h : n < 16 ^ width) :
    (hexDigits width n).foldl (fun n c => 16 * n + lowerHex c) 0 = n := by
  induction width generalizing n with
  | zero =>
    rw [pow_zero, Nat.lt_one_iff] at h
    simp [hexDigits, h]
  | succ width ih =>
    have hdiv : n / 16 < 16 ^ width := Nat.div_lt_of_lt_mul (by rwa [Nat.pow_succ, Nat.mul_comm] at h)
    rw [hexDigits, foldl_append, ih hdiv, foldl_cons, foldl_nil,
      lowerHex_hexDigit (Nat.mod_lt n (by decide)), Nat.div_add_mod]

/-- A run of lower-case digits is no signed number, has no `0x` and no underscore. -/
theorem intBase16_lower {s : Text} (hne : s ≠ []) (h : ∀ c ∈ s, (48 ≤ c ∧ c ≤ 57) ∨ (97 ≤ c ∧ c ≤ 102)) :
    intBase16 s = some (s.foldl (fun n c => 16 * n + lowerHex c) 0) := by
  have hstrip : stripWith intSpace s = s := by
    refine stripWith_none fun c hc => ?_
    rcases h c hc with ⟨h1, h2⟩ | ⟨h1, h2⟩ <;> interval_cases c <;> decide
  have hplus : dropPlus s = s := by
    unfold dropPlus
    split
    next rest => have := h 43 mem_cons_self; omega
    next => rfl
  have hmark : dropHexMark s = s := by
    unfold dropHexMark
    split
    -- the second character of each mark is no digit
    case h_5 => rfl
    all_goals
      have := h _ (mem_cons_of_mem _ mem_cons_self)
      omega
  rw [intBase16, hstrip, hplus, hmark]
  cases s with
  | nil => exact absurd rfl hne
  | cons c rest =>
    show (hexValue c).bind _ = _
    rw [hexValue_lower (h c mem_cons_self), Option.bind_some,
      hexTail_lower fun d hd => h d (mem_cons_of_mem c hd)]
    simp

theorem uuidDigits_text (u : Uuid) : uuidDigits (Uuid.text u) = Uuid.hex u := by
  have hmem : ∀ c ∈ Uuid.text u, c = 45 ∨ (48 ≤ c ∧ c ≤ 57) ∨ (97 ≤ c ∧ c ≤ 102) := fun c hc =>
    (Uuid.mem_text hc).imp_right Uuid.mem_hex
  have hcolon : 58 ∉ Uuid.text u := fun h => by
    have := hmem 58 h
    omega
  have hbraces : ∀ c ∈ Uuid.text u, (c == 123 || c == 125) = false := by
    intro c hc
    have := hmem c hc
    simp only [Bool.or_eq_false_iff, beq_eq_false_iff_ne]
    omega
  rw [uuidDigits, removeAll_absent (by decide : 58 ∈ text "urn:") hcolon,
    removeAll_absent (by decide : 58 ∈ text "uuid:") hcolon, stripWith_none hbraces, Uuid.text_filter]

/-- `UUID(str(u)) == u`. -/
@[simp] theorem Uuid.ofText_text (u : Uuid) : Uuid.ofText (Uuid.text u) = some u := by
  have hlen := Uuid.hex_length u
  have hne : Uuid.hex u ≠ [] := ne_nil_of_length_pos (by omega)
  have hval : intBase16 (Uuid.hex u) = some u.val := by
    rw [intBase16_lower hne fun c => Uuid.mem_hex, Uuid.hex,
      hexDigits_value (u.isLt.trans_eq (by decide : (2 : ℕ) ^ 128 = 16 ^ 32))]
  rw [Uuid.ofText, uuidDigits_text, if_pos hlen, hval, Option.bind_some, dif_pos u.isLt]

end RoundTrip

end StorageKeys
