import Mathlib.Data.List.DropRight
import Mathlib.Data.List.Infix
import Mathlib.Data.List.Lex
import Mathlib.Tactic.Ring

/-!
Python text as the list of its code points. A lone surrogate is a code point
here, as it is in a Python `str`, so the type is wider than `String`.
-/
namespace Py
open List

abbrev Text := List ℕ

instance lawfulBEq_text : LawfulBEq Text := inferInstance

def text (s : String) : Text := s.toList.map Char.toNat

/-- The characters of a literal, without decoding it. -/
theorem text_ofList (cs : List Char) : text (String.ofList cs) = cs.map Char.toNat := by simp [text]

def isDigit (c : ℕ) : Bool := 48 ≤ c && c ≤ 57

/-- The characters that `str.strip` removes. -/
def isSpace (c : ℕ) : Bool :=
  (9 ≤ c && c ≤ 13) || (28 ≤ c && c ≤ 32) || c == 0x85 || c == 0xA0 || c == 0x1680 ||
    (0x2000 ≤ c && c ≤ 0x200A) || c == 0x2028 || c == 0x2029 || c == 0x202F || c == 0x205F || c == 0x3000

/-- `str.strip` with the characters to remove. -/
def stripWith (p : ℕ → Bool) (s : Text) : Text := ((s.dropWhile p).reverse.dropWhile p).reverse

def strip (s : Text) : Text := stripWith isSpace s

/-- Raise a problem unless the check holds. -/
def raiseUnless {ε : Type} (ok : Bool) (e : ε) : Except ε Unit := if ok then .ok () else .error e

/-- `s.split(sep)` on one character. -/
def splitOn (sep : ℕ) : Text → List Text
  | [] => [[]]
  | c :: rest =>
    if c = sep then [] :: splitOn sep rest
    else match splitOn sep rest with
      | [] => [[c]]
      | part :: parts => (c :: part) :: parts

/-- `"\n".join(lines)`. -/
def joinLines : List Text → Text
  | [] => []
  | [s] => s
  | s :: rest => s ++ 10 :: joinLines rest

def rstrip (s : Text) : Text := s.rdropWhile isSpace

def digitsValue (s : Text) : ℕ := s.foldl (fun n c => 10 * n + (c - 48)) 0

def decimalWith : ℕ → ℕ → Text
  | 0, _ => []
  | fuel + 1, n => if n < 10 then [48 + n] else decimalWith fuel (n / 10) ++ [48 + n % 10]

/-- `str(n)` of a natural number. -/
def decimal (n : ℕ) : Text := decimalWith (n.log2 + 1) n

/-- `str.lower`, on the ASCII letters. -/
def asciiLower (s : Text) : Text := s.map fun c => if 65 ≤ c && c ≤ 90 then c + 32 else c

/-- `str(z)` of an integer. -/
def intText (z : ℤ) : Text := if z < 0 then 45 :: decimal z.natAbs else decimal z.natAbs

def decimalZeros : List ℕ :=
  [0x30, 0x660, 0x6f0, 0x7c0, 0x966, 0x9e6, 0xa66, 0xae6, 0xb66, 0xbe6, 0xc66, 0xce6, 0xd66, 0xde6, 0xe50, 0xed0,
   0xf20, 0x1040, 0x1090, 0x17e0, 0x1810, 0x1946, 0x19d0, 0x1a80, 0x1a90, 0x1b50, 0x1bb0, 0x1c40, 0x1c50, 0xa620,
   0xa8d0, 0xa900, 0xa9d0, 0xa9f0, 0xaa50, 0xabf0, 0xff10, 0x104a0, 0x10d30, 0x11066, 0x110f0, 0x11136, 0x111d0,
   0x112f0, 0x11450, 0x114d0, 0x11650, 0x116c0, 0x11730, 0x118e0, 0x11950, 0x11c50, 0x11d50, 0x11da0, 0x11f50,
   0x16a60, 0x16ac0, 0x16b50, 0x1d7ce, 0x1d7d8, 0x1d7e2, 0x1d7ec, 0x1d7f6, 0x1e140, 0x1e2f0, 0x1e4f0, 0x1e950,
   0x1fbf0]

def decimalValue (c : ℕ) : Option ℕ :=
  (decimalZeros.find? fun z => z ≤ c && c < z + 10).map fun z => c - z

/-- Characters that `str.isdigit` accepts and `int` refuses, such as superscripts. -/
def specialDigits : List (ℕ × ℕ) :=
  [(0xb2, 0xb3), (0xb9, 0xb9), (0x1369, 0x1371), (0x19da, 0x19da), (0x2070, 0x2070), (0x2074, 0x2079),
   (0x2080, 0x2089), (0x2460, 0x2468), (0x2474, 0x247c), (0x2488, 0x2490), (0x24ea, 0x24ea), (0x24f5, 0x24fd),
   (0x24ff, 0x24ff), (0x2776, 0x277e), (0x2780, 0x2788), (0x278a, 0x2792), (0x10a40, 0x10a43), (0x10e60, 0x10e68),
   (0x11052, 0x1105a), (0x1f100, 0x1f10a)]

/-- `str.isdigit`. -/
def isDigitText (s : Text) : Bool :=
  !s.isEmpty && s.all fun c =>
    (decimalValue c).isSome || specialDigits.any fun range => range.1 ≤ c && c ≤ range.2

/-- `int(...)` refuses longer digit runs with a `ValueError`. -/
def maxIntDigits : ℕ := 4300

/-- `int(s)` of a text that `isDigitText` accepts; `none` is the `ValueError`. -/
def intOfDigits (s : Text) : Option ℕ :=
  if s.length ≤ maxIntDigits then
    (s.mapM decimalValue).map fun ds => ds.foldl (fun n d => 10 * n + d) 0
  else none

attribute [local simp] splitOn rstrip decimalWith digitsValue joinLines

variable {ε α : Type} {sep c : ℕ} {s : Text} {lines : List Text}
variable {f : α → Except ε Unit}

theorem bind_ok {β : Type} {x : Except ε α} {f : α → Except ε β} {b : β} : (x >>= f) = .ok b ↔ ∃ a, x = .ok a ∧ f a = .ok b := by
  cases x with
  | error e => simp [bind, Except.bind]
  | ok a => simp [bind, Except.bind]

@[simp] theorem pure_ok {a b : α} : (pure a : Except ε α) = .ok b ↔ a = b := by
  simp [pure, Except.pure]

@[simp] theorem raiseUnless_ok {ok : Bool} {e : ε} {u : Unit} : raiseUnless ok e = .ok u ↔ ok = true := by
  cases ok <;> simp [raiseUnless]

theorem foundOr_ok {found : Option α} {e : ε} {a : α} (h : (found.map Except.ok).getD (.error e) = .ok a) : found = some a := by
  cases found with
  | none => cases h
  | some x => rw [Except.ok.inj h]

theorem toOption_some {x : Except ε α} {a : α} : x.toOption = some a ↔ x = .ok a := by
  cases x with
  | error e => simp [Except.toOption]
  | ok b => simp [Except.toOption]

theorem lookup_pair (p : Text × α) (rest : List (Text × α)) (key : Text) :
    (p :: rest).lookup key = if key = p.1 then some p.2 else rest.lookup key := by
  cases p with
  | mk k a =>
    rw [lookup_cons]
    by_cases h : key = k
    · rw [if_pos h, h, beq_self_eq_true]
    · rw [if_neg h, beq_false_of_ne h]

theorem lookup_change {p q : Text × α} {acc rest : List (Text × α)} {key other : Text} {value : α}
    (hq : p.1 = key → q = (key, value)) (h : rest.lookup other = if other = key then some value else acc.lookup other) :
    (if p.1 = key then q :: acc else p :: rest).lookup other =
      if other = key then some value else (p :: acc).lookup other := by
  by_cases hp : p.1 = key
  · rw [if_pos hp, hq hp, lookup_pair, lookup_pair, hp]
    by_cases hother : other = key
    · rw [if_pos hother, if_pos hother]
    · rw [if_neg hother, if_neg hother, if_neg hother]
  · rw [if_neg hp, lookup_pair, lookup_pair, h]
    by_cases hother : other = p.1
    · rw [if_pos hother, if_pos hother, if_neg fun heq => hp (hother.symm.trans heq)]
    · rw [if_neg hother, if_neg hother]

theorem forM_ok {xs : List α} (h : xs.forM f = .ok ()) : ∀ x ∈ xs, f x = .ok () := by
  induction xs with
  | nil => simp
  | cons x xs ih =>
    obtain ⟨_, hx, hrest⟩ := bind_ok.mp (show (f x >>= fun _ => xs.forM f) = .ok () from h)
    exact forall_mem_cons.mpr ⟨hx, ih hrest⟩

theorem ok_forM {xs : List α} (h : ∀ x ∈ xs, f x = .ok ()) : xs.forM f = .ok () := by
  induction xs with
  | nil => rfl
  | cons x xs ih =>
    obtain ⟨hx, hxs⟩ := forall_mem_cons.mp h
    exact bind_ok.mpr ⟨(), hx, ih hxs⟩

theorem stripWith_length_le (p : ℕ → Bool) (s : Text) : (stripWith p s).length ≤ s.length := by
  have hfirst := (dropWhile_sublist p (l := s)).length_le
  have hlast := (dropWhile_sublist p (l := (s.dropWhile p).reverse)).length_le
  simp only [stripWith, length_reverse] at hlast ⊢
  omega

theorem stripWith_idem (p : ℕ → Bool) (s : Text) : stripWith p (stripWith p s) = stripWith p s := by
  have hstart : stripWith p s <+: s.dropWhile p := rdropWhile_prefix p (s.dropWhile p)
  have hfirst : (stripWith p s).dropWhile p = stripWith p s := by
    rw [dropWhile_eq_self_iff]
    intro hpos
    obtain ⟨rest, hrest⟩ := hstart
    have hlen : 0 < (s.dropWhile p).length := by rw [← hrest, length_append]; omega
    have := dropWhile_get_zero_not p s hlen
    simpa [← hrest, getElem_append_left hpos] using this
  show ((stripWith p s).dropWhile p).rdropWhile p = _
  rw [hfirst]
  exact rdropWhile_idempotent p _

theorem splitOn_absent (h : sep ∉ s) : splitOn sep s = [s] := by
  induction s with
  | nil => rfl
  | cons c s ih =>
    simp only [mem_cons, not_or] at h
    rw [splitOn, if_neg (Ne.symm h.1), ih h.2]

theorem splitOn_append (h : sep ∉ s) (rest : Text) : splitOn sep (s ++ sep :: rest) = s :: splitOn sep rest := by
  induction s with
  | nil => simp [splitOn]
  | cons c s ih =>
    simp only [mem_cons, not_or] at h
    rw [cons_append, splitOn, if_neg (Ne.symm h.1), ih h.2]

theorem splitOn_ne_nil (sep : ℕ) (s : Text) : splitOn sep s ≠ [] := by
  cases s with
  | nil => simp [splitOn]
  | cons c s =>
    rw [splitOn]
    split
    · simp
    · split <;> simp

theorem splitOn_join (sep : ℕ) (s t : Text) : splitOn sep (s ++ sep :: t) = splitOn sep s ++ splitOn sep t := by
  induction s with
  | nil => simp [splitOn]
  | cons c s ih =>
    obtain ⟨part, parts, hparts⟩ := exists_cons_of_ne_nil (splitOn_ne_nil sep s)
    rw [hparts] at ih
    by_cases hc : c = sep
    · rw [cons_append, splitOn, if_pos hc, splitOn, if_pos hc, ih, hparts]
      rfl
    · rw [cons_append, splitOn, if_neg hc, splitOn, if_neg hc, ih, hparts]
      rfl

theorem joinLines_cons (s : Text) {rest : List Text} (h : rest ≠ []) : joinLines (s :: rest) = s ++ 10 :: joinLines rest := by
  obtain ⟨t, rest, rfl⟩ := exists_cons_of_ne_nil h
  rfl

theorem splitOn_joinLines_append (hne : lines ≠ []) (h : ∀ s ∈ lines, 10 ∉ s) (rest : Text) :
    splitOn 10 (joinLines lines ++ 10 :: rest) = lines ++ splitOn 10 rest := by
  induction lines with
  | nil => exact absurd rfl hne
  | cons s lines ih =>
    cases lines with
    | nil => exact splitOn_append (h s mem_cons_self) rest
    | cons t lines =>
      have htail := ih (cons_ne_nil t lines) fun u hu => h u (mem_cons_of_mem s hu)
      rw [joinLines_cons s (cons_ne_nil t lines), append_assoc, cons_append,
        splitOn_append (h s mem_cons_self), htail]
      rfl

theorem splitOn_joinLines (hne : lines ≠ []) (h : ∀ s ∈ lines, 10 ∉ s) : splitOn 10 (joinLines lines) = lines := by
  induction lines with
  | nil => exact absurd rfl hne
  | cons s lines ih =>
    cases lines with
    | nil => exact splitOn_absent (h s mem_cons_self)
    | cons t lines =>
      rw [joinLines_cons s (cons_ne_nil t lines), splitOn_append (h s mem_cons_self),
        ih (cons_ne_nil t lines) fun u hu => h u (mem_cons_of_mem s hu)]

theorem joinLines_splitOn (s : Text) : joinLines (splitOn 10 s) = s := by
  induction s with
  | nil => rfl
  | cons c s ih =>
    obtain ⟨part, parts, hs⟩ := exists_cons_of_ne_nil (splitOn_ne_nil 10 s)
    rw [hs] at ih
    rw [splitOn, hs]
    split
    next hc =>
      subst hc
      rw [joinLines_cons [] (cons_ne_nil part parts), ih]
      rfl
    next =>
      cases parts with
      | nil => rw [joinLines, ← ih, joinLines]
      | cons p parts =>
        rw [← ih]
        rfl

theorem joinLines_append {as bs : List Text} (ha : as ≠ []) (hb : bs ≠ []) :
    joinLines (as ++ bs) = joinLines as ++ 10 :: joinLines bs := by
  induction as with
  | nil => exact absurd rfl ha
  | cons a as ih =>
    cases as with
    | nil =>
      obtain ⟨b, bs, rfl⟩ := exists_cons_of_ne_nil hb
      rfl
    | cons c as =>
      rw [cons_append, joinLines_cons _ (append_ne_nil_of_left_ne_nil (cons_ne_nil c as) bs),
        ih (cons_ne_nil c as), joinLines_cons _ (cons_ne_nil c as), append_assoc]
      rfl

theorem rstrip_append (s : Text) (hc : isSpace c = false) (t : Text) : rstrip (s ++ c :: t) = s ++ c :: rstrip t := by
  induction t using List.reverseRecOn with
  | nil => simp [rstrip, hc]
  | append_singleton t d ih =>
    cases hd : isSpace d with
    | true =>
      rw [rstrip, ← cons_append, ← append_assoc, rdropWhile_concat_pos _ _ _ hd, rstrip,
        rdropWhile_concat_pos _ _ _ hd]
      exact ih
    | false =>
      have hd' : ¬ isSpace d = true := by simp [hd]
      rw [rstrip, ← cons_append, ← append_assoc, rdropWhile_concat_neg _ _ _ hd', rstrip,
        rdropWhile_concat_neg _ _ _ hd']
      simp

theorem rstrip_cons (c : ℕ) (hc : isSpace c = true) (s : Text) :
    rstrip (c :: s) = if rstrip s = [] then [] else c :: rstrip s := by
  induction s using List.reverseRecOn with
  | nil => simp [rstrip, rdropWhile_singleton, hc]
  | append_singleton s d ih =>
    cases hd : isSpace d with
    | true =>
      rw [rstrip, ← cons_append, rdropWhile_concat_pos _ _ _ hd, rstrip, rdropWhile_concat_pos _ _ _ hd]
      exact ih
    | false =>
      have hd' : ¬ isSpace d = true := by simp [hd]
      rw [rstrip, ← cons_append, rdropWhile_concat_neg _ _ _ hd', rstrip, rdropWhile_concat_neg _ _ _ hd']
      simp

theorem mem_dropWhile {p : ℕ → Bool} (hc : c ∈ s) (hp : p c = false) : c ∈ s.dropWhile p := by
  induction s with
  | nil => cases hc
  | cons d s ih =>
    rw [dropWhile_cons]
    split
    next hd =>
      rcases mem_cons.mp hc with rfl | hc
      · rw [hp] at hd
        cases hd
      · exact ih hc
    next => exact hc

theorem mem_strip (hc : c ∈ s) (hp : isSpace c = false) : c ∈ strip s :=
  mem_reverse.mpr (mem_dropWhile (mem_reverse.mpr (mem_dropWhile hc hp)) hp)

theorem mem_joinLines (h : c ∈ joinLines lines) : c = 10 ∨ ∃ s ∈ lines, c ∈ s := by
  induction lines with
  | nil => simp [joinLines] at h
  | cons s lines ih =>
    cases lines with
    | nil => exact .inr ⟨s, mem_cons_self, h⟩
    | cons t lines =>
      rw [joinLines_cons s (cons_ne_nil t lines)] at h
      rcases mem_append.mp h with h | h
      · exact .inr ⟨s, mem_cons_self, h⟩
      · rcases mem_cons.mp h with rfl | h
        · exact .inl rfl
        · exact (ih h).imp_right fun ⟨u, hu, hc⟩ => ⟨u, mem_cons_of_mem s hu, hc⟩

theorem mem_joinLines_of_mem (hs : s ∈ lines) (hc : c ∈ s) : c ∈ joinLines lines := by
  induction lines with
  | nil => cases hs
  | cons t lines ih =>
    cases lines with
    | nil => exact mem_singleton.mp hs ▸ hc
    | cons u lines =>
      rw [joinLines_cons t (cons_ne_nil u lines)]
      rcases mem_cons.mp hs with rfl | hs
      · exact mem_append_left _ hc
      · exact mem_append_right _ (mem_cons_of_mem _ (ih hs))

@[simp] theorem digitsValue_append (s : Text) (c : ℕ) :
    digitsValue (s ++ [c]) = 10 * digitsValue s + (c - 48) := by
  simp [digitsValue]

theorem decimalWith_value (fuel n : ℕ) (h : n < 10 ^ fuel) : digitsValue (decimalWith fuel n) = n := by
  induction fuel generalizing n with
  | zero =>
    have : n = 0 := by simpa using h
    simp [this, decimalWith, digitsValue]
  | succ fuel ih =>
    unfold decimalWith
    split
    · simp [digitsValue]
    · have hdiv : n / 10 < 10 ^ fuel := by
        rw [Nat.div_lt_iff_lt_mul (by decide)]
        simpa [pow_succ] using h
      rw [digitsValue_append, ih _ hdiv]
      omega

theorem lt_ten_pow_log2 (n : ℕ) : n < 10 ^ (n.log2 + 1) :=
  calc n < 2 ^ (n.log2 + 1) := Nat.lt_log2_self
    _ ≤ 10 ^ (n.log2 + 1) := Nat.pow_le_pow_left (by decide) _

/-- `int(str(n)) == n`. -/
theorem digitsValue_decimal (n : ℕ) : digitsValue (decimal n) = n :=
  decimalWith_value _ _ (lt_ten_pow_log2 n)

theorem decimalWith_isDigit (fuel n : ℕ) : ∀ c ∈ decimalWith fuel n, isDigit c := by
  induction fuel generalizing n with
  | zero => simp [decimalWith]
  | succ fuel ih =>
    unfold decimalWith
    split
    · simp [isDigit]; omega
    · intro c hc
      rcases mem_append.mp hc with front | last
      · exact ih _ c front
      · simp only [mem_singleton] at last
        subst last
        simp [isDigit]
        omega

theorem decimal_isDigit (n : ℕ) : ∀ c ∈ decimal n, isDigit c := decimalWith_isDigit _ n

theorem decimalWith_ne_nil (fuel n : ℕ) : decimalWith (fuel + 1) n ≠ [] := by
  unfold decimalWith
  split <;> simp

theorem decimal_ne_nil (n : ℕ) : decimal n ≠ [] := decimalWith_ne_nil _ n

end Py
