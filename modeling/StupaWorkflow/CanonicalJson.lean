import StupaWorkflow.Json
import Mathlib.Data.List.Sort
import Mathlib.Tactic.IntervalCases

/-!
`json.dumps` with sorted keys, compact separators and `ensure_ascii=False`, and why its text
determines the value.
-/
namespace Py.Json
open List

/-- A text that `float.__repr__` or the encoder of `json` writes for a float. -/
def isFloatText (s : Text) : Bool :=
  s == text "NaN" || s == text "Infinity" || s == text "-Infinity" ||
    (s.all (fun c => isDigit c || c == 46 || c == 101 || c == 43 || c == 45) && s.any fun c => c == 46 || c == 101)

mutual

def FloatsWritten : Json → Prop
  | .float s => isFloatText s = true
  | .arr items => FloatsWrittenItems items
  | .obj members => FloatsWrittenMembers members
  | _ => True

def FloatsWrittenItems : List Json → Prop
  | [] => True
  | v :: vs => FloatsWritten v ∧ FloatsWrittenItems vs

def FloatsWrittenMembers : List (Text × Json) → Prop
  | [] => True
  | (_, v) :: ms => FloatsWritten v ∧ FloatsWrittenMembers ms

end

/-- The order of `str`: code point by code point. -/
def keyLe : Text → Text → Bool
  | [], _ => true
  | _ :: _, [] => false
  | c :: s, d :: t => c < d || (c == d && keyLe s t)

def sortMembers (members : List (Text × Json)) : List (Text × Json) :=
  members.insertionSort fun a b => keyLe a.1 b.1 = true

mutual

/-- The value with the keys of every object in order. Values that agree here are
equal as Python values: a `dict` has no order of its own. -/
def sortKeys : Json → Json
  | .arr items => .arr (sortKeysItems items)
  | .obj members => .obj (sortMembers (sortKeysMembers members))
  | v => v

def sortKeysItems : List Json → List Json
  | [] => []
  | v :: vs => sortKeys v :: sortKeysItems vs

def sortKeysMembers : List (Text × Json) → List (Text × Json)
  | [] => []
  | (k, v) :: ms => (k, sortKeys v) :: sortKeysMembers ms

end

def escapePlain (c : ℕ) : Text :=
  if c = 34 then [92, 34]
  else if c = 92 then [92, 92]
  else if c = 10 then [92, 110]
  else if c = 13 then [92, 114]
  else if c = 9 then [92, 116]
  else if c = 12 then [92, 102]
  else if c = 8 then [92, 98]
  else if c < 32 then unicodeEscape c
  else [c]

def quotePlain (s : Text) : Text := 34 :: s.flatMap escapePlain ++ [34]

mutual

def compact : Json → Text
  | .null => text "null"
  | .bool b => if b then text "true" else text "false"
  | .int z => intText z
  | .float s => s
  | .str s => quotePlain s
  | .arr items => 91 :: compactItems items ++ [93]
  | .obj members => 123 :: compactMembers members ++ [125]

def compactItems : List Json → Text
  | [] => []
  | [v] => compact v
  | v :: vs => compact v ++ 44 :: compactItems vs

def compactMembers : List (Text × Json) → Text
  | [] => []
  | [(k, v)] => quotePlain k ++ 58 :: compact v
  | (k, v) :: ms => quotePlain k ++ 58 :: compact v ++ 44 :: compactMembers ms

end

/-- `json.dumps(v, sort_keys=True, separators=(",", ":"), ensure_ascii=False)`. -/
def dumpsSorted (v : Json) : Text := compact (sortKeys v)

def unescapeOne : Text → Option (ℕ × Text)
  | 92 :: 117 :: _ :: _ :: a :: b :: rest => do return ((← hexValue a) * 16 + (← hexValue b), rest)
  | 92 :: c :: rest => do return (← shortEscape c, rest)
  | c :: rest => some (c, rest)
  | [] => none

theorem unescapeOne_escape (c : ℕ) (t : Text) : unescapeOne (escapePlain c ++ t) = some (c, t) := by
  by_cases hlow : c < 32
  · interval_cases c <;> rfl
  · unfold escapePlain
    split
    · subst c
      rfl
    · split
      · subst c
        rfl
      · rename_i hback
        rw [if_neg (by omega), if_neg (by omega), if_neg (by omega), if_neg (by omega), if_neg (by omega)]
        rw [singleton_append, unescapeOne]
        · exact fun _ _ _ _ _ h => absurd h hback
        · exact fun _ _ h => absurd h hback

theorem escapePlain_append_inj {c d : ℕ} {s t : Text} (h : escapePlain c ++ s = escapePlain d ++ t) : c = d ∧ s = t := by
  have hread := congrArg unescapeOne h
  rw [unescapeOne_escape, unescapeOne_escape, Option.some_inj, Prod.mk.injEq] at hread
  exact hread

theorem escapePlain_head (c : ℕ) : ∃ a s, escapePlain c = a :: s ∧ a ≠ 34 := by
  by_cases hlow : c < 32
  · interval_cases c <;> exact ⟨92, _, rfl, by decide⟩
  · unfold escapePlain
    split
    · exact ⟨92, _, rfl, by decide⟩
    · rename_i hquote
      split
      · exact ⟨92, _, rfl, by decide⟩
      · rw [if_neg (by omega), if_neg (by omega), if_neg (by omega), if_neg (by omega), if_neg (by omega)]
        exact ⟨c, [], rfl, hquote⟩

theorem literal_append_inj {s s' t t' : Text} (h : s.flatMap escapePlain ++ 34 :: t = s'.flatMap escapePlain ++ 34 :: t') :
    s = s' ∧ t = t' := by
  induction s generalizing s' with
  | nil =>
    cases s' with
    | nil => exact ⟨rfl, by simpa using h⟩
    | cons d s' =>
      obtain ⟨a, r, hd, ha⟩ := escapePlain_head d
      rw [flatMap_cons, hd] at h
      exact absurd (List.cons.inj h).1.symm ha
  | cons c s ih =>
    cases s' with
    | nil =>
      obtain ⟨a, r, hc, ha⟩ := escapePlain_head c
      rw [flatMap_cons, hc] at h
      exact absurd (List.cons.inj h).1 ha
    | cons d s' =>
      rw [flatMap_cons, flatMap_cons, append_assoc, append_assoc] at h
      obtain ⟨rfl, hrest⟩ := escapePlain_append_inj h
      obtain ⟨rfl, ht⟩ := ih hrest
      exact ⟨rfl, ht⟩

theorem quotePlain_append_inj {s s' t t' : Text} (h : quotePlain s ++ t = quotePlain s' ++ t') : s = s' ∧ t = t' := by
  refine literal_append_inj ?_
  simpa [quotePlain] using h

def Stops : Text → Prop
  | [] => True
  | c :: _ => c = 44 ∨ c = 93 ∨ c = 125

def isAtom : Json → Bool
  | .str _ | .arr _ | .obj _ => false
  | _ => true

def wordChar (c : ℕ) : Bool := !(c == 44 || c == 93 || c == 125 || c == 34 || c == 91 || c == 123)

theorem intText_chars (z : ℤ) : ∀ c ∈ intText z, isDigit c = true ∨ c = 45 := by
  intro c hc
  unfold intText at hc
  split at hc
  · rcases mem_cons.mp hc with rfl | hc
    · exact .inr rfl
    · exact .inl (decimal_isDigit _ c hc)
  · exact .inl (decimal_isDigit _ c hc)

theorem floatText_chars {s : Text} (h : isFloatText s = true) : ∀ c ∈ s, wordChar c = true := by
  simp only [isFloatText, Bool.or_eq_true, beq_iff_eq, Bool.and_eq_true, all_eq_true] at h
  obtain ((rfl | rfl) | rfl) | ⟨h, -⟩ := h
  · decide
  · decide
  · decide
  · intro c hc
    have := h c hc
    simp only [isDigit, Bool.and_eq_true, decide_eq_true_eq] at this
    simp only [wordChar, Bool.not_eq_true', Bool.or_eq_false_iff, beq_eq_false_iff_ne]
    omega

theorem atom_chars {v : Json} (hv : isAtom v = true) (hf : FloatsWritten v) : ∀ c ∈ compact v, wordChar c = true := by
  cases v with
  | null => decide
  | bool b => cases b <;> decide
  | int z =>
    intro c hc
    have := intText_chars z c hc
    simp only [isDigit, Bool.and_eq_true, decide_eq_true_eq] at this
    simp only [wordChar, Bool.not_eq_true', Bool.or_eq_false_iff, beq_eq_false_iff_ne]
    omega
  | float s => exact floatText_chars hf
  | str s => cases hv
  | arr items => cases hv
  | obj members => cases hv

/-- The number that a word of digits stands for. -/
def readInt : Text → ℤ
  | 45 :: ds => -digitsValue ds
  | ds => digitsValue ds

theorem readInt_intText (z : ℤ) : readInt (intText z) = z := by
  unfold intText
  split
  · rw [readInt, digitsValue_decimal]
    omega
  · obtain ⟨c, s, hs⟩ := exists_cons_of_ne_nil (decimal_ne_nil z.natAbs)
    have hc : isDigit c = true := decimal_isDigit z.natAbs c (by simp [hs])
    have hvalue := digitsValue_decimal z.natAbs
    rw [hs] at hvalue ⊢
    rw [readInt, hvalue]
    · omega
    · rintro ds hcons
      rw [(List.cons.inj hcons).1] at hc
      cases hc

def readAtom (s : Text) : Json :=
  if s = text "null" then .null
  else if s = text "true" then .bool true
  else if s = text "false" then .bool false
  else if s.all (fun c => isDigit c || c == 45) then .int (readInt s)
  else .float s

theorem readAtom_float {s : Text} (h : isFloatText s = true) : readAtom s = .float s := by
  simp only [isFloatText, Bool.or_eq_true, beq_iff_eq, Bool.and_eq_true] at h
  obtain ((rfl | rfl) | rfl) | ⟨hall, hany⟩ := h
  · rfl
  · rfl
  · rfl
  · have hword : ∀ w : Text, w.all (fun c => isDigit c || c == 46 || c == 101 || c == 43 || c == 45) = false → s ≠ w := by
      rintro w hw rfl
      rw [hall] at hw
      cases hw
    obtain ⟨c, hc, hdot⟩ := any_eq_true.mp hany
    have hdigits : s.all (fun c => isDigit c || c == 45) = false := by
      rw [all_eq_false]
      refine ⟨c, hc, ?_⟩
      simp only [Bool.or_eq_true, beq_iff_eq] at hdot
      rcases hdot with rfl | rfl <;> decide
    rw [readAtom, if_neg (hword _ rfl), if_neg (hword _ rfl), if_neg (hword _ rfl), hdigits]
    rfl

theorem readAtom_int (z : ℤ) : readAtom (intText z) = .int z := by
  have hword : ∀ w : Text, w.all (fun c => isDigit c || c == 45) = false → intText z ≠ w := by
    rintro w hw rfl
    obtain ⟨c, hc, hnot⟩ := all_eq_false.mp hw
    rcases intText_chars z c hc with h | rfl
    · simp [h] at hnot
    · exact hnot rfl
  have hdigits : (intText z).all (fun c => isDigit c || c == 45) = true := by
    refine all_eq_true.mpr fun c hc => ?_
    rcases intText_chars z c hc with h | rfl
    · simp [h]
    · rfl
  rw [readAtom, if_neg (hword _ rfl), if_neg (hword _ rfl), if_neg (hword _ rfl), if_pos hdigits, readInt_intText]

theorem readAtom_compact {v : Json} (hv : isAtom v = true) (hf : FloatsWritten v) : readAtom (compact v) = v := by
  cases v with
  | null => rfl
  | bool b => cases b <;> rfl
  | int z => exact readAtom_int z
  | float s => exact readAtom_float hf
  | str s => cases hv
  | arr items => cases hv
  | obj members => cases hv

theorem atom_ne_nil {v : Json} (hv : isAtom v = true) (hf : FloatsWritten v) : compact v ≠ [] := by
  cases v with
  | null => decide
  | bool b => cases b <;> decide
  | int z =>
    intro h
    have := decimal_ne_nil z.natAbs
    simp only [compact, intText] at h
    split at h
    · cases h
    · exact this h
  | float s =>
    rintro rfl
    cases hf
  | str s => cases hv
  | arr items => cases hv
  | obj members => cases hv

theorem takeWhile_word {w t : Text} (hw : ∀ c ∈ w, wordChar c = true) (ht : Stops t) :
    (w ++ t).takeWhile wordChar = w ∧ (w ++ t).dropWhile wordChar = t := by
  have hstop : t.takeWhile wordChar = [] ∧ t.dropWhile wordChar = t := by
    cases t with
    | nil => exact ⟨rfl, rfl⟩
    | cons c t =>
      have hc : wordChar c = false := by
        rcases ht with rfl | rfl | rfl <;> rfl
      simp [hc]
  rw [takeWhile_append_of_pos hw, dropWhile_append_of_pos hw, hstop.1, hstop.2, append_nil]
  exact ⟨rfl, rfl⟩

theorem atom_append_inj {v w : Json} {s t : Text} (hv : isAtom v = true) (hw : isAtom w = true) (hfv : FloatsWritten v)
    (hfw : FloatsWritten w) (hs : Stops s) (ht : Stops t) (h : compact v ++ s = compact w ++ t) : v = w ∧ s = t := by
  obtain ⟨hv₁, hv₂⟩ := takeWhile_word (atom_chars hv hfv) hs
  obtain ⟨hw₁, hw₂⟩ := takeWhile_word (atom_chars hw hfw) ht
  refine ⟨?_, ?_⟩
  · rw [← readAtom_compact hv hfv, ← hv₁, h, hw₁, readAtom_compact hw hfw]
  · rw [← hv₂, h, hw₂]

/-- The first character tells the words, the strings, the lists and the objects apart. -/
def opener : Json → Option ℕ
  | .str _ => some 34
  | .arr _ => some 91
  | .obj _ => some 123
  | _ => none

theorem opener_of_text {v : Json} (hf : FloatsWritten v) (t : Text) :
    opener v = (compact v ++ t).head?.filter fun c => !wordChar c := by
  cases hv : isAtom v with
  | false =>
    cases v with
    | str s => rfl
    | arr items => rfl
    | obj members => rfl
    | null => cases hv
    | bool b => cases hv
    | int z => cases hv
    | float s => cases hv
  | true =>
    obtain ⟨c, w, hw⟩ := exists_cons_of_ne_nil (atom_ne_nil hv hf)
    have hc := atom_chars hv hf c (by simp [hw])
    rw [hw]
    have hnone : opener v = none := by
      cases v with
      | str s => cases hv
      | arr items => cases hv
      | obj members => cases hv
      | null => rfl
      | bool b => rfl
      | int z => rfl
      | float s => rfl
    rw [hnone, cons_append, List.head?_cons, Option.filter_some, hc]
    rfl

def restItems : List Json → Text
  | [] => [93]
  | v :: vs => 44 :: compact v ++ restItems vs

def restMembers : List (Text × Json) → Text
  | [] => [125]
  | (k, v) :: ms => 44 :: quotePlain k ++ 58 :: compact v ++ restMembers ms

theorem compactItems_rest (v : Json) (vs : List Json) : compactItems (v :: vs) ++ [93] = compact v ++ restItems vs := by
  induction vs generalizing v with
  | nil => rfl
  | cons w ws ih =>
    rw [compactItems, append_assoc, cons_append, ih, restItems, cons_append]
    exact cons_ne_nil w ws

theorem compactMembers_rest (k : Text) (v : Json) (ms : List (Text × Json)) :
    compactMembers ((k, v) :: ms) ++ [125] = quotePlain k ++ 58 :: compact v ++ restMembers ms := by
  induction ms generalizing k v with
  | nil => rfl
  | cons m ms ih =>
    obtain ⟨k', v'⟩ := m
    rw [compactMembers, append_assoc, cons_append, ih, restMembers]
    · simp only [cons_append, append_assoc]
    · exact cons_ne_nil _ ms

theorem stops_restItems (vs : List Json) (s : Text) : Stops (restItems vs ++ s) := by
  cases vs with
  | nil => exact .inr (.inl rfl)
  | cons v vs => exact .inl rfl

theorem stops_restMembers (ms : List (Text × Json)) (s : Text) : Stops (restMembers ms ++ s) := by
  cases ms with
  | nil => exact .inr (.inr rfl)
  | cons m ms => exact .inl rfl

theorem compact_head {v : Json} (hf : FloatsWritten v) : ∃ c r, compact v = c :: r ∧ c ≠ 93 ∧ c ≠ 125 := by
  cases hv : isAtom v with
  | true =>
    obtain ⟨c, w, hw⟩ := exists_cons_of_ne_nil (atom_ne_nil hv hf)
    have hc := atom_chars hv hf c (by simp [hw])
    refine ⟨c, w, hw, ?_, ?_⟩
    · rintro rfl
      cases hc
    · rintro rfl
      cases hc
  | false =>
    cases v with
    | str s => exact ⟨34, _, rfl, by decide, by decide⟩
    | arr items => exact ⟨91, _, rfl, by decide, by decide⟩
    | obj members => exact ⟨123, _, rfl, by decide, by decide⟩
    | null => cases hv
    | bool b => cases hv
    | int z => cases hv
    | float s => cases hv

theorem opener_eq {v w : Json} {s t : Text} (hfv : FloatsWritten v) (hfw : FloatsWritten w)
    (h : compact v ++ s = compact w ++ t) : opener v = opener w := by
  rw [opener_of_text hfv s, h, ← opener_of_text hfw t]

theorem isAtom_iff (v : Json) : isAtom v = true ↔ opener v = none := by
  cases v <;> simp [isAtom, opener]

mutual

theorem compact_append_inj (v : Json) {w : Json} {s t : Text} (hfv : FloatsWritten v) (hfw : FloatsWritten w)
    (hs : Stops s) (ht : Stops t) (h : compact v ++ s = compact w ++ t) : v = w ∧ s = t := by
  have hopen := opener_eq hfv hfw h
  have hatom : isAtom v = true → v = w ∧ s = t := fun hv =>
    atom_append_inj hv ((isAtom_iff w).mpr (hopen ▸ (isAtom_iff v).mp hv)) hfv hfw hs ht h
  match v with
  | .null | .bool _ | .int _ | .float _ => exact hatom rfl
  | .str a =>
    cases w with
    | str b =>
      obtain ⟨rfl, hst⟩ := quotePlain_append_inj h
      exact ⟨rfl, hst⟩
    | null | bool | int | float | arr | obj => cases hopen
  | .arr items =>
    cases w with
    | arr items' =>
      simp only [compact, cons_append, append_assoc, List.cons.injEq, true_and] at h
      obtain ⟨rfl, hst⟩ := items_append_inj items hfv hfw h
      exact ⟨rfl, hst⟩
    | null | bool | int | float | str | obj => cases hopen
  | .obj members =>
    cases w with
    | obj members' =>
      simp only [compact, cons_append, append_assoc, List.cons.injEq, true_and] at h
      obtain ⟨rfl, hst⟩ := members_append_inj members hfv hfw h
      exact ⟨rfl, hst⟩
    | null | bool | int | float | str | arr => cases hopen

theorem items_append_inj (vs : List Json) {ws : List Json} {s t : Text} (hfv : FloatsWrittenItems vs)
    (hfw : FloatsWrittenItems ws) (h : compactItems vs ++ ([93] ++ s) = compactItems ws ++ ([93] ++ t)) :
    vs = ws ∧ s = t := by
  match vs, ws with
  | [], [] => exact ⟨rfl, by simpa [compactItems] using h⟩
  | [], w :: ws =>
    obtain ⟨c, r, hc, hne, _⟩ := compact_head hfw.1
    rw [← append_assoc, ← append_assoc, compactItems_rest, hc] at h
    exact absurd (List.cons.inj h).1.symm hne
  | v :: vs, [] =>
    obtain ⟨c, r, hc, hne, _⟩ := compact_head hfv.1
    rw [← append_assoc, ← append_assoc, compactItems_rest, hc] at h
    exact absurd (List.cons.inj h).1 hne
  | v :: vs, w :: ws =>
    rw [← append_assoc, ← append_assoc, compactItems_rest, compactItems_rest, append_assoc,
      append_assoc] at h
    obtain ⟨rfl, hrest⟩ := compact_append_inj v hfv.1 hfw.1 (stops_restItems vs s) (stops_restItems ws t) h
    obtain ⟨rfl, hst⟩ := restItems_append_inj vs hfv.2 hfw.2 hrest
    exact ⟨rfl, hst⟩

theorem restItems_append_inj (vs : List Json) {ws : List Json} {s t : Text} (hfv : FloatsWrittenItems vs)
    (hfw : FloatsWrittenItems ws) (h : restItems vs ++ s = restItems ws ++ t) : vs = ws ∧ s = t := by
  match vs, ws with
  | [], [] => exact ⟨rfl, (List.cons.inj h).2⟩
  | [], w :: ws => exact absurd (List.cons.inj h).1 (by decide)
  | v :: vs, [] => exact absurd (List.cons.inj h).1 (by decide)
  | v :: vs, w :: ws =>
    simp only [restItems, cons_append, append_assoc, List.cons.injEq, true_and] at h
    obtain ⟨rfl, hrest⟩ := compact_append_inj v hfv.1 hfw.1 (stops_restItems vs s) (stops_restItems ws t) h
    obtain ⟨rfl, hst⟩ := restItems_append_inj vs hfv.2 hfw.2 hrest
    exact ⟨rfl, hst⟩

theorem members_append_inj (ms : List (Text × Json)) {ns : List (Text × Json)} {s t : Text}
    (hfv : FloatsWrittenMembers ms) (hfw : FloatsWrittenMembers ns)
    (h : compactMembers ms ++ ([125] ++ s) = compactMembers ns ++ ([125] ++ t)) : ms = ns ∧ s = t := by
  match ms, ns with
  | [], [] => exact ⟨rfl, by simpa [compactMembers] using h⟩
  | [], (k, w) :: ns =>
    rw [← append_assoc, ← append_assoc, compactMembers_rest] at h
    exact absurd (List.cons.inj h).1 (by decide)
  | (k, v) :: ms, [] =>
    rw [← append_assoc, ← append_assoc, compactMembers_rest] at h
    exact absurd (List.cons.inj h).1 (by decide)
  | (k, v) :: ms, (k', w) :: ns =>
    rw [← append_assoc, ← append_assoc, compactMembers_rest, compactMembers_rest] at h
    simp only [append_assoc, cons_append] at h
    obtain ⟨rfl, hvalue⟩ := quotePlain_append_inj h
    obtain ⟨rfl, hrest⟩ := compact_append_inj v hfv.1 hfw.1 (stops_restMembers ms s) (stops_restMembers ns t)
      (List.cons.inj hvalue).2
    obtain ⟨rfl, hst⟩ := restMembers_append_inj ms hfv.2 hfw.2 hrest
    exact ⟨rfl, hst⟩

theorem restMembers_append_inj (ms : List (Text × Json)) {ns : List (Text × Json)} {s t : Text}
    (hfv : FloatsWrittenMembers ms) (hfw : FloatsWrittenMembers ns) (h : restMembers ms ++ s = restMembers ns ++ t) :
    ms = ns ∧ s = t := by
  match ms, ns with
  | [], [] => exact ⟨rfl, (List.cons.inj h).2⟩
  | [], (k, w) :: ns => exact absurd (List.cons.inj h).1 (by decide)
  | (k, v) :: ms, [] => exact absurd (List.cons.inj h).1 (by decide)
  | (k, v) :: ms, (k', w) :: ns =>
    simp only [restMembers, cons_append, append_assoc, List.cons.injEq, true_and] at h
    obtain ⟨rfl, hvalue⟩ := quotePlain_append_inj h
    obtain ⟨rfl, hrest⟩ := compact_append_inj v hfv.1 hfw.1 (stops_restMembers ms s) (stops_restMembers ns t)
      (List.cons.inj hvalue).2
    obtain ⟨rfl, hst⟩ := restMembers_append_inj ms hfv.2 hfw.2 hrest
    exact ⟨rfl, hst⟩

end

theorem floatsWrittenMembers_iff {ms : List (Text × Json)} :
    FloatsWrittenMembers ms ↔ ∀ m ∈ ms, FloatsWritten m.2 := by
  induction ms with
  | nil => simp [FloatsWrittenMembers]
  | cons m ms ih => simp only [FloatsWrittenMembers, ih, forall_mem_cons]

mutual

theorem floatsWritten_sortKeys (v : Json) (h : FloatsWritten v) : FloatsWritten (sortKeys v) := by
  match v with
  | .null | .bool _ | .int _ | .str _ => trivial
  | .float s => exact h
  | .arr items => exact floatsWritten_sortKeysItems items h
  | .obj members =>
    have hmembers := floatsWrittenMembers_iff.mp (floatsWritten_sortKeysMembers members h)
    refine floatsWrittenMembers_iff.mpr fun m hm => hmembers m ?_
    exact (perm_insertionSort _ _).mem_iff.mp hm

theorem floatsWritten_sortKeysItems (vs : List Json) (h : FloatsWrittenItems vs) :
    FloatsWrittenItems (sortKeysItems vs) := by
  match vs with
  | [] => trivial
  | v :: vs => exact ⟨floatsWritten_sortKeys v h.1, floatsWritten_sortKeysItems vs h.2⟩

theorem floatsWritten_sortKeysMembers (ms : List (Text × Json)) (h : FloatsWrittenMembers ms) :
    FloatsWrittenMembers (sortKeysMembers ms) := by
  match ms with
  | [] => trivial
  | (k, v) :: ms => exact ⟨floatsWritten_sortKeys v h.1, floatsWritten_sortKeysMembers ms h.2⟩

end

theorem compact_inj {v w : Json} (hfv : FloatsWritten v) (hfw : FloatsWritten w) (h : compact v = compact w) : v = w :=
  (compact_append_inj v hfv hfw (s := []) (t := []) trivial trivial (by rw [h])).1

theorem dumpsSorted_inj {v w : Json} (hfv : FloatsWritten v) (hfw : FloatsWritten w)
    (h : dumpsSorted v = dumpsSorted w) : sortKeys v = sortKeys w :=
  compact_inj (floatsWritten_sortKeys v hfv) (floatsWritten_sortKeys w hfw) h

end Py.Json
