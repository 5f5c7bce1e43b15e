import StupaWorkflow.PyText

/-!
YAML of one block mapping whose values are double-quoted scalars, lists of such scalars and lists
of flat records.
-/
namespace Yaml
open Py
open List hiding splitOn count

section Scalars

def printable (c : ℕ) : Bool :=
  c == 9 || c == 10 || c == 13 || (32 ≤ c && c ≤ 126) || c == 0x85 || (0xA0 ≤ c && c ≤ 0xD7FF) ||
    (0xE000 ≤ c && c ≤ 0xFFFD) || (0x10000 ≤ c && c ≤ 0x10FFFF)

/-- The breaks that are no control characters. -/
def isBreak (c : ℕ) : Bool := c == 0x85 || c == 0x2028 || c == 0x2029

def normal (c : ℕ) : ℕ := if c = 0x85 then 10 else c

def isSeparator : Text → Bool
  | 45 :: 45 :: 45 :: c :: _ => c == 32 || isBreak c
  | 46 :: 46 :: 46 :: c :: _ => c == 32 || isBreak c
  | _ => false

def startsBreak (s : Text) : Bool := (s.dropWhile (· == 32)).head?.any isBreak

/-- `ESCAPE_REPLACEMENTS`. -/
def escapes : List (ℕ × ℕ) :=
  [(48, 0), (97, 7), (98, 8), (116, 9), (9, 9), (110, 10), (118, 11), (102, 12), (114, 13), (101, 27), (32, 32),
   (34, 34), (92, 92), (47, 47), (78, 0x85), (95, 0xA0), (76, 0x2028), (80, 0x2029)]

def escapeCodes : List (ℕ × ℕ) := [(120, 2), (117, 4), (85, 8)]

def hexValue (c : ℕ) : Option ℕ :=
  if 48 ≤ c && c ≤ 57 then some (c - 48)
  else if 65 ≤ c && c ≤ 70 then some (c - 55)
  else if 97 ≤ c && c ≤ 102 then some (c - 87)
  else none

/-- Inside the text, after a break (with a blank owed when nothing else stands for it),
after a backslash, and inside a numbered escape. -/
inductive Mode where
  | text
  | skip (owed : Bool)
  | escape
  | hex (left value : ℕ)
  deriving DecidableEq

def lead (owed : Bool) : Text := if owed then [32] else []

def scan : Mode → Text → Option Text
  | .text, [] => some []
  | .skip owed, [] => some (lead owed)
  | .escape, [] => none
  | .hex _ _, [] => none
  | .text, c :: rest =>
    if c = 92 then scan .escape rest
    else if c = 34 then none
    else if isBreak c then
      if isSeparator rest then none
      else if c = 0x85 then scan (.skip true) rest
      else (scan (.skip false) rest).map (c :: ·)
    else if c = 32 && startsBreak rest then scan .text rest
    else (scan .text rest).map (c :: ·)
  | .skip owed, c :: rest =>
    if c = 32 then scan (.skip owed) rest
    else if isBreak c then
      if isSeparator rest then none else (scan (.skip false) rest).map (normal c :: ·)
    else if c = 92 then (scan .escape rest).map (lead owed ++ ·)
    else if c = 34 then none
    else (scan .text rest).map (lead owed ++ c :: ·)
  | .escape, c :: rest =>
    match escapes.lookup c, escapeCodes.lookup c with
    | some d, _ => (scan .text rest).map (d :: ·)
    | none, some count => scan (.hex count 0) rest
    | none, none => if isBreak c && !isSeparator rest then scan (.skip false) rest else none
  | .hex left value, c :: rest =>
    (hexValue c).bind fun d =>
      if left ≤ 1 then (scan .text rest).map ((16 * value + d) :: ·) else scan (.hex (left - 1) (16 * value + d)) rest

/-- Quotes stand in the text only behind a backslash, and no escape has eight digits, which may name no character. -/
def delimited : Text → Bool
  | [] => true
  | [92] => false
  | 92 :: c :: rest => c ≠ 85 && delimited rest
  | 34 :: _ => false
  | _ :: rest => delimited rest

def Closed (s : Text) : Prop := delimited s = true ∧ ∀ c ∈ s, 32 ≤ c

end Scalars

section Blocks

structure Record where
  first : Text × Text
  rest : List (Text × Text)
  deriving DecidableEq

def Record.fields (r : Record) : List (Text × Text) := r.first :: r.rest

/-- A value of the mapping. The lists are never empty. -/
inductive Node where
  | plain (value : Text)
  | quoted (s : Text)
  | words (first : Text) (rest : List Text)
  | records (first : Record) (rest : List Record)
  deriving DecidableEq

abbrev Block := List (Text × Node)

inductive Line where
  | plain (key value : Text)
  | entry (key s : Text)
  | opener (key : Text)
  | item (s : Text)
  | itemEntry (key s : Text)
  | field (key s : Text)
  deriving DecidableEq

def quote (s : Text) : Text := 34 :: s ++ [34]

def Line.text : Line → Text
  | .plain key value => key ++ 58 :: 32 :: value
  | .entry key s => key ++ 58 :: 32 :: quote s
  | .opener key => key ++ [58]
  | .item s => Py.text "  - " ++ quote s
  | .itemEntry key s => Py.text "  - " ++ (key ++ 58 :: 32 :: quote s)
  | .field key s => Py.text "    " ++ (key ++ 58 :: 32 :: quote s)

def Record.lines (r : Record) : List Line := .itemEntry r.first.1 r.first.2 :: r.rest.map fun p => .field p.1 p.2

def Node.lines (key : Text) : Node → List Line
  | .plain value => [.plain key value]
  | .quoted s => [.entry key s]
  | .words first rest => .opener key :: (first :: rest).map .item
  | .records first rest => .opener key :: (first :: rest).flatMap Record.lines

def Block.lines (b : Block) : List Line := b.flatMap fun e => e.2.lines e.1

def Block.text (b : Block) : Text := joinLines (b.lines.map Line.text)

/-- What a loader gives back, as far as the reader of a header tells values apart; a
field of a record may hold a value that is no text. -/
inductive Item where
  | text (s : Text)
  | record (fields : List (Text × Option Text))
  | other
  deriving DecidableEq

inductive Value where
  | text (s : Text)
  | list (items : List Item)
  | other
  deriving DecidableEq

inductive Loaded where
  | mapping (pairs : List (Text × Value))
  | other
  deriving DecidableEq

def Record.item (r : Record) : Item := .record (r.fields.map fun p => (p.1, some p.2))

def Node.value : Node → Value
  | .plain s => .text s
  | .quoted s => .text s
  | .words first rest => .list ((first :: rest).map .text)
  | .records first rest => .list ((first :: rest).map Record.item)

def Record.mapTexts (f : Text → Text) (r : Record) : Record :=
  ⟨(r.first.1, f r.first.2), r.rest.map fun p => (p.1, f p.2)⟩

def Node.mapTexts (f : Text → Text) : Node → Node
  | .plain s => .plain s
  | .quoted s => .quoted (f s)
  | .words first rest => .words (f first) (rest.map f)
  | .records first rest => .records (first.mapTexts f) (rest.map (Record.mapTexts f))

def Block.mapTexts (f : Text → Text) (b : Block) : Block := b.map fun e => (e.1, e.2.mapTexts f)

def Node.texts : Node → List Text
  | .plain _ => []
  | .quoted s => [s]
  | .words first rest => first :: rest
  | .records first rest => (first :: rest).flatMap fun r => r.fields.map Prod.snd

def Block.texts (b : Block) : List Text := b.flatMap fun e => e.2.texts

/-- What is loaded: each quoted text is scanned, and one that fails fails the whole. -/
def Block.load (b : Block) : Option Loaded :=
  if b.text.all printable && b.texts.all fun s => (scan .text s).isSome then
    some (.mapping ((b.mapTexts fun s => (scan .text s).getD []).map fun e => (e.1, e.2.value)))
  else none

/-- A loader looks for the colon behind at most 1024 characters. -/
def IsWord (s : Text) : Prop :=
  s ≠ [] ∧ (∀ c ∈ s, (65 ≤ c ∧ c ≤ 90) ∨ (97 ≤ c ∧ c ≤ 122) ∨ c = 95) ∧ s.length ≤ 1024

def Record.keys (r : Record) : List Text := r.fields.map Prod.fst

structure Node.Simple (n : Node) : Prop where
  plain : ∀ s, n = .plain s → IsWord s
  closed : ∀ s ∈ n.texts, Closed s
  keys : ∀ first rest, n = .records first rest → ∀ r ∈ first :: rest, r.keys.Nodup ∧ ∀ k ∈ r.keys, IsWord k

structure Block.Simple (b : Block) : Prop where
  nonempty : b ≠ []
  keys : (b.map Prod.fst).Nodup
  words : ∀ e ∈ b, IsWord e.1
  nodes : ∀ e ∈ b, e.2.Simple

def Reads (load : Text → Option Loaded) : Prop := ∀ b : Block, b.Simple → load b.text = b.load

end Blocks

section Reader

def unquote : Text → Option Text
  | 34 :: s => if s.getLast? = some 34 then some s.dropLast else none
  | _ => none

def readPair (s : Text) : Option (Text × Text) :=
  match s.dropWhile (· ≠ 58) with
  | 58 :: 32 :: v => some (s.takeWhile (· ≠ 58), v)
  | _ => none

def readQuoted (s : Text) : Option (Text × Text) :=
  (readPair s).bind fun p => (unquote p.2).map fun q => (p.1, q)

def readLine (s : Text) : Option Line :=
  if (text "  - ").isPrefixOf s then
    match unquote (s.drop 4) with
    | some q => some (.item q)
    | none => (readQuoted (s.drop 4)).map fun p => .itemEntry p.1 p.2
  else if (text "    ").isPrefixOf s then (readQuoted (s.drop 4)).map fun p => .field p.1 p.2
  else if s.getLast? = some 58 then some (.opener s.dropLast)
  else (readPair s).map fun p =>
    match unquote p.2 with
    | some q => .entry p.1 q
    | none => .plain p.1 p.2

/-- The lines below the line at hand: the fields and the items that still wait for their
first line, and the finished entries. -/
structure Pending where
  fields : List (Text × Text)
  words : List Text
  records : List Record
  block : Block

def Pending.add : Line → Pending → Option Pending
  | .field k s, p => some { p with fields := (k, s) :: p.fields }
  | .itemEntry k s, p => some { p with fields := [], records := ⟨(k, s), p.fields⟩ :: p.records }
  | .item s, ⟨[], ws, rs, b⟩ => some ⟨[], s :: ws, rs, b⟩
  | .opener k, ⟨[], w :: ws, [], b⟩ => some ⟨[], [], [], (k, .words w ws) :: b⟩
  | .opener k, ⟨[], [], r :: rs, b⟩ => some ⟨[], [], [], (k, .records r rs) :: b⟩
  | .entry k s, ⟨[], [], [], b⟩ => some ⟨[], [], [], (k, .quoted s) :: b⟩
  | .plain k s, ⟨[], [], [], b⟩ => some ⟨[], [], [], (k, .plain s) :: b⟩
  | _, _ => none

def assemble : List Line → Option Pending
  | [] => some ⟨[], [], [], []⟩
  | l :: ls => (assemble ls).bind (Pending.add l)

def read (t : Text) : Option Loaded :=
  (((splitOn 10 t).mapM readLine).bind assemble).bind fun p => p.block.load

end Reader

section ReaderCorrect

variable {ls : List Line} {b : Block} {s key : Text} {l : Line}

attribute [local simp] Pending.add assemble read

theorem assemble_items {ws : List Text} (h : assemble ls = some ⟨[], ws, [], b⟩) (rest : List Text) :
    assemble (rest.map .item ++ ls) = some ⟨[], rest ++ ws, [], b⟩ := by
  induction rest with
  | nil => exact h
  | cons s rest ih => rw [map_cons, cons_append, assemble, ih]; rfl

theorem assemble_fields {rs : List Record} (h : assemble ls = some ⟨[], [], rs, b⟩) (rest : List (Text × Text)) :
    assemble (rest.map (fun p => Line.field p.1 p.2) ++ ls) = some ⟨rest, [], rs, b⟩ := by
  induction rest with
  | nil => exact h
  | cons p rest ih => rw [map_cons, cons_append, assemble, ih]; rfl

theorem assemble_records (h : assemble ls = some ⟨[], [], [], b⟩) (rest : List Record) :
    assemble (rest.flatMap Record.lines ++ ls) = some ⟨[], [], rest, b⟩ := by
  induction rest with
  | nil => exact h
  | cons r rest ih =>
    rw [flatMap_cons, append_assoc, Record.lines, cons_append, assemble, assemble_fields ih]
    rfl

theorem assemble_lines (b : Block) : assemble b.lines = some ⟨[], [], [], b⟩ := by
  induction b with
  | nil => rfl
  | cons e b ih =>
    obtain ⟨key, node⟩ := e
    change assemble (node.lines key ++ Block.lines b) = _
    cases node with
    | plain value => rw [Node.lines, singleton_append, assemble, ih]; rfl
    | quoted s => rw [Node.lines, singleton_append, assemble, ih]; rfl
    | words first rest => rw [Node.lines, cons_append, assemble, assemble_items ih, append_nil]; rfl
    | records first rest => rw [Node.lines, cons_append, assemble, assemble_records ih]; rfl

@[simp] theorem unquote_quote (s : Text) : unquote (quote s) = some s := by
  simp [unquote, quote]

theorem IsWord.no_colon (h : IsWord s) : ∀ c ∈ s, c ≠ 58 := by
  intro c hc
  have := h.2.1 c hc
  omega

theorem readPair_pair (h : IsWord key) (v : Text) : readPair (key ++ 58 :: 32 :: v) = some (key, v) := by
  have hpass : ∀ c ∈ key, (decide (c ≠ 58)) = true := fun c hc => decide_eq_true (h.no_colon c hc)
  rw [readPair, dropWhile_append_of_pos hpass, takeWhile_append_of_pos hpass]
  simp

theorem readQuoted_pair (h : IsWord key) (s : Text) : readQuoted (key ++ 58 :: 32 :: quote s) = some (key, s) := by
  simp [readQuoted, readPair_pair h]

theorem IsWord.cons (h : IsWord s) : ∃ c rest, s = c :: rest ∧ c ≠ 32 ∧ c ≠ 34 := by
  obtain ⟨c, rest, rfl⟩ := exists_cons_of_ne_nil h.1
  have := h.2.1 c mem_cons_self
  exact ⟨c, rest, rfl, by omega, by omega⟩

theorem IsWord.unquote (h : IsWord s) (t : Text) : unquote (s ++ t) = none := by
  obtain ⟨c, rest, rfl, _, hc⟩ := h.cons
  rw [cons_append, Yaml.unquote.eq_2]
  rintro u heq
  exact hc (List.cons.inj heq).1

def Line.Good : Line → Prop
  | .plain key value => IsWord key ∧ IsWord value
  | .entry key s => IsWord key ∧ Closed s
  | .opener key => IsWord key
  | .item s => Closed s
  | .itemEntry key s => IsWord key ∧ Closed s
  | .field key s => IsWord key ∧ Closed s

def Line.texts : Line → List Text
  | .plain _ _ => []
  | .opener _ => []
  | .entry _ s => [s]
  | .item s => [s]
  | .itemEntry _ s => [s]
  | .field _ s => [s]

theorem readLine_text (h : l.Good) : readLine l.text = some l := by
  have hstart : ∀ {key : Text} (t : Text), IsWord key →
      (text "  - ").isPrefixOf (key ++ t) = false ∧ (text "    ").isPrefixOf (key ++ t) = false := by
    intro key t hkey
    obtain ⟨c, rest, rfl, hc, _⟩ := hkey.cons
    have hne : (32 == c) = false := by simpa using Ne.symm hc
    have htext : text "  - " = [32, 32, 45, 32] ∧ text "    " = [32, 32, 32, 32] := by decide
    rw [htext.1, htext.2, cons_append]
    simp [List.isPrefixOf, hne]
  cases l with
  | plain key value =>
    obtain ⟨hkey, hvalue⟩ := h
    have hlast : (key ++ 58 :: 32 :: value).getLast? ≠ some 58 := by
      obtain ⟨front, last, rfl⟩ := eq_nil_or_concat value |>.resolve_left hvalue.1
      have := hvalue.2.1 last (by simp)
      rw [show key ++ 58 :: 32 :: front.concat last = (key ++ 58 :: 32 :: front).concat last by simp,
        concat_eq_append, getLast?_concat]
      intro heq
      have := Option.some.inj heq
      omega
    have hplain : Yaml.unquote value = none := by simpa using hvalue.unquote []
    rw [Line.text, readLine, (hstart _ hkey).1, (hstart _ hkey).2, if_neg Bool.false_ne_true, if_neg Bool.false_ne_true,
      if_neg hlast, readPair_pair hkey, Option.map_some, hplain]
  | entry key s =>
    have hlast : (key ++ 58 :: 32 :: quote s).getLast? ≠ some 58 := by
      rw [quote, show key ++ 58 :: 32 :: (34 :: s ++ [34]) = (key ++ 58 :: 32 :: 34 :: s) ++ [34] by simp,
        getLast?_concat]
      decide
    rw [Line.text, readLine, (hstart _ h.1).1, (hstart _ h.1).2, if_neg Bool.false_ne_true, if_neg Bool.false_ne_true,
      if_neg hlast, readPair_pair h.1, Option.map_some, unquote_quote]
  | opener key =>
    rw [Line.text, readLine, (hstart _ h).1, (hstart _ h).2, if_neg Bool.false_ne_true, if_neg Bool.false_ne_true,
      getLast?_concat, if_pos rfl, dropLast_concat]
  | item s =>
    have hdrop : (text "  - " ++ quote s).drop 4 = quote s := by simp [text]
    rw [Line.text, readLine, if_pos (by simp), hdrop, unquote_quote]
  | itemEntry key s =>
    have hdrop : (text "  - " ++ (key ++ 58 :: 32 :: quote s)).drop 4 = key ++ 58 :: 32 :: quote s := by simp [text]
    rw [Line.text, readLine, if_pos (by simp), hdrop, IsWord.unquote h.1, readQuoted_pair h.1]
    rfl
  | field key s =>
    have hdash : (text "  - ").isPrefixOf (text "    " ++ (key ++ 58 :: 32 :: quote s)) = false := by
      simp [text, List.isPrefixOf]
    have hdrop : (text "    " ++ (key ++ 58 :: 32 :: quote s)).drop 4 = key ++ 58 :: 32 :: quote s := by simp [text]
    rw [Line.text, readLine, hdash, if_neg Bool.false_ne_true, if_pos (by simp), hdrop, readQuoted_pair h.1]
    rfl

theorem Node.Simple.lines (hkey : IsWord key) {n : Node} (h : n.Simple) : ∀ l ∈ n.lines key, l.Good := by
  intro l hl
  cases n with
  | plain value =>
    rw [mem_singleton.mp hl]
    exact ⟨hkey, h.plain value rfl⟩
  | quoted s =>
    rw [mem_singleton.mp hl]
    exact ⟨hkey, h.closed s mem_cons_self⟩
  | words first rest =>
    rcases mem_cons.mp hl with rfl | hl
    · exact hkey
    · obtain ⟨s, hs, rfl⟩ := mem_map.mp hl
      exact h.closed s hs
  | records first rest =>
    rcases mem_cons.mp hl with rfl | hl
    · exact hkey
    · obtain ⟨r, hr, hl⟩ := mem_flatMap.mp hl
      have hwords := (h.keys first rest rfl r hr).2
      have hclosed : ∀ p ∈ r.fields, Closed p.2 := fun p hp =>
        h.closed p.2 (mem_flatMap.mpr ⟨r, hr, mem_map_of_mem hp⟩)
      rcases mem_cons.mp hl with rfl | hl
      · exact ⟨hwords _ mem_cons_self, hclosed _ mem_cons_self⟩
      · obtain ⟨p, hp, rfl⟩ := mem_map.mp hl
        have hp : p ∈ r.fields := mem_cons_of_mem _ hp
        exact ⟨hwords p.1 (mem_map_of_mem hp), hclosed p hp⟩

theorem Block.Simple.lines_good (h : b.Simple) : ∀ l ∈ b.lines, l.Good := by
  intro l hl
  obtain ⟨e, he, hl⟩ := mem_flatMap.mp hl
  exact (h.nodes e he).lines (h.words e he) l hl

theorem Block.lines_texts (b : Block) : b.lines.flatMap Line.texts = b.texts := by
  have hitems : ∀ ws : List Text, (ws.map Line.item).flatMap Line.texts = ws := by
    intro ws
    induction ws with
    | nil => rfl
    | cons w ws ih => rw [map_cons, flatMap_cons, ih]; rfl
  have hrecord : ∀ r : Record, r.lines.flatMap Line.texts = r.fields.map Prod.snd := by
    rintro ⟨first, rest⟩
    have hrest : ∀ ps : List (Text × Text), (ps.map fun p => Line.field p.1 p.2).flatMap Line.texts = ps.map Prod.snd := by
      intro ps
      induction ps with
      | nil => rfl
      | cons p ps ih => rw [map_cons, flatMap_cons, ih]; rfl
    rw [Record.lines, flatMap_cons, hrest]
    rfl
  have hnode : ∀ (key : Text) (n : Node), (n.lines key).flatMap Line.texts = n.texts := by
    intro key n
    cases n with
    | plain value => rfl
    | quoted s => rfl
    | words first rest => rw [Node.lines, flatMap_cons, hitems]; rfl
    | records first rest =>
      rw [Node.lines, flatMap_cons, flatMap_assoc]
      exact flatMap_congr fun r _ => hrecord r
  rw [Block.lines, flatMap_assoc]
  exact flatMap_congr fun e _ => hnode e.1 e.2

theorem IsWord.printable (h : IsWord s) : ∀ c ∈ s, 32 < c ∧ c < 127 := by
  intro c hc
  have := h.2.1 c hc
  omega

theorem mem_quote {c : ℕ} (hc : c ∈ quote s) : (32 ≤ c ∧ c < 127) ∨ c ∈ s := by
  simp only [quote, mem_append, mem_cons, not_mem_nil, or_false] at hc
  rcases hc with (rfl | hc) | rfl
  · exact .inl (by omega)
  · exact .inr hc
  · exact .inl (by omega)

theorem mem_entry (hkey : IsWord key) {c : ℕ} (hc : c ∈ key ++ 58 :: 32 :: quote s) : (32 ≤ c ∧ c < 127) ∨ c ∈ s := by
  simp only [mem_append, mem_cons] at hc
  rcases hc with hc | rfl | rfl | hc
  · have := hkey.printable c hc
    omega
  · exact .inl (by omega)
  · exact .inl (by omega)
  · exact mem_quote hc

theorem Line.mem_text (h : l.Good) {c : ℕ} (hc : c ∈ l.text) : (32 ≤ c ∧ c < 127) ∨ ∃ s ∈ l.texts, c ∈ s := by
  have hdash : ∀ d ∈ Py.text "  - ", 32 ≤ d ∧ d < 127 := by decide
  have hblank : ∀ d ∈ Py.text "    ", 32 ≤ d ∧ d < 127 := by decide
  have hquoted {s : Text} (hc : (32 ≤ c ∧ c < 127) ∨ c ∈ s) : (32 ≤ c ∧ c < 127) ∨ ∃ t ∈ [s], c ∈ t :=
    hc.imp_right fun h => ⟨s, mem_singleton_self s, h⟩
  cases l with
  | plain key value =>
    simp only [Line.text, mem_append, mem_cons] at hc
    rcases hc with hc | rfl | rfl | hc
    · have := h.1.printable c hc
      omega
    · exact .inl (by omega)
    · exact .inl (by omega)
    · have := h.2.printable c hc
      omega
  | entry key s => exact hquoted (mem_entry h.1 hc)
  | opener key =>
    simp only [Line.text, mem_append, mem_singleton] at hc
    rcases hc with hc | rfl
    · have := IsWord.printable h c hc
      omega
    · exact .inl (by omega)
  | item s =>
    rcases mem_append.mp hc with hc | hc
    · exact .inl (hdash c hc)
    · exact hquoted (mem_quote hc)
  | itemEntry key s =>
    rcases mem_append.mp hc with hc | hc
    · exact .inl (hdash c hc)
    · exact hquoted (mem_entry h.1 hc)
  | field key s =>
    rcases mem_append.mp hc with hc | hc
    · exact .inl (hblank c hc)
    · exact hquoted (mem_entry h.1 hc)

theorem Line.texts_infix (h : s ∈ l.texts) : ∀ c ∈ s, c ∈ l.text := by
  intro c hc
  cases l with
  | plain key value => cases h
  | opener key => cases h
  | entry key q => simp [Line.text, quote, ← mem_singleton.mp h, hc]
  | item q => simp [Line.text, quote, ← mem_singleton.mp h, hc]
  | itemEntry key q => simp [Line.text, quote, ← mem_singleton.mp h, hc]
  | field key q => simp [Line.text, quote, ← mem_singleton.mp h, hc]

theorem Line.one_line (h : l.Good) : 10 ∉ l.text := by
  intro hmem
  rcases Line.mem_text h hmem with hc | ⟨s, hs, hc⟩
  · omega
  · have hclosed : Closed s := by
      cases l with
      | plain key value => cases hs
      | opener key => cases hs
      | entry key q => exact mem_singleton.mp hs ▸ h.2
      | item q => exact mem_singleton.mp hs ▸ h
      | itemEntry key q => exact mem_singleton.mp hs ▸ h.2
      | field key q => exact mem_singleton.mp hs ▸ h.2
    have := hclosed.2 10 hc
    omega

theorem Block.Simple.lines_ne (h : b.Simple) : b.lines.map Line.text ≠ [] := by
  obtain ⟨e, b, rfl⟩ := exists_cons_of_ne_nil h.nonempty
  obtain ⟨key, node⟩ := e
  cases node <;> simp [Block.lines, Node.lines]

theorem Block.Simple.splitOn (h : b.Simple) : splitOn 10 b.text = b.lines.map Line.text := by
  refine splitOn_joinLines h.lines_ne fun s hs => ?_
  obtain ⟨l, hl, rfl⟩ := mem_map.mp hs
  exact Line.one_line (h.lines_good l hl)

theorem Block.Simple.printable (h : b.Simple) :
    b.text.all printable = true ↔ ∀ s ∈ b.texts, ∀ c ∈ s, Yaml.printable c = true := by
  rw [all_eq_true, ← b.lines_texts]
  constructor
  · intro hall s hs c hc
    obtain ⟨l, hl, hs⟩ := mem_flatMap.mp hs
    exact hall c (mem_joinLines_of_mem (mem_map_of_mem hl) (Line.texts_infix hs c hc))
  · intro hall c hc
    rcases mem_joinLines hc with rfl | ⟨t, ht, hc⟩
    · decide
    · obtain ⟨l, hl, rfl⟩ := mem_map.mp ht
      rcases Line.mem_text (h.lines_good l hl) hc with hascii | ⟨s, hs, hc⟩
      · simp only [Yaml.printable, Bool.or_eq_true, Bool.and_eq_true, decide_eq_true_eq, beq_iff_eq]
        omega
      · exact hall s (mem_flatMap.mpr ⟨l, hl, hs⟩) c hc

theorem mapM_of_forall {α β : Type} {f : β → Option α} {g : α → β} {xs : List α} (h : ∀ x ∈ xs, f (g x) = some x) :
    (xs.map g).mapM f = some xs := by
  induction xs with
  | nil => rfl
  | cons x xs ih =>
    rw [map_cons, mapM_cons, h x mem_cons_self, ih fun y hy => h y (mem_cons_of_mem x hy)]
    rfl

theorem read_reads : Reads read := by
  intro b h
  rw [read, h.splitOn, mapM_of_forall fun l hl => readLine_text (h.lines_good l hl), Option.bind_some, assemble_lines,
    Option.bind_some]

end ReaderCorrect

end Yaml
