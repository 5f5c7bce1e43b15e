import StupaWorkflow.PyText

/-!
File names of uploads: the display name and the name in the last segment of an
object key. What `unicodedata` and `str.lower` say about a character or a text
is a parameter, because their tables are no part of the repository.
-/
namespace Filenames
open Py List

inductive Category where
  | cc
  | cs
  | zl
  | zp
  | cf
  | zs
  | other
  deriving DecidableEq

/-- The Unicode database behind `unicodedata` and `str.lower`. -/
structure Unicode where
  category : ℕ → Category
  combining : ℕ → Bool
  nfc : Text → Text
  nfkd : Text → Text
  lower : Text → Text

def asciiUnicode : Unicode where
  category c := if c < 32 || c = 127 then .cc else if c = 32 then .zs else .other
  combining _ := false
  nfc := id
  nfkd := id
  lower := List.map fun c => if 65 ≤ c ∧ c ≤ 90 then c + 32 else c

def slash : ℕ := 47
def backslash : ℕ := 92
def dot : ℕ := 46
def space : ℕ := 32

section Paths

def afterLast (sep : ℕ) (s : Text) : Text := (s.reverse.takeWhile (· ≠ sep)).reverse

def splitLast (sep : ℕ) (s : Text) : Option (Text × Text) :=
  if sep ∈ s then some (s.take (s.length - (afterLast sep s).length - 1), afterLast sep s) else none

/-- `os.path.splitext`. Dots at the start of the name begin no extension. -/
def splitext (p : Text) : Text × Text :=
  match splitLast dot p with
  | none => (p, [])
  | some (stem, ext) =>
    if slash ∉ ext && (afterLast slash stem).any (· ≠ dot) then (stem, dot :: ext) else (p, [])

/-- `_basename`: the last path component, for both separators. -/
def basename (name : Text) : Text := afterLast slash (name.map fun c => if c = backslash then slash else c)

/-- `str.strip(" .")`. -/
def stripDots (s : Text) : Text := stripWith (fun c => c = space || c = dot) s

end Paths

section Names

def displayNameMax : ℕ := 200
def storageNameMax : ℕ := 200
def defaultName : Text := text "upload"
def extensionMax : ℕ := 16

def isJoiner (c : ℕ) : Bool := c = 0x200C || c = 0x200D

def isStorageSafe (c : ℕ) : Bool :=
  (97 ≤ c && c ≤ 122) || (65 ≤ c && c ≤ 90) || (48 ≤ c && c ≤ 57) || c = dot || c = 95 || c = 45 || c = space

variable (U : Unicode)

def dropChar (c : ℕ) : Bool :=
  !isJoiner c && (U.category c = .cc || U.category c = .cs || U.category c = .zl || U.category c = .zp ||
    U.category c = .cf)

def looseJoiner : Option ℕ → Option ℕ → Bool
  | some before, some after =>
    before = space || before = dot || after = space || after = dot || isJoiner before || isJoiner after
  | _, _ => true

/-- `_drop_loose_joiners`, with the character before the text. -/
def dropLooseJoiners (before : Option ℕ) : Text → Text
  | [] => []
  | c :: rest =>
    if isJoiner c && looseJoiner before rest.head? then dropLooseJoiners (some c) rest
    else c :: dropLooseJoiners (some c) rest

/-- `_trim`. Each round that changes the name makes it shorter. -/
def trimWith : ℕ → Text → Text
  | 0, name => name
  | fuel + 1, name =>
    let trimmed := dropLooseJoiners none (stripDots name)
    if trimmed = name then name else trimWith fuel trimmed

def trim (name : Text) : Text := trimWith (name.length + 1) name

def cap (name : Text) (limit : ℕ) : Text :=
  if name.length ≤ limit then name
  else
    let (stem, ext) := splitext name
    if stem = [] || extensionMax < ext.length then name.take limit else stem.take (limit - ext.length) ++ ext

/-- `name or default`. -/
def orDefault (name dflt : Text) : Text := if name = [] then dflt else name

def sanitizeDisplayName (filename : Option Text) (dflt : Text) : Text :=
  let raw := U.nfc (filename.getD [])
  let chars := (raw.filter fun c => !dropChar U c).map fun c => if U.category c = .zs then space else c
  let name := trim (basename chars)
  orDefault (trim (cap name displayNameMax)) dflt

def asciiFold (name : Text) : Text := (U.nfkd name).filter fun c => !U.combining c

/-- The folded name with every unsafe character replaced, without dots and spaces at its ends. -/
def storageBase (filename : Option Text) : Text :=
  stripDots ((strip (basename (asciiFold U (filename.getD [])))).map fun c => if isStorageSafe c then c else 95)

def sanitizeStorageName (filename : Option Text) : Text :=
  orDefault (stripDots (cap (storageBase U filename) storageNameMax)) defaultName

end Names

section Strip

variable {p : ℕ → Bool} {s : Text} {c : ℕ}

theorem mem_of_mem_stripWith (h : c ∈ stripWith p s) : c ∈ s := by
  have h := (dropWhile_sublist p).subset (mem_reverse.mp h)
  exact (dropWhile_sublist p).subset (mem_reverse.mp h)

theorem dropWhile_head {rest : Text} (h : s.dropWhile p = c :: rest) : p c = false := by
  have hne : s.dropWhile p ≠ [] := by simp [h]
  have := head_dropWhile_not p hne
  simpa only [h, head_cons] using this

theorem stripWith_ends (h : stripWith p s ≠ []) :
    (∃ c rest, stripWith p s = c :: rest ∧ p c = false) ∧ ∃ front c, stripWith p s = front ++ [c] ∧ p c = false := by
  have hlast : (s.dropWhile p).reverse.dropWhile p ≠ [] := by simpa [stripWith] using h
  have hfirst : s.dropWhile p ≠ [] := by
    intro hnil
    simp [hnil] at hlast
  obtain ⟨b, back, hback⟩ := exists_cons_of_ne_nil hlast
  obtain ⟨a, front, hfront⟩ := exists_cons_of_ne_nil hfirst
  refine ⟨?_, back.reverse, b, by simp [stripWith, hback], dropWhile_head hback⟩
  -- the first character is not in a part that the right strip removes
  have hsuffix := dropWhile_suffix (l := (s.dropWhile p).reverse) p
  rw [hback] at hsuffix
  obtain ⟨gone, hgone⟩ := hsuffix
  have hrev : s.dropWhile p = (b :: back).reverse ++ gone.reverse := by
    rw [← reverse_append, hgone, reverse_reverse]
  obtain ⟨x, xs, hx⟩ := exists_cons_of_ne_nil (l := (b :: back).reverse) (by simp)
  have hxa : x = a := by
    rw [hx, hfront] at hrev
    exact (List.cons.inj hrev).1.symm
  exact ⟨x, xs, by rw [stripWith, hback, hx], hxa ▸ dropWhile_head hfront⟩

theorem stripWith_append {t : Text} (hne : t ≠ []) (hlast : ∀ h : t ≠ [], p (t.getLast h) = false) (s : Text) :
    stripWith p (s ++ t) = if s.dropWhile p = [] then t.dropWhile p else s.dropWhile p ++ t := by
  obtain ⟨front, c, rfl⟩ := (eq_nil_or_concat' t).resolve_left hne
  have hc : p c = false := by simpa using hlast (by simp)
  have hkeep : ∀ u : Text, ((u ++ [c]).reverse.dropWhile p).reverse = u ++ [c] := by
    intro u
    simp [hc]
  by_cases hs : s.dropWhile p = []
  · have hfront : ∃ u, (front ++ [c]).dropWhile p = u ++ [c] := by
      rw [dropWhile_append]
      split
      · exact ⟨[], by simp [hc]⟩
      · exact ⟨_, rfl⟩
    obtain ⟨u, hu⟩ := hfront
    rw [if_pos hs, stripWith, dropWhile_append, hs, isEmpty_nil, if_pos rfl, hu, hkeep]
  · rw [if_neg hs, stripWith, dropWhile_append, if_neg (by simpa using hs), ← append_assoc, hkeep]

end Strip

section Splitting

variable {sep : ℕ} {s : Text}
variable {stem ext : Text}

theorem afterLast_append {t : Text} (h : sep ∉ t) : afterLast sep (s ++ t) = afterLast sep s ++ t := by
  have hall : ∀ c ∈ t.reverse, (decide (c ≠ sep)) = true := by
    intro c hc
    exact decide_eq_true fun heq => h (heq ▸ mem_reverse.mp hc)
  rw [afterLast, reverse_append, takeWhile_append_of_pos hall, reverse_append, reverse_reverse]
  rfl

theorem splitLast_append (h : sep ∉ ext) : splitLast sep (stem ++ sep :: ext) = some (stem, ext) := by
  have hlast : afterLast sep (stem ++ sep :: ext) = ext := by
    rw [append_cons, afterLast_append h]
    simp [afterLast]
  have hlength : stem.length + (ext.length + 1) - ext.length - 1 = stem.length := by omega
  rw [splitLast, if_pos (by simp), hlast, length_append, length_cons, hlength, take_left']
  rfl

theorem splitLast_eq (h : splitLast sep s = some (stem, ext)) : s = stem ++ sep :: ext ∧ sep ∉ ext := by
  have hmem : sep ∈ s := by
    by_contra hnot
    simp [splitLast, hnot] at h
  obtain ⟨back, front, heq, hback⟩ := eq_append_cons_of_mem (mem_reverse.mpr hmem)
  have hs : s = front.reverse ++ sep :: back.reverse := by
    have := congrArg List.reverse heq
    simpa using this
  have hback : sep ∉ back.reverse := by simpa using hback
  rw [hs, splitLast_append hback] at h
  obtain ⟨rfl, rfl⟩ := Prod.mk.inj (Option.some.inj h)
  exact ⟨hs, hback⟩

theorem splitext_append (p : Text) : (splitext p).1 ++ (splitext p).2 = p := by
  unfold splitext
  split
  · simp
  · next stem ext h =>
      split
      · exact (splitLast_eq h).1.symm
      · simp

theorem splitext_of (hdot : dot ∉ ext) (hslash : slash ∉ ext) (hname : ∃ c ∈ afterLast slash stem, c ≠ dot) :
    splitext (stem ++ dot :: ext) = (stem, dot :: ext) := by
  unfold splitext
  simp only [splitLast_append hdot]
  rw [if_pos (by simpa [hslash] using hname)]

end Splitting

section Storage

theorem mem_of_mem_cap {name : Text} {limit c : ℕ} (h : c ∈ cap name limit) : c ∈ name := by
  unfold cap at h
  have hsplit := splitext_append name
  split at h
  · exact h
  · simp only at h
    split at h
    · exact mem_of_mem_take h
    · rw [← hsplit]
      rcases mem_append.mp h with h | h
      · exact mem_append_left _ (mem_of_mem_take h)
      · exact mem_append_right _ h

structure SafeName (name : Text) : Prop where
  ne : name ≠ []
  safe : ∀ c ∈ name, isStorageSafe c = true
  first : ∃ c rest, name = c :: rest ∧ c ≠ space ∧ c ≠ dot
  last : ∃ front c, name = front ++ [c] ∧ c ≠ space ∧ c ≠ dot

theorem storageBase_safe (U : Unicode) {filename : Option Text} {c : ℕ} (h : c ∈ storageBase U filename) :
    isStorageSafe c = true := by
  obtain ⟨b, _, rfl⟩ := mem_map.mp (mem_of_mem_stripWith h)
  split
  · assumption
  · rfl

theorem sanitizeStorageName_safe (U : Unicode) (filename : Option Text) : SafeName (sanitizeStorageName U filename) := by
  unfold sanitizeStorageName orDefault
  split
  · exact ⟨by decide, by decide, ⟨_, _, rfl, by decide, by decide⟩, ⟨text "uploa", 100, by decide, by decide, by decide⟩⟩
  · next hne =>
      obtain ⟨⟨c, rest, hfirst, hc⟩, front, b, hlast, hb⟩ := stripWith_ends hne
      simp only [Bool.or_eq_false_iff, decide_eq_false_iff_not] at hc hb
      refine ⟨hne, fun x hx => ?_, ⟨c, rest, hfirst, hc⟩, ⟨front, b, hlast, hb⟩⟩
      exact storageBase_safe U (mem_of_mem_cap (mem_of_mem_stripWith hx))

end Storage

end Filenames
