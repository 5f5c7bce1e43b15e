import Mathlib.Data.List.Nodup
import StupaWorkflow.Json

/-!
Models with a JSON form, as a validation library builds them. A `Codec` writes a value and reads
one back, and `Valid` holds of the values that it reads.
-/
namespace Schema
open Py List

abbrev Members := List (Text × Json)

/-- How a field of one JSON type takes a value of another one. -/
structure Lax where
  bool : Json → Option Bool
  int : Json → Option ℤ
  float : Json → Option Text

structure Codec (α : Type) where
  dump : α → Json
  read : Json → Option α
  Valid : α → Prop
  read_dump : ∀ {a}, Valid a → read (dump a) = some a
  read_valid : ∀ {j a}, read j = some a → Valid a

def isNull : Json → Bool
  | .null => true
  | _ => false

namespace Codec
open List

variable {α β : Type}

def str : Codec Text where
  dump := .str
  read
    | .str s => some s
    | _ => none
  Valid _ := True
  read_dump _ := rfl
  read_valid _ := trivial

def bool (lax : Lax) : Codec Bool where
  dump := .bool
  read
    | .bool b => some b
    | j => lax.bool j
  Valid _ := True
  read_dump _ := rfl
  read_valid _ := trivial

def int (lax : Lax) : Codec ℤ where
  dump := .int
  read
    | .int z => some z
    | j => lax.int j
  Valid _ := True
  read_dump _ := rfl
  read_valid _ := trivial

/-- A float stands for its literal. -/
def float (lax : Lax) : Codec Text where
  dump := .float
  read
    | .float s => some s
    | j => lax.float j
  Valid _ := True
  read_dump _ := rfl
  read_valid _ := trivial

/-- `dict[str, Any]`. -/
def object : Codec Members where
  dump := .obj
  read
    | .obj members => some members
    | _ => none
  Valid _ := True
  read_dump _ := rfl
  read_valid _ := trivial

theorem mapM_map_eq {γ : Type} {f : β → α} {g : α → Option γ} {k : β → γ} {l : List β} (h : ∀ b ∈ l, g (f b) = some (k b)) :
    (l.map f).mapM g = some (l.map k) := by
  induction l with
  | nil => rfl
  | cons b l ih =>
    have hb : g (f b) = some (k b) := h b mem_cons_self
    have hl : (l.map f).mapM g = some (l.map k) := ih fun x hx => h x (mem_cons_of_mem _ hx)
    simp [mapM_cons, hb, hl]

theorem mapM_map {f : β → α} {g : α → Option β} {l : List β} (h : ∀ b ∈ l, g (f b) = some b) :
    (l.map f).mapM g = some l := by
  simpa using mapM_map_eq (k := id) h

theorem mem_of_mapM {g : α → Option β} {l : List α} {bs : List β} (h : l.mapM g = some bs) {b : β} (hb : b ∈ bs) :
    ∃ a ∈ l, g a = some b := by
  induction l generalizing bs with
  | nil =>
    cases h
    cases hb
  | cons a l ih =>
    simp only [mapM_cons, Option.bind_eq_bind, Option.bind_eq_some_iff, Option.pure_def, Option.some_inj] at h
    obtain ⟨x, hx, xs, hxs, rfl⟩ := h
    rcases mem_cons.mp hb with rfl | hmem
    · exact ⟨a, mem_cons_self, hx⟩
    · obtain ⟨y, hy, hgy⟩ := ih hxs hmem
      exact ⟨y, mem_cons_of_mem _ hy, hgy⟩

def list (c : Codec α) : Codec (List α) where
  dump items := .arr (items.map c.dump)
  read
    | .arr items => items.mapM c.read
    | _ => none
  Valid items := ∀ a ∈ items, c.Valid a
  read_dump h := mapM_map fun a ha => c.read_dump (h a ha)
  read_valid {j items} h a ha := by
    cases j with
    | arr js =>
      obtain ⟨j, _, hj⟩ := mem_of_mapM h ha
      exact c.read_valid hj
    | _ => cases h

/-- `dict[κ, α]`, with the keys of `κ` written by their names. -/
def dict {κ : Type} (name : κ → Text) (key : Text → Option κ) (hkey : ∀ k, key (name k) = some k) (c : Codec α) :
    Codec (List (κ × α)) where
  dump members := .obj (members.map fun m => (name m.1, c.dump m.2))
  read
    | .obj members => members.mapM fun m => (key m.1).bind fun k => (c.read m.2).map fun a => (k, a)
    | _ => none
  Valid members := ∀ m ∈ members, c.Valid m.2
  read_dump {members} h := by
    refine mapM_map (f := fun m => (name m.1, c.dump m.2))
      (g := fun m => (key m.1).bind fun k => (c.read m.2).map fun a => (k, a)) fun m hm => ?_
    simp [hkey, c.read_dump (h m hm)]
  read_valid {j members} h m hm := by
    cases j with
    | obj js =>
      obtain ⟨j, _, hj⟩ := mem_of_mapM h hm
      obtain ⟨k, _, hrest⟩ := Option.bind_eq_some_iff.mp hj
      obtain ⟨a, ha, rfl⟩ := Option.map_eq_some_iff.mp hrest
      exact c.read_valid ha
    | _ => cases h

def optionRead (c : Codec α) : Json → Option (Option α)
  | .null => some none
  | j => (c.read j).map some

theorem optionRead_of_not_null (c : Codec α) {j : Json} (h : isNull j = false) : optionRead c j = (c.read j).map some := by
  cases j with
  | null => cases h
  | _ => rfl

/-- No value is written as null. -/
class NotNull (c : Codec α) : Prop where
  dump : ∀ a, isNull (c.dump a) = false

/-- `α | None`, for an `α` that is not written as null. -/
def option (c : Codec α) [hc : NotNull c] : Codec (Option α) where
  dump
    | none => .null
    | some a => c.dump a
  read := optionRead c
  Valid a := ∀ b ∈ a, c.Valid b
  read_dump {a} h := by
    cases a with
    | none => rfl
    | some b =>
      rw [optionRead_of_not_null c (hc.dump b), c.read_dump (h b rfl)]
      rfl
  read_valid {j a} h b hb := by
    cases hb
    by_cases hj : isNull j = true
    · cases j <;> cases hj
      cases h
    · rw [optionRead_of_not_null c (Bool.eq_false_iff.mpr hj)] at h
      obtain ⟨_, hread, hsome⟩ := Option.map_eq_some_iff.mp h
      cases hsome
      exact c.read_valid hread

/-- A validator that only refuses. -/
def check (c : Codec α) (p : α → Bool) : Codec α where
  dump := c.dump
  read j := (c.read j).filter p
  Valid a := c.Valid a ∧ p a = true
  read_dump h := by simp [c.read_dump h.1, h.2]
  read_valid h := by
    obtain ⟨hread, hp⟩ := Option.filter_eq_some_iff.mp h
    exact ⟨c.read_valid hread, hp⟩

def convert (c : Codec α) (f : α → Option α) (hf : ∀ {a b}, c.Valid a → f a = some b → c.Valid b ∧ f b = some b) :
    Codec α where
  dump := c.dump
  read j := (c.read j).bind f
  Valid a := c.Valid a ∧ f a = some a
  read_dump h := by simp [c.read_dump h.1, h.2]
  read_valid h := by
    obtain ⟨a, hread, hfa⟩ := Option.bind_eq_some_iff.mp h
    exact hf (c.read_valid hread) hfa

def before (c : Codec α) (f : Json → Json) (hf : ∀ a, f (c.dump a) = c.dump a) : Codec α where
  dump := c.dump
  read j := c.read (f j)
  Valid := c.Valid
  read_dump {a} h := by rw [hf a, c.read_dump h]
  read_valid h := c.read_valid h

/-- A `Literal` of names. -/
def literal (name : α → Text) (all : List α) (hfind : ∀ a, all.find? (fun b => name b = name a) = some a) :
    Codec α where
  dump a := .str (name a)
  read
    | .str s => all.find? fun a => name a = s
    | _ => none
  Valid _ := True
  read_dump {a} _ := hfind a
  read_valid _ := trivial

section NotNull

variable {c : Codec α} {lax : Lax}

instance : NotNull str := ⟨fun _ => rfl⟩

instance : NotNull (bool lax) := ⟨fun _ => rfl⟩

instance : NotNull (int lax) := ⟨fun _ => rfl⟩

instance : NotNull (float lax) := ⟨fun _ => rfl⟩

instance : NotNull object := ⟨fun _ => rfl⟩

instance : NotNull (list c) := ⟨fun _ => rfl⟩

instance {κ : Type} {name : κ → Text} {key : Text → Option κ} {hkey : ∀ k, key (name k) = some k} :
    NotNull (dict name key hkey c) := ⟨fun _ => rfl⟩

instance {name : α → Text} {all : List α} {hfind : ∀ a, all.find? (fun b => name b = name a) = some a} :
    NotNull (literal name all hfind) := ⟨fun _ => rfl⟩

instance [h : NotNull c] {p : α → Bool} : NotNull (c.check p) := ⟨h.dump⟩

instance [h : NotNull c] {f : α → Option α} {hf : ∀ {a b}, c.Valid a → f a = some b → c.Valid b ∧ f b = some b} :
    NotNull (c.convert f hf) := ⟨h.dump⟩

end NotNull

section Valid

variable {c : Codec α} {lax : Lax}

@[simp] theorem str_valid (s : Text) : str.Valid s := trivial

@[simp] theorem bool_valid (b : Bool) : (bool lax).Valid b := trivial

@[simp] theorem int_valid (z : ℤ) : (int lax).Valid z := trivial

@[simp] theorem float_valid (s : Text) : (float lax).Valid s := trivial

@[simp] theorem object_valid (ms : Members) : object.Valid ms := trivial

@[simp] theorem literal_valid {name : α → Text} {all : List α}
    {hfind : ∀ a, all.find? (fun b => name b = name a) = some a} (a : α) : (literal name all hfind).Valid a := trivial

@[simp] theorem list_valid (items : List α) : (list c).Valid items ↔ ∀ a ∈ items, c.Valid a := Iff.rfl

@[simp] theorem dict_valid {κ : Type} {name : κ → Text} {key : Text → Option κ} {hkey : ∀ k, key (name k) = some k}
    (ms : List (κ × α)) : (dict name key hkey c).Valid ms ↔ ∀ m ∈ ms, c.Valid m.2 := Iff.rfl

@[simp] theorem option_valid [NotNull c] (a : Option α) : (option c).Valid a ↔ ∀ b ∈ a, c.Valid b := Iff.rfl

@[simp] theorem check_valid (p : α → Bool) (a : α) : (c.check p).Valid a ↔ c.Valid a ∧ p a = true := Iff.rfl

theorem option_isNull [h : NotNull c] {a : Option α} : isNull ((option c).dump a) = true ↔ a = none := by
  cases a with
  | none => exact ⟨fun _ => rfl, fun _ => rfl⟩
  | some a => simp [option, h.dump a]

end Valid

end Codec

def member {β : Type} (key name : Text) (fallback : Option β) (c : Codec β) (ms : Members) : Option β :=
  match ms.lookup key with
  | some j => c.read j
  | none =>
    match ms.lookup name with
    | some j => c.read j
    | none => fallback

theorem member_of_lookup {β : Type} {key name : Text} {fallback : Option β} {c : Codec β} {ms : Members} {j : Json} {b : β}
    (hlookup : ms.lookup key = some j) (hread : c.read j = some b) : member key name fallback c ms = some b := by
  rw [member, hlookup]
  exact hread

/-- The fields of a record class, with their values as a tuple. -/
structure Fields (α : Type) where
  /-- The alias and the own name of each field. -/
  names : List (Text × Text)
  dump : α → Members
  read : Members → Option α
  Valid : α → Prop
  /-- A member that is written as null has its default. -/
  Defaulted : α → Prop
  dump_keys : ∀ a, (dump a).map Prod.fst = names.map Prod.fst
  read_dump : ∀ {a ms}, Valid a → (∀ m ∈ dump a, ms.lookup m.1 = some m.2) → read ms = some a
  read_present : ∀ {a ms}, Valid a → Defaulted a → (∀ n ∈ names, n.2 ≠ n.1 → ms.lookup n.2 = none) →
    (∀ m ∈ dump a, ms.lookup m.1 = if isNull m.2 then none else some m.2) → read ms = some a
  read_valid : ∀ {ms a}, read ms = some a → Valid a

namespace Fields
open List

variable {α β : Type}

def nil : Fields Unit where
  names := []
  dump _ := []
  read _ := some ()
  Valid _ := True
  Defaulted _ := True
  dump_keys _ := rfl
  read_dump _ _ := rfl
  read_present _ _ _ _ := rfl
  read_valid _ := trivial

def field (key name : Text) (fallback : Option β) (c : Codec β) (F : Fields α)
    (hfallback : ∀ b ∈ fallback, c.Valid b := by simp) : Fields (β × α) where
  names := (key, name) :: F.names
  dump a := (key, c.dump a.1) :: F.dump a.2
  read ms := (member key name fallback c ms).bind fun b => (F.read ms).map fun a => (b, a)
  Valid a := c.Valid a.1 ∧ F.Valid a.2
  Defaulted a := (isNull (c.dump a.1) = true → fallback = some a.1) ∧ F.Defaulted a.2
  dump_keys a := by simp [F.dump_keys a.2]
  read_dump {a ms} h hms := by
    have hF : F.read ms = some a.2 := F.read_dump h.2 fun m hm => hms m (mem_cons_of_mem _ hm)
    have hlookup : ms.lookup key = some (c.dump a.1) := hms (key, c.dump a.1) mem_cons_self
    simp [hF, member, hlookup, c.read_dump h.1]
  read_present {a ms} h hdefault hnames hms := by
    have hF : F.read ms = some a.2 :=
      F.read_present h.2 hdefault.2 (fun n hn => hnames n (mem_cons_of_mem _ hn))
        fun m hm => hms m (mem_cons_of_mem _ hm)
    have hlookup := hms (key, c.dump a.1) mem_cons_self
    have hmember : member key name fallback c ms = some a.1 := by
      cases hnull : isNull (c.dump a.1) with
      | false => simp [member, hlookup, hnull, c.read_dump h.1]
      | true =>
        have hname : ms.lookup name = none := by
          by_cases heq : name = key
          · simpa [heq, hnull] using hlookup
          · exact hnames (key, name) mem_cons_self heq
        simp [member, hlookup, hnull, hname, hdefault.1 hnull]
    simp [hF, hmember]
  read_valid {ms a} h := by
    obtain ⟨b, hb, hrest⟩ := Option.bind_eq_some_iff.mp h
    obtain ⟨a', ha', rfl⟩ := Option.map_eq_some_iff.mp hrest
    refine ⟨?_, F.read_valid ha'⟩
    simp only [member] at hb
    split at hb
    · exact c.read_valid hb
    · split at hb
      · exact c.read_valid hb
      · exact hfallback b hb

theorem defaulted_option {key name : Text} {c : Codec β} [Codec.NotNull c] {F : Fields α}
    {hfallback : ∀ b ∈ some (none : Option β), (Codec.option c).Valid b} {a : Option β × α} (h : F.Defaulted a.2) :
    (field key name (some none) (Codec.option c) F hfallback).Defaulted a :=
  ⟨fun hnull => congrArg some (Codec.option_isNull.mp hnull).symm, h⟩

theorem defaulted_notNull {key name : Text} {fallback : Option β} {c : Codec β} [hc : Codec.NotNull c] {F : Fields α}
    {hfallback : ∀ b ∈ fallback, c.Valid b} {a : β × α} (h : F.Defaulted a.2) :
    (field key name fallback c F hfallback).Defaulted a :=
  ⟨fun hnull => absurd (hc.dump a.1) (by rw [hnull]; decide), h⟩

theorem read_field {key name : Text} {fallback : Option β} {c : Codec β} {F : Fields α}
    {hfallback : ∀ b ∈ fallback, c.Valid b} {ms : Members} {b : β} {a : α}
    (hb : member key name fallback c ms = some b) (ha : F.read ms = some a) :
    (field key name fallback c F hfallback).read ms = some (b, a) := by
  show (member key name fallback c ms).bind (fun b => (F.read ms).map fun a => (b, a)) = some (b, a)
  rw [hb, ha]
  rfl

theorem lookup_mem {ms : Members} (hnodup : (ms.map Prod.fst).Nodup) {m : Text × Json} (hm : m ∈ ms) :
    ms.lookup m.1 = some m.2 := by
  induction ms with
  | nil => cases hm
  | cons x ms ih =>
    rw [map_cons, nodup_cons] at hnodup
    rcases mem_cons.mp hm with rfl | hmem
    · rw [lookup_cons, beq_self_eq_true]
    · have hne : m.1 ≠ x.1 := fun h => hnodup.1 (h ▸ mem_map_of_mem hmem)
      rw [lookup_cons, beq_false_of_ne hne]
      exact ih hnodup.2 hmem

theorem lookup_at {ms : Members} (hnodup : (ms.map Prod.fst).Nodup) {i : ℕ} {k : Text} {j : Json}
    (h : ms[i]? = some (k, j)) : ms.lookup k = some j := lookup_mem hnodup (mem_of_getElem? h)

theorem lookup_none {ms : Members} {k : Text} (h : k ∉ ms.map Prod.fst) : ms.lookup k = none := by
  rw [lookup_eq_none_iff]
  intro m hm
  exact bne_iff_ne.mpr fun hk : k = m.1 => h (hk ▸ mem_map_of_mem hm)

def acceptsKeys (names : List (Text × Text)) (keys : List Text) : Bool :=
  (keys.all fun k => names.any fun n => n.1 = k || n.2 = k) &&
    names.all fun n => n.1 = n.2 || !keys.contains n.1 || !keys.contains n.2

def accepts (F : Fields α) (ms : Members) : Bool := acceptsKeys F.names (ms.map Prod.fst)

/-- `model_dump(exclude_none=True)`. -/
def present (F : Fields α) (a : α) : Members := (F.dump a).filter fun m => !isNull m.2

/-- The aliases of the fields differ, and no own name is the alias of another field. -/
structure Distinct (names : List (Text × Text)) : Prop where
  nodup : (names.map Prod.fst).Nodup
  names : ∀ n ∈ names, n.2 ≠ n.1 → n.2 ∉ names.map Prod.fst

instance (names : List (Text × Text)) : Decidable (Distinct names) :=
  decidable_of_iff ((names.map Prod.fst).Nodup ∧ ∀ n ∈ names, n.2 ≠ n.1 → n.2 ∉ names.map Prod.fst)
    ⟨fun h => ⟨h.1, h.2⟩, fun h => ⟨h.nodup, h.names⟩⟩

variable {F : Fields α}

theorem accepts_sublist (hF : Distinct F.names) {ms : Members} {a : α} (hsub : ms.Sublist (F.dump a)) : F.accepts ms = true := by
  have hkeys : ms.map Prod.fst ⊆ F.names.map Prod.fst := F.dump_keys a ▸ (hsub.map Prod.fst).subset
  simp only [accepts, acceptsKeys, Bool.and_eq_true, all_eq_true]
  constructor
  · intro k hk
    obtain ⟨n, hn, hkey⟩ := mem_map.mp (hkeys hk)
    rw [any_eq_true]
    exact ⟨n, hn, by simp [hkey]⟩
  · intro n hn
    by_cases heq : n.2 = n.1
    · simp [heq]
    · have hnone : n.2 ∉ ms.map Prod.fst := fun hk => hF.names n hn heq (hkeys hk)
      simp [hnone]

end Fields

def Codec.record {ρ α : Type} (F : Fields α) (out : ρ → α) (make : α → ρ) (hF : Fields.Distinct F.names)
    (make_out : ∀ r, make (out r) = r) (out_make : ∀ a, out (make a) = a) : Codec ρ where
  dump r := .obj (F.dump (out r))
  read
    | .obj ms => if F.accepts ms then (F.read ms).map make else none
    | _ => none
  Valid r := F.Valid (out r)
  read_dump {r} h := by
    have hnodup : ((F.dump (out r)).map Prod.fst).Nodup := F.dump_keys (out r) ▸ hF.nodup
    have hread : F.read (F.dump (out r)) = some (out r) := F.read_dump h fun m hm => Fields.lookup_mem hnodup hm
    simp [Fields.accepts_sublist hF (List.Sublist.refl (F.dump (out r))), hread, make_out]
  read_valid {j r} h := by
    cases j with
    | obj ms =>
      simp only at h
      split at h
      · obtain ⟨a, ha, rfl⟩ := Option.map_eq_some_iff.mp h
        rw [out_make]
        exact F.read_valid ha
      · cases h
    | _ => cases h

variable {ρ α : Type} {F : Fields α} {out : ρ → α} {make : α → ρ} {hF : Fields.Distinct F.names}
  {make_out : ∀ r, make (out r) = r} {out_make : ∀ a, out (make a) = a}

theorem Codec.read_record {ms : Members} {r : ρ} (haccepts : F.accepts ms = true) (hread : F.read ms = some (out r)) :
    (Codec.record F out make hF make_out out_make).read (.obj ms) = some r := by
  simp [Codec.record, haccepts, hread, make_out]

/-- A record without its null members reads back as the record. -/
theorem Codec.read_record_present {r : ρ} (h : F.Valid (out r)) (hdefault : F.Defaulted (out r)) :
    (Codec.record F out make hF make_out out_make).read (.obj (F.present (out r))) = some r := by
  have hsub : (F.present (out r)).Sublist (F.dump (out r)) := filter_sublist
  have hnodup : ((F.dump (out r)).map Prod.fst).Nodup := F.dump_keys (out r) ▸ hF.nodup
  have hkeys : (F.present (out r)).map Prod.fst ⊆ F.names.map Prod.fst :=
    F.dump_keys (out r) ▸ (hsub.map Prod.fst).subset
  refine Codec.read_record (Fields.accepts_sublist hF hsub) (F.read_present h hdefault ?_ ?_)
  · intro n hn hne
    exact Fields.lookup_none fun hk => hF.names n hn hne (hkeys hk)
  · intro m hm
    cases hnull : isNull m.2 with
    | false =>
      rw [Fields.lookup_mem (hnodup.sublist (hsub.map _)) (mem_filter.mpr ⟨hm, by simp [hnull]⟩)]
      simp
    | true =>
      rw [Fields.lookup_none ?_]
      · simp
      intro hk
      obtain ⟨x, hx, hkey⟩ := mem_map.mp hk
      obtain ⟨hmem, hpresent⟩ := mem_filter.mp hx
      -- two members of one key are one member, and this one is not null
      have heq : x = m := inj_on_of_nodup_map hnodup hmem hm hkey
      simp [heq, hnull] at hpresent

end Schema
