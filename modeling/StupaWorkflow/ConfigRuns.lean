import StupaWorkflow.ConfigModel

/-!
What the interleavings of the config requests keep. A commit makes one of four changes, and
`Legal` says what its locks and its unique indexes promise of the rows that it finds.
-/
namespace Config
open Py Schema StorageKeys ReadCommitted List

section Changes

variable (C : Rules)

def prevNumber (n : ℕ) : Option ℕ := if n ≤ 1 then none else some (n - 1)

def Save.version (s : Save) : Version := ⟨s.entity, s.number, s.activate, s.payload.content C⟩

def Save.revision (s : Save) : Revision :=
  ⟨s.entity, s.number, s.payload.snapshot C, prevNumber s.number, s.reverts⟩

def setPointer (t : Uuid) (n : Option ℕ) (types : List FormType) : List FormType :=
  Table.modify FormType.id t ({ · with activeVersion := n }) types

def Save.types (s : Save) (types : List FormType) : List FormType :=
  match s.entity with
  | .form t => if s.activate then setPointer t (some s.number) types else types
  | _ => types

def Save.applications (s : Save) (applications : List Application) : List Application :=
  match s.entity with
  | .flow => applications.map (·.moveTo (s.version C) s.moved)
  | _ => applications

def Switch.types (w : Switch) (types : List FormType) : List FormType :=
  if w.loaded ≠ w.latest.map Prod.fst then setPointer w.type (w.latest.map Prod.fst) types else types

def Switch.activated (w : Switch) (d : Db) : Db :=
  match w.latest with
  | some (n, true) => d.setActive (.form w.type) [n] true
  | _ => d

def Db.apply (c : Change) (d : Db) : Db :=
  match c with
  | .save s =>
    { d with
      versions := (d.setActive s.entity s.deactivated false).versions ++ [s.version C]
      types := s.types d.types
      revisions := d.revisions ++ [s.revision C]
      applications := s.applications C d.applications
      last := some c }
  | .switch w =>
    { d with
      versions := (w.activated (d.setActive (.form w.type) w.deactivated false)).versions
      types := w.types d.types
      last := some c }
  | .move m =>
    { d.setState m.application m.target with
      events := d.events ++ [⟨m.application, some m.source, m.target⟩]
      last := some c }
  | .create k =>
    { d with
      applications := d.applications ++ [⟨k.application, k.target.version, some k.target⟩]
      events := d.events ++ [⟨k.application, none, k.target⟩]
      last := some c }

def Db.contents (d : Db) (x : Entity) : List (ℕ × Content) := (d.versionsOf x).map fun v => (v.number, v.content)

def Payload.Accepted : Payload → Prop
  | .form fields _ => ∀ f ∈ fields, (FormFieldDef.codec C.toChecks).Valid f
  | .flow graph => (FlowGraph.codec C.toChecks).Valid graph ∧ validateFlowGraph C graph = .ok ()
  | .site branding => (Branding.codec C.toChecks).Valid branding

def Payload.Fits : Payload → Entity → Prop
  | .form fields _, .form _ => fields ≠ []
  | .flow _, .flow => True
  | .site _, .site => True
  | _, _ => False

def Entity.Global : Entity → Prop
  | .form _ => False
  | _ => True

def Db.HasState (d : Db) (s : StateRef) : Prop := ∃ c ∈ d.contents .flow, c.1 = s.version ∧ s.key ∈ c.2.stateKeys

structure SaveLegal (s : Save) (d : Db) : Prop where
  accepted : s.payload.Accepted C
  fits : s.payload.Fits s.entity
  fresh : (d.contents s.entity).length + 1 = s.number
  alone : s.activate = true → ∀ n ∈ d.activeNumbers s.entity, n ∈ s.deactivated
  idle : s.activate = false → s.deactivated = []
  activates : s.entity.Global → s.activate = true
  typed : ∀ t, s.entity = .form t → t ∈ d.types.map FormType.id

structure SwitchLegal (w : Switch) (d : Db) : Prop where
  typed : w.type ∈ d.types.map FormType.id
  alone : ∀ m, w.latest = some (m, true) → ∀ n ∈ d.activeNumbers (.form w.type), n ∈ w.deactivated ∨ n = m
  kept : ∀ m, w.latest = some (m, false) → m ∉ w.deactivated
  known : ∀ m b, w.latest = some (m, b) → 1 ≤ m ∧ m ≤ (d.contents (.form w.type)).length

structure MoveLegal (m : Move) (d : Db) : Prop where
  current : ∃ a, d.application m.application = some a ∧ a.state = some m.source
  version : m.source.version = m.target.version
  target : d.HasState m.target

structure CreateLegal (k : Created) (d : Db) : Prop where
  fresh : d.application k.application = none
  target : d.HasState k.target

def Legal (d : Db) : Change → Prop
  | .save s => SaveLegal C s d
  | .switch w => SwitchLegal w d
  | .move m => MoveLegal m d
  | .create k => CreateLegal k d

def Change.Locks : Change → Key → Prop
  | .save s, .number e n => e = s.entity ∧ n = s.number
  | .save s, .active e => e = s.entity ∧ s.activate = true
  | .save s, .history e => e = s.entity
  | .save s, .application id => s.entity = .flow ∧ id ∈ s.moved.map Prod.fst
  | .switch w, .active e => e = .form w.type ∧ ∃ n, w.latest = some (n, true)
  | .move m, .application id => id = m.application
  | .create k, .application id => id = k.application
  | _, _ => False

end Changes

section Invariant

variable (C : Rules)

def Saved (x : Entity) (c : ℕ × Content) (r : Revision) : Prop :=
  r.version = c.1 ∧ ∃ p : Payload, p.Accepted C ∧ p.Fits x ∧ c.2 = p.content C ∧ r.snapshot = p.snapshot C

structure Inv (d : Db) : Prop where
  numbered : ∀ x, Table.Numbered Prod.fst (d.contents x)
  oneActive : ∀ x n m, n ∈ d.activeNumbers x → m ∈ d.activeNumbers x → n = m
  newest : ∀ x, x.Global → ∀ n, n ∈ d.activeNumbers x ↔ n = (d.contents x).length ∧ n ≠ 0
  lockstep : ∀ x, List.Forall₂ (Saved C x) (d.contents x) (d.revisionsOf x)
  chain : ∀ r ∈ d.revisions, r.prev = prevNumber r.version
  ids : (d.applications.map Application.id).Nodup
  placed : ∀ a ∈ d.applications, ∃ s, a.state = some s ∧ a.version = s.version ∧ d.HasState s
  events : ∀ ev ∈ d.events, d.HasState ev.target ∧ ∀ s ∈ ev.source, s.version = ev.target.version ∧ d.HasState s

structure Frame (locked : Key → Prop) (d e : Db) : Prop where
  types : e.types.map FormType.id = d.types.map FormType.id
  grows : ∀ x, d.contents x <+: e.contents x
  number : ∀ x n, locked (.number x n) → n ∈ (e.contents x).map Prod.fst → n ∈ (d.contents x).map Prod.fst
  activated : ∀ x, locked (.active x) → ∀ n ∈ e.activeNumbers x, n ∈ d.activeNumbers x
  history : ∀ x, d.revisionsOf x <+: e.revisionsOf x
  recorded : ∀ x, locked (.history x) → e.revisionsOf x = d.revisionsOf x
  application : ∀ id, locked (.application id) → e.application id = d.application id
  events : d.events <+: e.events

end Invariant

section Rows

variable {C : Rules} {d : Db}

theorem mem_activeNumbers {x : Entity} {n : ℕ} :
    n ∈ d.activeNumbers x ↔ ∃ v ∈ d.versions, v.entity = x ∧ v.active = true ∧ v.number = n := by
  simp [Db.activeNumbers, Db.activeVersions, Db.versionsOf, and_assoc, and_left_comm]

theorem mem_numbers {x : Entity} {n : ℕ} :
    n ∈ (d.contents x).map Prod.fst ↔ ∃ v ∈ d.versions, v.entity = x ∧ v.number = n := by
  simp [Db.contents, Db.versionsOf, and_assoc]

@[simp] theorem contents_setActive (e x : Entity) (ns : List ℕ) (b : Bool) :
    (d.setActive e ns b).contents x = d.contents x := by
  let flag (v : Version) : Version := if v.entity = e ∧ v.number ∈ ns then { v with active := b } else v
  have hentity : (fun v : Version => decide (v.entity = x)) ∘ flag = fun v => decide (v.entity = x) := by
    funext v
    simp only [flag, Function.comp_apply]
    split <;> rfl
  have hcontent : (fun v : Version => (v.number, v.content)) ∘ flag = fun v => (v.number, v.content) := by
    funext v
    simp only [flag, Function.comp_apply]
    split <;> rfl
  show (((d.versions.map flag).filter fun v => decide (v.entity = x)).map fun v => (v.number, v.content)) = _
  rw [filter_map, hentity, map_map, hcontent]
  rfl

@[simp] theorem contents_insertVersion (v : Version) (x : Entity) :
    (d.insertVersion v).contents x = d.contents x ++ if v.entity = x then [(v.number, v.content)] else [] := by
  by_cases hx : v.entity = x <;> simp [Db.contents, Db.versionsOf, Db.insertVersion, hx]

theorem activeNumbers_setActive {e x : Entity} {ns : List ℕ} {b : Bool} {n : ℕ} :
    n ∈ (d.setActive e ns b).activeNumbers x ↔
      if x = e ∧ n ∈ ns then b = true ∧ n ∈ (d.contents x).map Prod.fst else n ∈ d.activeNumbers x := by
  rw [mem_activeNumbers, mem_numbers, mem_activeNumbers]
  simp only [Db.setActive, mem_map]
  constructor
  · rintro ⟨_, ⟨v, hv, rfl⟩, hx, hactive, hn⟩
    by_cases hset : v.entity = e ∧ v.number ∈ ns
    · rw [if_pos hset] at hx hactive hn
      rw [if_pos ⟨hx ▸ hset.1, hn ▸ hset.2⟩]
      exact ⟨hactive, v, hv, hx, hn⟩
    · rw [if_neg hset] at hx hactive hn
      rw [if_neg fun h => hset ⟨hx.trans h.1, hn ▸ h.2⟩]
      exact ⟨v, hv, hx, hactive, hn⟩
  · intro h
    split at h
    next hset =>
      obtain ⟨hb, v, hv, hx, hn⟩ := h
      refine ⟨_, ⟨v, hv, rfl⟩, ?_⟩
      rw [if_pos ⟨hx.trans hset.1, hn ▸ hset.2⟩]
      exact ⟨hx, hb, hn⟩
    next hset =>
      obtain ⟨v, hv, hx, hactive, hn⟩ := h
      refine ⟨_, ⟨v, hv, rfl⟩, ?_⟩
      rw [if_neg fun hv => hset ⟨hx ▸ hv.1, hn ▸ hv.2⟩]
      exact ⟨hx, hactive, hn⟩

theorem activeNumbers_insertVersion {v : Version} {x : Entity} {n : ℕ} :
    n ∈ (d.insertVersion v).activeNumbers x ↔ n ∈ d.activeNumbers x ∨ v.entity = x ∧ v.active = true ∧ v.number = n := by
  simp [mem_activeNumbers, Db.insertVersion, or_and_right, exists_or]

theorem contents_congr {e : Db} (h : e.versions = d.versions) (x : Entity) : e.contents x = d.contents x := by
  rw [Db.contents, Db.versionsOf, h]
  rfl

theorem activeNumbers_congr {e : Db} (h : e.versions = d.versions) (x : Entity) : e.activeNumbers x = d.activeNumbers x := by
  rw [Db.activeNumbers, Db.activeVersions, Db.versionsOf, h]
  rfl

theorem revisionsOf_congr {e : Db} (h : e.revisions = d.revisions) (x : Entity) : e.revisionsOf x = d.revisionsOf x := by
  rw [Db.revisionsOf, h]
  rfl

theorem application_congr {e : Db} (h : e.applications = d.applications) (id : Uuid) :
    e.application id = d.application id := by
  rw [Db.application, h]
  rfl

theorem ids_setPointer (t : Uuid) (n : Option ℕ) (types : List FormType) :
    (setPointer t n types).map FormType.id = types.map FormType.id := by
  simp only [setPointer, Table.modify, map_map]
  refine map_congr_left fun f _ => ?_
  simp only [Function.comp_apply]
  split <;> rfl

theorem application_setState (id j : Uuid) (s : StateRef) :
    (d.setState id s).application j =
      if j = id then (d.application id).map ({ · with state := some s }) else d.application j :=
  @Table.find_modify _ _ _ _ Application.id id (fun a => { a with state := some s }) (fun _ h => h) j

theorem application_moveApplications (v : Version) (moved : List (Uuid × Text)) (id : Uuid) :
    (d.moveApplications v moved).application id = (d.application id).map (·.moveTo v moved) := by
  have hid : ∀ a : Application, (a.moveTo v moved).id = a.id := fun a => by
    simp only [Application.moveTo]
    split <;> rfl
  simp only [Db.application, Db.moveApplications, find?_map]
  congr 2
  funext a
  simp [hid]

theorem moveTo_of_not_mem {v : Version} {moved : List (Uuid × Text)} {a : Application} (h : a.id ∉ moved.map Prod.fst) :
    a.moveTo v moved = a := by
  have hlookup : moved.lookup a.id = none := by
    rw [lookup_eq_none_iff]
    intro m hm
    exact bne_iff_ne.mpr fun hid : a.id = m.1 => h (hid ▸ mem_map_of_mem hm)
  rw [Application.moveTo, hlookup]

theorem application_id {id : Uuid} {a : Application} (h : d.application id = some a) : a ∈ d.applications ∧ a.id = id :=
  Table.of_find h

section Save

variable {s : Save}

theorem ids_types : (s.types d.types).map FormType.id = d.types.map FormType.id := by
  rw [Save.types]
  split
  · split
    · exact ids_setPointer _ _ _
    · rfl
  · rfl

theorem contents_save (x : Entity) :
    (d.apply C (.save s)).contents x = d.contents x ++ if s.entity = x then [(s.number, s.payload.content C)] else [] := by
  have hversions : (d.apply C (.save s)).versions =
      ((d.setActive s.entity s.deactivated false).insertVersion (s.version C)).versions := rfl
  rw [contents_congr hversions, contents_insertVersion, contents_setActive]
  rfl

theorem activeNumbers_save {x : Entity} {n : ℕ} :
    n ∈ (d.apply C (.save s)).activeNumbers x ↔
      (n ∈ d.activeNumbers x ∧ ¬ (x = s.entity ∧ n ∈ s.deactivated)) ∨ s.entity = x ∧ s.activate = true ∧ s.number = n := by
  have hversions : (d.apply C (.save s)).versions =
      ((d.setActive s.entity s.deactivated false).insertVersion (s.version C)).versions := rfl
  rw [activeNumbers_congr hversions, activeNumbers_insertVersion, activeNumbers_setActive]
  by_cases h : x = s.entity ∧ n ∈ s.deactivated
  · simp [h, Save.version]
  · simp [h, Save.version]

theorem revisionsOf_save (x : Entity) :
    (d.apply C (.save s)).revisionsOf x = d.revisionsOf x ++ if s.entity = x then [s.revision C] else [] := by
  show (d.revisions ++ [s.revision C]).filter _ = _
  rw [filter_append]
  by_cases hx : s.entity = x <;> simp [hx, Save.revision, Db.revisionsOf]

theorem application_save (id : Uuid) :
    (d.apply C (.save s)).application id =
      if s.entity = .flow then (d.application id).map (·.moveTo (s.version C) s.moved) else d.application id := by
  by_cases hflow : s.entity = .flow
  · have happs : (d.apply C (.save s)).applications = (d.moveApplications (s.version C) s.moved).applications := by
      simp [Db.apply, Save.applications, hflow, Db.moveApplications]
    rw [application_congr happs, application_moveApplications, if_pos hflow]
  · have happs : (d.apply C (.save s)).applications = d.applications := by
      show s.applications C d.applications = d.applications
      rw [Save.applications]
      split
      next h => exact absurd h hflow
      next => rfl
    rw [application_congr happs, if_neg hflow]

end Save

section Switch

variable {w : Switch}

theorem contents_switch (x : Entity) : (d.apply C (.switch w)).contents x = d.contents x := by
  have hversions : (d.apply C (.switch w)).versions =
      (w.activated (d.setActive (.form w.type) w.deactivated false)).versions := rfl
  rw [contents_congr hversions, Switch.activated]
  split
  · rw [contents_setActive, contents_setActive]
  · rw [contents_setActive]

theorem activeNumbers_switch {x : Entity} {n : ℕ} :
    n ∈ (d.apply C (.switch w)).activeNumbers x ↔
      if x = .form w.type ∧ w.latest = some (n, true) then n ∈ (d.contents x).map Prod.fst
      else n ∈ d.activeNumbers x ∧ ¬ (x = .form w.type ∧ n ∈ w.deactivated) := by
  have hversions : (d.apply C (.switch w)).versions =
      (w.activated (d.setActive (.form w.type) w.deactivated false)).versions := rfl
  have hoff : n ∈ (d.setActive (.form w.type) w.deactivated false).activeNumbers x ↔
      n ∈ d.activeNumbers x ∧ ¬ (x = .form w.type ∧ n ∈ w.deactivated) := by
    rw [activeNumbers_setActive]
    by_cases h : x = .form w.type ∧ n ∈ w.deactivated <;> simp [h]
  rw [activeNumbers_congr hversions, Switch.activated]
  split
  next m hlatest =>
    rw [activeNumbers_setActive, contents_setActive, hoff, hlatest]
    by_cases h : n = m
    · simp [h]
    · simp [h, Ne.symm h]
  next hlatest =>
    rw [hoff, if_neg fun h => hlatest n h.2]

theorem ids_switch : (w.types d.types).map FormType.id = d.types.map FormType.id := by
  rw [Switch.types]
  split
  · exact ids_setPointer _ _ _
  · rfl

end Switch

theorem apply_frame {c : Change} {locked : Key → Prop} (hfree : ∀ k, locked k → ¬ c.Locks k) :
    Frame locked d (d.apply C c) := by
  cases c with
  | save s =>
    refine ⟨ids_types, ?_, ?_, ?_, ?_, ?_, ?_, prefix_rfl⟩
    · intro x
      rw [contents_save]
      exact prefix_append _ _
    · intro x n hn hmem
      rw [contents_save, map_append, mem_append] at hmem
      refine hmem.resolve_right fun hnew => hfree _ hn ?_
      split at hnew
      next hx => exact ⟨hx.symm, by simpa using hnew⟩
      next => cases hnew
    · intro x hx n hn
      rcases activeNumbers_save.mp hn with hold | ⟨hentity, hactive, _⟩
      · exact hold.1
      · exact absurd ⟨hentity.symm, hactive⟩ (hfree _ hx)
    · intro x
      rw [revisionsOf_save]
      exact prefix_append _ _
    · intro x hx
      rw [revisionsOf_save, if_neg fun h : s.entity = x => hfree _ hx h.symm, append_nil]
    · intro id hid
      rw [application_save]
      split
      next hflow =>
        cases hfind : d.application id with
        | none => rfl
        | some a =>
          have haid : a.id = id := (application_id hfind).2
          refine congrArg some (moveTo_of_not_mem fun hmem => hfree _ hid ⟨hflow, ?_⟩)
          exact haid ▸ hmem
      next => rfl
  | switch w =>
    refine ⟨ids_switch, ?_, ?_, ?_, fun _ => prefix_rfl, fun _ _ => rfl, fun _ _ => rfl, prefix_rfl⟩
    · intro x
      exact contents_switch x ▸ prefix_rfl
    · intro x n _ hmem
      rwa [contents_switch] at hmem
    · intro x hx n hn
      rw [activeNumbers_switch] at hn
      split at hn
      next hnew => exact absurd ⟨hnew.1, n, hnew.2⟩ (hfree _ hx)
      next => exact hn.1
  | move m =>
    refine ⟨rfl, fun _ => prefix_rfl, fun _ _ _ h => h, fun _ _ _ h => h, fun _ => prefix_rfl, fun _ _ => rfl,
      ?_, prefix_append _ _⟩
    intro id hid
    have happs : (d.apply C (.move m)).application id = (d.setState m.application m.target).application id :=
      application_congr rfl id
    rw [happs, application_setState, if_neg fun h : id = m.application => hfree _ hid h]
  | create k =>
    refine ⟨rfl, fun _ => prefix_rfl, fun _ _ _ h => h, fun _ _ _ h => h, fun _ => prefix_rfl, fun _ _ => rfl,
      ?_, prefix_append _ _⟩
    intro id hid
    show (d.applications ++ [_]).find? _ = _
    rw [find?_append]
    have hne : k.application ≠ id := fun h => hfree _ hid h.symm
    simp [Db.application, hne]

theorem Db.HasState.mono {e : Db} {s : StateRef} (h : d.HasState s) (hgrows : d.contents .flow <+: e.contents .flow) :
    e.HasState s := by
  obtain ⟨c, hc, hs⟩ := h
  exact ⟨c, hgrows.subset hc, hs⟩

theorem stateKeys_rows (g : FlowGraph) : (Content.flow g.rows).stateKeys = g.states.map StateDef.key := by
  simp [Content.stateKeys, Content.flowRows, FlowGraph.rows, StateDef.row, Function.comp_def]

theorem initial_rows (g : FlowGraph) : (Content.flow g.rows).initial = (g.states.find? (·.isInitial)).map StateDef.key := by
  simp [Content.initial, Content.flowRows, FlowGraph.rows, StateDef.row, Function.comp_def, find?_map]

theorem validateFlowGraph_initial {g : FlowGraph} (h : validateFlowGraph C g = .ok ()) :
    ∃ s ∈ g.states, s.isInitial = true := by
  obtain ⟨_, _, h⟩ := bind_ok.mp h
  obtain ⟨_, _, h⟩ := bind_ok.mp h
  obtain ⟨_, hinitial, _⟩ := bind_ok.mp h
  by_contra hnone
  push Not at hnone
  have hempty : g.states.filter (·.isInitial) = [] := filter_eq_nil_iff.mpr hnone
  rw [hempty] at hinitial
  cases hinitial

theorem place_spec {s : Save} (haccepted : s.payload.Accepted C) (hfits : s.payload.Fits .flow) (key : Text) :
    ∃ k, (s.version C).place key = some ⟨s.number, k⟩ ∧ k ∈ (s.payload.content C).stateKeys := by
  cases hp : s.payload with
  | flow g =>
    have hvalid : validateFlowGraph C g = .ok () := by
      rw [hp] at haccepted
      exact haccepted.2
    obtain ⟨st, hst, hinitial⟩ := validateFlowGraph_initial hvalid
    by_cases hkey : key ∈ (s.payload.content C).stateKeys
    · refine ⟨key, ?_, hp ▸ hkey⟩
      simp [Version.place, Save.version, hkey]
    · obtain ⟨i, hi⟩ := Option.isSome_iff_exists.mp (find?_isSome.mpr ⟨st, hst, hinitial⟩)
      refine ⟨i.key, ?_, ?_⟩
      · have hfirst : (s.payload.content C).initial = some i.key := by
          rw [hp]
          exact (initial_rows g).trans (by rw [hi]; rfl)
        simp [Version.place, Save.version, hkey, hfirst]
      · show i.key ∈ (Content.flow g.rows).stateKeys
        rw [stateKeys_rows]
        exact mem_map_of_mem (mem_of_find?_eq_some hi)
  | form fields description =>
    rw [hp] at hfits
    exact hfits.elim
  | site branding =>
    rw [hp] at hfits
    exact hfits.elim

theorem moveTo_id (v : Version) (moved : List (Uuid × Text)) (a : Application) : (a.moveTo v moved).id = a.id := by
  rw [Application.moveTo]
  split <;> rfl

theorem save_inv {s : Save} (h : Inv C d) (hlegal : SaveLegal C s d) : Inv C (d.apply C (.save s)) where
  numbered x := by
    rw [contents_save]
    split
    next hx =>
      rw [Table.numbered_concat]
      exact ⟨h.numbered x, hx ▸ hlegal.fresh.symm⟩
    next => simpa using h.numbered x
  oneActive x n m hn hm := by
    rw [activeNumbers_save] at hn hm
    rcases hn with ⟨hn, hnd⟩ | ⟨hx, hactive, rfl⟩
    · rcases hm with ⟨hm, _⟩ | ⟨hx, hactive, rfl⟩
      · exact h.oneActive x n m hn hm
      · exact absurd ⟨hx.symm, hlegal.alone hactive n (hx ▸ hn)⟩ hnd
    · rcases hm with ⟨hm, hmd⟩ | ⟨_, _, rfl⟩
      · exact absurd ⟨hx.symm, hlegal.alone hactive m (hx ▸ hm)⟩ hmd
      · rfl
  newest x hglobal n := by
    rw [activeNumbers_save, contents_save, length_append]
    by_cases hx : s.entity = x
    · have hactive : s.activate = true := hlegal.activates (hx ▸ hglobal)
      have hfresh := hlegal.fresh
      have hnone : ¬ (n ∈ d.activeNumbers x ∧ ¬ (x = s.entity ∧ n ∈ s.deactivated)) := fun hn =>
        hn.2 ⟨hx.symm, hlegal.alone hactive n (hx ▸ hn.1)⟩
      rw [hx] at hfresh
      rw [or_iff_right hnone, if_pos hx, length_singleton]
      simp only [hx, hactive, true_and]
      omega
    · have hne : ¬ x = s.entity := fun h => hx h.symm
      simp [hx, hne, h.newest x hglobal n]
  lockstep x := by
    rw [contents_save, revisionsOf_save]
    refine rel_append (h.lockstep x) ?_
    split
    next hx => exact .cons ⟨rfl, s.payload, hlegal.accepted, hx ▸ hlegal.fits, rfl, rfl⟩ .nil
    next => exact .nil
  chain r hr := by
    rcases mem_append.mp hr with hold | hnew
    · exact h.chain r hold
    · rw [mem_singleton.mp hnew]
      rfl
  ids := by
    show ((s.applications C d.applications).map Application.id).Nodup
    rw [Save.applications]
    split
    · rw [map_map]
      refine (map_congr_left fun a _ => ?_) ▸ h.ids
      exact (moveTo_id _ _ a).symm
    · exact h.ids
  placed a ha := by
    have hgrows : d.contents .flow <+: (d.apply C (.save s)).contents .flow := by
      rw [contents_save]
      exact prefix_append _ _
    have hkept : ∀ a ∈ d.applications, ∃ t, a.state = some t ∧ a.version = t.version ∧ (d.apply C (.save s)).HasState t :=
      fun a ha => by
        obtain ⟨t, hstate, hversion, hhas⟩ := h.placed a ha
        exact ⟨t, hstate, hversion, hhas.mono hgrows⟩
    have ha : a ∈ s.applications C d.applications := ha
    rw [Save.applications] at ha
    split at ha
    next hflow =>
      obtain ⟨b, hb, rfl⟩ := mem_map.mp ha
      rw [Application.moveTo]
      split
      next key _ =>
        obtain ⟨k, hplace, hk⟩ := place_spec hlegal.accepted (hflow ▸ hlegal.fits) key
        refine ⟨⟨s.number, k⟩, hplace, rfl, (s.number, s.payload.content C), ?_, rfl, hk⟩
        rw [contents_save, if_pos hflow]
        simp
      next => exact hkept b hb
    next => exact hkept a ha
  events ev hev := by
    have hgrows : d.contents .flow <+: (d.apply C (.save s)).contents .flow := by
      rw [contents_save]
      exact prefix_append _ _
    obtain ⟨htarget, hsource⟩ := h.events ev hev
    exact ⟨htarget.mono hgrows, fun t ht => ⟨(hsource t ht).1, (hsource t ht).2.mono hgrows⟩⟩

theorem switch_inv {w : Switch} (h : Inv C d) (hlegal : SwitchLegal w d) : Inv C (d.apply C (.switch w)) where
  numbered x := by
    rw [contents_switch]
    exact h.numbered x
  oneActive x n m hn hm := by
    rw [activeNumbers_switch] at hn hm
    split at hn
    next hnew =>
      split at hm
      next hnew' => simpa using hnew.2.symm.trans hnew'.2
      next hold =>
        rcases hlegal.alone n hnew.2 m (hnew.1 ▸ hm.1) with hoff | heq
        · exact absurd ⟨hnew.1, hoff⟩ hm.2
        · exact heq.symm
    next hold =>
      split at hm
      next hnew =>
        rcases hlegal.alone m hnew.2 n (hnew.1 ▸ hn.1) with hoff | heq
        · exact absurd ⟨hnew.1, hoff⟩ hn.2
        · exact heq
      next => exact h.oneActive x n m hn.1 hm.1
  newest x hglobal n := by
    have hx : x ≠ .form w.type := fun hx => by
      rw [hx] at hglobal
      exact hglobal
    rw [activeNumbers_switch, contents_switch]
    simp [hx, h.newest x hglobal n]
  lockstep x := by
    rw [contents_switch]
    exact h.lockstep x
  chain := h.chain
  ids := h.ids
  placed a ha := by
    obtain ⟨t, hstate, hversion, hhas⟩ := h.placed a ha
    exact ⟨t, hstate, hversion, hhas.mono (contents_switch (C := C) Entity.flow ▸ prefix_rfl)⟩
  events ev hev := by
    have hgrows : d.contents .flow <+: (d.apply C (.switch w)).contents .flow := contents_switch (C := C) Entity.flow ▸ prefix_rfl
    obtain ⟨htarget, hsource⟩ := h.events ev hev
    exact ⟨htarget.mono hgrows, fun t ht => ⟨(hsource t ht).1, (hsource t ht).2.mono hgrows⟩⟩

theorem move_inv {m : Move} (h : Inv C d) (hlegal : MoveLegal m d) : Inv C (d.apply C (.move m)) where
  numbered := h.numbered
  oneActive := h.oneActive
  newest := h.newest
  lockstep := h.lockstep
  chain := h.chain
  ids := by
    show ((Table.modify Application.id m.application _ d.applications).map Application.id).Nodup
    rw [Table.modify, map_map]
    refine (map_congr_left fun a _ => ?_) ▸ h.ids
    simp only [Function.comp_apply]
    split <;> rfl
  placed a ha := by
    obtain ⟨b, hb, rfl⟩ := mem_map.mp (show a ∈ d.applications.map _ from ha)
    obtain ⟨t, hstate, hversion, hhas⟩ := h.placed b hb
    by_cases hid : b.id = m.application
    · obtain ⟨c, hc, hsource⟩ := hlegal.current
      have heq : d.application m.application = some b := Table.find_of_mem h.ids hb hid
      rw [hc, Option.some_inj] at heq
      subst heq
      rw [hsource, Option.some_inj] at hstate
      subst hstate
      rw [if_pos hid]
      exact ⟨m.target, rfl, hversion.trans hlegal.version, hlegal.target⟩
    · rw [if_neg hid]
      exact ⟨t, hstate, hversion, hhas⟩
  events ev hev := by
    rcases mem_append.mp (show ev ∈ d.events ++ [_] from hev) with hold | hnew
    · exact h.events ev hold
    · rw [mem_singleton.mp hnew]
      refine ⟨hlegal.target, fun t ht => ?_⟩
      cases ht
      obtain ⟨c, hc, hsource⟩ := hlegal.current
      obtain ⟨t, hstate, _, hhas⟩ := h.placed c (application_id hc).1
      rw [hsource, Option.some_inj] at hstate
      exact ⟨hlegal.version, hstate ▸ hhas⟩

theorem create_inv {k : Created} (h : Inv C d) (hlegal : CreateLegal k d) : Inv C (d.apply C (.create k)) where
  numbered := h.numbered
  oneActive := h.oneActive
  newest := h.newest
  lockstep := h.lockstep
  chain := h.chain
  ids := by
    refine Table.nodup_insert h.ids fun a ha heq => ?_
    have hnone := find?_eq_none.mp hlegal.fresh a ha
    simp [heq] at hnone
  placed a ha := by
    rcases mem_append.mp (show a ∈ d.applications ++ [_] from ha) with hold | hnew
    · exact h.placed a hold
    · rw [mem_singleton.mp hnew]
      exact ⟨k.target, rfl, rfl, hlegal.target⟩
  events ev hev := by
    rcases mem_append.mp (show ev ∈ d.events ++ [_] from hev) with hold | hnew
    · exact h.events ev hold
    · rw [mem_singleton.mp hnew]
      exact ⟨hlegal.target, fun t ht => by cases ht⟩

theorem apply_inv {c : Change} (h : Inv C d) (hlegal : Legal C d c) : Inv C (d.apply C c) := by
  cases c with
  | save s => exact save_inv h hlegal
  | switch w => exact switch_inv h hlegal
  | move m => exact move_inv h hlegal
  | create k => exact create_inv h hlegal

end Rows

section Contract

variable (C : Rules)

/-- What `reapply_snapshot` saves. -/
def Replays (x : Entity) (snapshot : Json) (p : Payload) : Prop :=
  match x with
  | .form _ => ∃ fields description, readForm C snapshot = some (fields, description) ∧ p = .form fields description
  | .flow => ∃ graph, (FlowGraph.codec C.toChecks).read snapshot = some graph ∧ p = .flow graph
  | .site => ∃ branding source, (Branding.codec C.toChecks).read snapshot = some branding ∧
      p = .site (branding.withHelpTicketsOf source)

/-- A revert of revision `n` replays the snapshot of its predecessor. -/
def Reapplied (x : Entity) (n : ℕ) (d : Db) (p : Payload) : Prop :=
  ∃ R ∈ d.revisionsOf x, R.version = n ∧ ∃ P ∈ d.revisionsOf x, R.prev = some P.version ∧ Replays C x P.snapshot p

def Caused (d : Db) : Request → Change → Prop
  | .revert x n _ _, c => ∃ s, c = .save s ∧ s.entity = x ∧ s.reverts = some n ∧ Reapplied C x n d s.payload
  | _, _ => True

def contract : Contract Request Db Key where
  inv := Inv C
  rely other := Frame (· ∈ other)
  guar r held d e := ∃ c, e = d.apply C c ∧ Legal C d c ∧ Caused C d r c ∧ ∀ k, c.Locks k → k ∈ held
  refl _ _ :=
    ⟨rfl, fun _ => prefix_rfl, fun _ _ _ h => h, fun _ _ _ h => h, fun _ => prefix_rfl, fun _ _ => rfl,
      fun _ _ => rfl, prefix_rfl⟩
  trans h h' :=
    ⟨h'.types.trans h.types, fun x => (h.grows x).trans (h'.grows x),
      fun x n hk hn => h.number x n hk (h'.number x n hk hn), fun x hk n hn => h.activated x hk n (h'.activated x hk n hn),
      fun x => (h.history x).trans (h'.history x), fun x hk => (h'.recorded x hk).trans (h.recorded x hk),
      fun id hk => (h'.application id hk).trans (h.application id hk), h.events.trans h'.events⟩
  compat _ hguar hfree := by
    obtain ⟨c, rfl, _, _, hlocks⟩ := hguar
    exact apply_frame fun k hk hlock => hfree.not_mem hk (hlocks k hlock)

end Contract

section Blocks

variable {C : Rules} {r : Request} {l : Loc Db Key} {d : Db} {x : Entity}
variable {Q : Unit → Loc Db Key → Db → Prop}

theorem Frame.mono {locked locked' : Key → Prop} {e : Db} (h : Frame locked' d e) (hsub : ∀ k, locked k → locked' k) :
    Frame locked d e :=
  ⟨h.types, h.grows, fun x n hk => h.number x n (hsub _ hk), fun x hk => h.activated x (hsub _ hk), h.history,
    fun x hk => h.recorded x (hsub _ hk), fun id hk => h.application id (hsub _ hk), h.events⟩

def Fresh (x : Entity) (n : ℕ) (d : Db) : Prop := (d.contents x).length + 1 = n

theorem Fresh.rely {n : ℕ} {locked : Key → Prop} {e : Db} (h : Fresh x n d) (hrely : Frame locked d e) (hd : Inv C d)
    (he : Inv C e) (hlocked : locked (.number x n)) : Fresh x n e := by
  have hle := (hrely.grows x).length_le
  by_contra hne
  have hmem : n ∈ (e.contents x).map Prod.fst := (he.numbered x).mem_iff.mpr ⟨by rw [Fresh] at h; omega, by
    rw [Fresh] at h hne
    omega⟩
  have hold := (hd.numbered x).mem_iff.mp (hrely.number x n hlocked hmem)
  rw [Fresh] at h
  omega

theorem latest_number (hinv : Inv C d) : ((d.latest x).map Version.number).getD 0 = (d.contents x).length := by
  have hnumbered : Table.Numbered Version.number (d.versionsOf x) := by
    have h := hinv.numbered x
    rw [Table.Numbered, Db.contents, map_map, length_map] at h
    exact h
  rw [Db.latest, hnumbered.argmax, Db.contents, length_map]
  cases hlast : (d.versionsOf x).getLast? with
  | none =>
    rw [getLast?_eq_none_iff.mp hlast]
    rfl
  | some v =>
    rw [getLast?_eq_some_iff] at hlast
    obtain ⟨rest, hrest⟩ := hlast
    rw [hrest] at hnumbered ⊢
    have hv := (Table.numbered_concat.mp hnumbered).2
    simpa using hv

theorem saved_versions {cs : List (ℕ × Content)} {rs : List Revision} (h : List.Forall₂ (Saved C x) cs rs) :
    rs.map Revision.version = cs.map Prod.fst := by
  induction h with
  | nil => rfl
  | cons h _ ih => rw [map_cons, map_cons, h.1, ih]

theorem revisions_numbered (hinv : Inv C d) : Table.Numbered Revision.version (d.revisionsOf x) := by
  rw [Table.Numbered, saved_versions (hinv.lockstep x), ← (hinv.lockstep x).length_eq]
  exact hinv.numbered x

theorem head_version (hinv : Inv C d) : (d.head x).map Revision.version = prevNumber ((d.contents x).length + 1) := by
  have hnumbered := revisions_numbered (x := x) hinv
  have hlength := (hinv.lockstep x).length_eq
  rw [Db.head, hnumbered.argmax, hlength, prevNumber]
  cases hlast : (d.revisionsOf x).getLast? with
  | none =>
    rw [getLast?_eq_none_iff.mp hlast]
    rfl
  | some v =>
    rw [getLast?_eq_some_iff] at hlast
    obtain ⟨rest, hrest⟩ := hlast
    rw [hrest] at hnumbered ⊢
    have hv := (Table.numbered_concat.mp hnumbered).2
    simp [hv]

theorem wp_nextNumber {Q : ℕ → Loc Db Key → Db → Prop} (hpend : l.pend = id)
    (h : ∀ e, Frame (· ∈ l.held) d e → Inv C e → Q ((e.contents x).length + 1) l e) :
    wp (contract C) r (nextNumber x) Q l d := by
  rw [nextNumber, wp_do, wp_query]
  intro e hrely hinv
  rw [wp_return, hpend, id, latest_number hinv]
  exact h e hrely hinv

theorem wp_deactivate {Q : List ℕ → Loc Db Key → Db → Prop} (hpend : l.pend = id)
    (h : ∀ e D held, Frame (· ∈ l.held) d e → Inv C e → l.held ⊆ held → Q D ⟨(·.setActive x D false), held⟩ e) :
    wp (contract C) r (deactivate x) Q l d := by
  rw [deactivate, wp_do, wp_query]
  intro e hrely hinv
  rw [wp_do]
  refine wp_lockAll _ (fun hsub hrely => hrely.mono fun _ hk => hsub hk) hinv fun f held hsub _ hrely' hinv' => ?_
  rw [wp_do, wp_update, wp_return, hpend]
  exact h f _ held ((contract C).trans hrely hrely') hinv' hsub

@[simp] theorem setActive_nil (b : Bool) : d.setActive x [] b = d := by
  simp [Db.setActive]

theorem wp_claimActive
    (h : ∀ e held, l.held ⊆ held → .active x ∈ held → (l.pend e).activeNumbers x = [] → Frame (· ∈ l.held) d e → Inv C e →
      Q () ⟨l.pend, held⟩ e) :
    wp (contract C) r (claimActive x) Q l d := by
  rw [claimActive, wp_do, wp_lockRow]
  intro e hrely _
  show wp (contract C) r _ Q ⟨l.pend, .active x :: l.held⟩ e
  rw [wp_do, wp_lockRow]
  intro f hrely' hinv'
  have htrans : Frame (· ∈ l.held) d f :=
    (contract C).trans hrely (Frame.mono hrely' fun _ hk => mem_cons_of_mem _ hk)
  have hgo : ∀ held, .active x :: l.held ⊆ held → ((l.pend f).activeNumbers x).isEmpty = true → Q () ⟨l.pend, held⟩ f :=
    fun held hsub hempty => h f held (fun k hk => hsub (mem_cons_of_mem _ hk)) (hsub mem_cons_self)
      (isEmpty_iff.mp hempty) htrans hinv'
  split
  · rw [wp_require]
    exact hgo _ (List.Subset.refl _)
  · rw [wp_require]
    exact hgo _ (subset_cons_self _ _)

theorem wp_insertVersion {v : Version} {D : List ℕ} (hpend : l.pend = (·.setActive v.entity D false)) (hpos : 1 ≤ v.number)
    (hnext : v.number ≤ (d.contents v.entity).length + 1) (h : ∀ e held, l.held ⊆ held → .number v.entity v.number ∈ held →
      (v.active = true → .active v.entity ∈ held ∧ ∀ n ∈ e.activeNumbers v.entity, n ∈ D) → Fresh v.entity v.number e →
      Frame (· ∈ l.held) d e → Inv C e → Q () ⟨Db.insertVersion v ∘ l.pend, held⟩ e) :
    wp (contract C) r (insertVersion v) Q l d := by
  rw [insertVersion, wp_do, wp_lockRow]
  intro e hrely hinv'
  show wp (contract C) r _ Q ⟨l.pend, .number v.entity v.number :: l.held⟩ e
  rw [wp_do, wp_require]
  intro hnew
  -- the number is not taken, and every smaller one is
  have hfresh : Fresh v.entity v.number e := by
    have hnot : v.number ∉ (e.contents v.entity).map Prod.fst := by
      rw [hpend] at hnew
      have hcontents := contents_setActive (d := e) v.entity v.entity D false
      rw [← hcontents, Db.contents, map_map]
      intro hmem
      obtain ⟨w, hw, hnumber⟩ := mem_map.mp hmem
      rw [Bool.not_eq_true', any_eq_false] at hnew
      exact hnew w hw (by simpa using hnumber)
    rw [(hinv'.numbered v.entity).mem_iff] at hnot
    have hle := (hrely.grows v.entity).length_le
    rw [Fresh]
    omega
  split
  next hactive =>
    rw [wp_do]
    refine wp_claimActive fun f held hsub hkey hempty hrely₁ hinv₁ => ?_
    have hfresh₁ : Fresh v.entity v.number f := hfresh.rely hrely₁ hinv' hinv₁ mem_cons_self
    have htrans : Frame (· ∈ l.held) d f :=
      (contract C).trans hrely (hrely₁.mono fun _ hk => mem_cons_of_mem _ hk)
    refine h f held (fun k hk => hsub (mem_cons_of_mem _ hk)) (hsub mem_cons_self) (fun _ => ⟨hkey, ?_⟩) hfresh₁
      htrans hinv₁
    intro n hn
    by_contra hD
    have hmem : n ∈ (l.pend f).activeNumbers v.entity := by
      rw [hpend, activeNumbers_setActive, if_neg fun h => hD h.2]
      exact hn
    rw [hempty] at hmem
    cases hmem
  next hactive =>
    exact h e _ (subset_cons_self _ _) mem_cons_self (fun h => absurd h hactive) hfresh hrely hinv'

theorem wp_record {n : ℕ} {snapshot : Json} {reverts : Option ℕ} {pending : P Unit}
    (hpend : ∀ e, (l.pend e).revisions = e.revisions) (hinv : Inv C d) (hnumber : .number x n ∈ l.held) (hfresh : Fresh x n d)
    (h : ∀ e held, l.held ⊆ held → .history x ∈ held → Frame (· ∈ l.held) d e → Inv C e →
      wp (contract C) r pending (fun _ l e => Q () ⟨Db.insertRevision ⟨x, n, snapshot, prevNumber n, reverts⟩ ∘ l.pend, l.held⟩ e)
        ⟨l.pend, held⟩ e) :
    wp (contract C) r (record x snapshot reverts pending) Q l d := by
  rw [record, wp_do, wp_lockRow]
  intro e hrely hinv'
  have hfresh' : Fresh x n e := hfresh.rely hrely hinv hinv' hnumber
  have hhead : ((l.pend e).head x).map Revision.version = prevNumber n := by
    rw [Db.head, revisionsOf_congr (hpend e), ← hfresh']
    exact head_version hinv'
  have hversion : ((prevNumber n).getD 0) + 1 = n := by
    rw [← hfresh', prevNumber]
    split
    next hn =>
      have : (e.contents x).length = 0 := by omega
      simp [this]
    next => simp
  simp only [hhead, hversion]
  rw [wp_do]
  exact h e _ (subset_cons_self _ _) mem_cons_self hrely hinv'

theorem wp_commit {c : Change} (hpend : l.pend = Db.apply C c) (hlocks : ∀ k, c.Locks k → k ∈ l.held)
    (h : ∀ e, Frame (· ∈ l.held) d e → Inv C e → Legal C e c ∧ Caused C e r c) :
    wp (contract C) r (Prog.publish : P Unit) (fun _ _ _ => True) l d := by
  rw [wp_publish]
  intro e hrely hinv
  obtain ⟨hlegal, hcaused⟩ := h e hrely hinv
  rw [hpend]
  exact ⟨apply_inv hinv hlegal, ⟨c, rfl, hlegal, hcaused, hlocks⟩, trivial⟩

end Blocks

section Saves

variable {C : Rules} {r : Request} {l : Loc Db Key} {d : Db} {x : Entity}
variable {s : Save} {p : Payload → Prop} {reverts : Option ℕ} {Q : Unit → Loc Db Key → Db → Prop} {snapshot : Json}
  {fields : List FormFieldDef} {description : Option I18nMap} {b branding : Branding}

/-- What a save has established of the rows before it commits. -/
structure SaveReady (C : Rules) (s : Save) (held : List Key) (d : Db) : Prop where
  inv : Inv C d
  fresh : Fresh s.entity s.number d
  alone : s.activate = true → ∀ n ∈ d.activeNumbers s.entity, n ∈ s.deactivated
  typed : ∀ t, s.entity = .form t → t ∈ d.types.map FormType.id
  number : .number s.entity s.number ∈ held
  active : s.activate = true → .active s.entity ∈ held

theorem SaveReady.rely {e : Db} {held : List Key} (h : SaveReady C s held d) (hrely : Frame (· ∈ held) d e) (hinv : Inv C e) :
    SaveReady C s held e where
  inv := hinv
  fresh := h.fresh.rely hrely h.inv hinv h.number
  alone hactive n hn := h.alone hactive n (hrely.activated s.entity (h.active hactive) n hn)
  typed t ht := hrely.types ▸ h.typed t ht
  number := h.number
  active := h.active

theorem SaveReady.mono {held held' : List Key} (h : SaveReady C s held d) (hsub : held ⊆ held') : SaveReady C s held' d :=
  ⟨h.inv, h.fresh, h.alone, h.typed, hsub h.number, fun hactive => hsub (h.active hactive)⟩

def Causes (C : Rules) (r : Request) (x : Entity) (p : Payload → Prop) (reverts : Option ℕ) (d : Db) : Prop :=
  ∀ e s, Frame (fun _ => False) d e → s.entity = x → p s.payload → s.reverts = reverts → Caused C e r (.save s)

theorem Causes.rely {e : Db} {locked : Key → Prop} (h : Causes C r x p reverts d) (hrely : Frame locked d e) :
    Causes C r x p reverts e :=
  fun f s hf => h f s (((contract C).trans (show (contract C).rely [] d e from hrely.mono (by simp)) (hf.mono (by simp))).mono (by simp))

theorem wp_finish (hpend : l.pend = Db.apply C (.save s)) (hready : SaveReady C s l.held d) (haccepted : s.payload.Accepted C)
    (hfits : s.payload.Fits s.entity) (hidle : s.activate = false → s.deactivated = [])
    (hactivates : s.entity.Global → s.activate = true) (hhistory : .history s.entity ∈ l.held)
    (hmoved : s.entity = .flow → ∀ id ∈ s.moved.map Prod.fst, .application id ∈ l.held)
    (hcauses : Causes C r s.entity p s.reverts d) (hp : p s.payload) :
    wp (contract C) r (Prog.publish : P Unit) (fun _ _ _ => True) l d := by
  refine wp_commit hpend ?_ ?_
  · intro k hk
    cases k with
    | number e n =>
      obtain ⟨rfl, rfl⟩ := hk
      exact hready.number
    | active e =>
      obtain ⟨rfl, hactive⟩ := hk
      exact hready.active hactive
    | history e =>
      obtain rfl := hk
      exact hhistory
    | application id => exact hmoved hk.1 id hk.2
    | version e n => exact hk.elim
    | formType t => exact hk.elim
  · intro e hrely hinv
    have hnow := hready.rely hrely hinv
    exact ⟨⟨haccepted, hfits, hnow.fresh, hnow.alone, hidle, hactivates, hnow.typed⟩,
      hcauses e s (hrely.mono (by simp)) rfl hp rfl⟩

theorem wp_insert (hpend : l.pend = (·.setActive s.entity s.deactivated false)) (hpos : 1 ≤ s.number)
    (hnext : s.number ≤ (d.contents s.entity).length + 1) (htyped : ∀ t, s.entity = .form t → t ∈ d.types.map FormType.id)
    (h : ∀ e held, SaveReady C s held e → Frame (fun _ => False) d e →
      Q () ⟨Db.insertVersion (s.version C) ∘ l.pend, held⟩ e) :
    wp (contract C) r (insertVersion (s.version C)) Q l d := by
  refine wp_insertVersion hpend hpos hnext fun e held _ hnumber hactive hfresh hrely hinv' => ?_
  exact h e held ⟨hinv', hfresh, fun ha => (hactive ha).2, fun t ht => hrely.types ▸ htyped t ht, hnumber,
    fun ha => (hactive ha).1⟩ (hrely.mono (by simp))

theorem wp_recordSave {pending : P Unit} (hpend : ∀ e, (l.pend e).revisions = e.revisions) (hready : SaveReady C s l.held d)
    (h : ∀ e held, l.held ⊆ held → .history s.entity ∈ held → SaveReady C s held e → Frame (fun _ => False) d e →
      wp (contract C) r pending (fun _ l e => Q () ⟨Db.insertRevision
        ⟨s.entity, s.number, snapshot, prevNumber s.number, reverts⟩ ∘ l.pend, l.held⟩ e) ⟨l.pend, held⟩ e) :
    wp (contract C) r (record s.entity snapshot reverts pending) Q l d := by
  refine wp_record hpend hready.inv hready.number hready.fresh fun e held hsub hhistory hrely hinv => ?_
  exact h e held hsub hhistory ((hready.rely hrely hinv).mono hsub) (hrely.mono (by simp))

theorem createFormVersion_wp {type : Uuid} {activate : Bool} (hvalid : ∀ f ∈ fields, (FormFieldDef.codec C.toChecks).Valid f)
    (hne : fields ≠ []) (hcauses : Causes C r (.form type) (· = .form fields description) reverts d) :
    wp (contract C) r (createFormVersion C type fields description activate reverts) (fun _ _ _ => True) .fresh d := by
  rw [createFormVersion, wp_do, wp_ofExcept]
  intro _ _
  rw [wp_do, wp_query]
  intro e₀ hrely₀ _
  rw [wp_do, wp_require]
  intro htype
  have htyped : type ∈ e₀.types.map FormType.id := by
    obtain ⟨f, hf⟩ := Option.isSome_iff_exists.mp htype
    obtain ⟨hmem, hid⟩ : f ∈ e₀.types ∧ f.id = _ := Table.of_find hf
    exact hid ▸ mem_map_of_mem hmem
  rw [wp_do]
  refine wp_nextNumber rfl fun e₁ hrely₁ hinv₁ => ?_
  have hcauses₁ := (hcauses.rely hrely₀).rely hrely₁
  have htyped₁ : type ∈ e₁.types.map FormType.id := hrely₁.types ▸ htyped
  generalize hn : (e₁.contents (.form type)).length + 1 = n
  cases activate with
  | true =>
    simp only [if_true]
    rw [wp_do]
    refine wp_deactivate rfl fun e₂ D held₂ hrely₂ _ _ => ?_
    let s : Save := ⟨.form type, .form fields description, n, true, D, reverts, []⟩
    rw [wp_do]
    refine wp_insert (s := s) rfl (by simp only [s]; omega) ?_ ?_ fun e₃ held₃ hready₃ hrely₃ => ?_
    · have := (hrely₂.grows (.form type)).length_le
      simp only [s]
      omega
    · rintro t ⟨rfl⟩
      exact hrely₂.types ▸ htyped₁
    rw [wp_do]
    refine wp_recordSave (s := s) (fun _ => rfl) hready₃ fun e₄ held₄ _ hhistory hready₄ hrely₄ => ?_
    rw [wp_do, wp_lockRow]
    intro e₅ hrely₅ hinv₅
    show wp (contract C) r _ _ ⟨_, .formType type :: held₄⟩ e₅
    rw [wp_update, wp_do, wp_update]
    have hready₅ := (hready₄.rely hrely₅ hinv₅).mono (subset_cons_self (.formType type) held₄)
    have hhistory := mem_cons_of_mem (.formType type) hhistory
    refine wp_finish (s := s) (p := (· = .form fields description)) ?_ hready₅ hvalid hne (fun h => by cases h)
      (fun h => h.elim) hhistory (fun h => by cases h) ?_ rfl
    · rfl
    · exact (((hcauses₁.rely hrely₂).rely hrely₃).rely hrely₄).rely hrely₅
  | false =>
    simp only [Bool.false_eq_true, if_false]
    rw [wp_do, wp_return]
    -- a save that does not activate deactivates nothing
    have hnothing : (Loc.fresh : Loc Db Key) = ⟨(·.setActive (.form type) [] false), []⟩ := by
      refine congrArg (Loc.mk · []) ?_
      funext e
      exact (setActive_nil (d := e) false).symm
    rw [hnothing]
    let s : Save := ⟨.form type, .form fields description, n, false, [], reverts, []⟩
    rw [wp_do]
    refine wp_insert (s := s) rfl (by simp only [s]; omega) (by simp only [s]; omega) ?_
      fun e₃ held₃ hready₃ hrely₃ => ?_
    · rintro t ⟨rfl⟩
      exact htyped₁
    rw [wp_do]
    refine wp_recordSave (s := s) (fun _ => rfl) hready₃ fun e₅ held₅ _ hhistory hready₅ hrely₅ => ?_
    rw [wp_return, wp_do, wp_update]
    refine wp_finish (s := s) (p := (· = .form fields description)) ?_ hready₅ hvalid hne (fun _ => rfl)
      (fun h => h.elim) hhistory (fun h => by cases h) ?_ rfl
    · rfl
    · exact (hcauses₁.rely hrely₃).rely hrely₅

theorem rest_nil (haccepted : s.payload.Accepted C) (hfits : s.payload.Fits .flow) (hinv : Inv C d) :
    ((d.moveApplications (s.version C) s.moved).applications.filter (·.state.isNone)).map Application.id = [] := by
  rw [map_eq_nil_iff, filter_eq_nil_iff]
  intro a ha
  obtain ⟨b, hb, rfl⟩ := mem_map.mp ha
  rw [Application.moveTo]
  split
  next key _ =>
    obtain ⟨k, hk, _⟩ := place_spec haccepted hfits key
    simp [hk]
  next =>
    obtain ⟨t, ht, _⟩ := hinv.placed b hb
    simp [ht]

@[simp] theorem placeRest_nil (v : Version) : d.placeRest v [] = d := by
  simp [Db.placeRest]

theorem wp_placeRest {v : Version} (hrest : ∀ e, Frame (· ∈ l.held) d e → Inv C e →
      ((l.pend e).applications.filter (·.state.isNone)).map Application.id = [])
    (h : ∀ e, Frame (· ∈ l.held) d e → Inv C e → Q () l e) : wp (contract C) r (placeRest v) Q l d := by
  rw [placeRest, wp_do, wp_query]
  intro e hrely hinv'
  rw [hrest e hrely hinv']
  show wp (contract C) r (Prog.update (·.placeRest v [])) Q l e
  have hnothing : (·.placeRest v []) ∘ l.pend = l.pend := by
    funext f
    exact placeRest_nil v
  rw [wp_update, hnothing]
  exact h e hrely hinv'

theorem createGlobalFlowVersion_wp {graph : FlowGraph} {budgetRefs : Bool} (hvalid : (FlowGraph.codec C.toChecks).Valid graph)
    (hcauses : Causes C r .flow (· = .flow graph) reverts d) :
    wp (contract C) r (createGlobalFlowVersion C graph budgetRefs reverts) (fun _ _ _ => True) .fresh d := by
  rw [createGlobalFlowVersion, wp_do, wp_ofExcept]
  intro u hgraph
  have hgraph : validateFlowGraph C graph = .ok () := by
    cases h : validateFlowGraph C graph with
    | ok u => rfl
    | error p =>
      rw [h] at hgraph
      cases hgraph
  rw [wp_do, wp_require]
  intro _
  rw [wp_do, wp_query]
  intro e₀ hrely₀ _
  generalize hkeys : ((Loc.fresh.pend e₀).applications.filterMap fun a => a.state.map fun s => (a.id, s.key)) = appKeys
  rw [wp_do]
  refine wp_nextNumber rfl fun e₁ hrely₁ _ => ?_
  generalize hn : (e₁.contents .flow).length + 1 = n
  rw [wp_do]
  refine wp_deactivate rfl fun e₂ D held₂ hrely₂ _ _ => ?_
  let s : Save := ⟨.flow, .flow graph, n, true, D, reverts, appKeys⟩
  have hlength := (hrely₂.grows .flow).length_le
  rw [wp_do]
  refine wp_insert (s := s) rfl (by simp only [s]; omega) (by simp only [s]; omega) (fun t h => by cases h)
    fun e₃ held₃ hready₃ hrely₃ => ?_
  rw [wp_do]
  refine wp_lockAll _ (fun hsub hrely => Frame.mono hrely fun _ hk => hsub hk) hready₃.inv
    fun e₄ held₄ hsub₄ hlocks hrely₄ hinv₄ => ?_
  rw [wp_do, wp_update, wp_do]
  have hready₄ := (hready₃.rely hrely₄ hinv₄).mono hsub₄
  -- no application is left without a state
  refine wp_placeRest (fun e _ hinv => rest_nil (s := s) (d := e) ⟨hvalid, hgraph⟩ trivial hinv)
    fun e₅ hrely₅ hinv₅ => ?_
  rw [wp_do]
  refine wp_recordSave (s := s) (fun _ => rfl) (hready₄.rely hrely₅ hinv₅) fun e₆ held₆ hsub₆ hhistory hready₆ hrely₆ => ?_
  rw [wp_return, wp_do, wp_update]
  refine wp_finish (s := s) (p := (· = .flow graph)) rfl hready₆ ⟨hvalid, hgraph⟩ trivial (fun h => by cases h) (fun _ => rfl)
    hhistory ?_ ?_ rfl
  · intro _ id hid
    obtain ⟨m, hm, rfl⟩ := mem_map.mp hid
    exact hsub₆ (hlocks _ (mem_map_of_mem hm))
  · exact (((((hcauses.rely hrely₀).rely hrely₁).rely hrely₂).rely hrely₃).rely hrely₄).rely hrely₅ |>.rely hrely₆

theorem default_valid : (Branding.codec C.toChecks).Valid .default := by
  have hlabel : (Codec.str.check (maxLength maxLabelChars)).Valid [] := ⟨trivial, maxLength_nil _⟩
  refine ⟨hlabel, hlabel, ?_, ⟨?_, capI18n_nil _⟩, ⟨?_, ?_⟩, defaultFreetexts_valid, trivial, ?_, defaultHelp_valid,
    defaultTickets_valid C.toChecks, trivial⟩ <;> simp [Branding.default, Branding.out]

theorem withHelpTicketsOf_valid {source : Branding} (hb : (Branding.codec C.toChecks).Valid b)
    (hsource : (Branding.codec C.toChecks).Valid source) : (Branding.codec C.toChecks).Valid (b.withHelpTicketsOf source) := by
  obtain ⟨hname, hshort, hlogos, hcopyright, hlinks, htexts, hgravatar, haccent, _⟩ := hb
  obtain ⟨_, _, _, _, _, _, _, _, hhelp, htickets, _⟩ := hsource
  exact ⟨hname, hshort, hlogos, hcopyright, hlinks, htexts, hgravatar, haccent, hhelp, htickets, trivial⟩

theorem activeBranding_valid (h : activeBranding C d = some b) : (Branding.codec C.toChecks).Valid b := by
  rw [activeBranding] at h
  split at h
  · cases h
    exact default_valid
  · split at h
    · exact (Branding.codec C.toChecks).read_valid h
    · cases h

theorem saveSiteVersion_wp {n : ℕ} (hvalid : (Branding.codec C.toChecks).Valid branding) (hpos : 1 ≤ n)
    (hnext : n ≤ (d.contents .site).length + 1) (hcauses : Causes C r .site p reverts d) (hp : p (.site branding)) :
    wp (contract C) r (saveSiteVersion C branding n reverts) (fun _ _ _ => True) .fresh d := by
  rw [saveSiteVersion, wp_do]
  refine wp_deactivate rfl fun e₁ D held₁ hrely₁ _ _ => ?_
  let s : Save := ⟨.site, .site branding, n, true, D, reverts, []⟩
  have hlength := (hrely₁.grows .site).length_le
  rw [wp_do]
  refine wp_insert (s := s) rfl hpos (by simp only [s]; omega) (fun t h => by cases h) fun e₂ held₂ hready₂ hrely₂ => ?_
  rw [wp_do]
  refine wp_recordSave (s := s) (fun _ => rfl) hready₂ fun e₃ held₃ _ hhistory hready₃ hrely₃ => ?_
  rw [wp_return, wp_do, wp_update]
  exact wp_finish (s := s) rfl hready₃ hvalid trivial (fun h => by cases h) (fun _ => rfl) hhistory (fun h => by cases h)
    (((hcauses.rely hrely₁).rely hrely₂).rely hrely₃) hp

theorem restoreBranding_wp (hvalid : (Branding.codec C.toChecks).Valid branding)
    (hcauses : Causes C r .site (fun q => ∃ source, q = .site (branding.withHelpTicketsOf source)) reverts d) :
    wp (contract C) r (restoreBranding C branding reverts) (fun _ _ _ => True) .fresh d := by
  rw [restoreBranding, wp_do, wp_require]
  intro _
  rw [wp_do]
  refine wp_nextNumber rfl fun e₁ hrely₁ _ => ?_
  rw [wp_do, wp_query]
  intro e₂ hrely₂ _
  rw [wp_do, wp_ofOption]
  intro active hactive
  have hlength := (hrely₂.grows .site).length_le
  exact saveSiteVersion_wp (withHelpTicketsOf_valid hvalid (activeBranding_valid hactive)) (by omega) (by omega)
    ((hcauses.rely hrely₁).rely hrely₂) ⟨active, rfl⟩

theorem putHelpTickets_wp {help tickets : Json} (hcauses : ∀ p, Causes C r .site p none d) :
    wp (contract C) r (putHelpTickets C help tickets) (fun _ _ _ => True) .fresh d := by
  rw [putHelpTickets, wp_do, wp_ofOption]
  intro help' hhelp
  rw [wp_do, wp_ofOption]
  intro tickets' htickets
  rw [wp_do, wp_query]
  intro e₁ hrely₁ _
  rw [wp_do, wp_ofOption]
  intro active hactive
  rw [wp_do]
  refine wp_nextNumber rfl fun e₂ hrely₂ _ => ?_
  obtain ⟨hname, hshort, hlogos, hcopyright, hlinks, htexts, hgravatar, haccent, _⟩ := activeBranding_valid hactive
  have hvalid : (Branding.codec C.toChecks).Valid { active with help := help', tickets := tickets' } :=
    ⟨hname, hshort, hlogos, hcopyright, hlinks, htexts, hgravatar, haccent, HelpSettings.codec.read_valid hhelp,
      (TicketSettings.codec C.toChecks).read_valid htickets, trivial⟩
  exact saveSiteVersion_wp hvalid (by omega) (by omega) (((hcauses fun _ => True).rely hrely₁).rely hrely₂) trivial

theorem readForm_valid (h : readForm C snapshot = some (fields, description)) :
    (∀ f ∈ fields, (FormFieldDef.codec C.toChecks).Valid f) ∧ fields ≠ [] := by
  rw [readForm] at h
  obtain ⟨fs, hfields, h⟩ := Option.bind_eq_some_iff.mp h
  obtain ⟨text, _, h⟩ := Option.bind_eq_some_iff.mp h
  split at h
  · cases h
  · next hne =>
      cases h
      exact ⟨(Codec.list (FormFieldDef.codec C.toChecks)).read_valid hfields, fun h => hne (isEmpty_iff.mpr h)⟩

theorem reapplySnapshot_wp {budgetRefs : Bool} (hcauses : Causes C r x (Replays C x snapshot) reverts d) :
    wp (contract C) r (reapplySnapshot C x snapshot budgetRefs reverts) (fun _ _ _ => True) .fresh d := by
  cases x with
  | form type =>
    rw [reapplySnapshot, wp_do, wp_ofOption]
    rintro ⟨fields, description⟩ hread
    obtain ⟨hvalid, hne⟩ := readForm_valid hread
    exact createFormVersion_wp hvalid hne fun e s hrely hx hp hr =>
      hcauses e s hrely hx ⟨fields, description, hread, hp⟩ hr
  | flow =>
    rw [reapplySnapshot, wp_do, wp_ofOption]
    intro graph hread
    exact createGlobalFlowVersion_wp ((FlowGraph.codec C.toChecks).read_valid hread) fun e s hrely hx hp hr =>
      hcauses e s hrely hx ⟨graph, hread, hp⟩ hr
  | site =>
    rw [reapplySnapshot, wp_do, wp_ofOption]
    intro branding hread
    refine restoreBranding_wp ((Branding.codec C.toChecks).read_valid hread) fun e s hrely hx hp hr => ?_
    obtain ⟨source, hp⟩ := hp
    exact hcauses e s hrely hx ⟨branding, source, hread, hp⟩ hr

end Saves

end Config
