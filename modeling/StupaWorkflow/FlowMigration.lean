import StupaWorkflow.ConfigHistory

/-!
The applications under the saves of the flow. A save moves each application to the new version by
the key of its state; a key that the new graph lacks becomes the initial state, and no status
event records this.
-/
namespace Config
open Py Schema StorageKeys ReadCommitted List

variable {C : Rules} {d : Db}

section Carried

def Db.lastEvent (d : Db) (id : Uuid) : Option StatusEvent := (d.events.filter (·.application = id)).getLast?

def Content.carry (c : Content) (key : Text) : Text := if key ∈ c.stateKeys then key else c.initial.getD key

def Db.carried (d : Db) (ev : StatusEvent) : Text :=
  ((d.contents .flow).filter (ev.target.version < ·.1)).foldl (fun key c => c.2.carry key) ev.target.key

def Migrated (d : Db) : Prop :=
  ∀ a ∈ d.applications, ∃ ev, d.lastEvent a.id = some ev ∧ a.version = (d.contents .flow).length ∧
    a.state = some ⟨(d.contents .flow).length, d.carried ev⟩

def Unmoved (d : Db) : Change → Prop
  | .save s => s.entity = .flow → ∀ a ∈ d.applications, s.moved.lookup a.id = a.state.map StateRef.key
  | .create k => k.target.version = (d.contents .flow).length
  | _ => True

def InTime (_ : Request) (d e : Db) : Prop := ∀ c ∈ e.last, Unmoved d c

theorem place_carry {s : Save} (haccepted : s.payload.Accepted C) (hfits : s.payload.Fits .flow) (key : Text) :
    (s.version C).place key = some ⟨s.number, (s.payload.content C).carry key⟩ := by
  obtain ⟨k, hplace, _⟩ := place_spec haccepted hfits key
  rw [hplace, Content.carry]
  rw [Version.place] at hplace
  split at hplace
  next hkey =>
    have hkey : key ∈ (s.payload.content C).stateKeys := hkey
    rw [if_pos hkey]
    exact hplace.symm
  next hkey =>
    obtain ⟨i, hinitial, hi⟩ := Option.map_eq_some_iff.mp hplace
    have hinitial : (s.payload.content C).initial = some i := hinitial
    have hkey : key ∉ (s.payload.content C).stateKeys := hkey
    rw [if_neg hkey, hinitial, Option.getD_some]
    exact congrArg some hi.symm

theorem state_version_le (hinv : Inv C d) {s : StateRef} (h : d.HasState s) : s.version ≤ (d.contents .flow).length := by
  obtain ⟨c, hc, hversion, _⟩ := h
  have hmem : s.version ∈ (d.contents .flow).map Prod.fst := hversion ▸ mem_map_of_mem hc
  exact ((hinv.numbered .flow).mem_iff.mp hmem).2

theorem carried_newest (hinv : Inv C d) {ev : StatusEvent} (h : ev.target.version = (d.contents .flow).length) :
    d.carried ev = ev.target.key := by
  have hnone : (d.contents .flow).filter (ev.target.version < ·.1) = [] := by
    rw [filter_eq_nil_iff]
    intro c hc
    have hmem : c.1 ∈ (d.contents .flow).map Prod.fst := mem_map_of_mem hc
    have := ((hinv.numbered .flow).mem_iff.mp hmem).2
    simp only [decide_eq_true_eq]
    omega
  rw [Db.carried, hnone, foldl_nil]

theorem carried_congr {e : Db} (h : e.contents .flow = d.contents .flow) (ev : StatusEvent) : e.carried ev = d.carried ev := by
  rw [Db.carried, h, Db.carried]

theorem carried_save {s : Save} (hflow : s.entity = .flow) {ev : StatusEvent} (hlt : ev.target.version < s.number) :
    (d.apply C (.save s)).carried ev = (s.payload.content C).carry (d.carried ev) := by
  rw [Db.carried, contents_save, if_pos hflow, filter_append, foldl_append, Db.carried]
  simp [hlt]

theorem lastEvent_append (ev : StatusEvent) (id : Uuid) :
    ({ d with events := d.events ++ [ev] } : Db).lastEvent id = if ev.application = id then some ev else d.lastEvent id := by
  rw [Db.lastEvent, filter_append]
  split
  next h => simp [h]
  next h => simp [h, Db.lastEvent]

end Carried

section Steps

theorem save_migrated {s : Save} (hinv : Inv C d) (h : Migrated d) (hlegal : SaveLegal C s d) (hunmoved : Unmoved d (.save s)) :
    Migrated (d.apply C (.save s)) := by
  intro a ha
  have ha : a ∈ s.applications C d.applications := ha
  rw [Save.applications] at ha
  split at ha
  next hflow =>
    obtain ⟨b, hb, rfl⟩ := mem_map.mp ha
    obtain ⟨ev, hev, _, hstate⟩ := h b hb
    have hlookup := hunmoved hflow b hb
    have hfresh : (d.contents .flow).length + 1 = s.number := hflow ▸ hlegal.fresh
    have hplace := place_carry hlegal.accepted (hflow ▸ hlegal.fits) (d.carried ev)
    have hlength : ((d.apply C (.save s)).contents .flow).length = s.number := by
      rw [contents_save, if_pos hflow, length_append, length_singleton, hfresh]
    have hlt : ev.target.version < s.number := by
      have hmem : ev ∈ d.events := (mem_filter.mp (mem_of_getLast? hev)).1
      have := state_version_le hinv (hinv.events ev hmem).1
      omega
    rw [hstate] at hlookup
    have hmoved : b.moveTo (s.version C) s.moved =
        { b with version := s.number, state := (s.version C).place (d.carried ev) } := by
      rw [Application.moveTo, hlookup]
      rfl
    rw [hmoved, hlength]
    exact ⟨ev, hev, rfl, by rw [carried_save hflow hlt]; exact hplace⟩
  next hother =>
    obtain ⟨ev, hev, hversion, hstate⟩ := h a ha
    have hcontents : (d.apply C (.save s)).contents .flow = d.contents .flow := by
      rw [contents_save, if_neg fun h => hother h, append_nil]
    rw [hcontents]
    exact ⟨ev, hev, hversion, by rw [carried_congr hcontents]; exact hstate⟩

theorem move_migrated {m : Move} (hinv : Inv C d) (h : Migrated d) (hlegal : MoveLegal m d) :
    Migrated (d.apply C (.move m)) := by
  intro a ha
  obtain ⟨b, hb, rfl⟩ := mem_map.mp (show a ∈ d.applications.map _ from ha)
  obtain ⟨ev, hev, hversion, hstate⟩ := h b hb
  have hlast (id : Uuid) : (d.apply C (.move m)).lastEvent id =
      if m.application = id then some ⟨m.application, some m.source, m.target⟩ else d.lastEvent id :=
    lastEvent_append (d := d.setState m.application m.target) _ id
  by_cases hid : b.id = m.application
  · -- the application moves within the newest version
    obtain ⟨c, hc, hsource⟩ := hlegal.current
    have heq : d.application m.application = some b := Table.find_of_mem hinv.ids hb hid
    rw [hc, Option.some_inj] at heq
    subst heq
    rw [hsource, Option.some_inj] at hstate
    have hnewest : m.target.version = (d.contents .flow).length := by rw [← hlegal.version, hstate]
    rw [if_pos hid]
    refine ⟨⟨m.application, some m.source, m.target⟩, by rw [hlast, if_pos hid.symm], hversion, ?_⟩
    have hcarried : (d.apply C (.move m)).carried ⟨m.application, some m.source, m.target⟩ = m.target.key :=
      carried_newest (move_inv hinv hlegal) hnewest
    rw [hcarried]
    exact congrArg some (congrArg (StateRef.mk · m.target.key) hnewest)
  · rw [if_neg hid]
    exact ⟨ev, by rw [hlast, if_neg fun h => hid h.symm]; exact hev, hversion, hstate⟩

theorem create_migrated {k : Created} (hinv : Inv C d) (h : Migrated d) (hlegal : CreateLegal k d)
    (hunmoved : Unmoved d (.create k)) : Migrated (d.apply C (.create k)) := by
  have hlast (id : Uuid) : (d.apply C (.create k)).lastEvent id =
      if k.application = id then some ⟨k.application, none, k.target⟩ else d.lastEvent id :=
    lastEvent_append (d := { d with applications := _ }) _ id
  intro a ha
  rcases mem_append.mp (show a ∈ d.applications ++ [_] from ha) with hold | hnew
  · obtain ⟨ev, hev, hversion, hstate⟩ := h a hold
    have hne : k.application ≠ a.id := by
      intro hid
      have hnone := List.find?_eq_none.mp hlegal.fresh a hold
      simp [hid] at hnone
    exact ⟨ev, by rw [hlast, if_neg hne]; exact hev, hversion, hstate⟩
  · rw [mem_singleton.mp hnew]
    refine ⟨⟨k.application, none, k.target⟩, by rw [hlast, if_pos rfl], hunmoved, ?_⟩
    have hcarried : (d.apply C (.create k)).carried ⟨k.application, none, k.target⟩ = k.target.key :=
      carried_newest (create_inv hinv hlegal) hunmoved
    rw [hcarried]
    exact congrArg some (congrArg (StateRef.mk · k.target.key) hunmoved)

theorem apply_migrated {c : Change} (hinv : Inv C d) (h : Migrated d) (hlegal : Legal C d c) (hunmoved : Unmoved d c) :
    Migrated (d.apply C c) := by
  cases c with
  | save s => exact save_migrated hinv h hlegal hunmoved
  | switch w =>
    have hcontents : (d.apply C (.switch w)).contents .flow = d.contents .flow := contents_switch _
    intro a ha
    obtain ⟨ev, hev, hversion, hstate⟩ := h a ha
    rw [hcontents]
    exact ⟨ev, hev, hversion, by rw [carried_congr hcontents]; exact hstate⟩
  | move m => exact move_migrated hinv h hlegal
  | create k => exact create_migrated hinv h hlegal hunmoved

end Steps

section Runs

/-- In a run whose commits are in time, every application sits in a state of the newest
version, with the carried key of its last status event. -/
theorem flow_migration {types : List Uuid} {es : List (Event Request)} {s : Sys Request Db Key Problem}
    (hrun : run (script C) ⟨emptyDb types, []⟩ es = some s) (htime : Guarded InTime (script C) ⟨emptyDb types, []⟩ es) :
    ∀ a ∈ s.db.applications, ∃ ev v, s.db.lastEvent a.id = some ev ∧ s.db.latest .flow = some v ∧ a.version = v.number ∧
      a.state = some ⟨v.number, s.db.carried ev⟩ ∧ s.db.carried ev ∈ v.content.stateKeys := by
  have hinv : Inv C (emptyDb types) := emptyDb_inv types
  have hstart : Migrated (emptyDb types) := fun a ha => by cases ha
  have hmigrated : Migrated s.db := by
    refine guarded_run (C := contract C) (J := Migrated) script_keeps ?_ (sound_start hinv) hstart htime hrun
    rintro r held d e hinv _ h ⟨c, rfl, hlegal, _⟩ hG
    refine apply_migrated hinv h hlegal (hG c ?_)
    cases c <;> rfl
  have hinv : Inv C s.db := (run_sound script_keeps hinv ⟨es, hrun⟩).inv
  intro a ha
  obtain ⟨ev, hev, hversion, hstate⟩ := hmigrated a ha
  obtain ⟨t, ht, _, c, hc, hnumber, hkey⟩ := hinv.placed a ha
  rw [hstate, Option.some_inj] at ht
  subst ht
  obtain ⟨v, hv, rfl⟩ := mem_map.mp hc
  have hnumber : v.number = (s.db.contents .flow).length := hnumber
  refine ⟨ev, v, hev, latest_newest hinv hv hnumber, hversion.trans hnumber.symm, ?_, hkey⟩
  rw [hnumber]
  exact hstate

def Follows (d : Db) : Prop :=
  ∀ a ∈ d.applications, ∃ ev ∈ d.lastEvent a.id, ∃ v ∈ d.latest .flow,
    a.state = some ⟨v.number, v.content.carry ev.target.key⟩

instance (d : Db) : Decidable (Follows d) := by
  unfold Follows
  infer_instance

def quiet (s : Sys Request Db Key Problem) : Bool :=
  s.live.all fun t => match t.prog with
    | .pure _ => true
    | _ => false

def stateJson (key : Text) (initial : Bool) : Json :=
  .obj [(text "key", .str key), (text "label", .obj []), (text "isInitial", .bool initial)]

def shortFlow : Request := .saveFlow (.obj [(text "states", .arr [stateJson (text "a") true])]) true

def longFlow : Request :=
  .saveFlow (.obj [(text "states", .arr [stateJson (text "a") true, stateJson (text "b") false]),
    (text "transitions", .arr [.obj [(text "from", .str (text "a")), (text "to", .str (text "b"))]])]) true

def createFirst : Request := .create ⟨1, 7, none⟩

def fireFirst : Request := .fire ⟨1, 1, 0, true, true, none, true⟩

instance (d : Db) : (c : Change) → Decidable (Unmoved d c)
  | .save s => inferInstanceAs
      (Decidable (s.entity = .flow → ∀ a ∈ d.applications, s.moved.lookup a.id = a.state.map StateRef.key))
  | .create k => inferInstanceAs (Decidable (k.target.version = (d.contents .flow).length))
  | .switch _ => .isTrue trivial
  | .move _ => .isTrue trivial

instance (r : Request) (d e : Db) : Decidable (InTime r d e) := inferInstanceAs (Decidable (∀ c ∈ e.last, Unmoved d c))

def oneApplication : List (Event Request) :=
  alone (textForm (text "a")) 0 14 ++ alone longFlow 1 15 ++ alone createFirst 2 7

def returningState : List (Event Request) :=
  oneApplication ++ alone fireFirst 3 8 ++ alone shortFlow 4 17 ++ alone longFlow 5 17

theorem returningState_migrated :
    ∃ s, run (script plainRules) ⟨emptyDb [7], []⟩ returningState = some s ∧
      s.db.applications = [⟨1, 3, some ⟨3, text "a"⟩⟩] ∧
      ∀ a ∈ s.db.applications, ∃ ev v, s.db.lastEvent a.id = some ev ∧ s.db.latest .flow = some v ∧ a.version = v.number ∧
        a.state = some ⟨v.number, s.db.carried ev⟩ ∧ s.db.carried ev ∈ v.content.stateKeys := by
  have htime : Guarded InTime (script plainRules) ⟨emptyDb [7], []⟩ returningState := by decide +kernel
  have hrun : (run (script plainRules) ⟨emptyDb [7], []⟩ returningState).map (fun s => s.db.applications) =
      some [⟨1, 3, some ⟨3, text "a"⟩⟩] := by decide +kernel
  obtain ⟨s, hs, happs⟩ := Option.map_eq_some_iff.mp hrun
  exact ⟨s, hs, happs, flow_migration hs htime⟩

def crossedCreate : List (Event Request) :=
  alone (textForm (text "a")) 0 14 ++ alone longFlow 1 15 ++ alone createFirst 2 2 ++ alone longFlow 3 16 ++ goesOn 2 5

def crossedFire : List (Event Request) :=
  oneApplication ++ alone longFlow 3 1 ++ alone fireFirst 4 8 ++ goesOn 3 16

/-- Without a transaction in flight, the last status event does not tell the state: it was
set back by a save without the key, the application was created in the old version while a
save committed, or its change was overwritten by a save. -/
theorem returned_not_follows :
    (∃ s, run (script plainRules) ⟨emptyDb [7], []⟩ returningState = some s ∧ quiet s = true ∧ ¬ Follows s.db) ∧
      (∃ s, run (script plainRules) ⟨emptyDb [7], []⟩ crossedCreate = some s ∧ quiet s = true ∧ ¬ Follows s.db) ∧
        ∃ s, run (script plainRules) ⟨emptyDb [7], []⟩ crossedFire = some s ∧ quiet s = true ∧ ¬ Follows s.db := by
  have hruns : ∀ es ∈ [returningState, crossedCreate, crossedFire], (run (script plainRules) ⟨emptyDb [7], []⟩ es).any
      (fun s => quiet s && !decide (Follows s.db)) = true := by decide +kernel
  have hend : ∀ es ∈ [returningState, crossedCreate, crossedFire], ∃ s,
      run (script plainRules) ⟨emptyDb [7], []⟩ es = some s ∧ quiet s = true ∧ ¬ Follows s.db := by
    intro es hes
    obtain ⟨s, hs, hend⟩ := (Option.any_eq_true ..).mp (hruns es hes)
    rw [Bool.and_eq_true, Bool.not_eq_true', decide_eq_false_iff_not] at hend
    exact ⟨s, hs, hend⟩
  exact ⟨hend _ (by simp), hend _ (by simp), hend _ (by simp)⟩

end Runs

end Config
