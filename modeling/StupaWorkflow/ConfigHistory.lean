import StupaWorkflow.ConfigRequests

/-!
The history of a config entity. In every run the revisions are numbered and linked, one version is
active, and the flow and the site config show the newest revision.
-/
namespace Config
open Py Schema StorageKeys ReadCommitted List

variable {C : Rules} {d : Db} {x : Entity}

section Live

variable (C) in
def Shows (d : Db) (snapshot : Json) : Entity → Prop
  | .form t => ∃ fields description, readForm C snapshot = some (fields, description) ∧
      getFormDraft C d t = some (fields.map (·.normal C.toChecks), description)
  | .flow => ∃ g live, (FlowGraph.codec C.toChecks).read snapshot = some g ∧ getActiveGlobalFlow C d = some live ∧ g.Reads live
  | .site => ∃ branding, (Branding.codec C.toChecks).read snapshot = some branding ∧ activeBranding C d = some branding

theorem version_unique (hinv : Inv C d) {v w : Version} (hv : v ∈ d.versionsOf x) (hw : w ∈ d.versionsOf x)
    (h : v.number = w.number) : v = w := by
  have hnodup : ((d.versionsOf x).map Version.number).Nodup := by
    have := (hinv.numbered x).nodup
    rwa [Db.contents, map_map] at this
  exact inj_on_of_nodup_map hnodup hv hw h

theorem revision_unique (hinv : Inv C d) {r r' : Revision} (hr : r ∈ d.revisionsOf x) (hr' : r' ∈ d.revisionsOf x)
    (h : r.version = r'.version) : r = r' :=
  inj_on_of_nodup_map (revisions_numbered hinv).nodup hr hr' h

theorem head_spec (hinv : Inv C d) {R : Revision} (h : d.head x = some R) :
    R ∈ d.revisionsOf x ∧ R.version = (d.contents x).length := by
  refine ⟨argmax_mem h, ?_⟩
  have hversion := head_version (x := x) hinv
  have hmem : R.version ∈ (d.revisionsOf x).map Revision.version := mem_map_of_mem (argmax_mem h)
  have hpos := ((revisions_numbered hinv).mem_iff.mp hmem).1
  rw [h, prevNumber] at hversion
  split at hversion
  · cases hversion
  · simpa using hversion

theorem newest_saved (hinv : Inv C d) {R : Revision} (h : d.head x = some R) :
    ∃ v ∈ d.versionsOf x, v.number = (d.contents x).length ∧ Saved C x (v.number, v.content) R := by
  obtain ⟨hmem, hversion⟩ := head_spec hinv h
  obtain ⟨c, hc, hsaved⟩ := Table.partner (List.Forall₂.flip (hinv.lockstep x)) hmem
  obtain ⟨v, hv, rfl⟩ := mem_map.mp hc
  exact ⟨v, hv, hsaved.1.symm.trans hversion, hsaved⟩

theorem latest_newest (hinv : Inv C d) {v : Version} (hv : v ∈ d.versionsOf x) (hnumber : v.number = (d.contents x).length) :
    d.latest x = some v := by
  cases hlatest : d.latest x with
  | none =>
    rw [Db.latest, argmax_eq_none] at hlatest
    rw [hlatest] at hv
    cases hv
  | some w =>
    have hw : w ∈ d.versionsOf x := argmax_mem hlatest
    have hle : v.number ≤ w.number := le_of_mem_argmax hv hlatest
    have hmem : w.number ∈ (d.contents x).map Prod.fst := by
      rw [Db.contents, map_map]
      exact mem_map_of_mem (f := Prod.fst ∘ fun v : Version => (v.number, v.content)) hw
    have hbound := ((hinv.numbered x).mem_iff.mp hmem).2
    rw [version_unique hinv hw hv (by omega)]

theorem active_newest (hinv : Inv C d) (hx : x.Global) {v : Version} (hv : v ∈ d.versionsOf x)
    (hnumber : v.number = (d.contents x).length) : (d.activeVersions x).head? = some v := by
  have hpos : v.number ≠ 0 := by
    have hmem : v.number ∈ (d.contents x).map Prod.fst := by
      rw [Db.contents, map_map]
      exact mem_map_of_mem (f := Prod.fst ∘ fun v : Version => (v.number, v.content)) hv
    have := ((hinv.numbered x).mem_iff.mp hmem).1
    omega
  have hactive : v.number ∈ d.activeNumbers x := (hinv.newest x hx _).mpr ⟨hnumber, hpos⟩
  cases hhead : (d.activeVersions x).head? with
  | none =>
    rw [Db.activeNumbers, head?_eq_none_iff.mp hhead] at hactive
    cases hactive
  | some w =>
    have hw : w ∈ d.activeVersions x := mem_of_head? hhead
    have hnewest := ((hinv.newest x hx _).mp (mem_map_of_mem hw)).1
    rw [version_unique hinv (mem_filter.mp hw).1 hv (hnewest.trans hnumber.symm)]

theorem readForm_snapshot {fields : List FormFieldDef} {description : Option I18nMap}
    (hvalid : ∀ f ∈ fields, (FormFieldDef.codec C.toChecks).Valid f) (hne : fields ≠ []) :
    readForm C (FormPayload.snapshot C fields description) = some (fields, description) := by
  have hfields : getMember (text "fields") (FormPayload.snapshot C fields description) =
      some ((Codec.list (FormFieldDef.codec C.toChecks)).dump fields) := rfl
  have hdescription : getMember (text "description") (FormPayload.snapshot C fields description) =
      some ((Codec.option i18nMap).dump description) := rfl
  have htruthy : truthy ((Codec.list (FormFieldDef.codec C.toChecks)).dump fields) = true := by
    obtain ⟨f, rest, rfl⟩ := exists_cons_of_ne_nil hne
    rfl
  have hread := (Codec.list (FormFieldDef.codec C.toChecks)).read_dump hvalid
  have hread' := (Codec.option i18nMap).read_dump (a := description) (by simp)
  rw [readForm, hfields, hdescription]
  simp [pyOr, htruthy, hread, hread', hne]

/-- The rows of a saved form read as the form. -/
theorem rows_draft {fields : List FormFieldDef} (hvalid : ∀ f ∈ fields, (FormFieldDef.codec C.toChecks).Valid f) :
    ((fields.mapIdx fun order f => fieldDefToRow C.toChecks f order).mergeSort fun f g => f.order ≤ g.order).mapM
      (rowToFieldDef C.toChecks) = some (fields.map (·.normal C.toChecks)) := by
  have hsorted : (fields.mapIdx fun order f => fieldDefToRow C.toChecks f order).Pairwise
      fun f g => decide (f.order ≤ g.order) = true := by
    rw [pairwise_iff_getElem]
    intro i j hi hj hij
    simp only [getElem_mapIdx, fieldDefToRow, decide_eq_true_eq]
    omega
  rw [mergeSort_of_pairwise hsorted, mapIdx_eq_zipIdx_map]
  have hmap : fields.map (·.normal C.toChecks) = fields.zipIdx.map fun p => p.1.normal C.toChecks :=
    calc fields.map (·.normal C.toChecks)
      _ = (fields.zipIdx.map Prod.fst).map (·.normal C.toChecks) := by rw [zipIdx_map_fst]
      _ = fields.zipIdx.map fun p => p.1.normal C.toChecks := map_map
  rw [hmap]
  refine Codec.mapM_map_eq fun p hp => ?_
  exact rowToFieldDef_fieldDefToRow (hvalid p.1 (fst_mem_of_mem_zipIdx hp))

theorem shows_payload (hinv : Inv C d) {v : Version} {p : Payload} (hv : v ∈ d.versionsOf x)
    (hnumber : v.number = (d.contents x).length) (haccepted : p.Accepted C) (hfits : p.Fits x) (hcontent : v.content = p.content C) :
    Shows C d (p.snapshot C) x := by
  cases x with
  | form t =>
    cases p with
    | form fields description =>
      refine ⟨fields, description, readForm_snapshot haccepted hfits, ?_⟩
      have hread' := (Codec.option i18nMap).read_dump (a := description) (by simp)
      rw [getFormDraft, latest_newest hinv hv hnumber]
      simp [hcontent, Payload.content, rows_draft haccepted, hread']
    | flow graph => exact hfits.elim
    | site branding => exact hfits.elim
  | flow =>
    cases p with
    | flow graph =>
      obtain ⟨live, hlive, hreads⟩ := FlowRows.read_rows haccepted.1
      refine ⟨graph, live, (FlowGraph.codec C.toChecks).read_dump haccepted.1, ?_, hreads⟩
      rw [getActiveGlobalFlow, active_newest (x := .flow) hinv trivial hv hnumber]
      simp [hcontent, Payload.content, Content.flowRows, hlive]
    | form fields description => exact hfits.elim
    | site branding => exact hfits.elim
  | site =>
    cases p with
    | site branding =>
      refine ⟨branding, (Branding.codec C.toChecks).read_dump haccepted, ?_⟩
      rw [activeBranding, active_newest (x := .site) hinv trivial hv hnumber]
      simp [hcontent, Payload.content, (Branding.codec C.toChecks).read_dump haccepted]
    | form fields description => exact hfits.elim
    | flow graph => exact hfits.elim

theorem shows_head (hinv : Inv C d) {R : Revision} (h : d.head x = some R) : Shows C d R.snapshot x := by
  obtain ⟨v, hv, hnumber, _, p, haccepted, hfits, hcontent, hsnapshot⟩ := newest_saved hinv h
  rw [hsnapshot]
  exact shows_payload hinv hv hnumber haccepted hfits hcontent

end Live

section Pointers

def Pointed (d : Db) : Prop := ∀ t ∈ d.types, ∀ n, t.activeVersion = some n ↔ n ∈ d.activeNumbers (.form t.id)

def Direct (d : Db) : Prop := ∀ r ∈ d.revisions, ∀ R ∈ r.reverts, r.prev = some R

/-- A switch commits while the flags and the pointer that it read are true: off, it leaves no
active version, unless it found no pointer and deactivates none; on, it finds the pointer
and the flag that it does not write. -/
def Switch.Current (w : Switch) (d : Db) : Prop :=
  match w.latest with
  | none => ∀ n ∈ d.activeNumbers (.form w.type), (n ∈ w.deactivated ↔ w.loaded ≠ none)
  | some (m, written) =>
    (w.loaded = some m → ∀ t ∈ d.types, t.id = w.type → t.activeVersion = some m) ∧
      (written = false → m ∈ d.activeNumbers (.form w.type))

def Steady (d : Db) : Change → Prop
  | .switch w => w.Current d
  | .save s => ∀ R ∈ s.reverts, (d.head s.entity).map Revision.version = some R
  | _ => True

def InStep (_ : Request) (d e : Db) : Prop := ∀ c ∈ e.last, Steady d c

theorem mem_setPointer {u : Uuid} {n : Option ℕ} {types : List FormType} {t : FormType} :
    t ∈ setPointer u n types ↔ ∃ t' ∈ types, t = if t'.id = u then { t' with activeVersion := n } else t' := by
  simp only [setPointer, Table.modify, mem_map, eq_comm]

theorem save_pointed {s : Save} (h : Pointed d) (hlegal : SaveLegal C s d) : Pointed (d.apply C (.save s)) := by
  -- an application type of another entity keeps its row and its flags
  have hkept : ∀ t ∈ d.types, s.entity ≠ .form t.id ∨ s.activate = false →
      ∀ n, t.activeVersion = some n ↔ n ∈ (d.apply C (.save s)).activeNumbers (.form t.id) := by
    intro t ht hidle n
    rw [activeNumbers_save, h t ht n]
    rcases hidle with hne | hidle
    · simp [hne, Ne.symm hne]
    · simp [hidle, hlegal.idle hidle]
  intro t ht n
  have ht : t ∈ s.types d.types := ht
  rw [Save.types] at ht
  split at ht
  next u hentity =>
    split at ht
    next hactive =>
      obtain ⟨t', ht', rfl⟩ := mem_setPointer.mp ht
      by_cases hid : t'.id = u
      · rw [if_pos hid, activeNumbers_save]
        have hnone : ¬ (n ∈ d.activeNumbers (.form t'.id) ∧ ¬ (Entity.form t'.id = s.entity ∧ n ∈ s.deactivated)) := by
          rintro ⟨hn, hnot⟩
          rw [hid, ← hentity] at hn hnot
          exact hnot ⟨rfl, hlegal.alone hactive n hn⟩
        rw [or_iff_right hnone, hentity, ← hid]
        simp [hactive]
      · rw [if_neg hid]
        exact hkept t' ht' (.inl fun hs => hid (by simpa using hs.symm.trans hentity)) n
    next hidle => exact hkept t ht (.inr (by simpa using hidle)) n
  next hform => exact hkept t ht (.inl (hform t.id)) n

theorem mem_switchTypes {w : Switch} {types : List FormType} {t : FormType} (ht : t ∈ w.types types) :
    ∃ t' ∈ types, t'.id = t.id ∧ t.activeVersion =
      if t.id = w.type ∧ w.loaded ≠ w.latest.map Prod.fst then w.latest.map Prod.fst else t'.activeVersion := by
  rw [Switch.types] at ht
  split at ht
  next hwritten =>
    obtain ⟨t', ht', rfl⟩ := mem_setPointer.mp ht
    refine ⟨t', ht', ?_⟩
    by_cases hid : t'.id = w.type <;> simp [hid, hwritten]
  next hkept => exact ⟨t, ht, rfl, by rw [if_neg fun h => hkept h.2]⟩

/-- A switch on leaves the latest version as the active one. -/
theorem switched_on {w : Switch} {m n : ℕ} {written : Bool} (hinv : Inv C d) (hlegal : SwitchLegal w d)
    (hlatest : w.latest = some (m, written)) (hflag : written = false → m ∈ d.activeNumbers (.form w.type)) :
    n ∈ (d.apply C (.switch w)).activeNumbers (.form w.type) ↔ n = m := by
  rw [activeNumbers_switch, hlatest]
  cases written with
  | true =>
    split
    next hn =>
      obtain rfl : m = n := by simpa using hn
      exact iff_of_true ((hinv.numbered _).mem_iff.mpr (hlegal.known _ _ hlatest)) rfl
    next hn =>
      have hne : n ≠ m := fun h => hn (by simp [h])
      refine iff_of_false ?_ hne
      rintro ⟨hmem, hkept⟩
      rcases hlegal.alone m hlatest n hmem with hoff | heq
      · exact hkept ⟨rfl, hoff⟩
      · exact hne heq
  | false =>
    simp only [Option.some.injEq, Prod.mk.injEq, Bool.false_eq_true, and_false, if_false, true_and]
    constructor
    · rintro ⟨hmem, _⟩
      exact hinv.oneActive _ n m hmem (hflag rfl)
    · rintro rfl
      exact ⟨hflag rfl, hlegal.kept n hlatest⟩

theorem switch_pointed {w : Switch} (hinv : Inv C d) (h : Pointed d) (hlegal : SwitchLegal w d) (hcurrent : w.Current d) :
    Pointed (d.apply C (.switch w)) := by
  intro t ht n
  obtain ⟨t', ht', hid', hrow⟩ := mem_switchTypes ht
  have hold := h t' ht' n
  rw [hrow]
  rw [hid'] at hold
  by_cases hid : t.id = w.type
  · rw [hid] at hold ⊢
    rw [Switch.Current] at hcurrent
    cases hlatest : w.latest with
    | none =>
      rw [hlatest] at hcurrent
      have hcurrent := hcurrent n
      rw [activeNumbers_switch, hlatest]
      by_cases hloaded : w.loaded = none
      · simp only [hloaded, ne_eq, not_true, iff_false] at hcurrent
        simpa [hloaded, hold] using hcurrent
      · simp only [hloaded, ne_eq, not_false_iff, iff_true] at hcurrent
        simpa [hloaded] using hcurrent
    | some latest =>
      obtain ⟨m, written⟩ := latest
      rw [hlatest] at hcurrent
      obtain ⟨hpointer, hflag⟩ := hcurrent
      rw [switched_on hinv hlegal hlatest hflag]
      by_cases hloaded : w.loaded = some m
      · simp [hloaded, hpointer hloaded t' ht' (hid'.trans hid), eq_comm]
      · simp [hloaded, eq_comm]
  · rw [if_neg fun h => hid h.1, activeNumbers_switch]
    simp [hid, hold]

theorem apply_pointed {c : Change} (hinv : Inv C d) (h : Pointed d) (hlegal : Legal C d c) (hsteady : Steady d c) :
    Pointed (d.apply C c) := by
  cases c with
  | save s => exact save_pointed h hlegal
  | switch w => exact switch_pointed hinv h hlegal hsteady
  | move m => exact h
  | create k => exact h

theorem apply_direct {c : Change} (hinv : Inv C d) (h : Direct d) (hlegal : Legal C d c) (hsteady : Steady d c) :
    Direct (d.apply C c) := by
  cases c with
  | save s =>
    intro r hr R hR
    rcases mem_append.mp hr with hold | hnew
    · exact h r hold R hR
    · obtain rfl := mem_singleton.mp hnew
      have hhead := hsteady R hR
      rw [head_version hinv, show (d.contents s.entity).length + 1 = s.number from SaveLegal.fresh hlegal] at hhead
      exact hhead
  | switch w => exact h
  | move m => exact h
  | create k => exact h

end Pointers

section History

variable (C) in
structure History (d : Db) : Prop where
  numbered : ∀ x, (d.revisionsOf x).map Revision.version = List.range' 1 (d.revisionsOf x).length
  linked : ∀ r ∈ d.revisions, r.prev = prevNumber r.version
  oneActive : ∀ t, (d.activeVersions (.form t)).length ≤ 1
  pointer : ∀ t ∈ d.types, t.activeVersion = (d.activeVersions (.form t.id)).head?.map Version.number
  live : ∀ x, x.Global → ∀ R, d.head x = some R → Shows C d R.snapshot x
  direct : Direct d

theorem activeVersions_length (hinv : Inv C d) : (d.activeVersions x).length ≤ 1 := by
  have hnodup : (d.activeVersions x).Nodup := by
    have h := (hinv.numbered x).nodup
    rw [Db.contents, map_map] at h
    exact h.of_map.filter _
  rcases hactive : d.activeVersions x with _ | ⟨v, _ | ⟨w, rest⟩⟩
  case nil => simp
  case cons.nil => simp
  case cons.cons =>
      rw [hactive] at hnodup
      have hv : v ∈ d.activeVersions x := by simp [hactive]
      have hw : w ∈ d.activeVersions x := by simp [hactive]
      have hnumber := hinv.oneActive x _ _ (mem_map_of_mem hv) (mem_map_of_mem hw)
      have heq := version_unique hinv (mem_filter.mp hv).1 (mem_filter.mp hw).1 hnumber
      simp [heq] at hnodup

theorem history_of (hinv : Inv C d) (hpointed : Pointed d) (hdirect : Direct d) : History C d where
  numbered x := revisions_numbered hinv
  linked := hinv.chain
  oneActive t := activeVersions_length hinv
  pointer t ht := by
    have hpointer := hpointed t ht
    cases hactive : (d.activeVersions (.form t.id)).head? with
    | none =>
      have hnone : d.activeNumbers (.form t.id) = [] := by rw [Db.activeNumbers, head?_eq_none_iff.mp hactive]; rfl
      rw [Option.map_none, Option.eq_none_iff_forall_ne_some]
      intro n hn
      rw [hpointer n, hnone] at hn
      cases hn
    | some v => exact (hpointer v.number).mpr (mem_map_of_mem (mem_of_head? hactive))
  live x _ R hR := shows_head hinv hR
  direct := hdirect

/-- In a run whose switches and reverts are in step, the history of every config entity is
right in the state that it reaches. -/
theorem config_history {types : List Uuid} {es : List (Event Request)} {s : Sys Request Db Key Problem}
    (hrun : run (script C) ⟨emptyDb types, []⟩ es = some s) (hstep : Guarded InStep (script C) ⟨emptyDb types, []⟩ es) :
    History C s.db := by
  have hinv : Inv C (emptyDb types) := emptyDb_inv types
  have hstart : Pointed (emptyDb types) ∧ Direct (emptyDb types) := by
    refine ⟨fun t ht n => ?_, fun r hr => by cases hr⟩
    obtain ⟨id, _, rfl⟩ := mem_map.mp ht
    exact iff_of_false (by simp) (by intro h; cases h)
  have hends : Pointed s.db ∧ Direct s.db := by
    refine guarded_run (C := contract C) (J := fun d => Pointed d ∧ Direct d) script_keeps ?_ (sound_start hinv) hstart hstep hrun
    rintro r held d e hinv _ ⟨hpointed, hdirect⟩ ⟨c, rfl, hlegal, _⟩ hG
    have hsteady : Steady d c := by
      refine hG c ?_
      cases c <;> rfl
    exact ⟨apply_pointed hinv hpointed hlegal hsteady, apply_direct hinv hdirect hlegal hsteady⟩
  exact history_of (run_sound script_keeps hinv ⟨es, hrun⟩).inv hends.1 hends.2

def plainRules : Rules where
  lax :=
    { bool := fun j => match j with
        | .bool b => some b
        | _ => none
      int := fun j => match j with
        | .int z => some z
        | _ => none
      float := fun j => match j with
        | .float s => some s
        | _ => none }
  positive s := !s.contains 45
  redosProne _ := false
  jsonlogic _ := true
  compiles _ := true
  dataUrl _ _ := false
  scanClean _ := true
  flowRules _ := true

def textForm (key : Text) : Request :=
  .saveForm 7 (.arr [.obj [(text "key", .str key), (text "type", .str (text "text")),
    (text "label", .obj [(text "de", .str (text "Titel"))])]]) true .null

/-- The request starts as transaction `i` and takes its first `n` steps. -/
def alone (r : Request) (i n : ℕ) : List (Event Request) := .start r :: List.replicate n (.step i)

def goesOn (i n : ℕ) : List (Event Request) := List.replicate n (.step i)

def twoForms : List (Event Request) := alone (textForm (text "a")) 0 14 ++ alone (textForm (text "b")) 1 15

def revertSecond : Request := .revert (.form 7) 2 true true

def steadyHistory : List (Event Request) :=
  twoForms ++ alone (.setFormActive 7 false) 2 8 ++ alone (.setFormActive 7 true) 3 12 ++ alone revertSecond 4 18

/-- A switch off waits for a save and then clears the pointer that the save has written. -/
def crossedSwitch : List (Event Request) :=
  alone (textForm (text "a")) 0 14 ++ alone (textForm (text "b")) 1 14 ++ alone (.setFormActive 7 false) 2 2 ++ goesOn 1 1 ++
    goesOn 2 6

def lateRevert : List (Event Request) :=
  twoForms ++ alone revertSecond 2 3 ++ alone (textForm (text "c")) 3 15 ++ goesOn 2 15

def Db.pointers (d : Db) : List (Uuid × Option ℕ × List ℕ) :=
  d.types.map fun t => (t.id, t.activeVersion, d.activeNumbers (.form t.id))

def Db.links (d : Db) : List (ℕ × Option ℕ × Option ℕ) := d.revisions.map fun r => (r.version, r.prev, r.reverts)

instance (w : Switch) (d : Db) : Decidable (w.Current d) := by
  unfold Switch.Current
  split <;> infer_instance

instance (d : Db) (c : Change) : Decidable (Steady d c) := by
  unfold Steady
  split <;> infer_instance

instance (r : Request) (d e : Db) : Decidable (InStep r d e) := inferInstanceAs (Decidable (∀ c ∈ e.last, Steady d c))

theorem steadyHistory_right :
    ∃ s, run (script plainRules) ⟨emptyDb [7], []⟩ steadyHistory = some s ∧ History plainRules s.db ∧
      s.db.links = [(1, none, none), (2, some 1, none), (3, some 2, some 2)] := by
  have hstep : Guarded InStep (script plainRules) ⟨emptyDb [7], []⟩ steadyHistory := by decide +kernel
  have hrun : (run (script plainRules) ⟨emptyDb [7], []⟩ steadyHistory).map (fun s => s.db.links) =
      some [(1, none, none), (2, some 1, none), (3, some 2, some 2)] := by decide +kernel
  obtain ⟨s, hs, hlinks⟩ := Option.map_eq_some_iff.mp hrun
  exact ⟨s, hs, config_history hs hstep, hlinks⟩

/-- The pointer is null although a version is active. -/
theorem not_history_of_pointers (h : d.pointers = [(7, none, [2])]) : ¬ History C d := by
  intro hhistory
  obtain ⟨t, htypes, ht⟩ := map_eq_singleton_iff.mp h
  simp only [Prod.mk.injEq] at ht
  obtain ⟨hid, hnull, hactive⟩ := ht
  have hpointer := hhistory.pointer t (by simp [htypes])
  obtain ⟨v, hv, _⟩ := map_eq_singleton_iff.mp hactive
  rw [hnull, hv] at hpointer
  cases hpointer

theorem not_history_of_links (h : d.links = [(1, none, none), (2, some 1, none), (3, some 2, none), (4, some 3, some 2)]) :
    ¬ History C d := by
  intro hhistory
  have hmem : (4, some 3, some 2) ∈ d.links := by rw [h]; simp
  obtain ⟨r, hr, hlink⟩ := mem_map.mp hmem
  simp only [Prod.mk.injEq] at hlink
  have hdirect := hhistory.direct r hr 2 hlink.2.2
  rw [hlink.2.1] at hdirect
  cases hdirect

theorem crossed_not_history :
    (∃ s, run (script plainRules) ⟨emptyDb [7], []⟩ crossedSwitch = some s ∧ ¬ History plainRules s.db) ∧
    ∃ s, run (script plainRules) ⟨emptyDb [7], []⟩ lateRevert = some s ∧ ¬ History plainRules s.db := by
  have hcrossed : (run (script plainRules) ⟨emptyDb [7], []⟩ crossedSwitch).map (fun s => s.db.pointers) =
      some [(7, none, [2])] := by decide +kernel
  have hlate : (run (script plainRules) ⟨emptyDb [7], []⟩ lateRevert).map (fun s => s.db.links) =
      some [(1, none, none), (2, some 1, none), (3, some 2, none), (4, some 3, some 2)] := by decide +kernel
  constructor
  · obtain ⟨s, hs, hend⟩ := Option.map_eq_some_iff.mp hcrossed
    exact ⟨s, hs, not_history_of_pointers hend⟩
  · obtain ⟨s, hs, hend⟩ := Option.map_eq_some_iff.mp hlate
    exact ⟨s, hs, not_history_of_links hend⟩

end History

end Config
