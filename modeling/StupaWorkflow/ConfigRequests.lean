import StupaWorkflow.ConfigRuns

/-!
The other requests keep the contract of the config runs: a restore and a revert save a recorded
snapshot again, a switch flips the flags of a form, and a status change and a create write one
application.
-/
namespace Config
open Py Schema StorageKeys ReadCommitted List

variable {C : Rules} {r : Request} {l : Loc Db Key} {d : Db} {x : Entity}

section Restores

theorem revision_spec {n : ℕ} {R : Revision} (h : d.revision x n = some R) : R ∈ d.revisionsOf x ∧ R.version = n :=
  Table.of_find h

theorem restoreRevision_keeps (n : ℕ) (allowed budgetRefs : Bool) :
    Keeps (contract C) (.restore x n allowed budgetRefs) (restoreRevision C x n allowed budgetRefs) := by
  intro d _
  rw [restoreRevision, wp_do, wp_query]
  intro e _ _
  rw [wp_do, wp_ofOption]
  intro R _
  rw [wp_do, wp_require]
  intro _
  exact reapplySnapshot_wp fun _ _ _ _ _ _ => trivial

theorem revertConfig_keeps (n : ℕ) (allowed budgetRefs : Bool) :
    Keeps (contract C) (.revert x n allowed budgetRefs) (revertConfig C x n allowed budgetRefs) := by
  intro d _
  rw [revertConfig, wp_do, wp_query]
  intro e₁ _ _
  rw [wp_do, wp_ofOption]
  intro R hR
  rw [wp_do, wp_require]
  intro _
  rw [wp_do, wp_ofOption]
  intro prev hprev
  rw [wp_do, wp_query]
  intro e₂ hrely₂ _
  rw [wp_do, wp_ofOption]
  intro P hP
  rw [wp_do, wp_query]
  intro e₃ hrely₃ _
  rw [wp_do, wp_require]
  intro _
  obtain ⟨hRmem, hRversion⟩ := revision_spec hR
  obtain ⟨hPmem, hPversion⟩ := revision_spec hP
  refine reapplySnapshot_wp fun e s hrely hx hp hreverts => ?_
  -- no commit takes a revision away
  have hhistory := (hrely₃.history x).trans (hrely.history x)
  exact ⟨s, rfl, hx, hRversion ▸ hreverts, R, ((hrely₂.history x).trans hhistory).subset hRmem, hRversion, P,
    hhistory.subset hPmem, hPversion.symm ▸ hprev, hp⟩

end Restores

section Switches

variable {Q : Unit → Loc Db Key → Db → Prop}

theorem wp_point {type : Uuid} {loaded n : Option ℕ} (hinv : Inv C d)
    (h : ∀ e held, l.held ⊆ held → Frame (· ∈ l.held) d e → Inv C e →
      Q () ⟨(fun e => if loaded ≠ n then Db.setPointer type n e else e) ∘ l.pend, held⟩ e) :
    wp (contract C) r (point type loaded n) Q l d := by
  rw [point]
  split
  next hne =>
    rw [wp_do, wp_lockRow]
    intro e hrely hinv'
    have hwritten := h e _ (subset_cons_self (.formType type) _) hrely hinv'
    simp only [if_pos hne] at hwritten
    exact hwritten
  next heq =>
    have hkept := h d _ (List.Subset.refl _) ((contract C).refl _ _) hinv
    simp only [if_neg heq] at hkept
    exact hkept

theorem wp_reactivate {n : ℕ} {D : List ℕ} (hpend : l.pend = (·.setActive x D false))
    (h : ∀ e held, l.held ⊆ held → .active x ∈ held → (∀ m ∈ e.activeNumbers x, m ∈ D ∨ m = n) → Frame (· ∈ l.held) d e →
      Inv C e → Q () ⟨Db.setActive x [n] true ∘ l.pend, held⟩ e) :
    wp (contract C) r (reactivate x n) Q l d := by
  rw [reactivate, wp_do, wp_lockRow]
  intro e₁ hrely₁ _
  show wp (contract C) r _ Q ⟨l.pend, .version x n :: l.held⟩ e₁
  rw [wp_do, wp_lockRow]
  intro e₂ hrely₂ _
  show wp (contract C) r _ Q ⟨l.pend, .active x :: .version x n :: l.held⟩ e₂
  rw [wp_do, wp_lockRow]
  intro e₃ hrely₃ hinv₃
  have htrans : Frame (· ∈ l.held) d e₃ := (contract C).trans hrely₁ <|
    (contract C).trans (Frame.mono hrely₂ fun _ hk => mem_cons_of_mem _ hk)
      (Frame.mono hrely₃ fun _ hk => mem_cons_of_mem _ (mem_cons_of_mem _ hk))
  have hgo : ∀ held, .active x :: .version x n :: l.held ⊆ held →
      (((l.pend e₃).activeNumbers x).filter (· ≠ n)).isEmpty = true →
      Q () ⟨Db.setActive x [n] true ∘ l.pend, held⟩ e₃ := by
    intro held hsub hempty
    refine h e₃ held (fun k hk => hsub (mem_cons_of_mem _ (mem_cons_of_mem _ hk))) (hsub mem_cons_self) ?_
      htrans hinv₃
    intro m hm
    by_contra hother
    rw [not_or] at hother
    have hview : m ∈ (l.pend e₃).activeNumbers x := by
      rw [hpend, activeNumbers_setActive, if_neg fun h => hother.1 h.2]
      exact hm
    exact filter_eq_nil_iff.mp (isEmpty_iff.mp hempty) m hview (decide_eq_true hother.2)
  split
  · rw [wp_do, wp_require]
    exact hgo _ (List.Subset.refl _)
  · rw [wp_do, wp_require]
    exact hgo _ (subset_cons_self _ _)

theorem wp_finishSwitch {w : Switch} (hpend : l.pend = Db.apply C (.switch w)) (htyped : w.type ∈ d.types.map FormType.id)
    (hactive : ∀ m, w.latest = some (m, true) → .active (.form w.type) ∈ l.held)
    (halone : ∀ m, w.latest = some (m, true) → ∀ n ∈ d.activeNumbers (.form w.type), n ∈ w.deactivated ∨ n = m)
    (hkept : ∀ m, w.latest = some (m, false) → m ∉ w.deactivated)
    (hknown : ∀ m b, w.latest = some (m, b) → 1 ≤ m ∧ m ≤ (d.contents (.form w.type)).length)
    (hr : ∀ e, Caused C e r (.switch w)) :
    wp (contract C) r (Prog.publish : P Unit) (fun _ _ _ => True) l d := by
  refine wp_commit hpend ?_ fun e hrely _ => ⟨⟨hrely.types ▸ htyped, ?_, hkept, ?_⟩, hr e⟩
  · intro k hk
    cases k with
    | active e =>
      obtain ⟨rfl, m, hm⟩ := hk
      exact hactive m hm
    | number e n => exact hk.elim
    | history e => exact hk.elim
    | application id => exact hk.elim
    | version e n => exact hk.elim
    | formType t => exact hk.elim
  · intro m hm n hn
    exact halone m hm n (hrely.activated _ (hactive m hm) n hn)
  · intro m b hm
    obtain ⟨hpos, hle⟩ := hknown m b hm
    exact ⟨hpos, hle.trans (hrely.grows _).length_le⟩

theorem latest_deactivated {ns : List ℕ} {v : Version} (h : (d.setActive x ns false).latest x = some v) (hinv : Inv C d) :
    1 ≤ v.number ∧ v.number ≤ (d.contents x).length ∧ (v.active = true → v.number ∉ ns) := by
  have hmem : v ∈ (d.setActive x ns false).versionsOf x := argmax_mem h
  have hkept : v.active = true → v.number ∉ ns := by
    intro hactive hns
    have hnumber : v.number ∈ (d.setActive x ns false).activeNumbers x :=
      mem_activeNumbers.mpr ⟨v, (mem_filter.mp hmem).1, by simpa using (mem_filter.mp hmem).2, hactive, rfl⟩
    rw [activeNumbers_setActive, if_pos ⟨rfl, hns⟩] at hnumber
    cases hnumber.1
  refine and_assoc.mp ⟨(hinv.numbered x).mem_iff.mp ?_, hkept⟩
  rw [← contents_setActive x x ns false, Db.contents, map_map]
  exact mem_map_of_mem (f := Prod.fst ∘ fun v : Version => (v.number, v.content)) hmem

theorem wp_pointSwitch {w : Switch} (hinv : Inv C d)
    (hpend : l.pend = fun e => w.activated (e.setActive (.form w.type) w.deactivated false))
    (htyped : w.type ∈ d.types.map FormType.id)
    (hactive : ∀ m, w.latest = some (m, true) → .active (.form w.type) ∈ l.held)
    (halone : ∀ m, w.latest = some (m, true) → ∀ n ∈ d.activeNumbers (.form w.type), n ∈ w.deactivated ∨ n = m)
    (hkept : ∀ m, w.latest = some (m, false) → m ∉ w.deactivated)
    (hknown : ∀ m b, w.latest = some (m, b) → 1 ≤ m ∧ m ≤ (d.contents (.form w.type)).length)
    (hr : ∀ e, Caused C e r (.switch w)) :
    wp (contract C) r (do
      point w.type w.loaded (w.latest.map Prod.fst)
      Prog.update (·.setLast (.switch w))
      Prog.publish : P Unit) (fun _ _ _ => True) l d := by
  rw [wp_do]
  refine wp_point hinv fun e held hsub hrely hinv' => ?_
  rw [wp_do, wp_update]
  refine wp_finishSwitch (w := w) ?_ (hrely.types ▸ htyped) (fun m hm => hsub (hactive m hm)) ?_ hkept ?_ hr
  · funext f
    have hrows : w.activated (f.setActive (.form w.type) w.deactivated false) =
        { f with versions := (w.activated (f.setActive (.form w.type) w.deactivated false)).versions } := by
      rw [Switch.activated]
      split <;> rfl
    show Db.setLast (.switch w) (ite _ _ _) = _
    rw [hpend]
    beta_reduce
    by_cases hne : w.loaded ≠ w.latest.map Prod.fst
    · rw [if_pos hne, hrows]
      simp only [Db.apply, Switch.types, if_pos hne]
      rfl
    · rw [if_neg hne, hrows]
      simp only [Db.apply, Switch.types, if_neg hne]
      rfl
  · exact fun m hm n hn => halone m hm n (hrely.activated _ (hactive m hm) n hn)
  · intro m b hm
    obtain ⟨hpos, hle⟩ := hknown m b hm
    exact ⟨hpos, hle.trans (hrely.grows _).length_le⟩

theorem setFormActive_keeps (type : Uuid) (active : Bool) :
    Keeps (contract C) (.setFormActive type active) (setFormActive type active) := by
  intro d _
  rw [setFormActive, wp_do, wp_query]
  intro e₀ _ _
  rw [wp_do, wp_ofOption]
  intro row hrow
  obtain ⟨hmem, hid⟩ : row ∈ e₀.types ∧ row.id = _ := Table.of_find hrow
  have htyped : type ∈ e₀.types.map FormType.id := hid ▸ mem_map_of_mem hmem
  rw [wp_do]
  refine wp_deactivate rfl fun e₁ D held₁ hrely₁ hinv₁ _ => ?_
  have htyped₁ : type ∈ e₁.types.map FormType.id := hrely₁.types ▸ htyped
  cases active with
  | true =>
    simp only [if_true]
    rw [wp_do, wp_query]
    intro e₂ hrely₂ hinv₂
    rw [wp_do, wp_ofOption]
    intro latest hlatest
    obtain ⟨hpos, hle, hkept⟩ := latest_deactivated hlatest hinv₂
    have htyped₂ : type ∈ e₂.types.map FormType.id := hrely₂.types ▸ htyped₁
    cases hwritten : latest.active with
    | true =>
      simp only [Bool.not_true, Bool.false_eq_true, if_false]
      refine wp_pointSwitch (w := ⟨type, row.activeVersion, D, some (latest.number, false)⟩) hinv₂ rfl htyped₂
        (fun m hm => by simp at hm) (fun m hm => by simp at hm) ?_ ?_ fun _ => trivial
      · rintro m ⟨rfl⟩
        exact hkept hwritten
      · rintro m b ⟨rfl⟩
        exact ⟨hpos, hle⟩
    | false =>
      simp only [Bool.not_false, if_true]
      rw [wp_do]
      refine wp_reactivate rfl fun e₃ held₃ _ hheld halone hrely₃ hinv₃ => ?_
      refine wp_pointSwitch (w := ⟨type, row.activeVersion, D, some (latest.number, true)⟩) hinv₃ rfl
        (hrely₃.types ▸ htyped₂) (fun _ _ => hheld) ?_ (fun m hm => by simp at hm) ?_ fun _ => trivial
      · rintro m ⟨rfl⟩
        exact halone
      · rintro m b ⟨rfl⟩
        exact ⟨hpos, hle.trans (hrely₃.grows _).length_le⟩
  | false =>
    simp only [Bool.false_eq_true, if_false]
    exact wp_pointSwitch (w := ⟨type, row.activeVersion, D, none⟩) hinv₁ rfl htyped₁ (fun m hm => by simp at hm)
      (fun m hm => by simp at hm) (fun m hm => by simp at hm) (fun m b hm => by simp at hm) fun _ => trivial

end Switches

section StatusChanges

theorem validateFlowGraph_target {g : FlowGraph} (h : validateFlowGraph C g = .ok ()) {t : TransitionDef}
    (ht : t ∈ g.transitions) : t.target ∈ g.states.map StateDef.key := by
  obtain ⟨_, _, h⟩ := bind_ok.mp h
  obtain ⟨_, _, h⟩ := bind_ok.mp h
  obtain ⟨_, _, h⟩ := bind_ok.mp h
  obtain ⟨_, _, h⟩ := bind_ok.mp h
  obtain ⟨_, hchecks, _⟩ := bind_ok.mp h
  obtain ⟨_, _, hcheck⟩ := bind_ok.mp (forM_ok hchecks t ht)
  obtain ⟨_, htarget, _⟩ := bind_ok.mp hcheck
  simpa using htarget

theorem flowVersion_spec {n : ℕ} {v : Version} (h : d.flowVersion n = some v) : (n, v.content) ∈ d.contents .flow := by
  obtain ⟨hmem, hnumber⟩ : v ∈ _ ∧ v.number = n := Table.of_find h
  exact mem_map.mpr ⟨v, hmem, by rw [hnumber]⟩

theorem hasState_spec {s : StateRef} (h : d.hasState s = true) : d.HasState s := by
  rw [Db.hasState, Option.any_eq_true] at h
  obtain ⟨v, hv, hkey⟩ := h
  exact ⟨_, flowVersion_spec hv, rfl, by simpa using hkey⟩

theorem flow_saved (hinv : Inv C d) {c : ℕ × Content} (hc : c ∈ d.contents .flow) :
    ∃ g : FlowGraph, (FlowGraph.codec C.toChecks).Valid g ∧ validateFlowGraph C g = .ok () ∧ c.2 = .flow g.rows := by
  obtain ⟨r, _, _, p, haccepted, hfits, hcontent, _⟩ := Table.partner (hinv.lockstep .flow) hc
  cases p with
  | flow g => exact ⟨g, haccepted.1, haccepted.2, hcontent⟩
  | form fields description => exact hfits.elim
  | site branding => exact hfits.elim

theorem transition_target (hinv : Inv C d) {n position : ℕ} {t : TransitionRow} (h : d.transition n position = some t) :
    d.HasState ⟨n, t.toState⟩ := by
  obtain ⟨v, hv, h⟩ := Option.bind_eq_some_iff.mp h
  obtain ⟨rows, hrows, hrow⟩ := Option.bind_eq_some_iff.mp h
  have hc := flowVersion_spec hv
  obtain ⟨g, _, hgraph, hcontent⟩ := flow_saved hinv hc
  have hcontent : v.content = .flow g.rows := hcontent
  have hrows : rows = g.rows := by simpa [hcontent, Content.flowRows] using hrows.symm
  refine ⟨_, hc, rfl, ?_⟩
  show t.toState ∈ v.content.stateKeys
  rw [hcontent, stateKeys_rows]
  rw [hrows, FlowGraph.rows, List.getElem?_mapIdx] at hrow
  obtain ⟨u, hu, rfl⟩ := Option.map_eq_some_iff.mp hrow
  exact validateFlowGraph_target hgraph (mem_of_getElem? hu)

theorem initial_hasState {v : Version} {k : Text} (hv : v ∈ d.versionsOf .flow) (h : v.content.initial = some k) :
    d.HasState ⟨v.number, k⟩ := by
  refine ⟨(v.number, v.content), mem_map_of_mem hv, rfl, ?_⟩
  obtain ⟨rows, hrows, h⟩ := Option.bind_eq_some_iff.mp h
  obtain ⟨s, hs, rfl⟩ := Option.map_eq_some_iff.mp h
  have hkeys : v.content.stateKeys = rows.states.map StateRow.key := by rw [Content.stateKeys, hrows]; rfl
  show s.key ∈ v.content.stateKeys
  rw [hkeys]
  exact mem_map_of_mem (mem_of_find?_eq_some hs)

theorem inState_spec {id : Uuid} {s : StateRef} (h : d.inState id s = true) :
    ∃ a, d.application id = some a ∧ a.state = some s := by
  rw [Db.inState, Option.any_eq_true] at h
  obtain ⟨a, ha, hstate⟩ := h
  exact ⟨a, ha, of_decide_eq_true hstate⟩

theorem wp_loadApp {id : Uuid} {visible : Bool} {Q : Application → Loc Db Key → Db → Prop}
    (h : ∀ e a, Frame (· ∈ []) d e → Inv C e → e.application id = some a → Q a .fresh e) :
    wp (contract C) r (loadApp id visible) Q .fresh d := by
  rw [loadApp, wp_do, wp_query]
  intro e hrely hinv
  rw [wp_ofOption]
  intro a ha
  exact h e a hrely hinv (Option.filter_eq_some_iff.mp ha).1

theorem wp_refuse {p : Option Problem} {Q : Unit → Loc Db Key → Db → Prop} (h : Q () l d) :
    wp (contract C) r (refuse p) Q l d := by
  cases p with
  | none => exact h
  | some problem => exact trivial

theorem wp_moveState {m : Move} {budgetUnchanged : Bool} {lost : Problem} (hversion : m.source.version = m.target.version)
    (htarget : d.HasState m.target) (hr : ∀ e, Caused C e r (.move m)) :
    wp (contract C) r (moveState m budgetUnchanged lost) (fun _ _ _ => True) .fresh d := by
  rw [moveState, wp_do, wp_query]
  intro e₁ hrely₁ _
  rw [wp_do, wp_require]
  intro _
  rw [wp_do, wp_lockRow]
  intro e₂ hrely₂ _
  show wp (contract C) r _ _ ⟨id, [.application m.application]⟩ e₂
  rw [wp_do, wp_require]
  intro hstate
  obtain ⟨a, ha, hsource⟩ := inState_spec hstate
  have htarget₂ := (htarget.mono (hrely₁.grows _)).mono (hrely₂.grows _)
  rw [wp_do, wp_update, wp_do, wp_update, wp_do, wp_update]
  refine wp_commit (c := .move m) rfl ?_ fun e hrely _ => ⟨⟨⟨a, ?_, hsource⟩, hversion, ?_⟩, hr e⟩
  · intro k hk
    cases k with
    | application id => exact mem_singleton.mpr (congrArg Key.application hk)
    | number e n => exact hk.elim
    | active e => exact hk.elim
    | version e n => exact hk.elim
    | history e => exact hk.elim
    | formType t => exact hk.elim
  · exact (hrely.application _ mem_cons_self).trans ha
  · exact htarget₂.mono (hrely.grows _)

theorem fire_keeps (f : Fire) : Keeps (contract C) (.fire f) (fire f) := by
  intro d _
  rw [fire, wp_do]
  refine wp_loadApp fun e₁ app _ _ _ => ?_
  rw [wp_do, wp_query]
  intro e₂ _ hinv₂
  rw [wp_do, wp_ofOption]
  intro t ht
  simp only [wp_do, wp_require]
  intro _ _ _ _
  refine wp_refuse (wp_moveState rfl (transition_target hinv₂ ht) fun _ => trivial)

theorem forceStatus_keeps (f : Force) : Keeps (contract C) (.force f) (forceStatus f) := by
  intro d _
  rw [forceStatus, wp_do]
  refine wp_loadApp fun e₁ app _ hinv₁ happ => ?_
  rw [wp_do, wp_ofOption]
  intro source hsource
  rw [wp_do, wp_query]
  intro e₂ _ _
  simp only [wp_do, wp_require]
  intro hstate _
  simp only [Bool.and_eq_true, decide_eq_true_eq] at hstate
  obtain ⟨t, ht, hversion, _⟩ := hinv₁.placed app (application_id happ).1
  rw [hsource, Option.some_inj] at ht
  refine wp_refuse (wp_moveState ?_ (hasState_spec hstate.1) fun _ => trivial)
  exact (ht ▸ hversion.symm).trans hstate.2.symm

theorem revertStatus_keeps (v : RevertStatus) : Keeps (contract C) (.revertStatus v) (revertStatus v) := by
  intro d _
  rw [revertStatus, wp_do, wp_query]
  intro e₁ _ hinv₁
  rw [wp_do, wp_ofOption]
  intro entry hentry
  rw [wp_do, wp_require]
  intro _
  rw [wp_do, wp_ofOption]
  intro source hsource
  obtain ⟨hversion, hhas⟩ := (hinv₁.events entry (mem_of_getElem? hentry)).2 source hsource
  rw [wp_do]
  refine wp_loadApp fun e₂ app hrely₂ _ _ => ?_
  rw [wp_do, wp_require]
  intro _
  rw [wp_do]
  exact wp_refuse (wp_moveState hversion.symm (hhas.mono (hrely₂.grows _)) fun _ => trivial)

theorem createApplication_keeps (k : Create) : Keeps (contract C) (.create k) (createApplication k) := by
  intro d _
  rw [createApplication, wp_do, wp_query]
  intro e₁ _ _
  rw [wp_do, wp_ofOption]
  intro type _
  rw [wp_do, wp_query]
  intro e₂ _ _
  rw [wp_do, wp_ofOption]
  intro version hversion
  rw [wp_do, wp_ofOption]
  intro _ _
  rw [wp_do, wp_ofOption]
  intro initial hinitial
  have hmem : version ∈ e₂.versionsOf .flow := (mem_filter.mp (mem_of_head? hversion)).1
  have htarget : e₂.HasState ⟨version.number, initial⟩ := initial_hasState hmem hinitial
  rw [wp_do]
  refine wp_refuse ?_
  rw [wp_do, wp_lockRow]
  intro e₃ hrely₃ _
  show wp (contract C) _ _ _ ⟨id, [.application k.id]⟩ e₃
  rw [wp_do, wp_require]
  intro hnone
  rw [Option.isNone_iff_eq_none] at hnone
  simp only [wp_do, wp_update]
  refine wp_commit (c := .create ⟨k.id, ⟨version.number, initial⟩⟩) rfl ?_ fun e hrely _ => ⟨⟨?_, ?_⟩, trivial⟩
  · intro key hk
    cases key with
    | application id => exact mem_singleton.mpr (congrArg Key.application hk)
    | number e n => exact hk.elim
    | active e => exact hk.elim
    | version e n => exact hk.elim
    | history e => exact hk.elim
    | formType t => exact hk.elim
  · exact (hrely.application _ mem_cons_self).trans hnone
  · exact (htarget.mono (hrely₃.grows _)).mono (hrely.grows _)

end StatusChanges

theorem script_keeps (r : Request) : Keeps (contract C) r (script C r) := by
  cases r with
  | saveForm type fields activate description =>
    intro d _
    rw [script, wp_do, wp_ofOption]
    rintro ⟨fields, description⟩ hread
    obtain ⟨hvalid, hne⟩ := readForm_valid hread
    exact createFormVersion_wp hvalid hne fun _ _ _ _ _ _ => trivial
  | setFormActive type active => exact setFormActive_keeps type active
  | saveFlow graph budgetRefs =>
    intro d _
    rw [script]
    exact reapplySnapshot_wp fun _ _ _ _ _ _ => trivial
  | saveSite branding =>
    intro d _
    rw [script]
    exact reapplySnapshot_wp fun _ _ _ _ _ _ => trivial
  | putHelpTickets help tickets => exact fun d _ => putHelpTickets_wp fun _ _ _ _ _ _ _ => trivial
  | restore e n allowed budgetRefs => exact restoreRevision_keeps n allowed budgetRefs
  | revert e n allowed budgetRefs => exact revertConfig_keeps n allowed budgetRefs
  | fire f => exact fire_keeps f
  | force f => exact forceStatus_keeps f
  | revertStatus v => exact revertStatus_keeps v
  | create k => exact createApplication_keeps k

def emptyDb (types : List Uuid) : Db := ⟨[], types.map (⟨·, none⟩), [], [], [], none⟩

theorem emptyDb_inv (types : List Uuid) : Inv C (emptyDb types) where
  numbered _ := rfl
  oneActive _ _ _ hn := by cases hn
  newest x _ n := by
    show n ∈ ([] : List ℕ) ↔ n = 0 ∧ n ≠ 0
    simp
  lockstep _ := .nil
  chain _ hr := by cases hr
  ids := nodup_nil
  placed _ ha := by cases ha
  events _ hev := by cases hev

end Config
