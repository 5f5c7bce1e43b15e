import StupaWorkflow.ConfigHistory

/-!
A revert of the newest revision restores the snapshot of its predecessor, and the revert of that
revert restores the snapshot of the reverted revision.
-/
namespace Config
open Py Schema StorageKeys ReadCommitted List

variable {C : Rules} {d : Db} {x : Entity}

section Reverts

variable (C) in
def Restores (d : Db) (snapshot : Json) : Entity → Prop
  | .site => ∃ branding source, (Branding.codec C.toChecks).read snapshot = some branding ∧
      activeBranding C d = some (branding.withHelpTicketsOf source)
  | x => Shows C d snapshot x

theorem restores_of_replays {snapshot : Json} {p : Payload} (hp : Replays C x snapshot p) (haccepted : p.Accepted C)
    (hfits : p.Fits x) (hshows : Shows C d (p.snapshot C) x) : Restores C d snapshot x := by
  cases x with
  | form t =>
    obtain ⟨fields, description, hread, rfl⟩ := hp
    obtain ⟨fields', description', hread', hdraft⟩ := hshows
    rw [Payload.snapshot, readForm_snapshot haccepted hfits] at hread'
    cases hread'
    exact ⟨fields, description, hread, hdraft⟩
  | flow =>
    obtain ⟨graph, hread, rfl⟩ := hp
    obtain ⟨graph', live, hread', hlive⟩ := hshows
    rw [Payload.snapshot, (FlowGraph.codec C.toChecks).read_dump haccepted.1] at hread'
    cases hread'
    exact ⟨graph, live, hread, hlive⟩
  | site =>
    obtain ⟨branding, source, hread, rfl⟩ := hp
    obtain ⟨branding', hread', hactive⟩ := hshows
    rw [Payload.snapshot, (Branding.codec C.toChecks).read_dump haccepted] at hread'
    cases hread'
    exact ⟨branding, source, hread, hactive⟩

theorem head_save {s : Save} (hinv : Inv C d) (hlegal : SaveLegal C s d) :
    (d.apply C (.save s)).head s.entity = some (s.revision C) := by
  have hinv' := save_inv hinv hlegal
  have hlast : (d.apply C (.save s)).revisionsOf s.entity = d.revisionsOf s.entity ++ [s.revision C] := by
    rw [revisionsOf_save, if_pos rfl]
  rw [Db.head, (revisions_numbered (x := s.entity) hinv').argmax, hlast, getLast?_concat]

theorem revert_commit {held : List Key} {e : Db} {n : ℕ} {allowed budgetRefs : Bool} (hinv : Inv C d)
    (hguar : (contract C).guar (.revert x n allowed budgetRefs) held d e) :
    ∃ R ∈ d.revisionsOf x, R.version = n ∧ ∃ P ∈ d.revisionsOf x, R.prev = some P.version ∧ Restores C e P.snapshot x := by
  obtain ⟨c, rfl, hlegal, ⟨s, rfl, rfl, _, R, hR, hn, P, hP, hprev, hreplays⟩, _⟩ := hguar
  have hlegal : SaveLegal C s d := hlegal
  have hshows : Shows C (d.apply C (.save s)) (s.payload.snapshot C) s.entity :=
    shows_head (save_inv hinv hlegal) (head_save hinv hlegal)
  exact ⟨R, hR, hn, P, hP, hprev, restores_of_replays hreplays hlegal.accepted hlegal.fits hshows⟩

end Reverts

section Runs

theorem history_grows {r : Request} {held : List Key} {e : Db} (hguar : (contract C).guar r held d e) (x : Entity) :
    d.revisionsOf x <+: e.revisionsOf x := by
  obtain ⟨c, rfl, _⟩ := hguar
  exact (apply_frame (fun _ h => h.elim) : Frame (fun _ => False) d (d.apply C c)).history x

theorem prevNumber_succ {n m : ℕ} (h : prevNumber (n + 1) = some m) : m = n := by
  rw [prevNumber] at h
  split at h
  · cases h
  · simpa using h.symm

/-- In every run the revert of the newest revision restores its predecessor. While the
revision that it records is the newest one, the revert of this revision restores the
reverted one. -/
theorem revert_restores {types : List Uuid} {es : List (Event Request)} {s : Sys Request Db Key Problem}
    (hrun : run (script C) ⟨emptyDb types, []⟩ es = some s) {R P : Revision} (hR : s.db.head x = some R)
    (hP : P ∈ s.db.revisionsOf x) (hprev : R.prev = some P.version) {ev : Event Request} {allowed budgetRefs : Bool} {e : Db}
    (hcommit : commitOf s ev = some (.revert x R.version allowed budgetRefs, e)) :
    Restores C e P.snapshot x ∧
    ∀ s₁ fs s₂, exec (script C) s ev = some s₁ → run (script C) s₁ fs = some s₂ →
      ∀ N, s₂.db.head x = some N → N.version = R.version + 1 →
        ∀ ev' allowed' budgetRefs' e', commitOf s₂ ev' = some (.revert x N.version allowed' budgetRefs', e') →
          Restores C e' R.snapshot x := by
  have hsound : Sound (contract C) s := run_sound script_keeps (emptyDb_inv types) ⟨es, hrun⟩
  obtain ⟨_, held, hguar⟩ := hsound.of_commitOf hcommit
  obtain ⟨R', hR', hversion, P', hP', hprev', hrestores⟩ := revert_commit hsound.inv hguar
  constructor
  · obtain rfl := revision_unique hsound.inv hR' (argmax_mem hR) hversion
    rw [hprev, Option.some_inj] at hprev'
    exact revision_unique hsound.inv hP hP' hprev' ▸ hrestores
  · intro s₁ fs s₂ hexec hrest N hN hnext ev' allowed' budgetRefs' e' hcommit'
    obtain rfl := exec_commitOf hexec hcommit
    have hsound₁ : Sound (contract C) s₁ := (exec_sound script_keeps hsound hexec).1
    obtain ⟨hsound₂, hgrows⟩ := sound_run_keeps (R := fun d e => ∀ y, d.revisionsOf y <+: e.revisionsOf y) script_keeps
      (fun _ _ => prefix_rfl) (fun h h' y => (h y).trans (h' y)) (fun _ hguar => history_grows hguar) hsound₁ hrest
    have hkept : R ∈ s₂.db.revisionsOf x :=
      (hgrows x).subset ((history_grows hguar x).subset (argmax_mem hR))
    obtain ⟨_, held', hguar'⟩ := hsound₂.of_commitOf hcommit'
    obtain ⟨N', hN', hversion', Q, hQ, hprevN, hrestoresN⟩ := revert_commit hsound₂.inv hguar'
    obtain rfl := revision_unique hsound₂.inv hN' (argmax_mem hN) hversion'
    have hlink := hsound₂.inv.chain N' (mem_filter.mp hN').1
    rw [hprevN, hnext] at hlink
    exact revision_unique hsound₂.inv hQ hkept (prevNumber_succ hlink.symm) ▸ hrestoresN

def revertForm (n : ℕ) : Request := .revert (.form 7) n true true

def Request.revertsForm (n : ℕ) : Request → Bool
  | .revert x m allowed budgetRefs => decide (x = .form 7) && decide (m = n) && allowed && budgetRefs
  | _ => false

theorem revertsForm_spec {n : ℕ} {r : Request} (h : r.revertsForm n = true) : r = revertForm n := by
  cases r with
  | revert x m allowed budgetRefs =>
    simp only [Request.revertsForm, Bool.and_eq_true, decide_eq_true_eq] at h
    obtain ⟨⟨⟨rfl, rfl⟩, rfl⟩, rfl⟩ := h
    rfl
  | _ => cases h

/-- The transaction is about to commit the revert of revision `n`, which is the newest one. -/
def atRevert (n i : ℕ) (s : Sys Request Db Key Problem) : Bool :=
  (commitOf s (.step i)).any (·.1.revertsForm n) &&
    (s.db.head (.form 7)).any fun R => decide (R.version = n) && decide (R.prev = some (n - 1))

theorem atRevert_spec {n i : ℕ} {s : Sys Request Db Key Problem} (h : atRevert n i s = true) :
    (∃ e, commitOf s (.step i) = some (revertForm n, e)) ∧
      ∃ R, s.db.head (.form 7) = some R ∧ R.version = n ∧ R.prev = some (n - 1) := by
  simp only [atRevert, Bool.and_eq_true, Option.any_eq_true, decide_eq_true_eq] at h
  obtain ⟨⟨⟨r, e⟩, hcommit, hr⟩, R, hR, hversion, hprev⟩ := h
  exact ⟨⟨e, revertsForm_spec hr ▸ hcommit⟩, R, hR, hversion, hprev⟩

def firstRevert : List (Event Request) := twoForms ++ alone (revertForm 2) 2 17

def secondRevert : List (Event Request) := alone (revertForm 3) 3 17

theorem revert_restores_twoForms :
    ∃ s R, ∃ P : Revision, ∃ e s₁ s₂ e', run (script plainRules) ⟨emptyDb [7], []⟩ firstRevert = some s ∧
      s.db.head (.form 7) = some R ∧ R.prev = some P.version ∧ commitOf s (.step 2) = some (revertForm 2, e) ∧
      exec (script plainRules) s (.step 2) = some s₁ ∧ run (script plainRules) s₁ secondRevert = some s₂ ∧
      commitOf s₂ (.step 3) = some (revertForm 3, e') ∧
      Restores plainRules e P.snapshot (.form 7) ∧ Restores plainRules e' R.snapshot (.form 7) := by
  have hfirst : (run (script plainRules) ⟨emptyDb [7], []⟩ firstRevert).any
      (fun s => atRevert 2 2 s && (s.db.revision (.form 7) 1).isSome) = true := by decide +kernel
  have hsecond : (run (script plainRules) ⟨emptyDb [7], []⟩ (firstRevert ++ .step 2 :: secondRevert)).any (atRevert 3 3) =
      true := by decide +kernel
  obtain ⟨s, hs, hat⟩ := (Option.any_eq_true ..).mp hfirst
  rw [Bool.and_eq_true, Option.isSome_iff_exists] at hat
  obtain ⟨hat, P, hP⟩ := hat
  obtain ⟨⟨e, hcommit⟩, R, hR, hversion, hprev⟩ := atRevert_spec hat
  obtain ⟨hPmem, hPversion⟩ := revision_spec hP
  obtain ⟨s₂, hs₂, hat₂⟩ := (Option.any_eq_true ..).mp hsecond
  obtain ⟨⟨e', hcommit'⟩, N, hN, hNversion, _⟩ := atRevert_spec hat₂
  rw [run_append, hs, Option.bind_some] at hs₂
  obtain ⟨s₁, hexec, hrest⟩ := Option.bind_eq_some_iff.mp hs₂
  have hlink : R.prev = some P.version := hprev.trans (congrArg some hPversion.symm)
  have hcommitR : commitOf s (.step 2) = some (.revert (.form 7) R.version true true, e) := hversion.symm ▸ hcommit
  have hcommitN : commitOf s₂ (.step 3) = some (.revert (.form 7) N.version true true, e') := hNversion.symm ▸ hcommit'
  obtain ⟨hrestores, hagain⟩ := revert_restores hs hR hPmem hlink hcommitR
  have hnext : N.version = R.version + 1 := by rw [hNversion, hversion]
  exact ⟨s, R, P, e, s₁, s₂, e', hs, hR, hlink, hcommit, hexec, hrest, hcommit', hrestores,
    hagain s₁ secondRevert s₂ hexec hrest N hN hnext (.step 3) true true e' hcommitN⟩

end Runs

end Config
