import StupaWorkflow.SubmissionRuns

/-!
The versions as the history of the answers.
-/
namespace Submission
open Py Decimals ReadCommitted List
open Decision (Problem)

variable {V : Type} [DecidableEq V]

section Columns

variable {loaded new a : Application V} {now : Time}

@[simp] theorem assign_self {α : Type} [DecidableEq α] (store : α → α) (loaded current : α) :
    assign store loaded loaded current = current := if_pos rfl

theorem assign_fresh {α : Type} [DecidableEq α] {loaded new current : α} (h : loaded = current) :
    assign id loaded new current = new := by
  unfold assign
  split
  next hsame => rw [hsame, h]
  next => rfl

theorem flushRow_data : (flushRow loaded new now a).data = assign id loaded.data new.data a.data := by
  unfold flushRow
  split
  next hsame => rw [hsame, assign_self]
  next => rfl

theorem flushRow_amount :
    (flushRow loaded new now a).amount = assign (Option.map cents) loaded.amount new.amount a.amount := by
  unfold flushRow
  split
  next hsame => rw [hsame, assign_self]
  next => rfl

theorem flushRow_approvedAmount : (flushRow loaded new now a).approvedAmount =
    assign (Option.map cents) loaded.approvedAmount new.approvedAmount a.approvedAmount := by
  unfold flushRow
  split
  next hsame => rw [hsame, assign_self]
  next => rfl

theorem map_cents_idem (q : Option ℚ) : (q.map cents).map cents = q.map cents := by
  cases q with
  | none => rfl
  | some q => exact congrArg some (cents_idem q)

end Columns

section History

variable (cfg : Config V)

/-- The versions are the history of the answers of the application. -/
structure History (d : Db V) : Prop where
  numbered : Table.Numbered SubmissionVersion.version d.versions
  current : ∃ v, d.versions.getLast? = some v ∧ d.app.data = v.data
  amount : d.app.amount = (amountCurrency cfg d.app.data).1.map cents
  diffs : d.versions.IsChain fun v w => w.diff = storedDiff v.data w.data

/-- A patch finds the answers and the amount as it read them, and nothing is anonymized. -/
def Fresh : Request V → Db V → Db V → Prop
  | .patch _ _, d, e => ∀ s ∈ e.seen, s.app.data = d.app.data ∧ s.app.amount = d.app.amount
  | .fire _ _, _, _ | .closeVote _ _ _, _, _ | .revertStatus _ _ _ _, _, _ => True
  | .anonymize _, _, _ | .retention _ _, _, _ => False

instance : (r : Request V) → (d e : Db V) → Decidable (Fresh r d e)
  | .patch _ _, d, e => inferInstanceAs (Decidable (∀ s ∈ e.seen, s.app.data = d.app.data ∧ s.app.amount = d.app.amount))
  | .fire _ _, _, _ | .closeVote _ _ _, _, _ | .revertStatus _ _ _ _, _, _ => isTrue trivial
  | .anonymize _, _, _ | .retention _ _, _, _ => isFalse id

variable {cfg} {d e : Db V}

theorem patched_history {app : Application V} {versions : List (SubmissionVersion V)} {p : PatchIn V} {clean : Data V}
    {now : Time} (h : History cfg d) (hdata : app.data = d.app.data) (hamount : app.amount = d.app.amount) :
    History cfg (d.patched cfg app versions p clean now) := by
  obtain ⟨v, hlast, hcurrent⟩ := h.current
  have hnew : (d.patched cfg app versions p clean now).app.data = clean := flushRow_data.trans (assign_fresh hdata)
  refine ⟨Table.numbered_concat.mpr ⟨h.numbered, rfl⟩, ⟨_, getLast?_concat, hnew⟩, ?_, ?_⟩
  · rw [hnew]
    show (flushRow app (edited cfg app clean) now d.app).amount = _
    rw [flushRow_amount, assign, show (edited cfg app clean).amount = (amountCurrency cfg clean).1 from rfl]
    split
    next hsame => rw [hsame, ← hamount, hamount, h.amount, map_cents_idem]
    next => rfl
  · refine isChain_append.mpr ⟨h.diffs, isChain_singleton _, ?_⟩
    rintro x hx y hy
    obtain rfl := Option.some.inj (hlast.symm.trans hx)
    obtain rfl := Option.some.inj hy
    show storedDiff app.data clean = storedDiff v.data clean
    rw [hdata, hcurrent]

theorem History.of_state (h : History cfg d) (hdata : e.app.data = d.app.data) (hamount : e.app.amount = d.app.amount)
    (hversions : e.versions = d.versions) : History cfg e where
  numbered := hversions ▸ h.numbered
  current := by
    rw [hversions, hdata]
    exact h.current
  amount := by
    rw [hamount, hdata]
    exact h.amount
  diffs := hversions ▸ h.diffs

theorem approvedRow_data (app : Application V) (approved : Option (Option ℚ)) (now : Time) (a : Application V) :
    (approvedRow app approved now a).data = a.data ∧ (approvedRow app approved now a).amount = a.amount := by
  cases approved with
  | none => exact ⟨rfl, rfl⟩
  | some q => exact ⟨flushRow_data.trans (assign_self _ _ _), flushRow_amount.trans (assign_self _ _ _)⟩

omit [DecidableEq V] in
theorem stagedRow_data (branch : Option (Uuid × Uuid)) (now : Time) (a : Application V) :
    (stagedRow branch now a).data = a.data ∧ (stagedRow branch now a).amount = a.amount := by
  rcases branch with _ | ⟨fromStateId, toStateId⟩
  · exact ⟨rfl, rfl⟩
  · by_cases hstate : a.currentStateId = some fromStateId <;> simp [stagedRow, hstate, moveRow]

omit [DecidableEq V] in
theorem decided_row {f : FireIn V} {app new : Application V} (h : decided f app = .ok new) :
    new.data = app.data ∧ new.amount = app.amount := by
  unfold decided at h
  split at h
  · cases h
    exact ⟨rfl, rfl⟩
  · obtain ⟨_, _, h⟩ := bind_ok.mp h
    obtain ⟨_, _, h⟩ := bind_ok.mp h
    rw [← pure_ok.mp h]
    exact ⟨rfl, rfl⟩

theorem commit_history {r : Request V} (h : History cfg d) (heffect : Effect cfg r d e) (hfresh : Fresh r d e) :
    History cfg e := by
  cases r with
  | patch p now =>
    obtain ⟨app, clean, versions, _, rfl⟩ := heffect
    obtain ⟨hdata, hamount⟩ := hfresh _ rfl
    exact patched_history h hdata hamount
  | fire f now =>
    obtain ⟨app, new, versions, hnew, rfl⟩ := heffect
    obtain ⟨hdata, hamount⟩ := decided_row hnew
    refine h.of_state ?_ ?_ rfl
    · exact flushRow_data.trans (by rw [hdata, assign_self]; rfl)
    · exact flushRow_amount.trans (by rw [hamount, assign_self]; rfl)
  | closeVote proposal branch now =>
    obtain ⟨app, versions, rfl⟩ := heffect
    obtain ⟨hdata, hamount⟩ := approvedRow_data app (proposal.map (binding app)) now d.app
    obtain ⟨hdata', hamount'⟩ := stagedRow_data branch now (approvedRow app (proposal.map (binding app)) now d.app)
    exact h.of_state (hdata'.trans hdata) (hamount'.trans hamount) rfl
  | revertStatus fromStateId toStateId restored now =>
    obtain ⟨app, versions, rfl⟩ := heffect
    obtain ⟨hdata, hamount⟩ := approvedRow_data app restored now (moveRow fromStateId now d.app)
    exact h.of_state hdata hamount rfl
  | anonymize now => exact hfresh.elim
  | retention cutoff now => exact hfresh.elim

theorem submitted_history (stateId : Uuid) (data : Data V) (changedBy : Text) (applicant : Applicant) (intake : Option Text)
    (now : Time) :
    History cfg (submitted cfg stateId data changedBy applicant intake now) where
  numbered := rfl
  current := ⟨_, rfl, rfl⟩
  amount := rfl
  diffs := isChain_singleton _

/-- In a run from a submission whose patches find the row as they read it, the versions
are the history of every committed state. -/
theorem run_history (cfg : Config V) (stateId : Uuid) (data : Data V) (changedBy : Text) (applicant : Applicant)
    (intake : Option Text) (now : Time) {es : List (Event (Request V))} {s : Sys (Request V) (Db V) Key Problem}
    (hrun : run (script cfg) ⟨submitted cfg stateId data changedBy applicant intake now, []⟩ es = some s)
    (hfresh : Guarded Fresh (script cfg) ⟨submitted cfg stateId data changedBy applicant intake now, []⟩ es) :
    History cfg s.db :=
  guarded_run (J := History cfg) script_keeps (fun _ _ h hguar hfresh => commit_history h hguar.2.2 hfresh)
    (sound_start (C := contract cfg) (submitted_inv stateId data changedBy applicant intake now))
    (submitted_history stateId data changedBy applicant intake now) hfresh hrun

/-- The numbers have no gap in any run. -/
theorem run_numbered (cfg : Config V) (stateId : Uuid) (data : Data V) (changedBy : Text) (applicant : Applicant)
    (intake : Option Text) (now : Time) {s : Sys (Request V) (Db V) Key Problem}
    (h : Reachable (script cfg) (submitted cfg stateId data changedBy applicant intake now) s) :
    Table.Numbered SubmissionVersion.version s.db.versions :=
  (run_sound script_keeps (submitted_inv stateId data changedBy applicant intake now) h).inv

end History

section Runs

/-- A form with one field, which is the amount, and a flow without a lock. -/
def oneField : Config ℕ where
  keys := [text "sum"]
  pinnedPii := []
  typePii := []
  refused := fun _ => []
  promoted := fun data => (data.lookup (text "sum")).map fun n => (n : ℚ)
  editAllowed := fun _ => true
  isTerminal := fun _ => false

def withSum (n : ℕ) : Db ℕ := submitted oneField 1 [(text "sum", n)] (text "applicant") ⟨none, none, none⟩ none 0

def sumPatch (n : ℕ) (now : Time) : Request ℕ := .patch ⟨[(text "sum", n)], text "applicant", false, false⟩ now

def steps (i n : ℕ) : List (Event (Request ℕ)) := List.replicate n (.step i)

def orderedPatches : List (Event (Request ℕ)) :=
  .start (sumPatch 2 1) :: steps 0 8 ++ .start (sumPatch 3 2) :: steps 1 8

theorem orderedPatches_history :
    ∃ s, run (script oneField) ⟨withSum 1, []⟩ orderedPatches = some s ∧ s.db.versions.length = 3 ∧
      History oneField s.db := by
  have hfresh : Guarded Fresh (script oneField) ⟨withSum 1, []⟩ orderedPatches := by decide +kernel
  have hrun : (run (script oneField) ⟨withSum 1, []⟩ orderedPatches).map (fun s => s.db.versions.length) = some 3 := by
    decide +kernel
  obtain ⟨s, hs, hlen⟩ := Option.map_eq_some_iff.mp hrun
  exact ⟨s, hs, hlen, run_history oneField 1 [(text "sum", 1)] (text "applicant") ⟨none, none, none⟩ none 0 hs hfresh⟩

def overtakenPatch : List (Event (Request ℕ)) :=
  .start (sumPatch 3 1) :: .step 0 :: .start (sumPatch 2 2) :: steps 1 8 ++ steps 0 7

theorem overtakenPatch_not_history :
    ∃ s v w, run (script oneField) ⟨withSum 1, []⟩ overtakenPatch = some s ∧ s.db.versions[1]? = some v ∧
      s.db.versions[2]? = some w ∧ v.data = [(text "sum", 2)] ∧ w.data = [(text "sum", 3)] ∧
      w.diff = some ⟨[], [], [(text "sum", ⟨1, 3⟩)]⟩ ∧ ¬ History oneField s.db := by
  have hrun : (run (script oneField) ⟨withSum 1, []⟩ overtakenPatch).map (fun s => s.db.versions) =
      some [⟨1, [(text "sum", 1)], text "applicant", none⟩,
        ⟨2, [(text "sum", 2)], text "applicant", some ⟨[], [], [(text "sum", ⟨1, 2⟩)]⟩⟩,
        ⟨3, [(text "sum", 3)], text "applicant", some ⟨[], [], [(text "sum", ⟨1, 3⟩)]⟩⟩] := by decide +kernel
  obtain ⟨s, hs, hversions⟩ := Option.map_eq_some_iff.mp hrun
  refine ⟨s, _, _, hs, by rw [hversions]; rfl, by rw [hversions]; rfl, rfl, rfl, rfl, fun h => ?_⟩
  have hdiffs := h.diffs
  rw [hversions] at hdiffs
  simp only [isChain_cons_cons] at hdiffs
  have hlast := hdiffs.2.1
  revert hlast
  decide +kernel

end Runs

end Submission
