import StupaWorkflow.SubmissionModel

/-!
What the interleavings of the writers of one application keep: the versions stay
numbered without a gap, the row changes only under its lock, and each commit writes
what its transaction computed from the row that it had read.
-/
namespace Submission
open Py Decimals ReadCommitted List
open Decision (Problem)

variable {V : Type} [DecidableEq V] (cfg : Config V)

section Effects

/-- The commit of a patch that had read the row `app`. -/
def Db.patched (app : Application V) (versions : List (SubmissionVersion V)) (p : PatchIn V) (clean : Data V) (now : Time)
    (d : Db V) : Db V :=
  ((d.setApp (flushRow app (edited cfg app clean) now)).insertVersion
    ⟨d.versions.length + 1, clean, p.changedBy, storedDiff app.data clean⟩).note app versions

def movedRow (app new : Application V) (toStateId : Uuid) (now : Time) (a : Application V) : Application V :=
  flushRow app new now (moveRow toStateId now a)

def approvedRow (app : Application V) (approved : Option (Option ℚ)) (now : Time) (a : Application V) : Application V :=
  match approved with
  | none => a
  | some q => flushRow app { app with approvedAmount := q } now a

omit [DecidableEq V] in
def stagedRow (branch : Option (Uuid × Uuid)) (now : Time) (a : Application V) : Application V :=
  match branch with
  | none => a
  | some (fromStateId, toStateId) => if a.currentStateId = some fromStateId then moveRow toStateId now a else a

def Effect : Request V → Db V → Db V → Prop
  | .patch p now, d, e =>
    ∃ app clean versions, patchChecks cfg app p = .ok clean ∧ e = d.patched cfg app versions p clean now
  | .fire f now, d, e =>
    ∃ app new versions, decided f app = .ok new ∧ e = (d.setApp (movedRow app new f.toStateId now)).note app versions
  | .closeVote proposal branch now, d, e =>
    ∃ app versions, e = (d.setApp fun a =>
      stagedRow branch now (approvedRow app (proposal.map (binding app)) now a)).note app versions
  | .revertStatus fromStateId _ restored now, d, e =>
    ∃ app versions, e = (d.setApp fun a =>
      approvedRow app restored now (moveRow fromStateId now a)).note app versions
  | .anonymize now, d, e =>
    ∃ versions, Table.Numbered SubmissionVersion.version versions ∧
      e = (d.anonymized cfg d.app versions now).note d.app versions
  | .retention cutoff now, d, e =>
    ∃ app versions, app.currentStateId.any cfg.isTerminal = true ∧ app.updatedAt < cutoff ∧
      Table.Numbered SubmissionVersion.version versions ∧ e = (d.anonymized cfg d.app versions now).note app versions

end Effects

section Contract

/-- The numbers grow one by one under their key, and the row and the old versions
change only under the lock of the application. -/
def contract : Contract (Request V) (Db V) Key where
  inv d := Table.Numbered SubmissionVersion.version d.versions
  rely held d e :=
    (Key.application ∈ held → e.app = d.app ∧ d.versions <+: e.versions) ∧
    d.versions.length ≤ e.versions.length ∧
    (Key.version (d.versions.length + 1) ∈ held → e.versions.length = d.versions.length)
  guar r held d e :=
    (Key.application ∉ held → e.app = d.app ∧ d.versions <+: e.versions) ∧
    (e.versions.length = d.versions.length ∨
      e.versions.length = d.versions.length + 1 ∧ Key.version (d.versions.length + 1) ∈ held) ∧
    Effect cfg r d e
  refl _ _ := ⟨fun _ => ⟨rfl, prefix_rfl⟩, le_rfl, fun _ => rfl⟩
  trans h h' := by
    refine ⟨fun hk => ?_, h.2.1.trans h'.2.1, fun hk => ?_⟩
    · obtain ⟨happ, hpre⟩ := h.1 hk
      obtain ⟨happ', hpre'⟩ := h'.1 hk
      exact ⟨happ'.trans happ, hpre.trans hpre'⟩
    · have hlen := h.2.2 hk
      rw [← hlen] at hk
      exact (h'.2.2 hk).trans hlen
  compat _ hguar hfree := by
    obtain ⟨hrow, hlen, _⟩ := hguar
    refine ⟨fun hk => hrow (hfree.not_mem hk), by omega, fun hk => ?_⟩
    rcases hlen with hsame | ⟨_, hmem⟩
    · exact hsame
    · exact absurd hmem (hfree.not_mem hk)

variable {cfg} {r : Request V} {l : Loc (Db V) Key} {d : Db V}
variable {Q : Unit → Loc (Db V) Key → Db V → Prop}

@[simp] theorem flushRow_self (app : Application V) (now : Time) (a : Application V) : flushRow app app now a = a :=
  if_pos rfl

theorem wp_flush {loaded new : Application V} {now : Time}
    (h : ∀ e held, (contract cfg).rely l.held d e → l.held ⊆ held → (new ≠ loaded → Key.application ∈ held) →
      Q () ⟨(·.setApp (flushRow loaded new now)) ∘ l.pend, held⟩ e) :
    wp (contract cfg) r (flush loaded new now) Q l d := by
  simp only [flush, wp_do, wp_require]
  intro _
  split
  next hne =>
    simp only [wp_do, wp_lockRow, wp_update]
    intro e hrely _
    exact h e _ hrely (subset_cons_self _ _) fun _ => mem_cons_self
  next heq =>
    have hsame : new = loaded := not_not.mp heq
    have hkeep := h d l.held ((contract cfg).refl _ _) (List.Subset.refl _) fun hne => absurd hsame hne
    have hpend : (·.setApp (flushRow loaded new now)) ∘ l.pend = l.pend := by
      funext x
      simp [Function.comp, Db.setApp, hsame]
    rwa [hpend] at hkeep

omit [DecidableEq V] in
theorem currentVersion_eq {versions : List (SubmissionVersion V)} (h : Table.Numbered SubmissionVersion.version versions) :
    currentVersion versions = versions.length := by
  rw [currentVersion, h]
  cases versions with
  | nil => rfl
  | cons v versions =>
    have hmax : (List.range' 1 (v :: versions).length).max? = some (v :: versions).length := by
      rw [List.max?_eq_some_iff]
      simp only [mem_range'_1, length_cons]
      exact ⟨by omega, fun b hb => by omega⟩
    rw [hmax, Option.getD_some]

/-- The number after the greatest one that was read is free only while no other version
has been committed, and then it stays free. -/
theorem wp_insertVersion {v : SubmissionVersion V} (hpend : ∀ x, (l.pend x).versions = x.versions)
    (hv : v.version ≤ d.versions.length + 1) (hpos : 1 ≤ v.version)
    (h : ∀ e, (contract cfg).rely l.held d e → v.version = e.versions.length + 1 →
      Q () ⟨(·.insertVersion v) ∘ l.pend, .version v.version :: l.held⟩ e) :
    wp (contract cfg) r (insertVersion v) Q l d := by
  rw [insertVersion, wp_do, wp_lockRow]
  intro e hrely hinv
  simp only [wp_do, wp_require, wp_update, hpend, all_eq_true, decide_eq_true_eq]
  intro hfree
  have hnot : v.version ∉ e.versions.map SubmissionVersion.version := by
    rintro hmem
    obtain ⟨w, hw, heq⟩ := mem_map.mp hmem
    exact hfree w hw heq
  have hlen := hrely.2.1
  have hinv : Table.Numbered SubmissionVersion.version e.versions := hinv
  rw [hinv.mem_iff] at hnot
  exact h e hrely (by omega)

end Contract

section Programs

variable {cfg} {d : Db V}
variable {r : Request V} {l : Loc (Db V) Key} {now : Time} {Q : Unit → Loc (Db V) Key → Db V → Prop}

theorem patch_keeps (p : PatchIn V) (now : Time) : Keeps (contract cfg) (.patch p now) (patch cfg p now) := by
  intro d _
  rw [patch, wp_do, wp_query]
  intro e _ _
  simp only [wp_do, wp_ofExcept, wp_query]
  intro clean hclean f _ hinv
  have hinv : Table.Numbered SubmissionVersion.version f.versions := hinv
  apply wp_flush
  intro g held hg _ hlocked
  refine wp_insertVersion (fun _ => rfl) ?_ (Nat.le_add_left 1 _) ?_
  · have hlen := hg.2.1
    show currentVersion f.versions + 1 ≤ g.versions.length + 1
    rw [currentVersion_eq hinv]
    omega
  intro x _ hnumber
  simp only [wp_update, wp_publish]
  intro y hy hinvy
  -- the key of the number keeps every other version out until the commit
  have hlen : y.versions.length = x.versions.length := hy.2.2 (hnumber ▸ mem_cons_self)
  have hinvy : Table.Numbered SubmissionVersion.version y.versions := hinvy
  refine ⟨Table.numbered_concat.mpr ⟨hinvy, ?_⟩, ⟨fun hnot => ⟨?_, prefix_append _ _⟩, .inr ⟨?_, ?_⟩, ?_⟩, trivial⟩
  · exact hnumber.trans (congrArg (· + 1) hlen.symm)
  · have hsame : edited cfg e.app clean = e.app := by
      by_contra hne
      exact hnot (mem_cons_of_mem _ (hlocked hne))
    show flushRow e.app (edited cfg e.app clean) now y.app = y.app
    rw [hsame, flushRow_self]
  · exact length_append
  · rw [hlen, ← hnumber]
    exact mem_cons_self
  · refine ⟨e.app, clean, f.versions, hclean, ?_⟩
    have hnumber : currentVersion f.versions + 1 = y.versions.length + 1 := hnumber.trans (congrArg (· + 1) hlen.symm)
    simp only [Db.patched, ← hnumber]
    rfl

theorem wp_moveState {fromStateId toStateId : Uuid}
    (h : ∀ e, Q () ⟨(·.setApp (moveRow toStateId now)) ∘ l.pend, .application :: l.held⟩ e) :
    wp (contract cfg) r (moveState fromStateId toStateId now) Q l d := by
  rw [moveState, wp_do, wp_lockRow]
  intro e _ _
  simp only [wp_do, wp_require, wp_update]
  exact fun _ => h e

theorem publish_row {held : List Key} {w : Db V → Db V} (hheld : Key.application ∉ held → ∀ x, (w x).app = x.app)
    (hversions : ∀ x, (w x).versions = x.versions) (heffect : ∀ x, Effect cfg r x (w x)) :
    wp (contract cfg) r (Prog.publish : P V Unit) (fun _ _ _ => True) ⟨w, held⟩ d := by
  rw [wp_publish]
  intro e _ hinv
  have hinv : Table.Numbered SubmissionVersion.version e.versions := hinv
  refine ⟨?_, ⟨fun hnot => ⟨hheld hnot e, ?_⟩, .inl (congrArg List.length (hversions e)), heffect e⟩, trivial⟩
  rotate_left
  · rw [show (w e).versions = e.versions from hversions e]
  show Table.Numbered SubmissionVersion.version (w e).versions
  rw [hversions]
  exact hinv

theorem fire_keeps (f : FireIn V) (now : Time) : Keeps (contract cfg) (.fire f now) (fire f now) := by
  intro d _
  rw [fire, wp_do, wp_query]
  intro e _ _
  simp only [wp_do, wp_require, wp_ofExcept]
  intro _ new hnew _
  apply wp_moveState
  intro g
  apply wp_flush
  intro x held _ hsub _
  simp only [wp_update]
  exact publish_row (fun hnot => absurd (hsub mem_cons_self) hnot) (fun _ => rfl) fun x => ⟨e.app, new, e.versions, hnew, rfl⟩

theorem wp_writeApproved {app : Application V} {approved : Option (Option ℚ)}
    (h : ∀ e held, l.held ⊆ held → (approved ≠ none → Key.application ∈ held) →
      Q () ⟨(·.setApp (approvedRow app approved now)) ∘ l.pend, held⟩ e) :
    wp (contract cfg) r (writeApproved app approved now) Q l d := by
  cases approved with
  | none => exact h d l.held (List.Subset.refl _) fun hne => absurd rfl hne
  | some q =>
    rw [writeApproved, wp_do, wp_lockRow]
    intro e _ _
    apply wp_flush
    intro g held _ hsub _
    exact h g held (fun k hk => hsub (mem_cons_of_mem _ hk)) fun _ => hsub mem_cons_self

theorem wp_tryStage {branch : Option (Uuid × Uuid)} (h : ∀ e held, l.held ⊆ held → (branch ≠ none → Key.application ∈ held) →
      Q () ⟨(·.setApp (stagedRow branch now)) ∘ l.pend, held⟩ e) :
    wp (contract cfg) r (tryStage branch now) Q l d := by
  cases branch with
  | none => exact h d l.held (List.Subset.refl _) fun hne => absurd rfl hne
  | some b =>
    rw [tryStage, wp_do, wp_lockRow]
    intro e _ _
    exact h e _ (subset_cons_self _ _) fun _ => mem_cons_self

theorem closeVote_keeps (proposal : Option (Option ℚ)) (branch : Option (Uuid × Uuid)) (now : Time) :
    Keeps (contract cfg) (.closeVote proposal branch now) (closeVote proposal branch now) := by
  intro d _
  rw [closeVote, wp_do, wp_query]
  intro e _ _
  simp only [wp_do]
  apply wp_writeApproved
  intro f held _ happroved
  apply wp_tryStage
  intro g held' hsub hbranch
  rw [wp_update]
  refine publish_row (fun hnot x => ?_) (fun _ => rfl) fun x => ⟨e.app, e.versions, rfl⟩
  -- without a proposal and a branch nothing is locked, and the row stays
  have hproposal : proposal = none := by
    by_contra hne
    exact hnot (hsub (happroved (by simpa using hne)))
  have hbranch : branch = none := by
    by_contra hne
    exact hnot (hbranch hne)
  subst hproposal hbranch
  rfl

theorem revertStatus_keeps (fromStateId toStateId : Uuid) (restored : Option (Option ℚ)) (now : Time) :
    Keeps (contract cfg) (.revertStatus fromStateId toStateId restored now)
      (revertStatus fromStateId toStateId restored now) := by
  intro d _
  rw [revertStatus, wp_do, wp_query]
  intro e _ _
  simp only [wp_do, wp_require]
  intro _
  apply wp_moveState
  intro f
  apply wp_writeApproved
  intro g held hsub _
  rw [wp_update]
  exact publish_row (fun hnot => absurd (hsub mem_cons_self) hnot) (fun _ => rfl)
    fun x => ⟨e.app, e.versions, rfl⟩

theorem anonymized_versions (app : Application V) (versions : List (SubmissionVersion V)) (now : Time) (d : Db V) :
    (d.anonymized cfg app versions now).versions.map SubmissionVersion.version = d.versions.map SubmissionVersion.version := by
  rw [Db.anonymized, map_map]
  refine map_congr_left fun v _ => ?_
  simp only [Function.comp]
  split <;> rfl

/-- The lock keeps the row from the read to the commit, and the versions only grow. -/
theorem erase_keeps {listed : Option (Application V)}
    (heffect : ∀ (x : Db V) versions, Table.Numbered SubmissionVersion.version versions →
      Effect cfg r x ((x.anonymized cfg x.app versions now).note (listed.getD x.app) versions)) :
    wp (contract cfg) r ((eraseRows cfg listed now).bind fun _ => Prog.publish) (fun _ _ _ => True) .fresh d := by
  rw [wp_bind, eraseRows, wp_do, wp_lockRow]
  intro e _ _
  simp only [wp_do, wp_query]
  intro f hf hinvf
  simp only [wp_update, wp_publish]
  intro g hg hinvg
  have hrow : g.app = e.app := (hg.1 mem_cons_self).1.trans (hf.1 mem_cons_self).1
  have hversions : (g.anonymized cfg e.app f.versions now).versions.map SubmissionVersion.version = _ :=
    anonymized_versions e.app f.versions now g
  have hlen : (g.anonymized cfg e.app f.versions now).versions.length = g.versions.length := by
    simpa only [length_map] using congrArg List.length hversions
  have heffect := heffect g f.versions hinvf
  rw [hrow] at heffect
  refine ⟨?_, ⟨fun hnot => absurd mem_cons_self hnot, .inl hlen, heffect⟩, trivial⟩
  have hinvg : Table.Numbered SubmissionVersion.version g.versions := hinvg
  show Table.Numbered SubmissionVersion.version (g.anonymized cfg e.app f.versions now).versions
  rw [Table.Numbered, hversions, hinvg, hlen]

theorem anonymize_keeps (now : Time) : Keeps (contract cfg) (.anonymize now) (anonymize cfg now) :=
  fun _ _ => erase_keeps fun _ versions hnumbered => ⟨versions, hnumbered, rfl⟩

theorem retention_keeps (cutoff now : Time) : Keeps (contract cfg) (.retention cutoff now) (retention cfg cutoff now) := by
  intro d _
  rw [retention, wp_do, wp_query]
  intro e _ _
  rw [wp_do, wp_require]
  intro hdue
  simp only [due, Bool.and_eq_true, decide_eq_true_eq] at hdue
  exact erase_keeps fun x versions hnumbered => ⟨e.app, versions, hdue.1.1, hdue.2, hnumbered, rfl⟩

theorem script_keeps (r : Request V) : Keeps (contract cfg) r (script cfg r) := by
  cases r with
  | patch p now => exact patch_keeps p now
  | fire f now => exact fire_keeps f now
  | closeVote proposal branch now => exact closeVote_keeps proposal branch now
  | revertStatus fromStateId toStateId restored now => exact revertStatus_keeps fromStateId toStateId restored now
  | anonymize now => exact anonymize_keeps now
  | retention cutoff now => exact retention_keeps cutoff now

theorem submitted_inv (stateId : Uuid) (data : Data V) (changedBy : Text) (applicant : Applicant) (intake : Option Text)
    (now : Time) :
    (contract cfg).inv (submitted cfg stateId data changedBy applicant intake now) := rfl

end Programs

end Submission
