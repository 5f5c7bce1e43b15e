import StupaWorkflow.DecisionBounds
import StupaWorkflow.SubmissionHistory

/-!
The edit lock, the approved amount, the anonymization and the retention job against each other.
-/
namespace Submission
open Py Decimals ReadCommitted List Option
open Decision (Problem)

variable {V : Type} [DecidableEq V]

section Rules

variable (cfg : Config V)

/-- The approved amount is at most the requested one, both are whole cents, and no row
holds an answer that an anonymization erased. -/
structure Lawful (d : Db V) : Prop where
  bound : ∀ q ∈ d.app.approvedAmount, ∃ r ∈ d.app.amount, q ≤ r
  amount : d.app.amount.map cents = d.app.amount
  approved : d.app.approvedAmount.map cents = d.app.approvedAmount
  forgotten : ∀ q ∈ d.entries, q ∉ d.erased

def Allowed : Request V → Db V → Db V → Prop
  | .patch p _, d, _ => p.bypassStateLock = false → cfg.editable d.app.currentStateId = true
  | .retention cutoff _, d, _ => d.app.currentStateId.any cfg.isTerminal = true ∧ d.app.updatedAt < cutoff
  | .fire _ _, _, _ | .closeVote _ _ _, _, _ | .revertStatus _ _ _ _, _, _ | .anonymize _, _, _ => True

instance : (r : Request V) → (d e : Db V) → Decidable (Allowed cfg r d e)
  | .patch p _, d, _ =>
    inferInstanceAs (Decidable (p.bypassStateLock = false → cfg.editable d.app.currentStateId = true))
  | .retention cutoff _, d, _ =>
    inferInstanceAs (Decidable (d.app.currentStateId.any cfg.isTerminal = true ∧ d.app.updatedAt < cutoff))
  | .fire _ _, _, _ | .closeVote _ _ _, _, _ | .revertStatus _ _ _ _, _, _ | .anonymize _, _, _ => isTrue trivial

def PatchInTime (p : PatchIn V) (s : Seen V) (d : Db V) : Prop :=
  (p.bypassStateLock = true ∨ s.app.currentStateId = d.app.currentStateId) ∧
    s.app.approvedAmount = d.app.approvedAmount ∧ ∀ q ∈ s.app.data, q ∉ d.erased

def InTime : Request V → Db V → Db V → Prop
  | .patch p _, d, e => (∀ s ∈ e.seen, PatchInTime p s d) ∧ ∀ q ∈ p.data, q ∉ d.erased
  | .fire f _, d, e => f.decision.isSome = true → ∀ s ∈ e.seen, s.app.amount = d.app.amount
  | .closeVote proposal _ _, d, e => proposal.isSome = true → ∀ s ∈ e.seen, s.app.amount = d.app.amount
  | .revertStatus _ _ restored _, _, _ => restored = none
  | .anonymize _, d, e => ∀ s ∈ e.seen, s.versions.length = d.versions.length
  | .retention _ _, d, e => ∀ s ∈ e.seen, s.versions.length = d.versions.length ∧
      s.app.currentStateId = d.app.currentStateId ∧ s.app.updatedAt = d.app.updatedAt

instance (p : PatchIn V) (s : Seen V) (d : Db V) : Decidable (PatchInTime p s d) :=
  inferInstanceAs (Decidable (_ ∧ _ ∧ ∀ q ∈ s.app.data, q ∉ d.erased))

instance : (r : Request V) → (d e : Db V) → Decidable (InTime r d e)
  | .patch p _, d, e => inferInstanceAs (Decidable ((∀ s ∈ e.seen, PatchInTime p s d) ∧ ∀ q ∈ p.data, q ∉ d.erased))
  | .fire f _, d, e =>
    inferInstanceAs (Decidable (f.decision.isSome = true → ∀ s ∈ e.seen, s.app.amount = d.app.amount))
  | .closeVote proposal _ _, d, e =>
    inferInstanceAs (Decidable (proposal.isSome = true → ∀ s ∈ e.seen, s.app.amount = d.app.amount))
  | .revertStatus _ _ restored _, _, _ => inferInstanceAs (Decidable (restored = none))
  | .anonymize _, d, e => inferInstanceAs (Decidable (∀ s ∈ e.seen, s.versions.length = d.versions.length))
  | .retention _ _, d, e => inferInstanceAs (Decidable (∀ s ∈ e.seen, s.versions.length = d.versions.length ∧
      s.app.currentStateId = d.app.currentStateId ∧ s.app.updatedAt = d.app.updatedAt))

end Rules

section Answers

variable {cfg : Config V}
variable {q : Text × V}

omit [DecidableEq V] in
theorem mem_of_lookup {data : Data V} {k : Text} {v : V} (h : data.lookup k = some v) : (k, v) ∈ data := by
  induction data with
  | nil => cases h
  | cons p data ih =>
    obtain ⟨k', v'⟩ := p
    by_cases hk : k = k'
    · subst hk
      simp only [lookup_cons, BEq.rfl, Option.some.injEq] at h
      rw [h]
      exact mem_cons_self
    · simp only [lookup_cons, beq_false_of_ne hk] at h
      exact mem_cons_of_mem _ (ih h)

theorem computeDiff_entries {old new : Data V} (hq : q ∈ (computeDiff old new).entries) : q ∈ old ∨ q ∈ new := by
  simp only [DataDiff.entries, computeDiff, mem_append, mem_filter, mem_flatMap, mem_filterMap] at hq
  rcases hq with (hadded | hremoved) | ⟨c, ⟨p, hp, hc⟩, hmem⟩
  · exact .inr hadded.1
  · exact .inl hremoved.1
  · obtain ⟨v, hv, hc⟩ := bind_eq_some_iff.mp hc
    split at hc
    · obtain rfl := Option.some.inj hc
      simp only [mem_cons, not_mem_nil, or_false] at hmem
      rcases hmem with rfl | rfl
      · exact .inl hp
      · exact .inr (mem_of_lookup hv)
    · cases hc

theorem storedDiff_entries {old new : Data V} (hq : q ∈ ((storedDiff old new).map DataDiff.entries).getD []) :
    q ∈ old ∨ q ∈ new := by
  simp only [storedDiff] at hq
  split at hq
  · cases hq
  · exact computeDiff_entries hq

omit [DecidableEq V] in
theorem scrub_entries {keys : List Text} {v : SubmissionVersion V} (hq : q ∈ (v.scrub keys).entries) :
    q ∈ v.entries ∧ q.1 ∉ keys := by
  have hkeep : ∀ {data : Data V}, q ∈ withoutKeys data keys → q ∈ data ∧ q.1 ∉ keys := by
    intro data h
    simpa [withoutKeys, mem_filter] using h
  simp only [SubmissionVersion.entries, SubmissionVersion.scrub, mem_append] at hq ⊢
  rcases hq with hdata | hdiff
  · exact ⟨.inl (hkeep hdata).1, (hkeep hdata).2⟩
  · cases hv : v.diff with
    | none => simp [hv] at hdiff
    | some diff =>
      simp only [hv, map_some, getD_some, DataDiff.entries, scrubDiff, mem_append,
        mem_flatMap, mem_filter] at hdiff ⊢
      rcases hdiff with (hadded | hremoved) | ⟨p, ⟨hp, hkey⟩, hmem⟩
      · exact ⟨.inr (.inl (.inl (hkeep hadded).1)), (hkeep hadded).2⟩
      · exact ⟨.inr (.inl (.inr (hkeep hremoved).1)), (hkeep hremoved).2⟩
      · refine ⟨.inr (.inr ⟨p, hp, hmem⟩), ?_⟩
        simp only [mem_cons, not_mem_nil, or_false] at hmem
        rcases hmem with rfl | rfl <;> simpa using hkey

omit [DecidableEq V] in
theorem cleanAnswers_mem {app : Application V} {p : PatchIn V} (hq : q ∈ cleanAnswers cfg app p) : q ∈ p.data ∨ q ∈ app.data := by
  simp only [cleanAnswers, mem_filter] at hq
  obtain ⟨hq, _⟩ := hq
  split at hq
  · rcases mem_append.mp hq with hsent | hstored
    · exact .inl (mem_filter.mp hsent).1
    · exact .inr (mem_filter.mp hstored).1
  · exact .inl hq

omit [DecidableEq V] in
theorem patchChecks_ok {app : Application V} {p : PatchIn V} {clean : Data V} (h : patchChecks cfg app p = .ok clean) :
    (cfg.editable app.currentStateId = true ∨ p.bypassStateLock = true) ∧ clean = cleanAnswers cfg app p ∧
      Decision.checkNewAmount app.approvedAmount (amountCurrency cfg clean).1 = .ok () := by
  obtain ⟨_, hstate, h⟩ := bind_ok.mp h
  obtain ⟨_, _, h⟩ := bind_ok.mp h
  obtain ⟨_, hamount, h⟩ := bind_ok.mp h
  obtain rfl := pure_ok.mp h
  rw [raiseUnless_ok, Bool.or_eq_true] at hstate
  exact ⟨hstate, rfl, hamount⟩

end Answers

section Amounts

variable {cfg : Config V} {d : Db V}

def Bound (approved amount : Option ℚ) : Prop := ∀ q ∈ approved, ∃ r ∈ amount, q ≤ r

theorem Bound.cents {approved amount : Option ℚ} (h : Bound approved amount) :
    Bound (approved.map cents) (amount.map cents) := by
  intro _ hmem
  obtain ⟨q, hq, rfl⟩ := map_eq_some_iff.mp hmem
  obtain ⟨r, hr, hle⟩ := h q hq
  exact ⟨Decimals.cents r, mem_map_of_mem _ hr, cents_mono hle⟩

theorem checkNewAmount_bound {approved newAmount : Option ℚ} {u : Unit}
    (h : Decision.checkNewAmount approved newAmount = .ok u) : Bound approved newAmount := by
  rintro q rfl
  cases newAmount with
  | none => cases h
  | some n => exact ⟨n, rfl, of_decide_eq_true (raiseUnless_ok.mp h)⟩

omit [DecidableEq V] in
theorem decided_bound {f : FireIn V} {app new : Application V} (h : decided f app = .ok new) :
    f.decision = none ∧ new = app ∨
      f.decision.isSome = true ∧ ∃ q, new = { app with approvedAmount := q } ∧ Bound q app.amount := by
  unfold decided at h
  split at h
  next hnone =>
    cases h
    exact .inl ⟨hnone, rfl⟩
  next q hsome =>
    obtain ⟨_, _, h⟩ := bind_ok.mp h
    obtain ⟨_, hcheck, h⟩ := bind_ok.mp h
    refine .inr ⟨by rw [hsome]; rfl, q, (pure_ok.mp h).symm, fun a ha => ?_⟩
    obtain ⟨_, r, hr, hle⟩ := (Decision.checkApprovedAmount_ok hcheck).2 a ha
    exact ⟨r, hr, hle⟩

omit [DecidableEq V] in
theorem binding_bound (app : Application V) (proposal : Option ℚ) : Bound (binding app proposal) app.amount := by
  intro q hq
  unfold binding at hq
  split at hq
  next a r hamount =>
    split at hq
    · cases hq
    next hle =>
      obtain rfl := Option.some.inj hq
      exact ⟨r, hamount, not_lt.mp hle⟩
  next => cases hq

theorem approvedRow_bound (app a : Application V) (approved : Option (Option ℚ)) (now : Time)
    (hbound : Bound a.approvedAmount a.amount) (hwhole : a.amount.map cents = a.amount)
    (happroved : a.approvedAmount.map cents = a.approvedAmount)
    (hnew : ∀ q, approved = some q → Bound q a.amount) :
    Bound (approvedRow app approved now a).approvedAmount a.amount ∧
      (approvedRow app approved now a).approvedAmount.map cents = (approvedRow app approved now a).approvedAmount := by
  cases approved with
  | none => exact ⟨hbound, happroved⟩
  | some q =>
    have hrow : (approvedRow app (some q) now a).approvedAmount =
        assign (Option.map cents) app.approvedAmount q a.approvedAmount := flushRow_approvedAmount
    rw [hrow, assign]
    split
    · exact ⟨hbound, happroved⟩
    · exact ⟨hwhole ▸ (hnew q rfl).cents, map_cents_idem q⟩

end Amounts

section Steps

variable {cfg : Config V} {d e : Db V}
variable {app : Application V} {versions : List (SubmissionVersion V)} {now : Time}

omit [DecidableEq V] in
theorem Lawful.of_row (h : Lawful d) (hdata : e.app.data = d.app.data) (hamount : e.app.amount = d.app.amount)
    (hbound : Bound e.app.approvedAmount d.app.amount)
    (happroved : e.app.approvedAmount.map cents = e.app.approvedAmount) (hversions : e.versions = d.versions)
    (herased : e.erased = d.erased) : Lawful e where
  bound := hamount ▸ hbound
  amount := by
    rw [hamount]
    exact h.amount
  approved := happroved
  forgotten := by
    intro q hq
    rw [herased]
    refine h.forgotten q ?_
    rwa [Db.entries, hdata, hversions] at hq

theorem patched_entries {p : PatchIn V} {clean : Data V} {q : Text × V}
    (hq : q ∈ (d.patched cfg app versions p clean now).entries) : q ∈ d.entries ∨ q ∈ clean ∨ q ∈ app.data := by
  have hdata : (d.patched cfg app versions p clean now).app.data = assign id app.data clean d.app.data := flushRow_data
  have hversions : (d.patched cfg app versions p clean now).versions =
      d.versions ++ [⟨d.versions.length + 1, clean, p.changedBy, storedDiff app.data clean⟩] := rfl
  simp only [Db.entries, hdata, hversions, flatMap_append, mem_append, flatMap_singleton] at hq ⊢
  rcases hq with hrow | hold | hnew
  · unfold assign at hrow
    split at hrow
    · exact .inl (.inl hrow)
    · exact .inr (.inl hrow)
  · exact .inl (.inr hold)
  · rcases mem_append.mp hnew with hclean | hdiff
    · exact .inr (.inl hclean)
    · exact .inr (storedDiff_entries hdiff).symm

theorem patch_lawful {p : PatchIn V} {clean : Data V} (h : Lawful d) (hchecks : patchChecks cfg app p = .ok clean)
    (htime : PatchInTime p ⟨app, versions⟩ d) (hsent : ∀ q ∈ p.data, q ∉ d.erased) :
    Lawful (d.patched cfg app versions p clean now) := by
  obtain ⟨_, rfl, hnew⟩ := patchChecks_ok hchecks
  obtain ⟨_, happroved, hread⟩ := htime
  have hnew := checkNewAmount_bound hnew
  rw [happroved] at hnew
  have hrowApproved : (d.patched cfg app versions p (cleanAnswers cfg app p) now).app.approvedAmount =
      d.app.approvedAmount := flushRow_approvedAmount.trans (assign_self _ _ _)
  have hrowAmount : (d.patched cfg app versions p (cleanAnswers cfg app p) now).app.amount =
      assign (Option.map cents) app.amount (amountCurrency cfg (cleanAnswers cfg app p)).1 d.app.amount := flushRow_amount
  refine ⟨?_, ?_, ?_, ?_⟩
  · rw [hrowApproved, hrowAmount, assign]
    split
    · exact h.bound
    · rw [← h.approved]
      exact hnew.cents
  · rw [hrowAmount, assign]
    split
    · exact h.amount
    · exact map_cents_idem _
  · rw [hrowApproved]
    exact h.approved
  · intro q hq
    show q ∉ d.erased
    rcases patched_entries hq with hold | hclean | happ
    · exact h.forgotten q hold
    · exact (cleanAnswers_mem hclean).elim (hsent q) (hread q)
    · exact hread q happ

/-- An anonymization that read every version leaves no answer with personal data behind. -/
theorem anonymized_lawful (h : Lawful d) (hinv : (contract cfg).inv d)
    (hnumbered : Table.Numbered SubmissionVersion.version versions) (hall : versions.length = d.versions.length) :
    Lawful ((d.anonymized cfg d.app versions now).note app versions) := by
  have hinv : Table.Numbered SubmissionVersion.version d.versions := hinv
  have hread : versions.map SubmissionVersion.version = d.versions.map SubmissionVersion.version := by
    rw [hnumbered, hinv, hall]
  have hversions : ((d.anonymized cfg d.app versions now).note app versions).versions =
      d.versions.map fun v => v.scrub (piiKeys cfg) := by
    refine map_congr_left fun v hv => ?_
    rw [hread, if_pos (contains_iff_mem.mpr (mem_map_of_mem hv))]
  have happroved : ((d.anonymized cfg d.app versions now).note app versions).app.approvedAmount = d.app.approvedAmount :=
    flushRow_approvedAmount.trans (assign_self _ _ _)
  have hamount : ((d.anonymized cfg d.app versions now).note app versions).app.amount = d.app.amount :=
    flushRow_amount.trans (assign_self _ _ _)
  have hdata : ((d.anonymized cfg d.app versions now).note app versions).app.data = withoutKeys d.app.data (piiKeys cfg) :=
    flushRow_data.trans (assign_fresh rfl)
  refine ⟨?_, ?_, ?_, ?_⟩
  · rw [happroved, hamount]
    exact h.bound
  · rw [hamount]
    exact h.amount
  · rw [happroved]
    exact h.approved
  · intro q hq
    have hkept : q ∈ d.entries ∧ q.1 ∉ piiKeys cfg := by
      simp only [Db.entries, hdata, hversions, mem_append, flatMap_map, mem_flatMap] at hq ⊢
      rcases hq with hrow | ⟨v, hv, hentry⟩
      · simp only [withoutKeys, mem_filter, Bool.not_eq_true', contains_eq_mem, decide_eq_false_iff_not] at hrow
        exact ⟨.inl hrow.1, hrow.2⟩
      · exact ⟨.inr ⟨v, hv, (scrub_entries hentry).1⟩, (scrub_entries hentry).2⟩
    show q ∉ d.erased ++ d.entries.filter fun p => (piiKeys cfg).contains p.1
    simp only [mem_append, mem_filter, contains_eq_mem, decide_eq_true_eq, not_or, not_and]
    exact ⟨h.forgotten q hkept.1, fun _ => hkept.2⟩

omit [DecidableEq V] in
theorem stagedRow_amounts (branch : Option (Uuid × Uuid)) (now : Time) (a : Application V) :
    (stagedRow branch now a).approvedAmount = a.approvedAmount := by
  rcases branch with _ | ⟨fromStateId, toStateId⟩
  · rfl
  · by_cases hstate : a.currentStateId = some fromStateId <;> simp [stagedRow, hstate, moveRow]

theorem commit_lawful {r : Request V} (hinv : (contract cfg).inv d) (h : Lawful d) (heffect : Effect cfg r d e)
    (htime : InTime r d e) : Lawful e := by
  cases r with
  | patch p now =>
    obtain ⟨app, clean, versions, hchecks, rfl⟩ := heffect
    exact patch_lawful h hchecks (htime.1 _ rfl) htime.2
  | fire f now =>
    obtain ⟨app, new, versions, hnew, rfl⟩ := heffect
    rcases decided_bound hnew with ⟨_, rfl⟩ | ⟨hdecision, q, rfl, hq⟩
    · have hrow : movedRow new new f.toStateId now d.app = moveRow f.toStateId now d.app := flushRow_self _ _ _
      refine h.of_row (e := (d.setApp _).note _ _) ?_ ?_ ?_ ?_ rfl rfl
      all_goals rw [show ((d.setApp (movedRow new new f.toStateId now)).note new versions).app = _ from hrow]
      · rfl
      · rfl
      · exact h.bound
      · exact h.approved
    · have hamount := htime hdecision _ rfl
      obtain ⟨hbound, happroved⟩ := approvedRow_bound app (moveRow f.toStateId now d.app) (some q) now
        h.bound h.amount h.approved (by
          rintro _ ⟨⟩
          exact hamount ▸ hq)
      obtain ⟨hdata, hsum⟩ := approvedRow_data app (some q) now (moveRow f.toStateId now d.app)
      exact h.of_row hdata hsum hbound happroved rfl rfl
  | closeVote proposal branch now =>
    obtain ⟨app, versions, rfl⟩ := heffect
    obtain ⟨hbound, happroved⟩ := approvedRow_bound app d.app (proposal.map (binding app)) now
      h.bound h.amount h.approved (by
        intro q hq
        obtain ⟨p, hp, rfl⟩ := map_eq_some_iff.mp hq
        have hamount := htime (by rw [hp]; rfl) _ rfl
        exact hamount ▸ binding_bound app p)
    obtain ⟨hdata, hsum⟩ := approvedRow_data app (proposal.map (binding app)) now d.app
    obtain ⟨hdata', hsum'⟩ := stagedRow_data branch now (approvedRow app (proposal.map (binding app)) now d.app)
    have hstaged := stagedRow_amounts branch now (approvedRow app (proposal.map (binding app)) now d.app)
    exact h.of_row (hdata'.trans hdata) (hsum'.trans hsum) (hstaged.symm ▸ hbound) (hstaged.symm ▸ happroved) rfl rfl
  | revertStatus fromStateId toStateId restored now =>
    obtain ⟨app, versions, rfl⟩ := heffect
    obtain rfl : restored = none := htime
    exact h.of_row rfl rfl h.bound h.approved rfl rfl
  | anonymize now =>
    obtain ⟨versions, hnumbered, rfl⟩ := heffect
    exact anonymized_lawful h hinv hnumbered (htime _ rfl)
  | retention cutoff now =>
    obtain ⟨app, versions, _, _, hnumbered, rfl⟩ := heffect
    exact anonymized_lawful h hinv hnumbered (htime _ rfl).1

theorem commit_allowed {r : Request V} (heffect : Effect cfg r d e) (htime : InTime r d e) : Allowed cfg r d e := by
  cases r with
  | patch p now =>
    obtain ⟨app, clean, versions, hchecks, rfl⟩ := heffect
    obtain ⟨hstate, _⟩ := htime.1 _ rfl
    intro hbypass
    have hread := (patchChecks_ok hchecks).1
    simp only [hbypass, Bool.false_eq_true, or_false, false_or] at hread hstate
    rw [← hstate]
    exact hread
  | retention cutoff now =>
    obtain ⟨app, versions, hterminal, hcutoff, _, rfl⟩ := heffect
    obtain ⟨_, hstate, hchanged⟩ := htime _ rfl
    exact ⟨hstate ▸ hterminal, hchanged ▸ hcutoff⟩
  | fire f now => trivial
  | closeVote proposal branch now => trivial
  | revertStatus fromStateId toStateId restored now => trivial
  | anonymize now => trivial

omit [DecidableEq V] in
theorem submitted_lawful (stateId : Uuid) (data : Data V) (changedBy : Text) (applicant : Applicant) (intake : Option Text)
    (now : Time) :
    Lawful (submitted cfg stateId data changedBy applicant intake now) where
  bound := by simp [submitted]
  amount := map_cents_idem _
  approved := rfl
  forgotten := by simp [submitted]

end Steps

section Runs

/-- In a run from a submission whose commits are all in time, the rules hold in every
committed state and every commit is one that they allow. -/
theorem run_lawful (cfg : Config V) (stateId : Uuid) (data : Data V) (changedBy : Text) (applicant : Applicant)
    (intake : Option Text) (now : Time) {es : List (Event (Request V))} {s : Sys (Request V) (Db V) Key Problem}
    (hrun : run (script cfg) ⟨submitted cfg stateId data changedBy applicant intake now, []⟩ es = some s)
    (htime : Guarded InTime (script cfg) ⟨submitted cfg stateId data changedBy applicant intake now, []⟩ es) :
    Lawful s.db ∧
      Guarded (Allowed cfg) (script cfg) ⟨submitted cfg stateId data changedBy applicant intake now, []⟩ es := by
  have hstart : Sound (contract cfg) (⟨submitted cfg stateId data changedBy applicant intake now, []⟩ :
      Sys (Request V) (Db V) Key Problem) := sound_start (submitted_inv stateId data changedBy applicant intake now)
  refine ⟨?_, Guarded.imp script_keeps (fun _ hguar htime => commit_allowed hguar.2.2 htime) hstart htime⟩
  exact guarded_run (J := Lawful) script_keeps (fun hinv _ h hguar htime => commit_lawful hinv h hguar.2.2 htime) hstart
    (submitted_lawful stateId data changedBy applicant intake now) htime hrun

def nameAndSum : Config ℕ where
  keys := [text "name", text "sum"]
  pinnedPii := [text "name"]
  typePii := [text "name"]
  refused := fun _ => []
  promoted := fun data => (data.lookup (text "sum")).map fun n => (n : ℚ)
  editAllowed := fun state => state ≠ 2
  isTerminal := fun state => state = 3

def filed (state : Uuid) : Db ℕ :=
  submitted nameAndSum state [(text "name", 7), (text "sum", 10)] (text "applicant") ⟨none, none, none⟩ none 0

def hiddenPatch (n : ℕ) (now : Time) : Request ℕ := .patch ⟨[(text "sum", n)], text "editor", false, true⟩ now

def lockingFire (decision : Option (Option ℚ)) : Request ℕ := .fire ⟨1, 2, fun _ => true, fun _ => true, decision⟩ 1

def calmWriters : List (Event (Request ℕ)) :=
  .start (hiddenPatch 9 1) :: steps 0 8 ++ .start (lockingFire (some (some 8))) :: steps 1 7 ++
    .start (.anonymize 3) :: steps 2 5

theorem calmWriters_lawful :
    ∃ s, run (script nameAndSum) ⟨filed 1, []⟩ calmWriters = some s ∧ s.db.app.data = [(text "sum", 9)] ∧
      s.db.app.approvedAmount = some 8 ∧ Lawful s.db := by
  have htime : Guarded InTime (script nameAndSum) ⟨filed 1, []⟩ calmWriters := by decide +kernel
  have hrun : (run (script nameAndSum) ⟨filed 1, []⟩ calmWriters).map
      (fun s => (s.db.app.data, s.db.app.approvedAmount)) = some ([(text "sum", 9)], some 8) := by decide +kernel
  obtain ⟨s, hs, heq⟩ := map_eq_some_iff.mp hrun
  obtain ⟨hdata, happroved⟩ := Prod.mk.inj heq
  exact ⟨s, hs, hdata, happroved, (run_lawful nameAndSum 1 [(text "name", 7), (text "sum", 10)] (text "applicant")
    ⟨none, none, none⟩ none 0 hs htime).1⟩

/-- A patch that reads the row before the other transaction commits, and commits after it. -/
def lateEdit (between : Request ℕ) (n : ℕ) : List (Event (Request ℕ)) :=
  .start (hiddenPatch 5 2) :: .step 0 :: .start between :: steps 1 n ++ steps 0 7

def lateErasure : List (Event (Request ℕ)) :=
  .start (.retention 5 8) :: .step 0 :: .start (hiddenPatch 5 7) :: steps 1 8 ++ steps 0 5

theorem lateWriters_not_lawful :
    (∃ s, run (script nameAndSum) ⟨filed 1, []⟩ (lateEdit (lockingFire none) 5) = some s ∧
      ¬ Guarded (Allowed nameAndSum) (script nameAndSum) ⟨filed 1, []⟩ (lateEdit (lockingFire none) 5)) ∧
    (∃ s, run (script nameAndSum) ⟨filed 1, []⟩ (lateEdit (lockingFire (some (some 8))) 7) = some s ∧
      s.db.app.approvedAmount = some 8 ∧ s.db.app.amount = some 5) ∧
    (∃ s, run (script nameAndSum) ⟨filed 1, []⟩ (lateEdit (.anonymize 1) 5) = some s ∧
      (text "name", 7) ∈ s.db.erased ∧ (text "name", 7) ∈ s.db.app.data) ∧
    (∃ s, run (script nameAndSum) ⟨filed 3, []⟩ lateErasure = some s ∧
      ¬ Guarded (Allowed nameAndSum) (script nameAndSum) ⟨filed 3, []⟩ lateErasure) := by
  refine ⟨?_, ?_, ?_, ?_⟩
  · have hrun : (run (script nameAndSum) ⟨filed 1, []⟩ (lateEdit (lockingFire none) 5)).isSome := by decide +kernel
    obtain ⟨s, hs⟩ := isSome_iff_exists.mp hrun
    exact ⟨s, hs, by decide +kernel⟩
  · have hrun : (run (script nameAndSum) ⟨filed 1, []⟩ (lateEdit (lockingFire (some (some 8))) 7)).map
        (fun s => (s.db.app.approvedAmount, s.db.app.amount)) = some (some 8, some 5) := by decide +kernel
    obtain ⟨s, hs, heq⟩ := map_eq_some_iff.mp hrun
    exact ⟨s, hs, Prod.mk.inj heq⟩
  · have hrun : (run (script nameAndSum) ⟨filed 1, []⟩ (lateEdit (.anonymize 1) 5)).map
        (fun s => (decide ((text "name", 7) ∈ s.db.erased), decide ((text "name", 7) ∈ s.db.app.data))) =
          some (true, true) := by decide +kernel
    obtain ⟨s, hs, heq⟩ := map_eq_some_iff.mp hrun
    obtain ⟨herased, hdata⟩ := Prod.mk.inj heq
    exact ⟨s, hs, of_decide_eq_true herased, of_decide_eq_true hdata⟩
  · have hrun : (run (script nameAndSum) ⟨filed 3, []⟩ lateErasure).isSome := by decide +kernel
    obtain ⟨s, hs⟩ := isSome_iff_exists.mp hrun
    exact ⟨s, hs, by decide +kernel⟩

end Runs

end Submission
