import StupaWorkflow.DecisionRuns

/-!
The approved amount stays between zero and the requested amount as long as no revert
brings a decision back that no longer fits: new decisions and patches are checked
against each other, but a restored decision is not.
-/
namespace Decision
open Py Decimals List

def Within (approved requested : Option ℚ) : Prop :=
  ∀ q, approved = some q → 0 ≤ q ∧ ∃ r, requested = some r ∧ q ≤ r

/-- An amount that `check_approved_amount` has passed at some time. -/
def Granted (approved : Option ℚ) : Prop := ∀ q, approved = some q → 0 ≤ q ∧ cents q = q

structure Bounds (d : Db) : Prop where
  apps : ∀ a ∈ d.applications, Within a.approvedAmount a.amount
  rows : ∀ r ∈ d.decisions, Granted r.approvedAmount
  votes : ∀ v ∈ d.votes, ∀ p, v.proposal = some p → Granted p.approvedAmount

theorem checkApprovedAmount_ok {requested approved : Option ℚ} {u : Unit}
    (h : checkApprovedAmount requested approved = .ok u) : Granted approved ∧ Within approved requested := by
  rcases approved with _ | q
  · exact ⟨by simp [Granted], by simp [Within]⟩
  · rcases requested with _ | r
    · cases h
    · obtain ⟨_, hsmall, hle⟩ := bind_ok.mp h
      simp only [raiseUnless_ok, Bool.and_eq_true, decide_eq_true_eq] at hsmall hle
      refine ⟨?_, ?_⟩
      · rintro _ ⟨⟩
        exact ⟨hsmall.1.1, hsmall.2⟩
      · rintro _ ⟨⟩
        exact ⟨hsmall.1.1, r, rfl, hle⟩

section Writes

variable {d : Db}

theorem Bounds.setApp (h : Bounds d) {k : Uuid} {f : Application → Application}
    (hf : ∀ a ∈ d.applications, a.id = k → Within (f a).approvedAmount (f a).amount) : Bounds (d.setApp k f) where
  apps := by
    refine forall_mem_map.mpr fun a ha => ?_
    split
    next hid => exact hf a ha hid
    next => exact h.apps a ha
  rows := h.rows
  votes := h.votes

theorem Bounds.elsewhere (h : Bounds d) (log : List StatusChange) (next : Uuid) (now : Time) :
    Bounds { d with log := log, next := next, now := now } := ⟨h.apps, h.rows, h.votes⟩

theorem Bounds.closing (h : Bounds d) (voteId : Uuid) :
    Bounds { d with votes := Table.modify Vote.id voteId (fun v => { v with status := .closed }) d.votes } where
  apps := h.apps
  rows := h.rows
  votes := by
    refine forall_mem_map.mpr fun v hv => ?_
    split
    · exact h.votes v hv
    · exact h.votes v hv

theorem Bounds.setDecisions (h : Bounds d) {g : ApplicationDecision → ApplicationDecision}
    (hg : ∀ r, (g r).approvedAmount = r.approvedAmount) : Bounds (d.setDecisions g) where
  apps := h.apps
  rows := forall_mem_map.mpr fun r hr => (hg r).symm ▸ h.rows r hr
  votes := h.votes

theorem Bounds.changeStatus (h : Bounds d) (app fromStateId toStateId : Uuid) :
    Bounds (d.changeStatus app fromStateId toStateId) :=
  (h.elsewhere _ _ d.now).setApp fun a ha _ => h.apps a ha

theorem Bounds.record (h : Bounds d) {app : Uuid} {p : DecisionIn} (hp : Granted p.approvedAmount)
    (hfits : ∀ a ∈ d.applications, a.id = app → Within p.approvedAmount a.amount) (decidedBy : Option Text)
    (voteId ev : Option Uuid) : Bounds (recordDecision app p decidedBy voteId ev d) where
  apps := by
    refine forall_mem_map.mpr fun a ha => ?_
    split
    next hid => exact hfits a ha hid
    next => exact h.apps a ha
  rows := by
    rw [recordDecision_decisions]
    intro r hr
    rcases mem_append.mp hr with hr | hr
    · obtain ⟨q, hq, rfl⟩ := mem_map.mp hr
      have : (superseding app d.now q).approvedAmount = q.approvedAmount := by
        unfold superseding
        split <;> rfl
      rw [this]
      exact h.rows q hq
    · rw [mem_singleton.mp hr]
      exact hp
  votes := h.votes

theorem Inv.app_unique (h : Inv d) {k : Uuid} {a b : Application} (ha : d.app k = some a) (hb : b ∈ d.applications)
    (hid : b.id = k) : b = a := by
  obtain ⟨hmem, haid⟩ := Table.of_find ha
  exact inj_on_of_nodup_map h.apps hb hmem (hid.trans haid.symm)

end Writes

section Operations

variable {env : Env} {d d' : Db}

/-- Only one case of a revert can break the bound: the decision that comes back was
granted for more than the application asks for now. -/
def Fits (d : Db) : Request → Prop
  | .revertAudit n =>
    ∀ entry ∈ d.log[n]?, entry.swap = none → ∀ v ∈ d.valid entry.applicationId,
      v.statusEventId = some entry.statusEventId → ∀ p ∈ d.decisions, p.applicationId = entry.applicationId →
        p.supersededAt = some v.decidedAt → ∀ a ∈ d.applications, a.id = entry.applicationId →
          ∀ q ∈ p.approvedAmount, ∃ r ∈ a.amount, q ≤ r
  | _ => True

instance (d : Db) : (r : Request) → Decidable (Fits d r)
  | .revertAudit n =>
    inferInstanceAs (Decidable (∀ entry ∈ d.log[n]?, entry.swap = none → ∀ v ∈ d.valid entry.applicationId,
      v.statusEventId = some entry.statusEventId → ∀ p ∈ d.decisions, p.applicationId = entry.applicationId →
        p.supersededAt = some v.decidedAt → ∀ a ∈ d.applications, a.id = entry.applicationId →
          ∀ q ∈ p.approvedAmount, ∃ r ∈ a.amount, q ≤ r))
  | .fire _ _ _ _ | .openVote _ _ | .closeVote _ _ _ | .patch _ _ => isTrue trivial

theorem fire_bounds {app t : Uuid} {actor : Text} {decision : Option DecisionIn} (hi : Inv d) (h : Bounds d)
    (hop : fire env app t actor decision d = .ok d') : Bounds d' := by
  obtain ⟨decision', _, hop⟩ := bind_ok.mp hop
  obtain ⟨⟨d₁, event⟩, hstage, hop⟩ := bind_ok.mp hop
  obtain rfl := pure_ok.mp hop
  obtain ⟨a, from', to', ha, _, hcheck, rfl⟩ := stageFire_ok hstage
  have hchanged := h.changeStatus app from' to'
  cases decision' with
  | none => exact hchanged
  | some p =>
    obtain ⟨hgranted, hwithin⟩ := checkApprovedAmount_ok (hcheck p rfl)
    refine hchanged.record hgranted ?_ _ _ _
    refine forall_mem_map.mpr fun b hb => ?_
    split
    next hid =>
      rintro -
      rw [hi.app_unique ha hb hid]
      exact hwithin
    next hid => exact fun hid' => absurd hid' hid

theorem openVote_bounds {app : Uuid} {proposal : Option DecisionIn} (h : Bounds d)
    (hop : openVote app proposal d = .ok d') : Bounds d' := by
  obtain ⟨proposal', _, hop⟩ := bind_ok.mp hop
  obtain ⟨a, _, hop⟩ := bind_ok.mp hop
  obtain ⟨_, hcheck, hop⟩ := bind_ok.mp hop
  obtain rfl := pure_ok.mp hop
  refine ⟨h.apps, h.rows, fun v hv p hp => ?_⟩
  rcases mem_append.mp hv with hv | hv
  · exact h.votes v hv p hp
  · rw [mem_singleton.mp hv] at hp
    obtain rfl : proposal' = some p := hp
    exact (checkApprovedAmount_ok hcheck).1

theorem bindingOf_fits {a : Application} {p : DecisionIn} (hp : Granted p.approvedAmount) :
    Granted (bindingOf a p).approvedAmount ∧ Within (bindingOf a p).approvedAmount a.amount := by
  rw [bindingOf]
  rcases hq : p.approvedAmount with _ | q
  · simp [hq, Granted, Within]
  · rcases hr : a.amount with _ | r
    · simp [Granted, Within]
    · by_cases hlt : r < q
      · simp [hlt, Granted, Within]
      · simp only [hlt, if_false]
        refine ⟨hp, fun x hx => ⟨(hp x hx).1, r, rfl, ?_⟩⟩
        rw [hq] at hx
        cases hx
        exact not_lt.mp hlt

theorem closeVote_bounds {voteId : Uuid} {passed : Bool} {actor : Text} (hi : Inv d) (h : Bounds d)
    (hop : closeVote env voteId passed actor d = .ok d') : Bounds d' := by
  obtain ⟨v, votes, hv, rfl, hrest⟩ := closeVote_ok hop
  have hclosing := h.closing voteId
  rcases hrest with rfl | ⟨d₂, row, hrec, hrest⟩
  · exact hclosing
  · have hrecorded : Bounds d₂ := by
      rcases recordPassed_ok hrec with ⟨rfl, _⟩ | ⟨p, a, hp, ha, _, rfl⟩
      · exact hclosing
      · obtain ⟨hgranted, hwithin⟩ := bindingOf_fits (a := a) (h.votes v hv p hp)
        refine hclosing.record hgranted (fun b hb hid => ?_) _ _ _
        rw [hi.app_unique ha hb hid]
        exact hwithin
    rcases hrest with rfl | ⟨from', to', rfl⟩
    · exact hrecorded
    · exact (hrecorded.changeStatus v.applicationId from' to').setDecisions fun r =>
        (withEvent_same row d₂.next r).2.2.2.2.2

theorem patch_bounds {app : Uuid} {newAmount : Option ℚ} (hi : Inv d) (h : Bounds d)
    (hop : patch app newAmount d = .ok d') : Bounds d' := by
  obtain ⟨a, ha, hop⟩ := bind_ok.mp hop
  obtain ⟨_, hcheck, hop⟩ := bind_ok.mp hop
  obtain ⟨_, _, hop⟩ := bind_ok.mp hop
  obtain rfl := pure_ok.mp hop
  have hload := loadApp_ok ha
  refine h.setApp fun b hb hid => ?_
  obtain rfl := hi.app_unique hload hb hid
  intro q hq
  have hq : b.approvedAmount = some q := hq
  have hgranted : Granted b.approvedAmount := by
    rw [hi.amounts b hb]
    cases hv : d.valid b.id with
    | none => simp [Granted, amountOf]
    | some v => exact h.rows v ((valid_iff hi.rows).mp hv).1
  obtain ⟨hnonneg, hcents⟩ := hgranted q hq
  rw [hq] at hcheck
  rcases newAmount with _ | n
  · cases hcheck
  · have hle : q ≤ n := by simpa [checkNewAmount] using hcheck
    refine ⟨hnonneg, cents n, rfl, ?_⟩
    rw [← hcents]
    exact cents_mono hle

theorem revertAudit_bounds {n : ℕ} (hi : Inv d) (h : Bounds d) (hfits : Fits d (.revertAudit n))
    (hop : revertAudit env n d = .ok d') : Bounds d' := by
  obtain ⟨entry, hentry, hr⟩ := revertAudit_ok hi hop
  have hrestored : Bounds (d.restoreStatus entry.applicationId entry.fromStateId) :=
    (h.elsewhere d.log _ d.now).setApp fun a ha _ => h.apps a ha
  cases hr with
  | kept _ => exact hrestored.elsewhere _ _ _
  | swapped v previous hnone hv hsw _ =>
    refine Bounds.elsewhere (d := (swapDecisions v.applicationId (some v) previous _).1) ?_ _ _ _
    have happ := ((valid_iff hi.rows).mp hv.1).2.1
    refine ⟨?_, ?_, h.votes⟩
    · refine forall_mem_map.mpr fun b hb => ?_
      split
      next hid =>
        intro q hq
        have hq : amountOf previous = some q := hq
        obtain ⟨p, hp, hpq⟩ := Option.bind_eq_some_iff.mp hq
        obtain ⟨hmem, hpa, hmark⟩ := hsw.back p hp
        refine ⟨(h.rows p hmem q hpq).1, ?_⟩
        obtain ⟨a, ha, rfl⟩ := mem_map.mp hb
        have hsame : (if a.id = entry.applicationId then { a with currentStateId := entry.fromStateId } else a).amount =
            a.amount := by split <;> rfl
        have hid' : a.id = entry.applicationId := by
          split at hid
          next heq => exact heq
          next => exact hid.trans happ
        rw [hsame]
        exact hfits entry hentry hnone v hv.1 hv.2 p hmem (hpa.trans happ) hmark a ha hid' q hpq
      next => exact hrestored.apps b hb
    · rw [swapDecisions_decisions]
      refine forall_mem_map.mpr fun r hr => ?_
      have hsame : (swapping v.id (previous.map ApplicationDecision.id)
          (d.restoreStatus entry.applicationId entry.fromStateId).now r).approvedAmount = r.approvedAmount := by
        unfold swapping
        split
        · rfl
        · split <;> rfl
      rw [hsame]
      exact h.rows r hr

theorem operate_bounds {r : Request} (hi : Inv d) (h : Bounds d) (hfits : Fits d r) (hop : r.operate env d = .ok d') :
    Bounds d' := by
  cases r with
  | fire app t actor decision => exact fire_bounds hi h hop
  | openVote app proposal => exact openVote_bounds h hop
  | closeVote v passed actor => exact closeVote_bounds hi h hop
  | patch app newAmount => exact patch_bounds hi h hop
  | revertAudit n => exact revertAudit_bounds hi h hfits hop

end Operations

section Runs

def FitsRun : List (Env × Request) → Db → Prop
  | [], _ => True
  | (env, r) :: rest, d => ((r.handle env d).toOption.isSome → Fits d r) ∧ FitsRun rest (r.after env d)

instance decidableFitsRun : (rs : List (Env × Request)) → (d : Db) → Decidable (FitsRun rs d)
  | [], _ => isTrue trivial
  | (env, r) :: rest, d =>
    haveI := decidableFitsRun rest (r.after env d)
    inferInstanceAs (Decidable (_ ∧ _))

/-- At most one valid decision for each application, its amount copied to the
application, and a copied amount between zero and the requested one. -/
structure DecisionInvariant (d : Db) : Prop where
  one : ∀ x ∈ d.decisions, ∀ y ∈ d.decisions, x.applicationId = y.applicationId → x.supersededAt = none →
    y.supersededAt = none → x = y
  amounts : AmountsCopied d
  bound : ∀ a ∈ d.applications, Within a.approvedAmount a.amount

theorem run_bounds {rs : List (Env × Request)} {d : Db} (hb : Between d) (h : Bounds d) (hfits : FitsRun rs d) :
    Between (run rs d) ∧ Bounds (run rs d) := by
  induction rs generalizing d with
  | nil => exact ⟨hb, h⟩
  | cons p rest ih =>
    obtain ⟨env, r⟩ := p
    refine ih (after_between hb) ?_ hfits.2
    show Bounds ((r.handle env d).toOption.getD d)
    cases hop : r.handle env d with
    | error e => exact h
    | ok d' =>
      have hok : Fits d r := hfits.1 (by rw [hop]; rfl)
      have hok' : Fits (d.at env) r := by cases r <;> exact hok
      exact operate_bounds (hb.found env).1 (h.elsewhere d.log d.next _) hok' hop

/-- From applications without a decision, a run whose reverts bring back only decisions
that still fit keeps the decision invariant. -/
theorem run_decisionInvariant {rs : List (Env × Request)} {d : Db} (h : Undecided d) (hfits : FitsRun rs d) :
    DecisionInvariant (run rs d) := by
  have hstart : Bounds d := by
    refine ⟨fun a ha => ?_, by simp [h.decisions], by simp [h.votes]⟩
    simp [Within, h.amounts a ha]
  obtain ⟨hbetween, hbounds⟩ := run_bounds h.between hstart hfits
  exact ⟨hbetween.inv.rows.one, hbetween.inv.amounts, hbounds.apps⟩

section Samples

theorem undoing_invariant : FitsRun undoing asked ∧ DecisionInvariant (run undoing asked) :=
  ⟨by decide +kernel, run_decisionInvariant asked_undecided (by decide +kernel)⟩

/-- Eighty and then sixty were approved, the applicant goes down to seventy, and the
revert of the second decision brings the eighty back. -/
theorem lowered_not_invariant : ¬ DecisionInvariant (run
    [(twoStates, .fire 1 1 (text "chair") (some ⟨some 80, []⟩)), (twoStates, .fire 1 2 (text "chair") (some ⟨some 60, []⟩)),
      (twoStates, .patch 1 (some 70)), (twoStates, .revertAudit 1)] asked) := by
  have hrun : (run [(twoStates, .fire 1 1 (text "chair") (some ⟨some 80, []⟩)),
      (twoStates, .fire 1 2 (text "chair") (some ⟨some 60, []⟩)), (twoStates, .patch 1 (some 70)),
        (twoStates, .revertAudit 1)] asked).applications = [⟨1, 1, 11, some 70, some 80⟩] := by decide +kernel
  intro h
  obtain ⟨_, r, hr, hle⟩ := h.bound _ (hrun ▸ mem_singleton.mpr rfl) 80 rfl
  cases hr
  norm_num at hle

end Samples

end Runs

end Decision
