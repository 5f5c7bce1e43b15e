import StupaWorkflow.Decimals
import StupaWorkflow.PyText
import StupaWorkflow.Tables

/-!
The decisions on an application: approval with an amount and conditions.
-/
namespace Decision
open Py Decimals

abbrev Uuid := ℕ
abbrev Time := ℕ

/-- `DecisionIn`: a null amount means as requested. -/
structure DecisionIn where
  approvedAmount : Option ℚ
  conditions : List Text
  deriving DecidableEq

structure Application where
  id : Uuid
  flowVersionId : Uuid
  currentStateId : Uuid
  amount : Option ℚ
  approvedAmount : Option ℚ
  deriving DecidableEq

/-- `before` is no column: it names the decision that was valid directly before this
one was written. -/
structure ApplicationDecision where
  id : Uuid
  applicationId : Uuid
  approvedAmount : Option ℚ
  conditions : List Text
  voteId : Option Uuid
  statusEventId : Option Uuid
  decidedAt : Time
  decidedBy : Option Text
  supersededAt : Option Time
  before : Option Uuid
  deriving DecidableEq

inductive VoteStatus where
  | opened
  | closed
  deriving DecidableEq

structure Vote where
  id : Uuid
  applicationId : Uuid
  proposal : Option DecisionIn
  status : VoteStatus
  deriving DecidableEq

/-- The ids of a swap: the decision that lost its validity and the one that got it. -/
structure DecisionSwap where
  undoneId : Option Uuid
  restoredId : Option Uuid
  deriving DecidableEq

/-- The `status_change` entry of the audit log. `swap` is its pair `decisionUndoneId`
and `decisionRestoredId`, which it has only when a revert changed the decision. -/
structure StatusChange where
  applicationId : Uuid
  fromStateId : Uuid
  toStateId : Uuid
  statusEventId : Uuid
  swap : Option DecisionSwap
  deriving DecidableEq

/-- `next` is where `uuid4` goes on, and `now` the clock at the last request. -/
structure Db where
  applications : List Application
  decisions : List ApplicationDecision
  votes : List Vote
  log : List StatusChange
  next : Uuid
  now : Time
  deriving DecidableEq

structure Transition where
  id : Uuid
  flowVersionId : Uuid
  fromStateId : Uuid
  toStateId : Uuid
  branch : Option Text
  automatic : Bool
  deriving DecidableEq

/-- What a request reads besides these rows: the transitions, the guard, the accepted states of
the budget, whether a vote state can be entered, and whether the Gremium of a vote decides. The
clock moves by `pause` and one. -/
structure Env where
  transitions : List Transition
  guard : Transition → Application → Bool
  accepted : Application → Uuid → Bool
  enterable : Application → Uuid → Bool
  gremiumMismatch : Vote → Bool
  pause : ℕ

inductive Problem where
  | notFound
  | validation (code : Text)
  | conflict (code : Text)
  | integrity
  deriving DecidableEq

section Checks

def maxConditions : ℕ := 20
def maxConditionLength : ℕ := 1000

/-- `_clean_conditions`: each condition trimmed, none empty or too long, not too many. -/
def DecisionIn.clean (p : DecisionIn) : Except Problem DecisionIn := do
  raiseUnless (p.conditions.length ≤ maxConditions) (.validation (text "conditions"))
  let cleaned := p.conditions.map strip
  raiseUnless (cleaned.all fun c => !c.isEmpty && c.length ≤ maxConditionLength) (.validation (text "conditions"))
  return { p with conditions := cleaned }

def cleanOptional : Option DecisionIn → Except Problem (Option DecisionIn)
  | none => .ok none
  | some p => do
      let p ← p.clean
      return some p

/-- `check_approved_amount`: null passes; else at least 0, whole cents, and not above
the requested amount. -/
def checkApprovedAmount (requested approved : Option ℚ) : Except Problem Unit :=
  match approved, requested with
  | none, _ => .ok ()
  | some _, none => .error (.validation (text "approved_amount_invalid"))
  | some a, some r => do
      raiseUnless (0 ≤ a && a ≤ maxAmount && cents a = a) (.validation (text "approved_amount_invalid"))
      raiseUnless (a ≤ r) (.validation (text "approved_amount_exceeds_requested"))

end Checks

section Rows

def Db.app (d : Db) (k : Uuid) : Option Application := d.applications.find? fun a => a.id = k

def Db.loadApp (d : Db) (k : Uuid) : Except Problem Application := ((d.app k).map .ok).getD (.error .notFound)

def Db.setApp (d : Db) (k : Uuid) (f : Application → Application) : Db :=
  { d with applications := Table.modify Application.id k f d.applications }

def Db.setDecisions (d : Db) (f : ApplicationDecision → ApplicationDecision) : Db :=
  { d with decisions := d.decisions.map f }

/-- `ORDER BY decided_at DESC LIMIT 1`. -/
def newest (rows : List ApplicationDecision) : Option ApplicationDecision := rows.argmax ApplicationDecision.decidedAt

/-- The decisions of an application with this `superseded_at`. -/
def Db.marked (d : Db) (app : Uuid) (mark : Option Time) : List ApplicationDecision :=
  d.decisions.filter fun r => r.applicationId = app && r.supersededAt = mark

/-- `valid_decision`. -/
def Db.valid (d : Db) (app : Uuid) : Option ApplicationDecision := newest (d.marked app none)

def amountOf (row : Option ApplicationDecision) : Option ℚ := row.bind ApplicationDecision.approvedAmount

end Rows

section Writes

def newDecision (app : Uuid) (decision : DecisionIn) (decidedBy : Option Text) (voteId statusEventId : Option Uuid)
    (d : Db) : ApplicationDecision where
  id := d.next
  applicationId := app
  approvedAmount := decision.approvedAmount
  conditions := decision.conditions
  voteId := voteId
  statusEventId := statusEventId
  decidedAt := d.now
  decidedBy := decidedBy
  supersededAt := none
  before := (d.valid app).map ApplicationDecision.id

/-- `record_decision`: supersede the valid decision and insert the new row. -/
def recordDecision (app : Uuid) (decision : DecisionIn) (decidedBy : Option Text) (voteId statusEventId : Option Uuid)
    (d : Db) : Db :=
  let row := newDecision app decision decidedBy voteId statusEventId d
  let d' := d.setDecisions fun r =>
    if r.applicationId = app ∧ r.supersededAt = none then { r with supersededAt := some d.now } else r
  { d' with decisions := d'.decisions ++ [row], next := d.next + 1 }.setApp app fun a =>
    { a with approvedAmount := decision.approvedAmount }

/-- `_swap`: make `restored` the valid decision instead of `undone`. -/
def swapDecisions (app : Uuid) (undone restored : Option ApplicationDecision) (d : Db) : Db × DecisionSwap :=
  let undoneId := undone.map ApplicationDecision.id
  let restoredId := restored.map ApplicationDecision.id
  let d' := (d.setDecisions fun r => if some r.id = undoneId then { r with supersededAt := some d.now } else r)
    |>.setDecisions fun r => if some r.id = restoredId then { r with supersededAt := none } else r
  (d'.setApp app fun a => { a with approvedAmount := amountOf restored }, ⟨undoneId, restoredId⟩)

/-- `revert_decision_for_event`: the decision that the status event wrote gives way to
the one that it superseded. -/
def revertDecisionForEvent (app : Uuid) (statusEventId : Uuid) (d : Db) : Db × Option DecisionSwap :=
  match (d.marked app none).find? fun r => r.statusEventId = some statusEventId with
  | none => (d, none)
  | some undone =>
    let previous := newest ((d.marked app (some undone.decidedAt)).filter fun r => r.id ≠ undone.id)
    let (d', swap) := swapDecisions app (some undone) previous d
    (d', some swap)

/-- `redo_decision_swap`: only while the decision that the swap restored is valid. -/
def redoDecisionSwap (app : Uuid) (swap : DecisionSwap) (d : Db) : Db × Option DecisionSwap :=
  let current := d.valid app
  if current.map ApplicationDecision.id ≠ swap.restoredId then (d, none)
  else match swap.undoneId with
    | none =>
      let (d', swap') := swapDecisions app current none d
      (d', some swap')
    | some k =>
      match d.decisions.find? fun r => r.id = k with
      | none => (d, none)
      | some again =>
        if again.applicationId ≠ app then (d, none)
        else
          let (d', swap') := swapDecisions app current (some again) d
          (d', some swap')

end Writes

section Operations

/-- The application with the amount of a decision that its target admits, which the
guard then sees. -/
def applyDecision (env : Env) (a : Application) (toStateId : Uuid) (decision : Option DecisionIn) :
    Except Problem Application :=
  match decision with
  | none => .ok a
  | some p => do
      raiseUnless (env.accepted a toStateId) (.validation (text "decision_not_allowed"))
      checkApprovedAmount a.amount p.approvedAmount
      return { a with approvedAmount := p.approvedAmount }

def Db.changeStatus (d : Db) (app fromStateId toStateId : Uuid) : Db :=
  { d with next := d.next + 1, log := d.log ++ [(⟨app, fromStateId, toStateId, d.next, none⟩ : StatusChange)] }.setApp app
    fun a => { a with currentStateId := toStateId }

/-- `stage_fire`: a status change, with a decision only on a manual fire. It returns the
rows and the status event. -/
def stageFire (env : Env) (app : Uuid) (transitionId : Uuid) (manual : Bool) (actor : Text) (decision : Option DecisionIn)
    (d : Db) : Except Problem (Db × Uuid) := do
  let a ← d.loadApp app
  match env.transitions.find? fun t => t.id = transitionId with
  | none => .error .notFound
  | some t =>
    raiseUnless (t.flowVersionId = a.flowVersionId) .notFound
    raiseUnless (t.fromStateId = a.currentStateId) (.conflict (text "transition_not_available"))
    raiseUnless (!(manual && t.branch.isSome)) (.conflict (text "branch_transition_manual"))
    raiseUnless (!(manual && t.automatic)) (.conflict (text "automatic_transition_manual"))
    let a' ← applyDecision env a t.toStateId decision
    raiseUnless (env.guard t a') (.conflict (text "guard_failed"))
    raiseUnless (env.enterable a t.toStateId) (.conflict (text "no_vote_gremium"))
    let d' := d.changeStatus app t.fromStateId t.toStateId
    match decision with
    | none => return (d', d.next)
    | some p => return (recordDecision app p (some actor) none (some d.next) d', d.next)

def fire (env : Env) (app : Uuid) (transitionId : Uuid) (actor : Text) (decision : Option DecisionIn) (d : Db) :
    Except Problem Db := do
  let decision ← cleanOptional decision
  let (d', _) ← stageFire env app transitionId true actor decision d
  return d'

def openVote (app : Uuid) (proposal : Option DecisionIn) (d : Db) : Except Problem Db := do
  let proposal ← cleanOptional proposal
  let a ← d.loadApp app
  checkApprovedAmount a.amount (proposal.bind DecisionIn.approvedAmount)
  return { d with votes := d.votes ++ [⟨d.next, app, proposal, .opened⟩], next := d.next + 1 }

/-- The decision that a proposal becomes: when the requested amount went below the
approved one, it binds the requested amount. -/
def bindingOf (a : Application) (p : DecisionIn) : DecisionIn :=
  match p.approvedAmount, a.amount with
  | some q, some r => if r < q then { p with approvedAmount := none } else p
  | some _, none => { p with approvedAmount := none }
  | none, _ => p

/-- `_record_proposal`; the row has no status event yet. -/
def recordProposal (v : Vote) (d : Db) : Except Problem (Db × Option Uuid) :=
  match v.proposal with
  | none => .ok (d, none)
  | some p => do
      let a ← d.loadApp v.applicationId
      return (recordDecision v.applicationId (bindingOf a p) none (some v.id) none d, some d.next)

def recordPassed (passed : Bool) (v : Vote) (d : Db) : Except Problem (Db × Option Uuid) :=
  if passed then recordProposal v d else .ok (d, none)

/-- `_try_stage`: the branch of the current state in a savepoint, or nothing. -/
def tryStage (env : Env) (app : Uuid) (branch : Text) (actor : Text) (d : Db) : Option (Db × Uuid) :=
  (d.app app).bind fun a =>
    (env.transitions.find? fun t =>
        t.flowVersionId = a.flowVersionId && t.fromStateId = a.currentStateId && t.branch = some branch).bind fun t =>
      (stageFire env app t.id false actor none d).toOption

def withEvent (row : Option Uuid) (event : Uuid) (r : ApplicationDecision) : ApplicationDecision :=
  if some r.id = row then { r with statusEventId := some event } else r

/-- `close` of an application vote: a passed one writes its proposal as the decision,
also when its branch is blocked. -/
def closeVote (env : Env) (voteId : Uuid) (passed : Bool) (actor : Text) (d : Db) : Except Problem Db :=
  match d.votes.find? fun v => v.id = voteId with
  | none => .error .notFound
  | some v => do
      raiseUnless (v.status = .opened) (.conflict (text "vote_not_open"))
      let d₁ := { d with votes := Table.modify Vote.id voteId (fun v => { v with status := .closed }) d.votes }
      if env.gremiumMismatch v then return d₁
      else
        let (d₂, row) ← recordPassed passed v d₁
        match tryStage env v.applicationId (text (if passed then "pass" else "fail")) actor d₂ with
        | none => return d₂
        | some (d₃, event) => return d₃.setDecisions (withEvent row event)

def checkNewAmount (approved newAmount : Option ℚ) : Except Problem Unit :=
  match approved, newAmount with
  | none, _ => .ok ()
  | some _, none => .error (.validation (text "approved_amount_exceeds_requested"))
  | some q, some n => raiseUnless (q ≤ n) (.validation (text "approved_amount_exceeds_requested"))

/-- The amounts of `patch`. -/
def patch (app : Uuid) (newAmount : Option ℚ) (d : Db) : Except Problem Db := do
  let a ← d.loadApp app
  checkNewAmount a.approvedAmount newAmount
  raiseUnless (newAmount.all fun n => -maxAmount ≤ cents n && cents n ≤ maxAmount) .integrity
  return d.setApp app fun a => { a with amount := newAmount.map cents }

def Db.restoreStatus (d : Db) (app stateId : Uuid) : Db :=
  { d with next := d.next + 1 }.setApp app fun a => { a with currentStateId := stateId }

def revertStatus (env : Env) (app fromStateId toStateId : Uuid) (statusEventId : Uuid) (swap : Option DecisionSwap)
    (d : Db) : Except Problem Db := do
  let a ← d.loadApp app
  raiseUnless (a.currentStateId = toStateId) (.conflict (text "stale_revert"))
  raiseUnless (env.enterable a fromStateId) (.conflict (text "no_vote_gremium"))
  let d₁ := d.restoreStatus app fromStateId
  let (d₂, swapped) := match swap with
    | some s => redoDecisionSwap app s d₁
    | none => revertDecisionForEvent app statusEventId d₁
  return { d₂ with log := d₂.log ++ [⟨app, toStateId, fromStateId, d.next, swapped⟩] }

/-- The swap that `_revert_status` builds from the ids of the entry that it reverts. -/
def StatusChange.rebuiltSwap (entry : StatusChange) : Option DecisionSwap :=
  entry.swap.map fun recorded => ⟨recorded.restoredId, recorded.undoneId⟩

/-- `RevertService._revert_status` of one entry of the log. -/
def revertAudit (env : Env) (auditId : ℕ) (d : Db) : Except Problem Db :=
  match d.log[auditId]? with
  | none => .error .notFound
  | some entry =>
    revertStatus env entry.applicationId entry.fromStateId entry.toStateId entry.statusEventId entry.rebuiltSwap d

end Operations

inductive Request where
  | fire (app transitionId : Uuid) (actor : Text) (decision : Option DecisionIn)
  | openVote (app : Uuid) (proposal : Option DecisionIn)
  | closeVote (voteId : Uuid) (passed : Bool) (actor : Text)
  | patch (app : Uuid) (newAmount : Option ℚ)
  | revertAudit (auditId : ℕ)

def Request.operate (env : Env) : Request → Db → Except Problem Db
  | .fire app t actor decision => Decision.fire env app t actor decision
  | .openVote app proposal => Decision.openVote app proposal
  | .closeVote v passed actor => Decision.closeVote env v passed actor
  | .patch app newAmount => Decision.patch app newAmount
  | .revertAudit n => Decision.revertAudit env n

def Request.handle (env : Env) (r : Request) (d : Db) : Except Problem Db :=
  r.operate env { d with now := d.now + 1 + env.pause }

def Request.after (env : Env) (r : Request) (d : Db) : Db := (r.handle env d).toOption.getD d

def run (rs : List (Env × Request)) (d : Db) : Db := rs.foldl (fun d p => p.2.after p.1 d) d

/-- Applications without a decision, before the first vote. -/
structure Undecided (d : Db) : Prop where
  ids : (d.applications.map Application.id).Nodup
  amounts : ∀ a ∈ d.applications, a.approvedAmount = none
  decisions : d.decisions = []
  votes : d.votes = []
  log : d.log = []

end Decision
