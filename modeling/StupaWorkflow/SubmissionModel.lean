import StupaWorkflow.DecisionModel
import StupaWorkflow.Transactions

/-!
The answers of one application and their versions as transactions: patches, status changes with
their decisions, the anonymization and the retention job.
-/
namespace Submission
open Py Decimals ReadCommitted
open Prog hiding bind pure
open Decision (Problem)

abbrev Uuid := ℕ
abbrev Time := ℕ

/-- Answers by field key; the values are compared as Python compares them. -/
abbrev Data (V : Type) := List (Text × V)

structure FieldChange (V : Type) where
  old : V
  new : V
  deriving DecidableEq

structure DataDiff (V : Type) where
  added : Data V
  removed : Data V
  changed : List (Text × FieldChange V)
  deriving DecidableEq

structure Application (V : Type) where
  currentStateId : Option Uuid
  data : Data V
  amount : Option ℚ
  currency : Option Text
  approvedAmount : Option ℚ
  captureIntake : Option Text
  updatedAt : Time
  deriving DecidableEq

structure Applicant where
  email : Option Text
  name : Option Text
  anonymizedAt : Option Time
  deriving DecidableEq

structure SubmissionVersion (V : Type) where
  version : ℕ
  data : Data V
  changedBy : Text
  diff : Option (DataDiff V)
  deriving DecidableEq

/-- The application row as the checks of a transaction read it, and the versions. -/
structure Seen (V : Type) where
  app : Application V
  versions : List (SubmissionVersion V)
  deriving DecidableEq

/-- The rows of one application. `seen` and `erased` are no columns: they keep what the
last writer had read, and the answers in fields with personal data that were stored
when an anonymization wrote. -/
structure Db (V : Type) where
  app : Application V
  applicant : Option Applicant
  versions : List (SubmissionVersion V)
  seen : Option (Seen V)
  erased : Data V
  deriving DecidableEq

/-- What the pinned form, the type and the flow say: the keys of the fields with the title, the
fields with personal data of the pinned form and of all forms of the type, the fields that the
validation refuses, the promoted amount, and the states. -/
structure Config (V : Type) where
  keys : List Text
  pinnedPii : List Text
  typePii : List Text
  refused : Data V → List Text
  promoted : Data V → Option ℚ
  editAllowed : Uuid → Bool
  isTerminal : Uuid → Bool

structure PatchIn (V : Type) where
  data : Data V
  changedBy : Text
  bypassStateLock : Bool
  preservePii : Bool

/-- A transition that fires on an application: what its flow and its guard say to the row
as it is read, and the accepted states of the budget. -/
structure FireIn (V : Type) where
  fromStateId : Uuid
  toStateId : Uuid
  permitted : Application V → Bool
  accepted : Application V → Bool
  decision : Option (Option ℚ)

inductive Key where
  | application
  | version (number : ℕ)
  deriving DecidableEq

/-- `proposal` and `decision` hold the approved amount, where null means as requested;
`branch` is the transition of a vote outcome, and `restored` the amount of the decision
that a status revert brings back. -/
inductive Request (V : Type) where
  | patch (p : PatchIn V) (now : Time)
  | fire (f : FireIn V) (now : Time)
  | closeVote (proposal : Option (Option ℚ)) (branch : Option (Uuid × Uuid)) (now : Time)
  | revertStatus (fromStateId toStateId : Uuid) (restored : Option (Option ℚ)) (now : Time)
  | anonymize (now : Time)
  | retention (cutoff now : Time)

abbrev P (V : Type) := Prog (Db V) Key Problem

section Diff

variable {V : Type}

def computeDiff [DecidableEq V] (old new : Data V) : DataDiff V where
  added := new.filter fun p => (old.lookup p.1).isNone
  removed := old.filter fun p => (new.lookup p.1).isNone
  changed := old.filterMap fun p =>
    (new.lookup p.1).bind fun v => if p.2 ≠ v then some (p.1, ⟨p.2, v⟩) else none

def isEmptyDiff (diff : DataDiff V) : Bool := diff.added.isEmpty && diff.removed.isEmpty && diff.changed.isEmpty

/-- The diff of a version row: none when there is no change. -/
def storedDiff [DecidableEq V] (old new : Data V) : Option (DataDiff V) :=
  let diff := computeDiff old new
  if isEmptyDiff diff then none else some diff

def withoutKeys (data : Data V) (keys : List Text) : Data V := data.filter fun p => !keys.contains p.1

def scrubDiff (keys : List Text) (diff : DataDiff V) : DataDiff V where
  added := withoutKeys diff.added keys
  removed := withoutKeys diff.removed keys
  changed := diff.changed.filter fun p => !keys.contains p.1

def DataDiff.entries (diff : DataDiff V) : Data V :=
  diff.added ++ diff.removed ++ diff.changed.flatMap fun p => [(p.1, p.2.old), (p.1, p.2.new)]

def SubmissionVersion.entries (v : SubmissionVersion V) : Data V := v.data ++ (v.diff.map DataDiff.entries).getD []

def SubmissionVersion.scrub (keys : List Text) (v : SubmissionVersion V) : SubmissionVersion V :=
  { v with data := withoutKeys v.data keys, diff := v.diff.map (scrubDiff keys) }

def currentVersion (versions : List (SubmissionVersion V)) : ℕ :=
  ((versions.map SubmissionVersion.version).max?).getD 0

def Db.entries (d : Db V) : Data V := d.app.data ++ d.versions.flatMap SubmissionVersion.entries

end Diff

section Rows

variable {V : Type} [DecidableEq V]

def assign {α : Type} [DecidableEq α] (store : α → α) (loaded new current : α) : α :=
  if new = loaded then current else store new

def flushRow (loaded new : Application V) (now : Time) (a : Application V) : Application V :=
  if new = loaded then a
  else
    { a with
      data := assign id loaded.data new.data a.data
      amount := assign (Option.map cents) loaded.amount new.amount a.amount
      currency := assign id loaded.currency new.currency a.currency
      approvedAmount := assign (Option.map cents) loaded.approvedAmount new.approvedAmount a.approvedAmount
      captureIntake := assign id loaded.captureIntake new.captureIntake a.captureIntake
      updatedAt := now }

def Db.setApp (f : Application V → Application V) (d : Db V) : Db V := { d with app := f d.app }

def Db.insertVersion (v : SubmissionVersion V) (d : Db V) : Db V := { d with versions := d.versions ++ [v] }

def Db.note (app : Application V) (versions : List (SubmissionVersion V)) (d : Db V) : Db V :=
  { d with seen := some ⟨app, versions⟩ }

def moveRow (toStateId : Uuid) (now : Time) (a : Application V) : Application V :=
  { a with currentStateId := some toStateId, updatedAt := now }

end Rows

section Checks

variable {V : Type} [DecidableEq V] (cfg : Config V)

/-- An application without a state is not locked. -/
def Config.editable (state : Option Uuid) : Bool := state.all cfg.editAllowed

/-- `_with_stored_pii` for an editor without the PII right, then `_whitelist`. -/
def cleanAnswers (app : Application V) (p : PatchIn V) : Data V :=
  let sent := if p.preservePii then
      withoutKeys p.data cfg.typePii ++ app.data.filter fun q => cfg.typePii.contains q.1
    else p.data
  sent.filter fun q => cfg.keys.contains q.1

/-- An answer with personal data that such an editor cannot see does not stop the patch. -/
def validateAnswers (p : PatchIn V) (clean : Data V) : Except Problem Unit :=
  raiseUnless ((cfg.refused clean).all fun k => p.preservePii && cfg.typePii.contains k) (.validation (text "data"))

def amountCurrency (data : Data V) : Option ℚ × Option Text :=
  match cfg.promoted data with
  | none => (none, none)
  | some q => (some q, some (text "EUR"))

/-- The row as `patch` changes it in its session. -/
def edited (app : Application V) (clean : Data V) : Application V :=
  { app with data := clean, amount := (amountCurrency cfg clean).1, currency := (amountCurrency cfg clean).2 }

/-- The checks of `patch` on the row that it read, and the answers to store. -/
def patchChecks (app : Application V) (p : PatchIn V) : Except Problem (Data V) := do
  raiseUnless (cfg.editable app.currentStateId || p.bypassStateLock) (.conflict (text "application_locked"))
  let clean := cleanAnswers cfg app p
  validateAnswers cfg p clean
  Decision.checkNewAmount app.approvedAmount (amountCurrency cfg clean).1
  return clean

omit [DecidableEq V] in
def decided (f : FireIn V) (app : Application V) : Except Problem (Application V) :=
  match f.decision with
  | none => .ok app
  | some q => do
      raiseUnless (f.accepted app) (.validation (text "decision_not_allowed"))
      Decision.checkApprovedAmount app.amount q
      return { app with approvedAmount := q }

def binding (app : Application V) (proposal : Option ℚ) : Option ℚ :=
  match proposal, app.amount with
  | some q, some r => if r < q then none else some q
  | _, _ => none

/-- `_due_application_ids`: terminal, not anonymized, and not changed since the cutoff. -/
def due (cutoff : Time) (d : Db V) : Bool :=
  d.app.currentStateId.any cfg.isTerminal && d.applicant.any (·.anonymizedAt.isNone) && decide (d.app.updatedAt < cutoff)

def piiKeys : List Text := cfg.pinnedPii ++ cfg.typePii

end Checks

section Programs

variable {V : Type} [DecidableEq V] (cfg : Config V)

def inRange (q : Option ℚ) : Bool := q.all fun q => -maxAmount ≤ cents q && cents q ≤ maxAmount

def flush (loaded new : Application V) (now : Time) : P V Unit := do
  require (inRange new.amount && inRange new.approvedAmount) .integrity
  if new ≠ loaded then
    let _ ← lockRow fun _ => some .application
    update (·.setApp (flushRow loaded new now))

def insertVersion (v : SubmissionVersion V) : P V Unit := do
  let db ← lockRow fun _ => some (.version v.version)
  require (db.versions.all fun w => w.version ≠ v.version) (.conflict (text "concurrent_update"))
  update (·.insertVersion v)

def patch (p : PatchIn V) (now : Time) : P V Unit := do
  let db ← query
  let app := db.app
  let clean ← ofExcept (patchChecks cfg app p)
  let db ← query
  flush app (edited cfg app clean) now
  insertVersion ⟨currentVersion db.versions + 1, clean, p.changedBy, storedDiff app.data clean⟩
  update (·.note app db.versions)
  publish

def moveState (fromStateId toStateId : Uuid) (now : Time) : P V Unit := do
  let db ← lockRow fun _ => some .application
  require (db.app.currentStateId = some fromStateId) (.conflict (text "concurrent_state_change"))
  update (·.setApp (moveRow toStateId now))

/-- `stage_fire` and its commit. -/
def fire (f : FireIn V) (now : Time) : P V Unit := do
  let db ← query
  let app := db.app
  require (app.currentStateId = some f.fromStateId) (.conflict (text "transition_not_available"))
  let new ← ofExcept (decided f app)
  require (f.permitted new) (.conflict (text "guard_failed"))
  moveState f.fromStateId f.toStateId now
  flush app new now
  update (·.note app db.versions)
  publish

def writeApproved (app : Application V) (approved : Option (Option ℚ)) (now : Time) : P V Unit :=
  match approved with
  | none => pure ()
  | some q => do
      let _ ← lockRow fun _ => some .application
      flush app { app with approvedAmount := q } now

def tryStage (branch : Option (Uuid × Uuid)) (now : Time) : P V Unit :=
  match branch with
  | none => pure ()
  | some (fromStateId, toStateId) => do
      let _ ← lockRow fun _ => some .application
      update (·.setApp fun a => if a.currentStateId = some fromStateId then moveRow toStateId now a else a)

def closeVote (proposal : Option (Option ℚ)) (branch : Option (Uuid × Uuid)) (now : Time) : P V Unit := do
  let db ← query
  let app := db.app
  writeApproved app (proposal.map (binding app)) now
  tryStage branch now
  update (·.note app db.versions)
  publish

def revertStatus (fromStateId toStateId : Uuid) (restored : Option (Option ℚ)) (now : Time) : P V Unit := do
  let db ← query
  let app := db.app
  require (app.currentStateId = some toStateId) (.conflict (text "stale_revert"))
  moveState toStateId fromStateId now
  writeApproved app restored now
  update (·.note app db.versions)
  publish

/-- What an anonymization writes: the answers with personal data leave the application and the
versions that it read. -/
def Db.anonymized (app : Application V) (versions : List (SubmissionVersion V)) (now : Time) (d : Db V) : Db V :=
  let keys := piiKeys cfg
  let read := versions.map SubmissionVersion.version
  { d.setApp (flushRow app { app with captureIntake := none, data := withoutKeys app.data keys } now) with
    applicant := d.applicant.map fun _ => ⟨none, none, some now⟩
    versions := d.versions.map fun v => if read.contains v.version then v.scrub keys else v
    erased := d.erased ++ d.entries.filter fun p => keys.contains p.1 }

/-- `anonymize` without its commit; `listed` is the row of the list of due applications. -/
def eraseRows (listed : Option (Application V)) (now : Time) : P V Unit := do
  let db ← lockRow fun _ => some .application
  let app := db.app
  let db ← query
  update (·.anonymized cfg app db.versions now)
  update (·.note (listed.getD app) db.versions)

def anonymize (now : Time) : P V Unit := do
  eraseRows cfg none now
  publish

/-- The list of due applications in its own session, then `_anonymize_one`. -/
def retention (cutoff now : Time) : P V Unit := do
  let db ← query
  require (due cfg cutoff db) .notFound
  eraseRows cfg (some db.app) now
  publish

def script : Request V → P V Unit
  | .patch p now => patch cfg p now
  | .fire f now => fire f now
  | .closeVote proposal branch now => closeVote proposal branch now
  | .revertStatus fromStateId toStateId restored now => revertStatus fromStateId toStateId restored now
  | .anonymize now => anonymize cfg now
  | .retention cutoff now => retention cfg cutoff now

def submitted (stateId : Uuid) (data : Data V) (changedBy : Text) (applicant : Applicant) (intake : Option Text)
    (now : Time) : Db V where
  app := {
    currentStateId := some stateId
    data := data
    amount := (amountCurrency cfg data).1.map cents
    currency := (amountCurrency cfg data).2
    approvedAmount := none
    captureIntake := intake
    updatedAt := now }
  applicant := some applicant
  versions := [⟨1, data, changedBy, none⟩]
  seen := none
  erased := []

end Programs

end Submission
