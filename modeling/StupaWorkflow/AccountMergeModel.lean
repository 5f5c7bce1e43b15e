import Mathlib.Algebra.BigOperators.Group.List.Basic
import StupaWorkflow.Columns
import StupaWorkflow.PyText

/-!
The merge of a principal into another one over the tables that store a principal. The preview and
the merge run the same steps.
-/
namespace AccountMerge
open Py Columns

abbrev Uuid := ℕ

inductive Table where
  | principal | gremiumMembership | roleAssignment | authSession | oauthAuthorizationCode | oauthToken
  | application | applicationDecision | submissionVersion | statusEvent | comment | guestApplicationSettings
  | vote | votedMarker | meetingDelegation | delegationSubstitute
  | meeting | meetingAttendance | meetingGuest | meetingSettings | protocolKeeperPeriod | protocol
  | budgetExpense | invoice | siteConfigVersion | loginSettings | uiLanguage | uiTranslation | formVersion
  | notificationPreference | erasureRequest | auditEntry | backup | auditVerification
  | ticket | ticketNote | ticketEvent | ticketSenderBlock
  | todoBoard | todoColumn | todoCard | todoAssignee | todoComment | todoEvent | todoLink | todoEventSeries
  deriving DecidableEq

inductive Field where
  | id | sub | active | mergedInto | mergedAt | calendarToken
  | createdBy | capturedBy | decidedBy | changedBy | actor | author | updatedBy | grantedBy | requestedBy | handledBy
  | triggeredBy | principalId | protokollantId | reporterPrincipalId | assigneeId | authorId | actorId
  | voteId | voterSub | question | title
  | meetingId | gremiumId | delegatorPrincipalId | delegatePrincipalId | delegateVoting | viaPool
  | memberPrincipalId | substitutePrincipalId | kind | status | source
  | subjectType | action | targetType | targetId
  | ownerId | boardId | columnId | cardId | position | isDone | mentions
  deriving DecidableEq

inductive Value where
  | null
  | bool (b : Bool)
  | num (n : ℕ)
  | id (k : Uuid)
  | text (s : Text)
  | ids (ks : List Uuid)
  deriving DecidableEq

abbrev Row := Columns.Row Field Value

abbrev Db := Database Table Field Value

abbrev Column := Columns.Column Table Field

def rowOf (fields : List (Field × Value)) : Row := fun f => (fields.lookup f).getD .null

def dbOf (tables : List (Table × List Row)) : Db := fun t => (tables.lookup t).getD []

/-- `==` in SQL: NULL equals nothing. -/
def Value.eqSql (a b : Value) : Bool := a = b && a ≠ .null

/-- `!=` in SQL. -/
def Value.neSql (a b : Value) : Bool := a ≠ b && a ≠ .null && b ≠ .null

section Areas

inductive Area where
  | applications | versions | timeline | comments | votes | delegations | substitutes | attendance | meetings | budget
  | config | notifications | roles | privacy | backups | sessions | memberships | calendar | tickets | todos
  deriving DecidableEq

def areas : List Area :=
  [.applications, .versions, .timeline, .comments, .votes, .delegations, .substitutes, .attendance, .meetings, .budget,
    .config, .notifications, .roles, .privacy, .backups, .sessions, .memberships, .calendar, .tickets, .todos]

inductive Count where
  | rewritten
  | combined
  | removed
  deriving DecidableEq

abbrev Tally := Area → Count → ℕ

def tally (area : Area) (kind : Count) (n : ℕ) : Tally := Pi.single area (Pi.single kind n)

structure AreaOut where
  area : Area
  rewritten : ℕ
  combined : ℕ
  removed : ℕ
  deriving DecidableEq

def Tally.out (t : Tally) : List AreaOut := areas.map fun a => ⟨a, t a .rewritten, t a .combined, t a .removed⟩

end Areas

section ColumnLists

/-- `SUB_COLUMNS`: every text column that stores the `sub` of a principal. -/
def subColumns : List (Area × Column) :=
  [(.applications, ⟨.application, .createdBy⟩), (.applications, ⟨.application, .capturedBy⟩),
    (.applications, ⟨.applicationDecision, .decidedBy⟩), (.versions, ⟨.submissionVersion, .changedBy⟩),
    (.timeline, ⟨.statusEvent, .actor⟩), (.comments, ⟨.comment, .author⟩), (.votes, ⟨.votedMarker, .voterSub⟩),
    (.delegations, ⟨.meetingDelegation, .createdBy⟩), (.substitutes, ⟨.delegationSubstitute, .createdBy⟩),
    (.meetings, ⟨.meeting, .createdBy⟩), (.meetings, ⟨.protocol, .author⟩), (.budget, ⟨.budgetExpense, .actor⟩),
    (.budget, ⟨.invoice, .actor⟩), (.config, ⟨.siteConfigVersion, .createdBy⟩),
    (.config, ⟨.guestApplicationSettings, .updatedBy⟩), (.config, ⟨.meetingSettings, .updatedBy⟩),
    (.config, ⟨.loginSettings, .updatedBy⟩), (.config, ⟨.uiLanguage, .updatedBy⟩),
    (.config, ⟨.uiTranslation, .updatedBy⟩), (.roles, ⟨.roleAssignment, .grantedBy⟩),
    (.privacy, ⟨.erasureRequest, .requestedBy⟩), (.privacy, ⟨.erasureRequest, .handledBy⟩),
    (.backups, ⟨.backup, .createdBy⟩), (.backups, ⟨.auditVerification, .triggeredBy⟩)]

/-- `ID_COLUMNS`: every principal id column without a uniqueness rule. -/
def idColumns : List (Area × Column) :=
  [(.delegations, ⟨.meetingDelegation, .delegatorPrincipalId⟩), (.delegations, ⟨.meetingDelegation, .delegatePrincipalId⟩),
    (.meetings, ⟨.meeting, .protokollantId⟩), (.meetings, ⟨.protocolKeeperPeriod, .principalId⟩),
    (.meetings, ⟨.meetingGuest, .decidedBy⟩), (.config, ⟨.formVersion, .createdBy⟩),
    (.tickets, ⟨.ticket, .reporterPrincipalId⟩), (.tickets, ⟨.ticket, .assigneeId⟩),
    (.tickets, ⟨.ticketNote, .authorId⟩), (.tickets, ⟨.ticketEvent, .actorId⟩),
    (.tickets, ⟨.ticketSenderBlock, .createdBy⟩), (.todos, ⟨.todoCard, .createdBy⟩),
    (.todos, ⟨.todoComment, .authorId⟩), (.todos, ⟨.todoEvent, .actorId⟩), (.todos, ⟨.todoLink, .createdBy⟩),
    (.todos, ⟨.todoEventSeries, .createdBy⟩)]

/-- `REMOVED_ROWS`: the rows of the source that go. Rights never move. -/
def removedRows : List (Area × Column) :=
  [(.roles, ⟨.roleAssignment, .principalId⟩), (.sessions, ⟨.authSession, .principalId⟩),
    (.sessions, ⟨.oauthAuthorizationCode, .principalId⟩), (.sessions, ⟨.oauthToken, .principalId⟩)]

/-- `COMBINED_COLUMNS`: the principal columns with a uniqueness rule. -/
def combinedColumns : List Column :=
  [⟨.notificationPreference, .principalId⟩, ⟨.meetingAttendance, .principalId⟩,
    ⟨.delegationSubstitute, .memberPrincipalId⟩, ⟨.delegationSubstitute, .substitutePrincipalId⟩,
    ⟨.todoAssignee, .principalId⟩, ⟨.ticketSenderBlock, .principalId⟩]

end ColumnLists

section Steps

/-- A step returns the tables after it and what it counts. -/
abbrev Step := Db → Db × Tally

def inOrder : List Step → Step
  | [], d => (d, 0)
  | s :: rest, d =>
    let first := s d
    let later := inOrder rest first.1
    (later.1, first.2 + later.2)

def remove (area : Area) (c : Column) (old : Value) (apply : Bool) : Step := fun d =>
  (if apply then delete d c.table (c.holds old) else d, tally area .removed (count d c.table (c.holds old)))

/-- `_rewrite` -/
def rewriteColumn (area : Area) (c : Column) (old new : Value) (apply : Bool) : Step := fun d =>
  (if apply then rewrite c old new d else d, tally area .rewritten (count d c.table (c.holds old)))

/-- The delete runs first, so a removed row is never rewritten. -/
def plainColumns (source target : Row) (apply : Bool) : Step :=
  inOrder (removedRows.map (fun x => remove x.1 x.2 (source .id) apply) ++
    subColumns.map (fun x => rewriteColumn x.1 x.2 (source .sub) (target .sub) apply) ++
    idColumns.map fun x => rewriteColumn x.1 x.2 (source .id) (target .id) apply)

/-- `_combine`: the source rows that the target has already go, the rest is rewritten.
`extra` sets more columns of a rewritten row. -/
def combine (area : Area) (c : Column) (old new : Value) (duplicate : Db → Row → Bool) (extra : Row → Row)
    (apply : Bool) : Step := fun d =>
  let dup := fun r => c.holds old r && duplicate d r
  let combined := count d c.table dup
  if apply then
    let left := delete d c.table dup
    (change left c.table (c.holds old) fun r => c.set new (extra r),
      tally area .rewritten (count left c.table (c.holds old)) + tally area .combined combined)
  else (d, tally area .rewritten (count d c.table (c.holds old) - combined) + tally area .combined combined)

/-- `EXISTS`: another row of the table. -/
def hasRow (d : Db) (t : Table) (p : Row → Bool) : Bool := (d t).any p

/-- A moved self report `absent` becomes a lead entry. -/
def leadEntry (r : Row) : Row :=
  if (r .source).eqSql (.text (text "self")) && (r .status).eqSql (.text (text "absent")) then
    Function.update r .source (.text (text "lead"))
  else r

def selfEntry (old new : Value) (r : Row) : Bool :=
  (r .memberPrincipalId = old && r .substitutePrincipalId = new) ||
    (r .memberPrincipalId = new && r .substitutePrincipalId = old)

def dropSelfEntries (old new : Value) (apply : Bool) : Step := fun d =>
  (if apply then delete d .delegationSubstitute (selfEntry old new) else d,
    tally .substitutes .combined (count d .delegationSubstitute (selfEntry old new)))

def samePoolMember (new : Value) (d : Db) (r : Row) : Bool :=
  hasRow d .delegationSubstitute fun x => (x .gremiumId).eqSql (r .gremiumId) && x .memberPrincipalId = new &&
    (x .substitutePrincipalId).eqSql (r .substitutePrincipalId)

def samePoolSubstitute (new : Value) (d : Db) (r : Row) : Bool :=
  hasRow d .delegationSubstitute fun x => (x .gremiumId).eqSql (r .gremiumId) &&
    x .memberPrincipalId = r .memberPrincipalId && x .substitutePrincipalId = new

def blocked (new : Value) (d : Db) (_ : Row) : Bool := hasRow d .ticketSenderBlock fun x => x .principalId = new

def sameOf (t : Table) (f : Field) (new : Value) (d : Db) (r : Row) : Bool :=
  hasRow d t fun x => x .principalId = new && (x f).eqSql (r f)

def combinedTables (source target : Row) (apply : Bool) : Step :=
  let old := source .id
  let new := target .id
  inOrder
    [combine .notifications ⟨.notificationPreference, .principalId⟩ old new (sameOf .notificationPreference .kind new) id
        apply,
      combine .attendance ⟨.meetingAttendance, .principalId⟩ old new (sameOf .meetingAttendance .meetingId new) leadEntry
        apply,
      dropSelfEntries old new apply,
      combine .substitutes ⟨.delegationSubstitute, .memberPrincipalId⟩ old new (samePoolMember new) id apply,
      combine .todos ⟨.todoAssignee, .principalId⟩ old new (sameOf .todoAssignee .cardId new) id apply,
      combine .tickets ⟨.ticketSenderBlock, .principalId⟩ old new (blocked new) id apply,
      combine .substitutes ⟨.delegationSubstitute, .substitutePrincipalId⟩ old new (samePoolSubstitute new) id apply]

def mentionsOf : Value → List Uuid
  | .ids ks => ks
  | _ => []

def mentioned (old : Value) (r : Row) : Bool := (mentionsOf (r .mentions)).any fun k => Value.id k = old

/-- `jsonb_agg(DISTINCT …)` of the mentions with the source replaced. -/
def replaceMention (old new : Value) (r : Row) : Row :=
  let target := match new with
    | .id k => some k
    | _ => none
  let ks := (mentionsOf (r .mentions)).map fun k => if Value.id k = old then target.getD k else k
  Function.update r .mentions (.ids (ks.dedup.mergeSort (· ≤ ·)))

def rewriteMentions (area : Area) (t : Table) (old new : Value) (apply : Bool) : Step := fun d =>
  (if apply then change d t (mentioned old) (replaceMention old new) else d,
    tally area .rewritten (count d t (mentioned old)))

def chatMentions (source target : Row) (apply : Bool) : Step :=
  inOrder [rewriteMentions .comments .comment (source .id) (target .id) apply,
    rewriteMentions .tickets .ticketNote (source .id) (target .id) apply]

end Steps

section Boards

def numOf : Value → ℕ
  | .num n => n
  | .id k => k
  | _ => 0

/-- `ORDER BY position, id`. -/
def columnBefore (a b : Row) : Bool :=
  numOf (a .position) < numOf (b .position) ||
    (numOf (a .position) = numOf (b .position) && numOf (a .id) ≤ numOf (b .id))

def targets (d : Db) (board : Value) : Option (Value × Value) :=
  let columns := ((d .todoColumn).filter fun c => c .boardId = board).mergeSort columnBefore
  match columns.find? fun c => c .isDone = .bool true, columns.head? with
  | some done, some first => some (first .id, done .id)
  | _, _ => none

def columnOf (d : Db) (card : Row) : Option Row := (d .todoColumn).find? fun c => (c .id).eqSql (card .columnId)

def boardCard (d : Db) (board : Value) (r : Row) : Bool := r .boardId = board && (columnOf d r).isSome

/-- `fold_personal_board` with the number of the moved cards; the board takes its columns along. -/
def foldPersonalBoard (mine theirs : Value) (d : Db) : Option (Db × ℕ) := do
  let (first, done) ← targets d theirs
  let place := fun r : Row =>
    let column := if (columnOf d r).any fun c => c .isDone = .bool true then done else first
    Function.update (Function.update r .boardId theirs) .columnId column
  let moved := change d .todoCard (boardCard d mine) place
  let left := delete (delete moved .todoBoard fun r => r .id = mine) .todoColumn fun r => r .boardId = mine
  return (left, count d .todoCard (boardCard d mine))

def personalBoard (d : Db) (owner : Value) : Option Value :=
  ((d .todoBoard).filter fun b => b .kind = .text (text "personal") && b .ownerId = owner).getLast?.map fun b => b .id

/-- `_todos`: the board of the source changes its owner or is folded. A target board
without a done column stops the merge. -/
def todos (source target : Row) (apply : Bool) (d : Db) : Option (Db × Tally) := do
  let (d₁, t₁) := rewriteMentions .todos .todoComment (source .id) (target .id) apply d
  match personalBoard d₁ (source .id), personalBoard d₁ (target .id) with
  | none, _ => return (d₁, t₁)
  | some mine, none =>
    let owned := change d₁ .todoBoard (fun b => b .id = mine) fun b => Function.update b .ownerId (target .id)
    return (if apply then owned else d₁, t₁ + tally .todos .rewritten 1)
  | some mine, some theirs =>
    if apply then
      let (d₂, moved) ← foldPersonalBoard mine theirs d₁
      return (d₂, t₁ + (tally .todos .rewritten moved + tally .todos .combined 1))
    else
      return (d₁, t₁ + (tally .todos .rewritten (count d₁ .todoCard fun r => r .boardId = mine) +
        tally .todos .combined 1))

end Boards

section Merge

inductive ConflictKind where
  | ballotSameVote
  | delegationSameMeeting
  | delegationVoteTwice
  | delegationChain
  | attendanceDiffers
  | erasureOpen
  deriving DecidableEq

structure ConflictOut where
  kind : ConflictKind
  label : Value := .null
  deriving DecidableEq

inductive Problem where
  | validation (code : Text)
  | notFound (id : Uuid)
  | conflict (code : Text) (errors : List ConflictOut)
  | failed
  deriving DecidableEq

def voteLabel (d : Db) (v : Row) : Value :=
  if v .question = .null then
    match (d .meeting).find? fun m => (m .id).eqSql (v .meetingId) with
    | some m => m .title
    | none => .null
  else v .question

def ballotBy (d : Db) (sub : Value) (v : Row) : Bool :=
  hasRow d .votedMarker fun a => (a .voteId).eqSql (v .id) && a .voterSub = sub

def deleg (d : Db) (m : Row) (p : Row → Bool) : Bool := hasRow d .meetingDelegation fun x => (x .meetingId).eqSql (m .id) && p x

def ofMeetings (d : Db) (kind : ConflictKind) (p : Row → Bool) : List ConflictOut :=
  ((d .meeting).filter p).map fun m => ⟨kind, m .title⟩

/-- `_conflicts`, each with the label of its vote or meeting. -/
def conflicts (source target : Row) (d : Db) : List ConflictOut :=
  let old := source .id
  let new := target .id
  let delegator := fun k x : _ => (x : Row) .delegatorPrincipalId = (k : Value)
  let delegate := fun k x : _ => (x : Row) .delegatePrincipalId = (k : Value)
  let voting := fun k x : _ => delegate k x && (x : Row) .delegateVoting = .bool true
  let ballots := ((d .vote).filter fun v => ballotBy d (source .sub) v && ballotBy d (target .sub) v).map fun v =>
    (⟨.ballotSameVote, voteLabel d v⟩ : ConflictOut)
  let sameMeeting := ofMeetings d .delegationSameMeeting fun m =>
    deleg d m (fun x => delegator old x) && deleg d m (fun x => delegator new x)
  let voteTwice := ofMeetings d .delegationVoteTwice fun m =>
    deleg d m (fun x => voting old x) && deleg d m (fun x => voting new x)
  let chain := ofMeetings d .delegationChain fun m =>
    (deleg d m (fun x => delegator old x) && deleg d m (fun x => delegate new x)) ||
      (deleg d m (fun x => delegator new x) && deleg d m (fun x => delegate old x))
  let attendance := (d .meeting).flatMap fun m =>
    (d .meetingAttendance).flatMap fun a =>
      ((d .meetingAttendance).filter fun b =>
        (a .meetingId).eqSql (m .id) && a .principalId = old && (b .meetingId).eqSql (m .id) && b .principalId = new &&
          (a .status).neSql (b .status)).map fun _ => (⟨.attendanceDiffers, m .title⟩ : ConflictOut)
  let erasures := ((d .erasureRequest).filter fun r =>
    r .status = .text (text "open") && (r .principalId = old || r .principalId = new)).map fun _ =>
      (⟨.erasureOpen, .null⟩ : ConflictOut)
  ballots ++ sameMeeting ++ voteTwice ++ chain ++ attendance ++ erasures

def erased (d : Db) (ids : List Value) : Bool :=
  hasRow d .erasureRequest (fun r => r .status = .text (text "executed") && r .subjectType = .text (text "principal") &&
    ids.contains (r .principalId)) ||
  hasRow d .auditEntry fun r => r .action = .text (text "principal_erased") && r .targetType = .text (text "principal") &&
    ids.contains (r .targetId)

def getPrincipal (d : Db) (k : Uuid) : Except Problem Row :=
  match (d .principal).find? fun r => r .id = .id k with
  | some r => .ok r
  | none => .error (.notFound k)

def load (sourceId targetId : Uuid) (d : Db) : Except Problem (Row × Row) := do
  raiseUnless (sourceId ≠ targetId) (.validation (text "merge_same_principal"))
  let source ← getPrincipal d sourceId
  let target ← getPrincipal d targetId
  raiseUnless (source .mergedInto = .null) (.conflict (text "principal_already_merged") [])
  raiseUnless (target .mergedInto = .null) (.conflict (text "merge_target_merged") [])
  raiseUnless (target .active ≠ .bool false) (.conflict (text "merge_target_inactive") [])
  raiseUnless (!erased d [source .id, target .id]) (.conflict (text "principal_erased") [])
  return (source, target)

/-- `_source_row`: earlier merges into the source move on, the source is marked, and the
membership sync of a merged principal deletes its memberships. -/
def sourceRow (source target : Row) (now : ℕ) (apply : Bool) : Step := fun d =>
  let memberships := count d .gremiumMembership fun r => r .principalId = source .id
  let feed := if source .calendarToken = .null || source .calendarToken = .text [] then 0 else 1
  let earlier := change d .principal (fun r => r .mergedInto = source .id) fun r =>
    Function.update r .mergedInto (target .id)
  let retire := fun r : Row => Function.update (Function.update (Function.update (Function.update r
    .mergedInto (target .id)) .mergedAt (.num now)) .active (.bool false)) .calendarToken .null
  let marked := change earlier .principal (fun r => r .id = source .id) retire
  (if apply then delete marked .gremiumMembership fun r => r .principalId = source .id else d,
    tally .memberships .removed memberships + tally .calendar .removed feed)

structure PreviewOut where
  areas : List AreaOut
  conflicts : List ConflictOut
  canMerge : Bool
  deriving DecidableEq

/-- What a merge reads besides the tables: the `sub` of the admin, whether the admin or the
target holds every right of the source, and the time. -/
structure Env where
  actor : Text
  covered : Bool
  now : ℕ

def previewTally (source target : Row) (env : Env) (d : Db) : Option Tally := do
  let plain := plainColumns source target false d
  let combined := combinedTables source target false plain.1
  let boards ← todos source target false combined.1
  let chat := chatMentions source target false boards.1
  let last := sourceRow source target env.now false chat.1
  return plain.2 + combined.2 + boards.2 + chat.2 + last.2

def mergeTables (source target : Row) (env : Env) (d : Db) : Option (Db × Tally) := do
  let combined := combinedTables source target true d
  let plain := plainColumns source target true combined.1
  let boards ← todos source target true plain.1
  let chat := chatMentions source target true boards.1
  let last := sourceRow source target env.now true chat.1
  return (last.1, combined.2 + plain.2 + boards.2 + chat.2 + last.2)

def orFail {α : Type} (x : Option α) : Except Problem α :=
  match x with
  | some a => .ok a
  | none => .error .failed

def preview (sourceId targetId : Uuid) (env : Env) (d : Db) : Except Problem PreviewOut := do
  let (source, target) ← load sourceId targetId d
  let found := conflicts source target d
  let t ← orFail (previewTally source target env d)
  return ⟨t.out, found, found.isEmpty && env.covered⟩

def merge (sourceId targetId : Uuid) (env : Env) (d : Db) : Except Problem (Db × List AreaOut) := do
  let (source, target) ← load sourceId targetId d
  raiseUnless (source .sub ≠ .text env.actor) (.conflict (text "merge_own_account") [])
  let found := conflicts source target d
  raiseUnless found.isEmpty (.conflict (text "merge_conflict") found)
  raiseUnless env.covered (.conflict (text "merge_privileges") [])
  let (d', t) ← orFail (mergeTables source target env d)
  return (d', t.out)

end Merge

end AccountMerge
