import StupaWorkflow.Tables
import StupaWorkflow.StorageKeys
import StupaWorkflow.Transactions

/-!
The attendance and the delegations of one meeting as transactions.
-/
namespace Attendance
open Py StorageKeys ReadCommitted
open Prog hiding bind pure

abbrev Time := ℕ

inductive MeetingStatus where
  | planned
  | live
  | closed
  deriving DecidableEq

def MeetingStatus.text : MeetingStatus → Text
  | .planned => Py.text "planned"
  | .live => Py.text "live"
  | .closed => Py.text "closed"

inductive Status where
  | present
  | excused
  | absent
  deriving DecidableEq

inductive SelfStatus where
  | present
  | excused
  deriving DecidableEq

def SelfStatus.status : SelfStatus → Status
  | .present => .present
  | .excused => .excused

inductive Source where
  | self
  | lead
  deriving DecidableEq

/-- One attendance record of the meeting. `byBallot` is no column: it tells that a
ballot wrote the status. -/
structure Record where
  principal : Uuid
  status : Status
  source : Source
  note : Option Text
  byBallot : Bool
  deriving DecidableEq

/-- One delegation of the meeting. `byLead` is no column: it tells that the lead
entered the row. -/
structure Delegation where
  id : Uuid
  delegator : Uuid
  delegate : Uuid
  delegateVoting : Bool
  viaPool : Bool
  createdBy : Option Text
  byLead : Bool
  deriving DecidableEq

inductive VoteStatus where
  | draft
  | open
  | closed
  | cancelled
  deriving DecidableEq

def VoteStatus.text : VoteStatus → Text
  | .draft => Py.text "draft"
  | .open => Py.text "open"
  | .closed => Py.text "closed"
  | .cancelled => Py.text "cancelled"

structure Vote where
  id : Uuid
  status : VoteStatus
  /-- The Gremium that `eligible_group` names. -/
  eligible : Option Uuid
  closesAt : Option Time
  deriving DecidableEq

/-- An account; `sortName` is the folded display name. -/
structure Principal where
  id : Uuid
  sub : Text
  sortName : Text
  deriving DecidableEq

structure Db where
  gremium : Uuid
  principals : List Principal
  status : MeetingStatus
  attendance : List Record
  delegations : List Delegation
  votes : List Vote
  /-- `voted_marker`: the vote and the `sub` of the voter. -/
  markers : List (Uuid × Text)
  /-- `secret_ballot`: the vote and the choice. -/
  ballots : List (Uuid × Text)
  deriving DecidableEq

inductive Key where
  | meeting
  | meetingShare
  | record (principal : Uuid)
  | delegations
  | delegation (id : Uuid)
  | vote (id : Uuid)
  deriving DecidableEq

/-- The share locks of the meeting row exclude the lock for update only. -/
def Key.conflict : Key → Key → Bool
  | .meetingShare, .meetingShare => false
  | .meetingShare, .meeting => true
  | .meeting, .meetingShare => true
  | k, k' => decide (k = k')

instance : LockModes Key where
  conflict := Key.conflict
  symm {k k'} h := by
    cases k <;> cases k' <;> simp_all [Key.conflict, eq_comm]

inductive Problem where
  | notFound (message : Text)
  | forbidden (message : Text)
  | conflict (message code : Text)
  | validation (message : Text) (errors : List (Text × Text))
  | integrityError
  deriving DecidableEq

structure SetSelf where
  requester : Text
  /-- The requester is a current member of the Gremium. -/
  isMember : Bool
  status : SelfStatus
  note : Option Text
  replaceNote : Bool

structure SetFor where
  principal : Uuid
  isMember : Bool
  status : Status
  note : Option Text
  replaceNote : Bool
  /-- The answer of `can_write_meeting` for the caller. -/
  canWrite : Bool

structure Reset where
  principal : Uuid
  canWrite : Bool

structure Cast where
  vote : Uuid
  sub : Text
  isMember : Bool
  /-- The session has no scope cap. -/
  human : Bool
  mayCast : Bool
  /-- The answer of `_stored_choice`. -/
  choice : Except Problem Text
  asDelegation : Bool
  /-- The members that the substitute may represent, and the members with an own vote. -/
  personal : List Uuid
  gremiumWide : Bool
  voters : List Uuid
  /-- The id of the row of a claimed seat. -/
  seat : Uuid
  now : Time

structure Create where
  id : Uuid
  actor : Text
  delegate : Uuid
  delegateVoting : Bool
  allowVoteDelegation : Bool
  eligible : Bool
  inPool : Bool
  isMember : Bool
  allowExternal : Bool
  /-- The start of the meeting. -/
  start : Option Time
  leadMinutes : ℕ
  now : Time

/-- A substitution that the lead enters for a missing member. -/
structure CreateByLead where
  id : Uuid
  actor : Text
  delegator : Uuid
  delegate : Uuid
  delegateVoting : Bool
  canManage : Bool
  allowVoteDelegation : Bool
  eligible : Bool
  inPool : Bool

structure Revoke where
  id : Uuid
  actor : Text
  isAdmin : Bool
  canManage : Bool
  start : Option Time
  now : Time

structure StatusPatch where
  status : MeetingStatus
  canWrite : Bool
  /-- The refusal of the open window or of a missing protokollant. -/
  startRefused : Option Problem

inductive Request where
  | setSelf (s : SetSelf)
  | setFor (s : SetFor)
  | reset (s : Reset)
  | cast (c : Cast)
  | create (c : Create)
  | createByLead (c : CreateByLead)
  | revoke (v : Revoke)
  | patch (p : StatusPatch)
  | prepareVote (v : Uuid) (eligible : Option Uuid) (closesAt : Option Time)
  /-- The refusal of the Gremium of the vote state or of a poll. -/
  | openVote (v : Uuid) (refused : Option Problem)
  | closeVote (v : Uuid)
  | cancelVote (v : Uuid)

abbrev P := Prog Db Key Problem

section Rows

def Db.record (d : Db) (p : Uuid) : Option Record := d.attendance.find? (·.principal = p)

def Db.delegation (d : Db) (id : Uuid) : Option Delegation := d.delegations.find? (·.id = id)

def Db.vote (d : Db) (id : Uuid) : Option Vote := d.votes.find? (·.id = id)

def Db.principal (d : Db) (id : Uuid) : Option Principal := d.principals.find? (·.id = id)

def Db.principalOf (d : Db) (sub : Text) : Option Principal := d.principals.find? (·.sub = sub)

/-- `pool_seat_clause`: the delegate claimed the row. -/
def Db.poolSeat (d : Db) (g : Delegation) : Bool :=
  g.viaPool && d.principals.any fun p => p.id = g.delegate && g.createdBy = some p.sub

def Db.putRecord (row : Record) (d : Db) : Db :=
  { d with attendance := d.attendance.filter (·.principal ≠ row.principal) ++ [row] }

def Db.dropRecord (p : Uuid) (d : Db) : Db :=
  { d with attendance := d.attendance.filter (·.principal ≠ p) }

def Db.insertDelegation (g : Delegation) (d : Db) : Db := { d with delegations := d.delegations ++ [g] }

def Db.dropDelegation (id : Uuid) (d : Db) : Db :=
  { d with delegations := d.delegations.filter (·.id ≠ id) }

def Db.setStatus (s : MeetingStatus) (d : Db) : Db := { d with status := s }

def Db.insertVote (v : Vote) (d : Db) : Db := { d with votes := d.votes ++ [v] }

def Db.setVote (id : Uuid) (s : VoteStatus) (d : Db) : Db :=
  { d with votes := Table.modify (·.id) id ({ · with status := s }) d.votes }

def Db.insertBallot (vote : Uuid) (voter choice : Text) (d : Db) : Db :=
  { d with markers := d.markers ++ [(vote, voter)], ballots := d.ballots ++ [(vote, choice)] }

end Rows

section AttendancePrograms

def delegationActive : Problem :=
  .conflict (text ("The member delegated for this meeting. Revoke the delegation first. After the" ++
    " meeting start, the meeting lead can revoke it while the meeting is live, and an admin at any time."))
    (text "delegation_active")

def setByLead : Problem :=
  .conflict (text "The meeting lead set this attendance. Only the lead can change it.") (text "attendance_set_by_lead")

def attendanceClosed : Problem :=
  .conflict (text "Attendance is read-only once the meeting is closed.") (text "meeting_closed")

def concurrentChange : Problem :=
  .conflict (text "Another change of this attendance ran at the same time. Try again.")
    (text "concurrent_attendance_change")

def notTheLead : Problem := .forbidden (text "not allowed to set members' attendance")

/-- `_meeting(for_write=True)` and `_ensure_not_closed`. -/
def openForAttendance : P Unit := do
  let db ← lockRow fun _ => some .meetingShare
  require (db.status ≠ .closed) attendanceClosed

/-- `_record`. -/
def lockRecord (p : Uuid) : P (Option Record) := do
  let db ← lockRow fun db => (db.record p).map fun _ => .record p
  return db.record p

/-- `_write` and `_flush_write`. An INSERT waits for a parallel one of the same pair. -/
def flushRecord (existing : Option Record) (row : Record) : P Unit := do
  if existing.isNone then
    let db ← lockRow fun _ => some (.record row.principal)
    require (db.record row.principal).isNone concurrentChange
  update (·.putRecord row)

def resolveNote (status : Status) (existing : Option Record) (note : Option Text) (replace : Bool) : Option Text :=
  if status ≠ .excused then none
  else if replace then note
  else existing.bind (·.note)

def releasePoolSeat (member : Uuid) : P Unit := do
  let db ← query
  match db.delegations.find? fun g => g.delegator = member && db.poolSeat g with
  | none => return ()
  | some seat => do
      let _ ← lockRow fun _ => some (.delegation seat.id)
      update (·.dropDelegation seat.id)

def hasDelegation (member : Uuid) : P Bool := do
  let db ← query
  return db.delegations.any (·.delegator = member)

/-- `_delegated`, as the refusal of a check-in. -/
def refuseDelegated (status : Status) (member : Uuid) : P Unit :=
  if status = .present then do
    releasePoolSeat member
    let delegated ← hasDelegation member
    require (!delegated) delegationActive
  else return ()

def setSelf (s : SetSelf) : P Unit := do
  openForAttendance
  let db ← query
  let member ← ofOption ((db.principalOf s.requester).filter fun _ => s.isMember)
    (.forbidden (text "only committee members can mark their attendance"))
  let existing ← lockRecord member.id
  require (!existing.any (·.source = .lead)) setByLead
  refuseDelegated s.status.status member.id
  flushRecord existing
    ⟨member.id, s.status.status, .self, resolveNote s.status.status existing s.note s.replaceNote, false⟩
  publish

def setFor (s : SetFor) : P Unit := do
  require s.canWrite notTheLead
  openForAttendance
  require s.isMember (.notFound (text "principal is not a current member of this committee"))
  refuseDelegated s.status s.principal
  let existing ← lockRecord s.principal
  flushRecord existing
    ⟨s.principal, s.status, .lead, resolveNote s.status existing s.note s.replaceNote, false⟩
  publish

def reset (s : Reset) : P Unit := do
  require s.canWrite notTheLead
  openForAttendance
  let existing ← lockRecord s.principal
  if existing.isSome then update (·.dropRecord s.principal)
  publish

end AttendancePrograms

section DelegationPrograms

def alreadyDelegated : Problem :=
  .conflict (text "The member already delegated for this meeting.") (text "delegation_exists")

def receivesDelegation : Problem :=
  .validation (text "The member receives a delegation for this meeting and cannot delegate on.")
    [(text "meetingId", text "no re-delegation chains")]

def recipientDelegated : Problem :=
  .validation (text "Recipient has delegated their own vote for this meeting.")
    [(text "delegateId", text "no re-delegation chains")]

def delegateAlreadyVoting : Problem :=
  .conflict (text "Recipient already carries a delegated vote for this meeting.") (text "delegate_already_voting")

/-- The chain rules of `_insert` against one row of the meeting. -/
def chainProblem (new g : Delegation) : Option Problem :=
  if g.delegator = new.delegator then some alreadyDelegated
  else if g.delegate = new.delegator then some receivesDelegation
  else if g.delegator = new.delegate then some recipientDelegated
  else if new.delegateVoting && g.delegateVoting && g.delegate = new.delegate then some delegateAlreadyVoting
  else none

/-- `_insert`. -/
def insertDelegation (new : Delegation) : P Unit := do
  let db ← lockRow fun _ => some .delegations
  match db.delegations.findSome? (chainProblem new) with
  | some problem => .fail problem
  | none => do
      update (·.insertDelegation new)
      publish

def delegationDisabled : Problem := .forbidden (text "Delegation is not enabled for this gremium.")

def principalNotFound (id : Uuid) : Problem := .notFound (text "principal " ++ Uuid.text id ++ text " not found")

/-- The deadline of `create`; a pool substitute has no lead time. -/
def Create.inTime (c : Create) : Bool :=
  !c.start.any fun start => start ≤ c.now + if c.inPool then 0 else c.leadMinutes

def create (c : Create) : P Unit := do
  let db ← query
  require c.allowVoteDelegation delegationDisabled
  require (db.status = .planned)
    (.validation (text "Meeting has already started.") [(text "meetingId", text "meeting is not planned")])
  let me ← ofOption (db.principalOf c.actor) (.forbidden (text "Delegator principal not found."))
  let delegate ← ofOption (db.principal c.delegate) (principalNotFound c.delegate)
  require (delegate.id ≠ me.id)
    (.validation (text "Cannot delegate to yourself.") [(text "delegateId", text "must differ from delegator")])
  require c.eligible (.forbidden (text "Only voting members of the meeting's gremium may delegate."))
  require (c.inPool || c.isMember || c.allowExternal)
    (.forbidden (text "Recipient must be a gremium member or a designated substitute."))
  require c.inTime
    (.validation (text "Delegation deadline for this meeting has passed.") [(text "meetingId", text "deadline passed")])
  insertDelegation ⟨c.id, me.id, delegate.id, c.delegateVoting, c.inPool, some c.actor, false⟩

def createByLead (c : CreateByLead) : P Unit := do
  require c.canManage
    (.forbidden (text "Only the meeting lead may enter a substitution for another member."))
  let db ← lockRow fun _ => some .meeting
  require c.allowVoteDelegation delegationDisabled
  require (db.status = .live)
    (.validation (text "The meeting lead enters a substitution only during a live meeting.")
      [(text "meetingId", text "meeting is not live")])
  let delegator ← ofOption (db.principal c.delegator) (principalNotFound c.delegator)
  let delegate ← ofOption (db.principal c.delegate) (principalNotFound c.delegate)
  require (delegate.id ≠ delegator.id)
    (.validation (text "A member cannot substitute for themselves.")
      [(text "delegateId", text "must differ from delegator")])
  require (delegate.sub ≠ c.actor)
    (.forbidden (text "The meeting lead cannot name themselves as the substitute."))
  require c.eligible (.forbidden (text "Only a voting member of the meeting's gremium can be substituted."))
  let db ← query
  require (!(db.record delegator.id).any (·.status = .present))
    (.validation (text "The member is present and needs no substitution.")
      [(text "delegatorId", text "member is not missing")])
  require c.inPool (.forbidden (text "Recipient must be a pool substitute of the member."))
  insertDelegation ⟨c.id, delegator.id, delegate.id, c.delegateVoting, true, some c.actor, true⟩

def revokeAsLead (v : Revoke) (row : Delegation) : P Unit := do
  let db ← query
  if db.status = .live && v.canManage then return ()
  require ((db.principalOf v.actor).any (·.id = row.delegator))
    (.forbidden (text "Only the delegator, the meeting lead of a live meeting, or an admin may revoke."))
  require (db.status = .planned && !v.start.any (· ≤ v.now))
    (.validation (text "Meeting has already started; delegation can no longer be revoked.")
      [(text "id", text "meeting started")])

def revoke (v : Revoke) : P Unit := do
  let db ← query
  let row ← ofOption (db.delegation v.id) (.notFound (text "delegation " ++ Uuid.text v.id ++ text " not found"))
  if !v.isAdmin then revokeAsLead v row
  let _ ← lockRow fun db => (db.delegation v.id).map fun _ => .delegation v.id
  update (·.dropDelegation v.id)
  publish

end DelegationPrograms

section BallotPrograms

/-- `voting_delegation_check`: the right is given away, and the `sub` that a represented ballot runs under. -/
def votingDelegationCheck (db : Db) (vote : Vote) (sub : Text) : Bool × Option Text :=
  if vote.eligible ≠ some db.gremium then (false, none)
  else
    let me := (db.principalOf sub).map (·.id)
    let blocked := db.delegations.any fun g => some g.delegator = me && g.delegateVoting && !db.poolSeat g
    let carried := db.delegations.find? fun g => some g.delegator ≠ me && some g.delegate = me && g.delegateVoting
    (blocked, carried.bind fun g => (db.principal g.delegator).map (·.sub))

/-- The order of `_find_seat`: the personal entries, then the name, then the id. -/
def seatBefore (personal : List Uuid) (p q : Principal) : Bool :=
  let key := fun m : Principal => (!personal.contains m.id, m.sortName, Uuid.text m.id)
  let ((a, n, i), (b, m, j)) := (key p, key q)
  if a ≠ b then !a else if n ≠ m then decide (n < m) else decide (i ≤ j)

/-- `_find_seat`: the substitute and the first free seat. -/
def findSeat (db : Db) (c : Cast) (vote : Vote) : Option (Principal × Principal) :=
  if vote.eligible = some db.gremium && db.status = .live then
    (db.principalOf c.sub).bind fun deputy =>
      if c.personal.isEmpty && !c.gremiumWide then none
      else if db.delegations.any fun g =>
          g.delegator = deputy.id || (g.delegateVoting && g.delegate = deputy.id) then none
      else
        let taken := db.delegations.flatMap fun g => [g.delegator, g.delegate]
        let pool := if c.gremiumWide then c.voters else c.personal.filter c.voters.contains
        let free := pool.filter fun m =>
          !taken.contains m && !(db.record m).any (·.status = .present) && m ≠ deputy.id
        let members := db.principals.filter fun p => free.contains p.id
        ((members.mergeSort (seatBefore c.personal)).head?).map fun first => (deputy, first)
  else none

/-- `claim_pool_seat`: the `sub` of the represented member. -/
def claimPoolSeat (c : Cast) (vote : Vote) : P (Option Text) := do
  let db ← lockRow fun _ => some .delegations
  match findSeat db c vote with
  | none => return none
  | some (deputy, member) => do
      update (·.insertDelegation ⟨c.seat, member.id, deputy.id, true, true, some c.sub, false⟩)
      return some member.sub

def representedVoter (c : Cast) (vote : Vote) (carried : Option Text) : P Text :=
  match carried with
  | some sub => return sub
  | none => do
      let represented ← claimPoolSeat c vote
      ofOption represented (.forbidden (text "No delegated voting right for this ballot."))

def ownVoter (c : Cast) (blocked : Bool) : P Text := do
  require (!blocked) (.forbidden (text "Voting right has been delegated to another member."))
  require c.mayCast (.forbidden (text "Not eligible to vote in this ballot."))
  return c.sub

/-- `mark_present_on_cast`. The source stays, so a lead record stays locked against the self report. -/
def markPresentOnCast (c : Cast) : P Unit := do
  let db ← query
  match (db.principalOf c.sub).filter fun _ => db.status ≠ .closed && c.isMember with
  | none => return ()
  | some member => do
      let existing ← lockRecord member.id
      if existing.any (·.status = .present) then return ()
      let delegated ← hasDelegation member.id
      if delegated then return ()
      flushRecord existing ⟨member.id, .present, existing.elim .self (·.source), none, true⟩

def releasePoolSeatOf (sub : Text) : P Unit := do
  let db ← query
  match db.principalOf sub with
  | none => return ()
  | some member => releasePoolSeat member.id

def takePart (c : Cast) : P Unit := do
  releasePoolSeatOf c.sub
  markPresentOnCast c

def castSecret (vote : Uuid) (voter choice : Text) : P Unit := do
  let db ← query
  require (!db.markers.contains (vote, voter)) (.conflict (text "Already voted.") (text "already_voted"))
  update (·.insertBallot vote voter choice)
  publish

def voteNotFound (id : Uuid) : Problem := .notFound (text "vote " ++ Uuid.text id ++ text " not found")

/-- `_get_vote(for_update=True)`. -/
def lockVote (id : Uuid) : P Vote := do
  let db ← lockRow fun db => (db.vote id).map fun _ => .vote id
  ofOption (db.vote id) (voteNotFound id)

def cast (c : Cast) : P Unit := do
  let vote ← lockVote c.vote
  require (vote.status = .open) (.conflict (text "vote is not open.") (text "vote_not_open"))
  require (!vote.closesAt.any (· ≤ c.now)) (.conflict (text "voting window has closed.") (text "vote_window_closed"))
  require c.human (.forbidden (text "Only a human session can cast a ballot."))
  let db ← query
  let verdict := votingDelegationCheck db vote c.sub
  let voter ← if c.asDelegation then representedVoter c vote verdict.2 else ownVoter c verdict.1
  let choice ← ofExcept c.choice
  if !c.asDelegation then takePart c
  castSecret c.vote voter choice

end BallotPrograms

section MeetingPrograms

/-- `_TRANSITIONS`. -/
def allowedTransition : MeetingStatus → MeetingStatus → Bool
  | .planned, .live | .live, .closed => true
  | _, _ => false

variable {source target : MeetingStatus}

theorem source_of_allowed (h : allowedTransition source target = true) : source ≠ .closed := by
  rintro rfl
  cases target <;> cases h

theorem live_of_allowed (h : allowedTransition source target = true) (hopening : target ≠ .closed) : target = .live := by
  cases target with
  | planned => cases source <;> cases h
  | live => rfl
  | closed => exact absurd rfl hopening

def invalidTransition (source target : MeetingStatus) : Problem :=
  .conflict (text "a meeting cannot change from " ++ source.text ++ text " to " ++ target.text ++
    text "; the status runs planned, live, closed") (text "invalid_status_transition")

def openVoteProblem : Problem :=
  .conflict (text "a vote of this meeting is still open — close or cancel it first") (text "open_vote")

/-- `cancel_drafts_for_meeting`. -/
def cancelDrafts : P Unit := do
  let db ← query
  forEach ((db.votes.filter (·.status = .draft)).map (·.id)) fun id => do
    let db ← lockRow fun _ => some (.vote id)
    if (db.vote id).any (·.status = .draft) then update (·.setVote id .cancelled)

def refuseStart (p : StatusPatch) : P Unit :=
  match p.startRefused with
  | some problem => .fail problem
  | none => return ()

/-- `patch` with a status. A repeat of the current status changes nothing. -/
def patch (p : StatusPatch) : P Unit := do
  let db ← lockRow fun _ => some .meeting
  require p.canWrite (.forbidden (text "not allowed to control this meeting"))
  if p.status ≠ db.status then
    require (allowedTransition db.status p.status) (invalidTransition db.status p.status)
    if p.status = .closed then
      let db ← query
      require (!db.votes.any (·.status = .open)) openVoteProblem
      cancelDrafts
    else refuseStart p
    update (·.setStatus p.status)
  publish

def lockLiveMeeting (plannedOk : Bool) : P Unit := do
  let db ← lockRow fun _ => some .meeting
  require (db.status ≠ .planned || plannedOk)
    (.conflict (text "The meeting has not started. Start it before opening a vote.") (text "meeting_not_started"))
  require (db.status ≠ .closed)
    (.conflict (text "The meeting is closed. A vote can no longer open.") (text "meeting_closed"))

def prepareVote (v : Uuid) (eligible : Option Uuid) (closesAt : Option Time) : P Unit := do
  lockLiveMeeting true
  let db ← lockRow fun _ => some (.vote v)
  require (db.vote v).isNone .integrityError
  update (·.insertVote ⟨v, .draft, eligible, closesAt⟩)
  publish

/-- `open` of a vote of the meeting. -/
def openVote (v : Uuid) (refused : Option Problem) : P Unit := do
  lockLiveMeeting false
  let vote ← lockVote v
  require (vote.status = .draft)
    (.conflict (text "vote is " ++ vote.status.text ++ text ", cannot open.") (text "vote_not_draft"))
  match refused with
  | some problem => .fail problem
  | none => do
      update (·.setVote v .open)
      publish

/-- `close` and `cancel` of an open vote. -/
def endVote (v : Uuid) (status : VoteStatus) (verb : Text) : P Unit := do
  let vote ← lockVote v
  require (vote.status = .open)
    (.conflict (text "vote is " ++ vote.status.text ++ text ", cannot " ++ verb ++ text ".") (text "vote_not_open"))
  update (·.setVote v status)
  publish

end MeetingPrograms

def script : Request → P Unit
  | .setSelf s => setSelf s
  | .setFor s => setFor s
  | .reset s => reset s
  | .cast c => cast c
  | .create c => create c
  | .createByLead c => createByLead c
  | .revoke v => revoke v
  | .patch p => patch p
  | .prepareVote v eligible closesAt => prepareVote v eligible closesAt
  | .openVote v refused => openVote v refused
  | .closeVote v => endVote v .closed (text "close")
  | .cancelVote v => endVote v .cancelled (text "cancel")

end Attendance
