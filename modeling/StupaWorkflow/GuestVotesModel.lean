import StupaWorkflow.AttendanceModel

/-!
The votes of the guests of a public meeting as transactions.
-/
namespace GuestVotes
open Py StorageKeys ReadCommitted
open Prog hiding bind pure
open Attendance (MeetingStatus VoteStatus allowedTransition)

abbrev Time := ℕ

inductive GuestsMode where
  | watch
  | vote
  deriving DecidableEq

inductive GuestStatus where
  | pending
  | admitted
  | rejected
  | removed
  | left
  deriving DecidableEq

def GuestStatus.text : GuestStatus → Text
  | .pending => Py.text "pending"
  | .admitted => Py.text "admitted"
  | .rejected => Py.text "rejected"
  | .removed => Py.text "removed"
  | .left => Py.text "left"

inductive VoteKind where
  | motion
  | election
  | poll
  deriving DecidableEq

structure Meeting where
  status : MeetingStatus
  publicJoin : Bool
  guestsMode : GuestsMode
  joinCode : Option Text
  deriving DecidableEq

structure AgendaItem where
  id : Uuid
  application : Option Uuid
  title : Option Text
  body : Option Text
  nonPublic : Bool
  deriving DecidableEq

/-- `guestsVote` is the key of the vote config. -/
structure Vote where
  id : Uuid
  agendaItem : Option Uuid
  status : VoteStatus
  guestsVote : Bool
  closesAt : Option Time
  deriving DecidableEq

structure Guest where
  id : Uuid
  status : GuestStatus
  tokenHash : Option Text
  decidedAt : Option Time
  admittedAt : Option Time
  deriving DecidableEq

structure Db where
  meeting : Meeting
  /-- The protocol of the meeting exists and is a draft. -/
  protocolDraft : Bool
  /-- The applications with `title_of` their data. -/
  applications : List (Uuid × Option Text)
  items : List AgendaItem
  votes : List Vote
  guests : List Guest
  /-- `voted_marker` of the guests: the vote and the `voter_sub`. -/
  markers : List (Uuid × Text)
  /-- `secret_ballot` of the guests: the vote and the choice. -/
  ballots : List (Uuid × Text)
  deriving DecidableEq

inductive Key where
  | meeting
  | item (id : Uuid)
  | vote (id : Uuid)
  | guest (id : Uuid)
  deriving DecidableEq

inductive Problem where
  | notFound (message : Text) (code : Option Text)
  | forbidden (message : Text) (code : Option Text)
  | unauthorized (message code : Text)
  | rateLimited (message : Text) (retryAfter : ℕ) (code : Text)
  | conflict (message code : Text)
  | validation (message code : Text) (errors : List (Text × Text))
  | integrityError
  deriving DecidableEq

structure SetBody where
  item : Uuid
  body : Option Text
  title : Option Text
  nonPublic : Option Bool

/-- The body of a meeting vote, as far as the guests go. -/
structure VoteBody where
  agendaItem : Uuid
  kind : VoteKind
  guestsVote : Option Bool
  /-- What else `build_meeting_vote` refuses. -/
  refused : Option Problem

structure CreateVote where
  id : Uuid
  body : VoteBody
  draft : Bool
  /-- The refusal of the rights, before any check of the item. -/
  forbidden : Option Problem
  /-- The refusal of a second decision vote, of a repeat or of the state of the application. -/
  refused : Option Problem
  /-- The repeat moves its application back and commits that first. -/
  reopens : Bool
  /-- The refusal of the Gremium of the vote state or of a poll at the open. -/
  openRefused : Option Problem

structure OpenVote where
  vote : Uuid
  forbidden : Option Problem
  /-- The refusal of `assert_application_votable`. -/
  refused : Option Problem
  reopens : Bool
  openRefused : Option Problem

structure UpdateVote where
  vote : Uuid
  body : VoteBody
  forbidden : Option Problem

structure Cast where
  /-- The code after `normalize_code`. -/
  code : Text
  /-- The hash of the device token; none for an empty one. -/
  tokenHash : Option Text
  vote : Uuid
  /-- The answer of `_stored_choice`. -/
  choice : Except Problem Text
  now : Time

structure Join where
  code : Text
  tokenHash : Option Text
  /-- The id and the token hash of a new row. -/
  id : Uuid
  newToken : Text
  now : Time

inductive Decision where
  | admitGuest
  | reject
  | remove
  deriving DecidableEq

structure PatchMeeting where
  status : Option MeetingStatus
  publicJoin : Option Bool
  guestsMode : Option GuestsMode
  /-- The refusal of the rights. -/
  forbidden : Option Problem
  /-- The refusal of the start: the open window or a missing protokollant. -/
  startRefused : Option Problem
  /-- The Gremium has a quorum. -/
  hasQuorum : Bool
  /-- The code of `ensure_code`. -/
  newCode : Text
  now : Time

inductive Request where
  | setBody (b : SetBody)
  | createVote (c : CreateVote)
  | updateVote (u : UpdateVote)
  | openVote (o : OpenVote)
  /-- The refusal of an unmet quorum. -/
  | closeVote (v : Uuid) (refused : Option Problem)
  | cancelVote (v : Uuid)
  | cast (c : Cast)
  | join (j : Join)
  /-- The device joins another meeting. -/
  | joinElsewhere (tokenHash : Option Text) (now : Time)
  | decide (g : Uuid) (verdict : Decision) (now : Time)
  | admitAll (now : Time)
  | leave (code : Text) (tokenHash : Option Text) (now : Time)
  | patch (p : PatchMeeting)
  /-- The protocol of the meeting starts as a draft or stops to be one. -/
  | protocol (draft : Bool)

abbrev P := Prog Db Key Problem

section Rows

def Db.item (d : Db) (id : Uuid) : Option AgendaItem := d.items.find? (·.id = id)

def Db.vote (d : Db) (id : Uuid) : Option Vote := d.votes.find? (·.id = id)

def Db.guest (d : Db) (id : Uuid) : Option Guest := d.guests.find? (·.id = id)

/-- `_by_token`. -/
def Db.guestOf (d : Db) (tokenHash : Option Text) : Option Guest :=
  tokenHash.bind fun h => d.guests.find? (·.tokenHash = some h)

def Vote.seenByGuests (v : Vote) : Bool :=
  (v.status = .open || v.status = .closed) && v.guestsVote

def Db.hasGuestVote (d : Db) (item : Uuid) : Bool :=
  d.votes.any fun v => v.agendaItem = some item && v.seenByGuests

def Db.guestVoteOpen (d : Db) : Bool := d.votes.any fun v => v.status = .open && v.guestsVote

def Db.setItem (id : Uuid) (f : AgendaItem → AgendaItem) (d : Db) : Db :=
  { d with items := Table.modify (·.id) id f d.items }

def Db.setVote (id : Uuid) (f : Vote → Vote) (d : Db) : Db :=
  { d with votes := Table.modify (·.id) id f d.votes }

def Vote.withStatus (status : VoteStatus) (v : Vote) : Vote := { v with status }

def Vote.withGuests (guestsVote : Bool) (v : Vote) : Vote := { v with guestsVote }

def Db.setGuest (id : Uuid) (f : Guest → Guest) (d : Db) : Db :=
  { d with guests := Table.modify (·.id) id f d.guests }

def Db.insertVote (v : Vote) (d : Db) : Db := { d with votes := d.votes ++ [v] }

def Db.insertGuest (g : Guest) (d : Db) : Db := { d with guests := d.guests ++ [g] }

def Db.deleteGuest (id : Uuid) (d : Db) : Db := { d with guests := d.guests.filter (·.id ≠ id) }

def Db.setMeeting (f : Meeting → Meeting) (d : Db) : Db := { d with meeting := f d.meeting }

def Db.setProtocol (draft : Bool) (d : Db) : Db := { d with protocolDraft := draft }

def Db.insertBallot (vote : Uuid) (voter choice : Text) (d : Db) : Db :=
  { d with markers := d.markers ++ [(vote, voter)], ballots := d.ballots ++ [(vote, choice)] }

def guestVoterSub (guest : Uuid) : Text := text "guest:" ++ Uuid.text guest

end Rows

/-- Raise the answer of a check that is no part of this model. -/
def raiseAny : Option Problem → P Unit
  | some problem => .fail problem
  | none => .pure ()

section AgendaPrograms

def itemNotFound (id : Uuid) : Problem := .notFound (text "agenda item " ++ Uuid.text id ++ text " not found") none

def agendaClosed : Problem :=
  .conflict (text "the meeting is closed — its agenda can no longer change") (text "meeting_closed")

def protocolLocked : Problem :=
  .conflict (text "the protocol is no longer a draft — the minutes can no longer change") (text "protocol_locked")

def guestsVoteOnItem : Problem :=
  .conflict (text "Guests voted on this agenda item; it cannot become non-public.") (text "guests_vote_on_item")

/-- `AgendaService.item`. -/
def agendaItem (id : Uuid) : P AgendaItem := do
  let db ← query
  ofOption (db.item id) (itemNotFound id)

/-- `_assert_minutes_open` of an edit of the body or of `nonPublic`. -/
def assertMinutesOpen (edits : Bool) (meeting : Meeting) : P Unit :=
  if edits && meeting.status = .closed then do
    let db ← query
    require db.protocolDraft protocolLocked
  else return ()

def ownTitle (row : AgendaItem) (title : Text) : P (Option Text) :=
  match row.application with
  | none => return some title
  | some application => do
      let db ← query
      return if db.applications.any (· = (application, some title)) then none else some title

def newTitle (row : AgendaItem) : Option Text → P (Option Text)
  | some title => ownTitle row (strip title)
  | none => return row.title

def SetBody.apply (b : SetBody) (row : AgendaItem) (own : Option Text) (stored : AgendaItem) : AgendaItem :=
  { stored with
    body := if b.body.any fun text => some text ≠ row.body then b.body else stored.body
    title := if own ≠ row.title then own else stored.title
    nonPublic := (b.nonPublic.filter (· ≠ row.nonPublic)).getD stored.nonPublic }

def SetBody.changes (b : SetBody) (row : AgendaItem) (own : Option Text) : Bool :=
  b.body.any (some · ≠ row.body) || own ≠ row.title || b.nonPublic.any (· ≠ row.nonPublic)

def assertUnseen (hides : Bool) (item : Uuid) : P Unit :=
  if hides then do
    let db ← query
    require (!db.hasGuestVote item) guestsVoteOnItem
  else return ()

def flushItem (b : SetBody) (row : AgendaItem) (own : Option Text) : P Unit :=
  if b.changes row own then do
    let _ ← lockRow fun _ => some (.item row.id)
    update (·.setItem row.id (b.apply row own))
  else return ()

def setBody (b : SetBody) : P Unit := do
  let db ← query
  let row ← agendaItem b.item
  require (b.title.isNone || db.meeting.status ≠ .closed) agendaClosed
  assertMinutesOpen (b.body.isSome || b.nonPublic.isSome) db.meeting
  let own ← newTitle row b.title
  assertUnseen (b.nonPublic = some true && !row.nonPublic) row.id
  flushItem b row own
  publish

end AgendaPrograms

section VotePrograms

def voteNotFound (id : Uuid) : Problem := .notFound (text "vote " ++ Uuid.text id ++ text " not found") none

def notOfMeeting (id : Uuid) : Problem :=
  .notFound (text "vote " ++ Uuid.text id ++ text " not found in this meeting") none

def assertVoteWindow (meeting : Meeting) (draft : Bool) : P Unit := do
  require (meeting.status ≠ .closed)
    (.conflict (text "the meeting is closed — a vote can no longer open") (text "meeting_closed"))
  require (meeting.status ≠ .planned || draft)
    (.conflict (text "the meeting has not started — start it before opening a vote") (text "meeting_not_started"))

def Meeting.guestsAllowed (m : Meeting) : Bool := m.publicJoin && m.guestsMode = .vote

def buildMeetingVote (meeting : Meeting) (item : AgendaItem) (b : VoteBody) : P Bool := do
  require (b.guestsVote ≠ some true || meeting.guestsAllowed)
    (.validation (text "Guests do not vote in this meeting.") (text "guests_vote_unavailable")
      [(text "guestsVote", text "the meeting does not let guests vote")])
  require (b.guestsVote ≠ some true || !item.nonPublic)
    (.validation (text "Guests never vote on a non-public agenda item.") (text "guests_vote_non_public")
      [(text "guestsVote", text "non-public agenda item")])
  require (b.kind ≠ .election || item.application.isNone)
    (.validation (text "An election belongs to a free-text agenda item.") (text "election_on_application_item")
      [(text "kind", text "an application agenda item")])
  require (b.kind ≠ .poll || item.application.isNone)
    (.validation (text "A poll belongs to a free-text agenda item.") (text "poll_on_application_item")
      [(text "kind", text "an application agenda item")])
  raiseAny b.refused
  return b.guestsVote.getD (meeting.guestsAllowed && !item.nonPublic && b.kind ≠ .election)

def lockLiveMeeting (item : Option Uuid) (plannedOk : Bool) : P Unit := do
  let db ← lockRow fun _ => some .meeting
  require (db.meeting.status ≠ .planned || plannedOk)
    (.conflict (text "The meeting has not started. Start it before opening a vote.") (text "meeting_not_started"))
  require (db.meeting.status ≠ .closed)
    (.conflict (text "The meeting is closed. A vote can no longer open.") (text "meeting_closed"))
  match item with
  | some id => do
      let _ ← agendaItem id
      return ()
  | none => return ()

/-- `_get_vote(for_update=True)`. -/
def lockVote (id : Uuid) : P Vote := do
  let db ← lockRow fun db => (db.vote id).map fun _ => .vote id
  ofOption (db.vote id) (voteNotFound id)

/-- `create_internal`. The key of the new row is taken. -/
def createInternal (v : Uuid) (item : Uuid) (guestsVote plannedOk : Bool) : P Unit := do
  lockLiveMeeting (some item) plannedOk
  let db ← lockRow fun _ => some (.vote v)
  require (db.vote v).isNone .integrityError
  update (·.insertVote ⟨v, some item, .draft, guestsVote, none⟩)
  publish

def voteNotDraft (status : VoteStatus) : Problem :=
  .conflict (text "vote is " ++ status.text ++ text ", cannot open.") (text "vote_not_draft")

/-- `VotingService.open` of a meeting vote. -/
def openMeetingVote (v : Uuid) (refused : Option Problem) : P Unit := do
  lockLiveMeeting none false
  let vote ← lockVote v
  require (vote.status = .draft) (voteNotDraft vote.status)
  raiseAny refused
  update (·.setVote v (Vote.withStatus .open))
  publish

def reopenApplication (reopens : Bool) : P Unit := if reopens then publish else return ()

/-- `open_meeting_vote`. The draft is committed before it opens. -/
def createVote (c : CreateVote) : P Unit := do
  let db ← query
  raiseAny c.forbidden
  assertVoteWindow db.meeting c.draft
  let item ← agendaItem c.body.agendaItem
  let guestsVote ← buildMeetingVote db.meeting item c.body
  reopenApplication c.reopens
  raiseAny c.refused
  createInternal c.id item.id guestsVote c.draft
  if !c.draft then openMeetingVote c.id c.openRefused

def guestsVoteUnavailable : Problem :=
  .conflict (text "Guests no longer vote on this question. Delete it and prepare it again.")
    (text "guests_vote_unavailable")

/-- The check of the guests in `draft_open_checks`. -/
def assertGuestsVote (meeting : Meeting) (vote : Vote) : P Unit :=
  if !vote.guestsVote then return ()
  else match vote.agendaItem with
    | some id => do
        let item ← agendaItem id
        require (meeting.guestsAllowed && !item.nonPublic) guestsVoteUnavailable
    | none => require meeting.guestsAllowed guestsVoteUnavailable

def draftOpenChecks (meeting : Meeting) (votes : List Vote) (o : OpenVote) : P Unit := do
  assertVoteWindow meeting false
  let vote ← ofOption (votes.find? (·.id = o.vote)) (notOfMeeting o.vote)
  require (vote.status = .draft) (voteNotDraft vote.status)
  assertGuestsVote meeting vote
  reopenApplication o.reopens
  raiseAny o.refused

/-- `open_prepared_meeting_vote`. -/
def openVote (o : OpenVote) : P Unit := do
  let db ← query
  raiseAny o.forbidden
  draftOpenChecks db.meeting db.votes o
  openMeetingVote o.vote o.openRefused

/-- `update_meeting_vote` and `update_draft`. -/
def updateVote (u : UpdateVote) : P Unit := do
  let db ← query
  raiseAny u.forbidden
  assertVoteWindow db.meeting true
  let current ← ofOption (db.vote u.vote) (notOfMeeting u.vote)
  require (current.agendaItem = some u.body.agendaItem)
    (.validation (text "A vote stays on its agenda item.") (text "agenda_item_mismatch")
      [(text "agendaItemId", text "not the agenda item of the vote")])
  let item ← agendaItem u.body.agendaItem
  let guestsVote ← buildMeetingVote db.meeting item u.body
  let vote ← lockVote u.vote
  require (vote.status = .draft)
    (.conflict (text "vote is " ++ vote.status.text ++ text "; only a prepared vote can change.")
      (text "vote_not_editable"))
  update (·.setVote u.vote (Vote.withGuests guestsVote))
  publish

/-- `close` and `cancel` of an open vote. -/
def endVote (v : Uuid) (status : VoteStatus) (verb : Text) (refused : Option Problem) : P Unit := do
  let vote ← lockVote v
  require (vote.status = .open)
    (.conflict (text "vote is " ++ vote.status.text ++ text ", cannot " ++ verb ++ text ".") (text "vote_not_open"))
  raiseAny refused
  update (·.setVote v (Vote.withStatus status))
  publish

end VotePrograms

section GuestPrograms

def unknownGuest : Problem := .notFound (text "Unknown guest.") (some (text "guest_not_found"))

def resolve (code : Text) (tokenHash : Option Text) : P (Meeting × Guest) := do
  require tokenHash.isSome (.unauthorized (text "No guest token.") (text "guest_token_missing"))
  let db ← lockRow fun db => (db.guestOf tokenHash).map (.guest ·.id)
  let guest ← ofOption (db.guestOf tokenHash) unknownGuest
  let db ← query
  require (db.meeting.joinCode = some code || guest.status = .admitted) unknownGuest
  require db.meeting.publicJoin (.notFound (text "The meeting is not public.") (some (text "meeting_not_public")))
  return (db.meeting, guest)

def publicItem (item : Option Uuid) : P Bool :=
  match item with
  | none => return false
  | some id => do
      let db ← query
      return (db.item id).any fun row => !row.nonPublic

def castSecret (vote : Uuid) (voter choice : Text) : P Unit := do
  let db ← query
  require (!db.markers.contains (vote, voter)) (.conflict (text "Already voted.") (text "already_voted"))
  update (·.insertBallot vote voter choice)
  publish

def castGuest (c : Cast) (guest : Uuid) : P Unit := do
  let vote ← lockVote c.vote
  require (vote.status = .open) (.conflict (text "vote is not open.") (text "vote_not_open"))
  require (!vote.closesAt.any (· ≤ c.now)) (.conflict (text "voting window has closed.") (text "vote_window_closed"))
  require vote.guestsVote
    (.forbidden (text "Only the members vote in this ballot.") (some (text "vote_members_only")))
  let choice ← ofExcept c.choice
  castSecret c.vote (guestVoterSub guest) choice

def cast (c : Cast) : P Unit := do
  let resolved ← resolve c.code c.tokenHash
  require (resolved.2.status = .admitted)
    (.forbidden (text "Only an admitted guest votes.") (some (text "guest_not_admitted")))
  require (resolved.1.guestsMode = .vote)
    (.forbidden (text "The guests only watch this meeting.") (some (text "guests_watch_only")))
  let db ← query
  let vote ← ofOption (db.vote c.vote) (voteNotFound c.vote)
  let isPublic ← publicItem vote.agendaItem
  require isPublic (voteNotFound c.vote)
  castGuest c resolved.2.id

/-- `RETRY_AFTER` in seconds. -/
def retrySeconds : ℕ := 180

def retryAfter (g : Guest) (now : Time) : Option ℕ :=
  if g.status = .rejected || g.status = .removed then
    g.decidedAt.bind fun decided => if now < decided + retrySeconds then some (decided + retrySeconds - now) else none
  else none

def checkRetry (g : Guest) (now : Time) : P Unit :=
  match retryAfter g now with
  | some wait => .fail (.rateLimited (text "You can ask again in a few minutes.") wait (text "retry_later"))
  | none => return ()

def unknownCode : Problem := .notFound (text "Unknown join code.") (some (text "join_code_unknown"))

def Guest.askAgain (g : Guest) : Guest := { g with status := .pending, decidedAt := none }

def Guest.dropToken (g : Guest) : Guest := { g with tokenHash := none }

def rejoin (g : Guest) (now : Time) : P Unit := do
  require (g.status ≠ .admitted) (.conflict (text "You are already admitted.") (text "already_admitted"))
  checkRetry g now
  update (·.setGuest g.id Guest.askAgain)

/-- `_join_new` with the old row of the device in this meeting. -/
def joinNew (existing : Option Guest) (j : Join) : P Unit := do
  match existing with
  | none => pure ()
  | some g =>
    checkRetry g j.now
    update (·.setGuest g.id Guest.dropToken)
  let db ← lockRow fun _ => some (.guest j.id)
  require (db.guest j.id).isNone .integrityError
  update (·.insertGuest ⟨j.id, .pending, some j.newToken, none, none⟩)

def join (j : Join) : P Unit := do
  let db ← lockRow fun _ => some .meeting
  require (db.meeting.joinCode = some j.code && db.meeting.status ≠ .closed && db.meeting.publicJoin) unknownCode
  let db ← lockRow fun db => (db.guestOf j.tokenHash).map (.guest ·.id)
  match db.guestOf j.tokenHash with
  | some g =>
    if g.status = .pending || g.status = .admitted || g.status = .rejected then rejoin g j.now
    else joinNew (some g) j
  | none => joinNew none j
  publish

def Guest.release (now : Time) (g : Guest) : Guest :=
  if g.status = .pending || g.status = .admitted then
    { g with status := .left, decidedAt := some now, tokenHash := none }
  else { g with tokenHash := none }

/-- `_release_old` for a row of this meeting when the device joins another one. -/
def joinElsewhere (tokenHash : Option Text) (now : Time) : P Unit := do
  let db ← lockRow fun db => (db.guestOf tokenHash).map (.guest ·.id)
  match db.guestOf tokenHash with
  | some g => do
      update (·.setGuest g.id (Guest.release now))
      publish
  | none => return ()

def leave (code : Text) (tokenHash : Option Text) (now : Time) : P Unit := do
  let resolved ← resolve code tokenHash
  update (·.setGuest resolved.2.id (Guest.release now))
  publish

def assertOpen (meeting : Meeting) : P Unit := do
  require (meeting.status ≠ .closed) (.conflict (text "The meeting is closed.") (text "meeting_closed"))
  require meeting.publicJoin
    (.conflict (text "Public participation is off for this meeting.") (text "meeting_not_public"))

def Decision.expect : Decision → GuestStatus
  | .admitGuest | .reject => .pending
  | .remove => .admitted

def Decision.status : Decision → GuestStatus
  | .admitGuest => .admitted
  | .reject => .rejected
  | .remove => .removed

def Guest.decided (status : GuestStatus) (now : Time) (g : Guest) : Guest :=
  { g with status, decidedAt := some now, admittedAt := if status = .admitted then some now else g.admittedAt }

/-- `_decide`. -/
def decideGuest (id : Uuid) (verdict : Decision) (now : Time) : P Unit := do
  let db ← lockRow fun _ => some .meeting
  assertOpen db.meeting
  let db ← lockRow fun db => (db.guest id).map (.guest ·.id)
  let guest ← ofOption (db.guest id)
    (.notFound (text "guest " ++ Uuid.text id ++ text " not found") (some (text "guest_not_found")))
  require (guest.status = verdict.expect)
    (.conflict (text "The guest is " ++ guest.status.text ++ text ".")
      (text (if verdict.expect = .pending then "guest_not_pending" else "guest_not_admitted")))
  update (·.setGuest guest.id (Guest.decided verdict.status now))
  publish

def eachGuest (status : GuestStatus) (w : Uuid → Db → Db) : P Unit := do
  let db ← query
  forEach ((db.guests.filter (·.status = status)).map (·.id)) fun id => do
    let db ← lockRow fun _ => some (.guest id)
    if (db.guest id).any (·.status = status) then update (w id)

def admitAll (now : Time) : P Unit := do
  let db ← lockRow fun _ => some .meeting
  assertOpen db.meeting
  eachGuest .pending fun id => (·.setGuest id (Guest.decided .admitted now))
  publish

end GuestPrograms

section MeetingPrograms

/-- `switch_off`: the requests go and the guests are removed. -/
def switchOff (now : Time) : P Unit := do
  eachGuest .pending fun id => (·.deleteGuest id)
  eachGuest .admitted fun id => (·.setGuest id (Guest.decided .removed now))

/-- The checks of `_apply_public` on the old and the new settings. -/
def refusePublic (meeting : Meeting) (newPublic : Bool) (newMode : GuestsMode) (hasQuorum : Bool) : P Unit := do
  let db ← query
  require (meeting.guestsMode ≠ .vote || newMode ≠ .watch || !db.guestVoteOpen)
    (.conflict (text "A vote with guests is open. Close it before the guests only watch.") (text "guest_vote_open"))
  require (!newPublic || meeting.publicJoin || !hasQuorum)
    (.validation (text "Public participation needs a gremium without a quorum.") (text "public_join_needs_no_quorum")
      [(text "publicJoin", text "the gremium has a quorum")])

def Meeting.withPublic (newPublic : Bool) (newMode : GuestsMode) (newCode : Text) (m : Meeting) : Meeting :=
  { m with
    publicJoin := newPublic
    guestsMode := newMode
    joinCode := if newPublic && m.joinCode.isNone then some newCode else m.joinCode }

def applyPublic (meeting : Meeting) (p : PatchMeeting) : P Unit := do
  let newPublic := p.publicJoin.getD meeting.publicJoin
  let newMode := p.guestsMode.getD meeting.guestsMode
  if (meeting.publicJoin, meeting.guestsMode) = (newPublic, newMode) then return ()
  refusePublic meeting newPublic newMode p.hasQuorum
  update (·.setMeeting (Meeting.withPublic newPublic newMode p.newCode))
  if meeting.publicJoin && !newPublic then switchOff p.now

/-- `purge_on_close`: DELETE of the rows that never got admitted, UPDATE of the others. -/
def purgeOnClose : P Unit := do
  let db ← query
  forEach (db.guests.map (·.id)) fun id => do
    let db ← lockRow fun _ => some (.guest id)
    if (db.guest id).any (·.admittedAt.isNone) then update (·.deleteGuest id)
    else update (·.setGuest id Guest.dropToken)

/-- `cancel_drafts_for_meeting`. -/
def cancelDrafts : P Unit := do
  let db ← query
  forEach ((db.votes.filter (·.status = .draft)).map (·.id)) fun id => do
    let db ← lockRow fun _ => some (.vote id)
    if (db.vote id).any (·.status = .draft) then update (·.setVote id (Vote.withStatus .cancelled))

def invalidTransition (source target : MeetingStatus) : Problem :=
  .conflict (text "a meeting cannot change from " ++ source.text ++ text " to " ++ target.text ++
    text "; the status runs planned, live, closed") (text "invalid_status_transition")

def openVoteProblem : Problem :=
  .conflict (text "a vote of this meeting is still open — close or cancel it first") (text "open_vote")

def refuseClose (closing : Bool) : P Unit :=
  if closing then do
    let db ← query
    require (!db.votes.any (·.status = .open)) openVoteProblem
  else return ()

def closeMeeting (closing : Bool) : P Unit :=
  if closing then do
    cancelDrafts
    purgeOnClose
  else return ()

/-- `patch` with a status, `publicJoin` or `guestsMode`. -/
def patch (p : PatchMeeting) : P Unit := do
  let db ← lockRow fun _ => some .meeting
  raiseAny p.forbidden
  let meeting := db.meeting
  let target := p.status.getD meeting.status
  let changes : Bool := target ≠ meeting.status
  require (!changes || allowedTransition meeting.status target) (invalidTransition meeting.status target)
  refuseClose (changes && target = .closed)
  require (meeting.status ≠ .closed || (p.publicJoin.isNone && p.guestsMode.isNone))
    (.conflict (text "the session is closed — its settings can no longer be changed") (text "meeting_closed"))
  applyPublic meeting p
  raiseAny (if changes && target = .live then p.startRefused else none)
  closeMeeting (changes && target = .closed)
  update (·.setMeeting fun m => { m with status := target })
  publish

def setProtocol (draft : Bool) : P Unit := do
  update (·.setProtocol draft)
  publish

end MeetingPrograms

def script : Request → P Unit
  | .setBody b => setBody b
  | .createVote c => createVote c
  | .updateVote u => updateVote u
  | .openVote o => openVote o
  | .closeVote v refused => endVote v .closed (text "close") refused
  | .cancelVote v => endVote v .cancelled (text "cancel") none
  | .cast c => cast c
  | .join j => join j
  | .joinElsewhere tokenHash now => joinElsewhere tokenHash now
  | .decide g verdict now => decideGuest g verdict now
  | .admitAll now => admitAll now
  | .leave code tokenHash now => leave code tokenHash now
  | .patch p => patch p
  | .protocol draft => setProtocol draft

end GuestVotes
