import StupaWorkflow.Transactions
import StupaWorkflow.VotingTally

/-!
The vote store and its operations, each a transaction over the committed rows.
-/
namespace Voting
open Py ReadCommitted
open Prog hiding bind pure

abbrev Time := ℤ

inductive VoteStatus where
  | draft
  | open
  | closed
  | cancelled
  deriving DecidableEq

inductive VoteKind where
  | motion
  | election
  | poll
  deriving DecidableEq

/-- `vote.config` together with `vote.kind`: the two columns are written together. -/
inductive Config where
  | motion (c : VoteConfig)
  | election (c : ElectionConfig)
  | poll (c : PollConfig)

namespace Config
open Prog hiding bind pure

def kind : Config → VoteKind
  | .motion _ => .motion
  | .election _ => .election
  | .poll _ => .poll

def guestsVote : Config → Bool
  | .motion c => c.guestsVote
  | .election c => c.guestsVote
  | .poll c => c.guestsVote

end Config

structure RunoffOut where
  candidateIds : List Text
  seats : ℕ
  voteId : Option ℕ
  deriving DecidableEq

structure LotOut where
  among : List Text
  seats : ℕ
  drawn : Option (List Text)
  drawnAt : Option Time
  drawnBy : Option Text
  byName : Option Text
  deriving DecidableEq

structure ElectionResultOut where
  counts : Counts
  abstentions : ℕ
  ballots : ℕ
  yes : Option ℕ
  no : Option ℕ
  elected : List Text
  runoff : Option RunoffOut
  lot : Option LotOut
  deriving DecidableEq

def resultOf (o : ElectionOutcome) : ElectionResultOut :=
  { counts := o.counts
    abstentions := o.abstentions
    ballots := o.ballots
    yes := o.yes
    no := o.no
    elected := o.elected
    runoff := if o.result = .runoff then some ⟨o.tied, o.openSeats, none⟩ else none
    lot := if o.result = .tie then some ⟨o.tied, o.openSeats, none, none, none, none⟩ else none }

structure Proposal where
  approvedAmount : Option ℚ
  conditions : Option Text
  deriving DecidableEq

structure Vote where
  applicationId : Option ℕ
  meetingId : Option ℕ
  agendaItemId : Option ℕ
  eligibleGroup : ℕ
  question : Option Text
  config : Config
  proposal : Option Proposal
  eligibleCount : Option ℕ
  opensStateId : Option ℕ
  opensAt : Option Time
  closesAt : Option Time
  closedAt : Option Time
  status : VoteStatus
  result : Option VoteResult
  resultBranchTransitionId : Option ℕ
  presentMembers : Option ℕ
  presentGuests : Option ℕ
  parentVoteId : Option ℕ
  round : ℕ
  electionResult : Option ElectionResultOut
  pollResult : Option PollOutcome
  remindedAt : Option Time

inductive MeetingStatus where
  | planned
  | live
  | closed
  deriving DecidableEq

structure Meeting where
  status : MeetingStatus
  gremiumId : Option ℕ
  agendaItems : List ℕ
  deriving DecidableEq

structure Application where
  amount : Option ℚ
  voteGremiumId : Option ℕ
  inVoteState : Bool
  deriving DecidableEq

/-- The committed rows. `ballots` and `markers` list the `secret_ballot` choices
and the `voted_marker` voters of each vote, `ids` the votes in creation order. -/
structure Db where
  votes : ℕ → Option Vote
  ids : List ℕ
  ballots : ℕ → List Text
  markers : ℕ → List Text
  meetings : ℕ → Option Meeting
  applications : ℕ → Option Application

def Db.empty (meetings : ℕ → Option Meeting) (applications : ℕ → Option Application) : Db :=
  ⟨fun _ => none, [], fun _ => [], fun _ => [], meetings, applications⟩

namespace Db
open Prog hiding bind pure

def insertVote (v : ℕ) (row : Vote) (d : Db) : Db :=
  { d with votes := Function.update d.votes v (some row), ids := d.ids ++ [v] }

/-- `UPDATE vote SET ... WHERE id = v` on the columns that `f` sets. -/
def updateVote (v : ℕ) (f : Vote → Vote) (d : Db) : Db :=
  { d with votes := Function.update d.votes v ((d.votes v).map f) }

def insertMarker (v : ℕ) (voter : Text) (d : Db) : Db :=
  { d with markers := Function.update d.markers v (d.markers v ++ [voter]) }

def insertBallot (v : ℕ) (choice : Text) (d : Db) : Db :=
  { d with ballots := Function.update d.ballots v (d.ballots v ++ [choice]) }

end Db

/-- The locks of the store: a meeting row, a vote row, and the unique index of
the markers. -/
inductive Key where
  | meeting (m : ℕ)
  | vote (v : ℕ)
  | marker (v : ℕ) (voter : Text)
  deriving DecidableEq

inductive Problem where
  | notFound
  | duplicateKey
  | meetingNotStarted
  | meetingClosed
  | decisionNotAllowed
  | approvedAmountInvalid
  | approvedAmountExceedsRequested
  | voteNotEditable
  | voteNotDraft
  | voteGremiumMismatch
  | closesAtTooSoon
  | voteNotOpen
  | voteWindowClosed
  | forbidden
  | voteMembersOnly
  | invalidChoice
  | alreadyVoted
  | quorumNotMet
  | notAPoll
  | pollNotEditable
  | pollHasAnswers
  | pollInvalid
  | notAnElection
  | noLotPending
  | lotAlreadyDrawn
  | valueError
  deriving DecidableEq

abbrev P := Prog Db Key Problem

/-- A ballot of any kind as the request carries it. A mapping has each key once. -/
inductive Choice where
  | option (s : Text)
  | list (ids : List Text)
  | answers (pairs : List (Text × Text)) (unique : (pairs.map (·.1)).Nodup)
  deriving DecidableEq

namespace ElectionConfig
open Prog hiding bind pure

def storedChoice (c : ElectionConfig) : Choice → Except Problem Text
  | .option s =>
    if c.yesNo && electionReservedIds.contains s then .ok s else .error .invalidChoice
  | .list ids =>
    if c.yesNo then .error .invalidChoice
    else if ¬ ids.Nodup then .error .invalidChoice
    else if c.seats < ids.length then .error .invalidChoice
    else if ¬ ids ⊆ c.candidateIds then .error .invalidChoice
    else .ok (encodeElectionChoice ids)
  | .answers _ _ => .error .invalidChoice

end ElectionConfig

namespace PollConfig
open Prog hiding bind pure

def storedChoice (c : PollConfig) (choice : Choice) : Except Problem Text :=
  match c.mode, choice with
  | .date, .answers pairs _ =>
    if ¬ (pairs.map (·.1) ⊆ c.optionIds ∧ c.optionIds ⊆ pairs.map (·.1)) then .error .invalidChoice
    else if ¬ pairs.map (·.2) ⊆ [yesKey, maybeKey, noKey] then .error .invalidChoice
    else .ok (encodePollAnswers pairs)
  | .date, _ => .error .invalidChoice
  | _, .list ids =>
    if ¬ ids.Nodup then .error .invalidChoice
    else if c.choiceLimit < ids.length then .error .invalidChoice
    else if ¬ ids ⊆ c.optionIds then .error .invalidChoice
    else .ok (encodeElectionChoice ids)
  | _, _ => .error .invalidChoice

end PollConfig

def storedChoice (config : Config) (choice : Choice) : Except Problem Text :=
  match config with
  | .poll c => c.storedChoice choice
  | .election c => c.storedChoice choice
  | .motion c =>
    match choice with
    | .option s => if c.options.contains s then .ok s else .error .invalidChoice
    | _ => .error .invalidChoice

def getVote (v : ℕ) : P Vote := do
  let d ← lockRow fun d => (d.votes v).map fun _ => .vote v
  ofOption (d.votes v) .notFound

def lockLiveMeeting (m : ℕ) (agendaItem : Option ℕ) (plannedOk : Bool) : P Unit := do
  let d ← lockRow fun d => (d.meetings m).map fun _ => .meeting m
  let meeting ← ofOption (d.meetings m) .notFound
  require (meeting.status ≠ .planned || plannedOk) .meetingNotStarted
  require (meeting.status ≠ .closed) .meetingClosed
  require (agendaItem.all fun a => meeting.agendaItems.contains a) .notFound

/-- At most two decimals, not negative, not above `maxAmount`. -/
def maxAmount : ℚ := 9999999999 + 99 / 100

def checkApprovedAmount (requested approved : Option ℚ) : Except Problem Unit :=
  match approved with
  | none => .ok ()
  | some a =>
    match requested with
    | none => .error .approvedAmountInvalid
    | some amount =>
      if a < 0 ∨ maxAmount < a ∨ (a * 100).den ≠ 1 then .error .approvedAmountInvalid
      else if amount < a then .error .approvedAmountExceedsRequested
      else .ok ()

def checkProposal (application : Option ℕ) (proposal : Option Proposal) : P Unit :=
  match application with
  | none => require proposal.isNone .decisionNotAllowed
  | some a => do
      let d ← query
      let app ← ofOption (d.applications a) .notFound
      ofExcept (checkApprovedAmount app.amount (proposal.bind (·.approvedAmount)))

structure VoteCreate where
  config : Config
  eligibleGroup : ℕ
  question : Option Text
  parentVoteId : Option ℕ
  round : ℕ
  eligibleCount : Option ℕ
  opensStateId : Option ℕ
  closesAt : Option Time
  resultBranchTransitionId : Option ℕ
  proposal : Option Proposal

def VoteCreate.row (p : VoteCreate) (application meeting agendaItem : Option ℕ) : Vote :=
  { applicationId := application
    meetingId := meeting
    agendaItemId := agendaItem
    eligibleGroup := p.eligibleGroup
    question := p.question
    config := p.config
    proposal := p.proposal
    eligibleCount := p.eligibleCount
    opensStateId := p.opensStateId
    opensAt := none
    closesAt := p.closesAt
    closedAt := none
    status := .draft
    result := none
    resultBranchTransitionId := p.resultBranchTransitionId
    presentMembers := none
    presentGuests := none
    parentVoteId := p.parentVoteId
    round := p.round
    electionResult := none
    pollResult := none
    remindedAt := none }

def insert (v : ℕ) (row : Vote) : P Unit := do
  let d ← lockRow fun _ => some (.vote v)
  require (d.votes v).isNone .duplicateKey
  update (Db.insertVote v row)
  publish

def createInternal (v : ℕ) (payload : VoteCreate) (application meeting agendaItem : Option ℕ)
    (plannedOk : Bool) : P Unit := do
  match meeting with
  | some m => lockLiveMeeting m agendaItem plannedOk
  | none => pure ()
  checkProposal application payload.proposal
  insert v (payload.row application meeting agendaItem)

def updateDraft (v : ℕ) (payload : VoteCreate) (meeting : ℕ) : P Unit := do
  let vote ← getVote v
  require (vote.meetingId = some meeting) .notFound
  require (vote.status = .draft) .voteNotEditable
  checkProposal vote.applicationId payload.proposal
  update (Db.updateVote v fun row =>
    { row with
      config := payload.config
      question := payload.question
      eligibleCount := payload.eligibleCount
      proposal := payload.proposal })
  publish

def voteGremiumId (d : Db) (vote : Vote) : ℕ :=
  match vote.meetingId.bind fun m => (d.meetings m).bind (·.gremiumId) with
  | some g => g
  | none => vote.eligibleGroup

def voteGremiumMismatch (d : Db) (vote : Vote) : Bool :=
  match vote.applicationId.bind d.applications with
  | none => false
  | some app => app.inVoteState && app.voteGremiumId ≠ some (voteGremiumId d vote)

def minRuntime : ℤ := 3600

def checkOpen (vote : Vote) (now : Time) : Except Problem Unit :=
  match vote.config, vote.meetingId with
  | .poll _, none =>
    match vote.closesAt with
    | none => .error .closesAtTooSoon
    | some c => if c < now + minRuntime then .error .closesAtTooSoon else .ok ()
  | _, _ => .ok ()

def openDraft (v : ℕ) (now : Time) (eligibleCount : Option ℕ) : P Unit := do
  let vote ← getVote v
  require (vote.status = .draft) .voteNotDraft
  let d ← query
  require (!voteGremiumMismatch d vote) .voteGremiumMismatch
  ofExcept (checkOpen vote now)
  update (Db.updateVote v fun row =>
    { row with
      eligibleCount := eligibleCount.or row.eligibleCount
      opensAt := some now
      status := .open })
  publish

/-- The meeting row is locked before the vote row, as the meeting close does. -/
def openVote (v : ℕ) (now : Time) (eligibleCount : Option ℕ) : P Unit := do
  let d ← query
  match (d.votes v).bind (·.meetingId) with
  | some m => lockLiveMeeting m none false
  | none => pure ()
  openDraft v now eligibleCount

def inWindow (vote : Vote) (now : Time) : Bool := vote.closesAt.all fun c => now < c

/-- Insert the marker and, when it is new, the ballot without an identity. -/
def castSecret (v : ℕ) (voter choice : Text) : P Unit := do
  let d ← lockRow fun _ => some (.marker v voter)
  require (!(d.markers v).contains voter) .alreadyVoted
  update (Db.insertMarker v voter)
  update (Db.insertBallot v choice)
  publish

/-- An own or a represented ballot. `capped` marks a token session; `voter` is what the
roster and the delegations of the moment answer: the `sub` the ballot runs
under, or a refusal. -/
def cast (v : ℕ) (capped : Bool) (voter : Except Problem Text) (choice : Choice) (now : Time) :
    P Unit := do
  let vote ← getVote v
  require (vote.status = .open) .voteNotOpen
  require (inWindow vote now) .voteWindowClosed
  require (!capped) .forbidden
  let voter ← ofExcept voter
  let stored ← ofExcept (storedChoice vote.config choice)
  castSecret v voter stored

def guestVoterPrefix : Text := text "guest:"

def guestVoterSub (guest : ℕ) : Text := guestVoterPrefix ++ decimal guest

def castGuest (v : ℕ) (guest : ℕ) (choice : Choice) (now : Time) : P Unit := do
  let vote ← getVote v
  require (vote.status = .open) .voteNotOpen
  require (inWindow vote now) .voteWindowClosed
  require vote.config.guestsVote .voteMembersOnly
  let stored ← ofExcept (storedChoice vote.config choice)
  castSecret v (guestVoterSub guest) stored

/-- A `SELECT` without `ORDER BY` returns the rows in some order. -/
structure RowOrder where
  apply : List Text → List Text
  perm : ∀ l, (apply l).Perm l

/-- What a close reads outside the store. `clock` is the time of a manual close,
`present` and `admitted` the attendance of the meeting, `staged` the branch
transition that the flow could stage. -/
structure CloseInput where
  now : Option Time
  clock : Time
  order : RowOrder
  present : ℕ
  admitted : List ℕ
  staged : Option ℕ

/-- Only the cron passes `now`, so only it closes an expired vote with the quorum missed. -/
def checkClosable (vote : Vote) (met : Bool) (now : Option Time) : Except Problem Unit :=
  let windowExpired := match now, vote.closesAt with
    | some n, some c => decide (c ≤ n)
    | _, _ => false
  if !met && !windowExpired then .error .quorumNotMet else .ok ()

def guestAttendance (guestsVote : Bool) (admitted : List ℕ) (markers : List Text) : ℕ :=
  if guestsVote then
    ((admitted.map guestVoterSub) ++ markers.filter fun m => guestVoterPrefix <+: m).eraseDups.length
  else admitted.length

def fixAttendance (c : CloseInput) (markers : List Text) (row : Vote) : Vote :=
  match row.meetingId with
  | none => row
  | some _ =>
    let guests := guestAttendance row.config.guestsVote c.admitted markers
    { row with
      presentMembers := some c.present
      presentGuests := some guests
      eligibleCount := if row.config.guestsVote then some (c.present + guests) else row.eligibleCount }

def closedRow (c : CloseInput) (choices markers : List Text) (row : Vote) : Vote :=
  let eligible := row.eligibleCount.getD 0
  let fixed := fixAttendance c markers row
  let ended := { fixed with status := .closed, closedAt := some (c.now.getD c.clock) }
  match row.config with
  | .motion config =>
    let outcome := result config (tally config.options choices) eligible
    { ended with
      result := some (if outcome.quorumMet then outcome.result else .rejected)
      resultBranchTransitionId :=
        if row.applicationId.isSome then c.staged.or row.resultBranchTransitionId
        else row.resultBranchTransitionId }
  | .election config =>
    let outcome := tallyElection choices config eligible
    { ended with result := some outcome.result, electionResult := some (resultOf outcome) }
  | .poll config => { ended with result := none, pollResult := some (tallyPoll choices config) }

def closeQuorum (vote : Vote) (choices : List Text) : Bool :=
  let eligible := vote.eligibleCount.getD 0
  match vote.config with
  | .motion config => (result config (tally config.options choices) eligible).quorumMet
  | .election config => (tallyElection choices config eligible).quorumMet
  | .poll _ => true

def close (v : ℕ) (c : CloseInput) : P Unit := do
  let vote ← getVote v
  require (vote.status = .open) .voteNotOpen
  let d ← query
  let choices := c.order.apply (d.ballots v)
  ofExcept (checkClosable vote (closeQuorum vote choices) c.now)
  let d ← query
  update (Db.updateVote v (closedRow c choices (d.markers v)))
  publish

def releaseRunoffLink (v : ℕ) (vote : Vote) : P Unit :=
  match vote.config, vote.parentVoteId with
  | .election _, some parent => do
      let d ← lockRow fun d => (d.votes parent).map fun _ => .vote parent
      match (d.votes parent).bind (·.electionResult) with
      | none => pure ()
      | some stored =>
        match stored.runoff with
        | none => pure ()
        | some runoff =>
          if runoff.voteId = some v then
            update (Db.updateVote parent fun row =>
              { row with electionResult := some { stored with runoff := some { runoff with voteId := none } } })
          else pure ()
  | _, _ => pure ()

def cancelledRow (now : Time) (row : Vote) : Vote :=
  { row with status := .cancelled, closedAt := some now }

/-- Set a loaded vote to cancelled, without a commit. -/
def markCancelled (v : ℕ) (vote : Vote) (now : Time) : P Unit := do
  update (Db.updateVote v (cancelledRow now))
  releaseRunoffLink v vote

def cancel (v : ℕ) (now : Time) : P Unit := do
  let vote ← getVote v
  require (vote.status = .open) .voteNotOpen
  markCancelled v vote now
  publish

/-- Lock the rows of a statement one after the other. A row that no longer
matches when its lock is granted drops out. -/
def lockRows (cond : Vote → Bool) : List ℕ → P (List (ℕ × Vote))
  | [] => pure []
  | v :: vs => do
      let d ← lockRow fun d => ((d.votes v).filter cond).map fun _ => .vote v
      let rest ← lockRows cond vs
      match (d.votes v).filter cond with
      | none => pure rest
      | some row => pure ((v, row) :: rest)

def draftOrphaned (opensState left : Option ℕ) (leftIsVote : Bool) : Bool :=
  match left, opensState with
  | none, _ => false
  | some _, none => leftIsVote
  | some l, some o => l = o

def orphaned (vote : Vote) (left : Option ℕ) (leftIsVote : Bool) : Bool :=
  vote.status ≠ .draft || draftOrphaned vote.opensStateId left leftIsVote

/-- Cancel the votes that a state change of the application orphans. `isVoteState`
tells whether the left state is a vote state. -/
def cancelForApplication (application : ℕ) (now : Time) (left entered : Option ℕ) (isVoteState : Bool) :
    P Unit := do
  let cond : Vote → Bool := fun row =>
    row.applicationId = some application && (row.status = .open || row.status = .draft)
  let d ← query
  let rows ← lockRows cond (d.ids.filter fun v => (d.votes v).any cond)
  let stateLeft := left.isSome && left ≠ entered
  let unboundDraft := rows.any fun p => p.2.status = .draft && p.2.opensStateId.isNone
  let leftIsVote := stateLeft && unboundDraft && isVoteState
  let gone := rows.filter fun p => orphaned p.2 (if stateLeft then left else none) leftIsVote
  forEach gone fun p => markCancelled p.1 p.2 now
  publish

def cancelDraftsForMeeting (meeting : ℕ) (now : Time) : P Unit := do
  let cond : Vote → Bool := fun row => row.meetingId = some meeting && row.status = .draft
  let d ← query
  let rows ← lockRows cond (d.ids.filter fun v => (d.votes v).any cond)
  forEach rows fun p => markCancelled p.1 p.2 now
  publish

def drawnRow (stored : ElectionResultOut) (lot : LotOut) (drawn : List Text) (now : Time)
    (sub name : Text) (row : Vote) : Vote :=
  { row with
    result := some .elected
    electionResult := some
      { stored with
        elected := stored.elected ++ drawn
        lot := some { lot with
          drawn := some drawn, drawnAt := some now, drawnBy := some sub, byName := some name } } }

def drawLotOf (v : ℕ) (choose : List Text → Text) (now : Time) (sub name : Text) : P Unit := do
  let vote ← getVote v
  require (vote.config.kind = .election && vote.status = .closed) .notAnElection
  let stored ← ofOption vote.electionResult .notAnElection
  let lot ← ofOption stored.lot .noLotPending
  require lot.drawn.isNone .lotAlreadyDrawn
  let drawn ← ofOption (drawLot choose lot.seats lot.among) .valueError
  update (Db.updateVote v (drawnRow stored lot drawn now sub name))
  publish

structure PollOptionIn where
  label : Option Text
  start : Option Time
  ends : Option Time

/-- `maxChoices` is `none` when the body does not name it. -/
structure PollPatch where
  question : Option Text
  options : Option (List PollOptionIn)
  maxChoices : Option (Option ℕ)
  closesAt : Option Time

/-- The server gives the ids `o1`, `o2`, ... in the given order. -/
def numberOptions (options : List PollOptionIn) : List PollOption :=
  (options.zipIdx 1).map fun (o, n) => ⟨111 :: decimal n, o.label, o.start, o.ends⟩

def patchedQuestion (question : Option Text) : Except Problem (Option Text) :=
  match question.map strip with
  | some [] => .error .pollInvalid
  | q => .ok q

def patchedConfig (payload : PollPatch) (c : PollConfig) : Except Problem (Option PollConfig) :=
  if payload.options.isSome || payload.maxChoices.isSome then
    let options := payload.options.getD (c.options.map fun o => ⟨o.label, o.start, o.ends⟩)
    match PollConfig.build c.mode (numberOptions options) (payload.maxChoices.getD c.maxChoices)
        c.secret c.guestsVote with
    | none => .error .pollInvalid
    | some new => .ok (some new)
  else .ok none

def checkPatchedEnd (vote : Vote) (closesAt : Option Time) (now : Time) : Except Problem Unit :=
  match closesAt with
  | none => .ok ()
  | some c => if vote.meetingId.isSome ∨ c < now + minRuntime then .error .closesAtTooSoon else .ok ()

def patchedRow (question : Option Text) (config : Option PollConfig) (closesAt : Option Time)
    (row : Vote) : Vote :=
  { row with
    question := question.or row.question
    config := (config.map .poll).getD row.config
    closesAt := closesAt.or row.closesAt
    remindedAt := if closesAt.isSome then none else row.remindedAt }

/-- Change the question, the options or the end of a poll without a ballot. -/
def patchPoll (v : ℕ) (payload : PollPatch) (now : Time) : P Unit := do
  let vote ← getVote v
  match vote.config with
  | .poll stored => do
      require (vote.status = .draft || vote.status = .open) .pollNotEditable
      let d ← query
      require ((d.ballots v).length + (d.markers v).length = 0) .pollHasAnswers
      let question ← ofExcept (patchedQuestion payload.question)
      let config ← ofExcept (patchedConfig payload stored)
      ofExcept (checkPatchedEnd vote payload.closesAt now)
      update (Db.updateVote v (patchedRow question config payload.closesAt))
      publish
  | _ => fail .notAPoll

inductive Request where
  | create (v : ℕ) (payload : VoteCreate) (application meeting agendaItem : Option ℕ) (plannedOk : Bool)
  | updateDraft (v : ℕ) (payload : VoteCreate) (meeting : ℕ)
  | openVote (v : ℕ) (now : Time) (eligibleCount : Option ℕ)
  | cast (v : ℕ) (capped : Bool) (voter : Except Problem Text) (choice : Choice) (now : Time)
  | castGuest (v : ℕ) (guest : ℕ) (choice : Choice) (now : Time)
  | close (v : ℕ) (input : CloseInput)
  | cancel (v : ℕ) (now : Time)
  | cancelForApplication (application : ℕ) (now : Time) (left entered : Option ℕ) (isVoteState : Bool)
  | cancelDraftsForMeeting (meeting : ℕ) (now : Time)
  | drawLot (v : ℕ) (choose : List Text → Text) (now : Time) (sub name : Text)
  | patchPoll (v : ℕ) (payload : PollPatch) (now : Time)

def script : Request → P Unit
  | .create v payload application meeting agendaItem plannedOk =>
    createInternal v payload application meeting agendaItem plannedOk
  | .updateDraft v payload meeting => updateDraft v payload meeting
  | .openVote v now eligibleCount => openVote v now eligibleCount
  | .cast v capped voter choice now => cast v capped voter choice now
  | .castGuest v guest choice now => castGuest v guest choice now
  | .close v input => close v input
  | .cancel v now => cancel v now
  | .cancelForApplication a now left entered isVote => cancelForApplication a now left entered isVote
  | .cancelDraftsForMeeting m now => cancelDraftsForMeeting m now
  | .drawLot v choose now sub name => drawLotOf v choose now sub name
  | .patchPoll v payload now => patchPoll v payload now

end Voting
