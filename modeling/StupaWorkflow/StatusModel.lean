import StupaWorkflow.Tables
import StupaWorkflow.Transactions

/-!
The state of one application and the votes on it.
-/
namespace Status
open ReadCommitted
open Prog hiding bind pure

abbrev Uuid := ℕ

inductive Branch where
  | pass
  | fail
  deriving DecidableEq

inductive VoteStatus where
  | draft
  | running
  | closed
  | cancelled
  deriving DecidableEq

/-- `vote` is the kind, `fromBudget` the `gremiumSource` of its configuration. -/
structure State where
  id : Uuid
  flowVersion : Uuid
  vote : Bool
  fromBudget : Bool

structure Transition where
  id : Uuid
  flowVersion : Uuid
  source : Uuid
  target : Uuid
  branch : Option Branch
  automatic : Bool

/-- The flow versions, which a state change only reads, with the transitions in their order. A save
refuses a flow with a branch at a state that is not a vote state. -/
structure Graph where
  states : List State
  transitions : List Transition
  branches : ∀ t ∈ transitions, t.branch.isSome → (states.find? (·.id = t.source)).any (·.vote)

structure Application where
  flowVersion : Uuid
  state : Option Uuid
  voteGremium : Option Uuid
  budget : Option Uuid
  deriving DecidableEq

structure StatusEvent where
  source : Option Uuid
  target : Uuid
  transition : Option Uuid
  vote : Option Uuid
  deriving DecidableEq

/-- A vote on the application. `gremium` is the one of its meeting, or else of the group.
`openedIn` is not stored: it numbers the visit that the open found the application in. -/
structure Vote where
  id : Uuid
  meeting : Option Uuid
  gremium : Option Uuid
  opensState : Option Uuid
  status : VoteStatus
  openedIn : Option ℕ
  deriving DecidableEq

structure Db where
  app : Application
  events : List StatusEvent
  votes : List Vote
  deriving DecidableEq

inductive Key where
  | application
  | meeting (id : Uuid)
  | vote (id : Uuid)
  deriving DecidableEq

inductive Problem where
  | notFound
  | transitionNotAvailable
  | branchTransitionManual
  | automaticTransitionManual
  | guardFailed
  | noVoteGremium
  | concurrentStateChange
  | staleRevert
  | noCurrentState
  | alreadyInState
  | voteNotDraft
  | voteNotOpen
  | voteGremiumMismatch
  | meetingNotLive
  | quorumNotMet
  | refused
  deriving DecidableEq

/-- What the other tables answer to a state change: the guard of a transition, the Gremium of a
target state, and in `allowed` the rights of the caller, the confirmed address, the decision and the
meeting of a manual fire. -/
structure Answers where
  guard : Uuid → Bool
  gremium : Uuid → Option Uuid
  allowed : Bool

structure Close where
  vote : Uuid
  closable : Bool
  passed : Bool
  answers : Answers

inductive Request where
  | fire (transition : Uuid) (answers : Answers)
  | advance (answers : Answers)
  | force (target : Uuid) (answers : Answers)
  | revert (source target : Uuid) (answers : Answers)
  | openVote (vote : Uuid) (live : Bool)
  | closeVote (c : Close)
  | cancelVote (vote : Uuid)

section Rows

def Db.vote (d : Db) (id : Uuid) : Option Vote := d.votes.find? (·.id = id)

def Db.visit (d : Db) : ℕ := d.events.length

def Vote.pending (v : Vote) : Bool := v.status == .running || v.status == .draft

def Db.mark (ids : List Uuid) (status : VoteStatus) (d : Db) : Db :=
  { d with votes := d.votes.map fun v => if v.id ∈ ids then { v with status := status } else v }

def Db.startVote (id : Uuid) (visit : ℕ) (d : Db) : Db :=
  { d with votes := d.votes.map fun v =>
      if v.id = id then { v with status := .running, openedIn := some visit } else v }

structure Move where
  source : Uuid
  target : Uuid
  gremium : Option Uuid
  transition : Option Uuid
  vote : Option Uuid

def Move.event (m : Move) : StatusEvent := ⟨some m.source, m.target, m.transition, m.vote⟩

def Db.move (m : Move) (d : Db) : Db :=
  { d with app := { d.app with state := some m.target, voteGremium := m.gremium }, events := d.events ++ [m.event] }

end Rows

section Flow

variable (G : Graph)

def Graph.state (id : Uuid) : Option State := G.states.find? (·.id = id)

def Graph.transition (id : Uuid) : Option Transition := G.transitions.find? (·.id = id)

def Graph.outgoing (a : Application) : List Transition :=
  G.transitions.filter fun t => t.flowVersion == a.flowVersion && some t.source == a.state

def Graph.isVoteState (id : Uuid) : Bool :=
  (G.state id).any (·.vote) || G.transitions.any fun t => t.source == id && t.branch.isSome

def gremiumFromBudget (s : Option State) : Bool := s.any fun s => s.vote && s.fromBudget

def resolveVoteGremium (answers : Answers) (s : Option State) : Option Uuid :=
  s.bind fun s => if s.vote then answers.gremium s.id else none

def snapshotForEntry (answers : Answers) (s : Option State) : Except Problem (Option Uuid) :=
  if (resolveVoteGremium answers s).isNone && gremiumFromBudget s then .error .noVoteGremium
  else .ok (resolveVoteGremium answers s)

def entrySnapshot (answers : Answers) (a : Application) (source : Uuid) (target : Option State) :
    Except Problem (Option Uuid) :=
  if target.any fun s => s.vote && s.id == source then .ok a.voteGremium else snapshotForEntry answers target

def enterable (answers : Answers) (target : Option State) : Bool :=
  !gremiumFromBudget target || (resolveVoteGremium answers target).isSome

/-- The WHERE clause of the UPDATE: the state that was read, and the cost center where the
snapshot came from it. -/
def unchanged (read : Application) (source : Uuid) (target : Option State) (now : Application) : Bool :=
  now.state == some source && (!gremiumFromBudget target || now.budget == read.budget)

def voteGremiumMismatch (d : Db) (v : Vote) : Bool :=
  match d.app.state.bind G.state with
  | some s => s.vote && (d.app.voteGremium.isNone || v.gremium != d.app.voteGremium)
  | none => false

end Flow

section Votes

variable (G : Graph)

def draftOrphaned (opensState left : Option Uuid) (leftIsVote : Bool) : Bool :=
  match left, opensState with
  | none, _ => false
  | some _, none => leftIsVote
  | some left, some opens => opens == left

def orphaned (v : Vote) (left : Option Uuid) (leftIsVote : Bool) : Bool :=
  v.status != .draft || draftOrphaned v.opensState left leftIsVote

def lockPending (id : Uuid) : Prog Db Key Problem (Option Vote) := do
  let d ← lockRow fun d => ((d.vote id).filter (·.pending)).map fun _ => .vote id
  return (d.vote id).filter (·.pending)

def cancelForApplication (left entered : Uuid) : Prog Db Key Problem Unit := do
  let seen ← query
  let rows ← collect (fun _ id => lockPending id) ((seen.votes.filter (·.pending)).map (·.id)) []
  let stateLeft := if left = entered then none else some left
  let orphans := rows.filter fun v => orphaned v stateLeft (G.isVoteState left)
  update (Db.mark (orphans.map (·.id)) .cancelled)

end Votes

section Scripts

variable (G : Graph)

/-- The UPDATE of a state change, from the state `m.source` of the application `read`, with its
status event. -/
def writeMove (problem : Problem) (read : Application) (target : Option State) (m : Move) :
    Prog Db Key Problem Unit := do
  let now ← lockRow fun d => if unchanged read m.source target d.app then some .application else none
  require (unchanged read m.source target now.app) problem
  update (Db.move m)

/-- The votes stay where a branch leaves the state: the close that fires it closed its vote. -/
def cancelUnlessBranch (t : Transition) : Prog Db Key Problem Unit :=
  if t.branch.isSome then .pure () else cancelForApplication G t.source t.target

def stageFire (read : Application) (t : Transition) (manual : Bool) (answers : Answers) (vote : Option Uuid) :
    Prog Db Key Problem Unit := do
  require (t.flowVersion = read.flowVersion) .notFound
  require (read.state = some t.source) .transitionNotAvailable
  require (!(manual && t.branch.isSome)) .branchTransitionManual
  require (!(manual && t.automatic)) .automaticTransitionManual
  require (answers.allowed && answers.guard t.id) .guardFailed
  let target := G.state t.target
  let gremium ← ofExcept (entrySnapshot answers read t.source target)
  writeMove .concurrentStateChange read target ⟨t.source, t.target, gremium, some t.id, vote⟩
  cancelUnlessBranch G t

def fire (id : Uuid) (answers : Answers) : Prog Db Key Problem Unit := do
  let d ← query
  let t ← ofOption (G.transition id) .notFound
  stageFire G d.app t true answers none
  publish

def autoTransition (a : Application) (answers : Answers) : Option Transition :=
  if (a.state.bind G.state).any (·.vote) then none
  else (G.outgoing a).find? fun t => t.automatic && answers.guard t.id && enterable answers (G.state t.target)

def autoAdvance (answers : Answers) : Prog Db Key Problem Unit := do
  let d ← query
  let t ← ofOption (autoTransition G d.app answers) .refused
  stageFire G d.app t false answers none
  publish

def forceStatus (target : Uuid) (answers : Answers) : Prog Db Key Problem Unit := do
  let d ← query
  require answers.allowed .refused
  let source ← ofOption d.app.state .noCurrentState
  let s ← ofOption ((G.state target).filter (·.flowVersion = d.app.flowVersion)) .notFound
  require (target ≠ source) .alreadyInState
  let gremium ← ofExcept (entrySnapshot answers d.app source (some s))
  writeMove .concurrentStateChange d.app (some s) ⟨source, target, gremium, none, none⟩
  cancelForApplication G source target
  publish

/-- Move the application from the `target` of the undone change back to its `source`. -/
def revertStatus (source target : Uuid) (answers : Answers) : Prog Db Key Problem Unit := do
  let d ← query
  require answers.allowed .refused
  require (d.app.state = some target) .staleRevert
  let restored ← ofOption (G.state source) .notFound
  let gremium ← ofExcept (entrySnapshot answers d.app target (some restored))
  writeMove .staleRevert d.app (some restored) ⟨target, source, gremium, none, none⟩
  cancelForApplication G target source
  publish

def lockLiveMeeting (meeting : Option Uuid) (live : Bool) : Prog Db Key Problem Unit :=
  match meeting with
  | none => .pure ()
  | some m => (lockRow fun _ => some (.meeting m)).bind fun _ => require live .meetingNotLive

def getVoteForUpdate (id : Uuid) : Prog Db Key Problem Vote := do
  let d ← lockRow fun d => (d.vote id).map fun _ => .vote id
  ofOption (d.vote id) .notFound

def openVote (id : Uuid) (live : Bool) : Prog Db Key Problem Unit := do
  let d ← query
  lockLiveMeeting ((d.vote id).bind (·.meeting)) live
  let v ← getVoteForUpdate id
  require (v.status = .draft) .voteNotDraft
  let seen ← query
  require (!voteGremiumMismatch G seen v) .voteGremiumMismatch
  update (Db.startVote id seen.visit)
  publish

def branchTransition (a : Application) (branch : Branch) : Option Transition :=
  (G.outgoing a).find? (·.branch = some branch)

/-- The branch of the result in its savepoint: a refusal leaves the close as it is. -/
def tryStage (c : Close) : Prog Db Key Problem Unit := do
  let d ← query
  let t ← ofOption (branchTransition G d.app (if c.passed then .pass else .fail)) .notFound
  stageFire G d.app t false c.answers (some c.vote)

def stageBranch (c : Close) (v : Vote) : Prog Db Key Problem Unit := do
  let d ← query
  if voteGremiumMismatch G d v then .pure () else (tryStage G c).catchWith fun _ => .pure ()

def closeVote (c : Close) : Prog Db Key Problem Unit := do
  let v ← getVoteForUpdate c.vote
  require (v.status = .running) .voteNotOpen
  require c.closable .quorumNotMet
  update (Db.mark [c.vote] .closed)
  stageBranch G c v
  publish

def cancelVote (id : Uuid) : Prog Db Key Problem Unit := do
  let v ← getVoteForUpdate id
  require (v.status = .running) .voteNotOpen
  update (Db.mark [id] .cancelled)
  publish

def script : Request → Prog Db Key Problem Unit
  | .fire transition answers => fire G transition answers
  | .advance answers => autoAdvance G answers
  | .force target answers => forceStatus G target answers
  | .revert source target answers => revertStatus G source target answers
  | .openVote vote live => openVote G vote live
  | .closeVote c => closeVote G c
  | .cancelVote vote => cancelVote vote

end Scripts

end Status
