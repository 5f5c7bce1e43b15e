import StupaWorkflow.AttendanceModel
import StupaWorkflow.UuidText
import StupaWorkflow.VotingModel

/-!
The gate of a ballot over all tables that it reads. `can_still_cast` asks without a write; `cast`
claims or frees a pool seat, marks the member present and stores the ballot.
-/
namespace Casting
open Py StorageKeys List
open Attendance (MeetingStatus Status Source Principal seatBefore)
open Voting (Time VoteStatus Config Choice storedChoice)

section Tables

structure Meeting where
  id : Uuid
  gremium : Uuid
  status : MeetingStatus

structure Vote where
  id : Uuid
  status : VoteStatus
  meeting : Option Uuid
  eligibleGroup : Text
  config : Config
  closesAt : Option Time

/-- A row of `meeting_delegation`. -/
structure Delegation where
  meeting : Uuid
  gremium : Uuid
  delegator : Uuid
  delegate : Uuid
  delegateVoting : Bool
  viaPool : Bool
  createdBy : Option Text
  deriving DecidableEq

/-- A row of `meeting_attendance`. -/
structure Record where
  meeting : Uuid
  principal : Uuid
  status : Status
  source : Source
  note : Option Text
  deriving DecidableEq

structure GremiumRole where
  id : Uuid
  permissions : Option (List Text)

structure Membership where
  principal : Uuid
  gremium : Uuid
  role : Uuid

/-- A row of `delegation_substitute`; without a member it holds for every member. -/
structure Substitute where
  gremium : Uuid
  member : Option Uuid
  substitute : Uuid

/-- The tables. A vote of a meeting has its meeting (foreign key). -/
structure Db where
  principals : List Principal
  meetings : List Meeting
  votes : List Vote
  delegations : List Delegation
  attendance : List Record
  roles : List GremiumRole
  memberships : List Membership
  substitutes : List Substitute
  /-- `voted_marker`: the vote and the `sub` of the voter. -/
  markers : List (Uuid × Text)
  /-- `secret_ballot`: the vote and the choice. -/
  ballots : List (Uuid × Text)
  meeting_known : ∀ v ∈ votes, ∀ m ∈ v.meeting, ∃ row ∈ meetings, row.id = m

/-- The principal of a request. A scope cap marks a session that is not a human one. -/
structure User where
  sub : Text
  groups : List Text
  scopePermissions : Option (List Text)

inductive Problem where
  | notFound (message : Text)
  | forbidden (message : Text)
  | conflict (message code : Text)
  | choice (p : Voting.Problem)
  | integrityError
  | valueError
  deriving DecidableEq

variable (d : Db)

def Db.vote (id : Uuid) : Option Vote := d.votes.find? (·.id = id)

def Db.meeting (id : Uuid) : Option Meeting := d.meetings.find? (·.id = id)

def Db.principal (id : Uuid) : Option Principal := d.principals.find? (·.id = id)

def Db.principalOf (sub : Text) : Option Principal := d.principals.find? (·.sub = sub)

def Db.record (meeting principal : Uuid) : Option Record :=
  d.attendance.find? fun r => r.meeting = meeting && r.principal = principal

def Db.insertDelegation (row : Delegation) : Except Problem Db := do
  raiseUnless (!d.delegations.any fun g => g.meeting = row.meeting && g.delegator = row.delegator) .integrityError
  raiseUnless (!(row.delegateVoting && d.delegations.any fun g =>
    g.meeting = row.meeting && g.delegate = row.delegate && g.delegateVoting)) .integrityError
  return { d with delegations := d.delegations ++ [row] }

end Tables

section Delegations

variable (d : Db)

/-- `pool_seat_clause`. -/
def poolSeat (row : Delegation) (delegate : Principal) : Bool := row.viaPool && row.createdBy = some delegate.sub

/-- `voting_delegation_check`: the right is given away, and the `sub` of the delegator. -/
def votingDelegationCheck (sub : Text) (meeting : Option Uuid) (group : Text) : Bool × Option Text :=
  match meeting, Uuid.ofText group with
  | some m, some g =>
    let me := (d.principalOf sub).map (·.id)
    let rows : List (Bool × Bool × Text) := d.delegations.filterMap fun r =>
      if r.meeting = m ∧ r.gremium = g ∧ (some r.delegator = me ∨ some r.delegate = me) then
        (d.principal r.delegator).bind fun delegator => (d.principal r.delegate).map fun delegate =>
          (some r.delegator = me, r.delegateVoting && (some r.delegator ≠ me || !poolSeat r delegate), delegator.sub)
      else none
    (rows.any fun r => r.1 && r.2.1, (rows.find? fun r => !r.1 && r.2.1).map (·.2.2))
  | _, _ => (false, none)

def meetingLive (meeting gremium : Uuid) : Bool :=
  (d.meeting meeting).any fun m => m.status = .live && m.gremium = gremium

def membersForSubstitute (gremium substitute : Uuid) : List Uuid × Bool :=
  let members := (d.substitutes.filter fun s => s.gremium = gremium && s.substitute = substitute).map (·.member)
  (members.filterMap id, members.contains none)

def votingMemberIds (gremium : Uuid) : List Uuid :=
  (d.memberships.filter fun m => m.gremium = gremium &&
    d.roles.any fun r => r.id = m.role && (r.permissions.getD []).contains (text "vote.cast")).map (·.principal)

/-- `min(members, key=…)`. -/
def firstSeat (personal : List Uuid) : List Principal → Option Principal
  | [] => none
  | m :: ms => some (ms.foldl (fun best m => if seatBefore personal best m then best else m) m)

def freeSeats (meeting gremium : Uuid) (deputy : Uuid) : List Uuid :=
  let members := membersForSubstitute d gremium deputy
  let taken := (d.delegations.filter (·.meeting = meeting)).flatMap fun g => [g.delegator, g.delegate]
  let voters := votingMemberIds d gremium
  let pool := if members.2 then voters else members.1.filter voters.contains
  let present := (d.attendance.filter fun r => r.meeting = meeting && r.status = .present).map (·.principal)
  pool.filter fun m => !taken.contains m && !present.contains m && m ≠ deputy

def engaged (meeting deputy : Uuid) : Bool :=
  d.delegations.any fun g => g.meeting = meeting && (g.delegator = deputy || (g.delegateVoting && g.delegate = deputy))

def seatOf (meeting gremium : Uuid) (deputy : Principal) : Except Problem (Option (Principal × Principal)) :=
  let members := membersForSubstitute d gremium deputy.id
  let free := freeSeats d meeting gremium deputy.id
  if members.1.isEmpty && !members.2 then .ok none
  else if engaged d meeting deputy.id then .ok none
  else if free.isEmpty then .ok none
  else
    match firstSeat members.1 (d.principals.filter fun p => free.contains p.id) with
      | some member => .ok (some (deputy, member))
      | none => .error .valueError

/-- `_find_seat`: the substitute and the first free seat. -/
def findSeat (sub : Text) (meeting : Option Uuid) (group : Text) : Except Problem (Option (Principal × Principal)) :=
  match meeting, Uuid.ofText group with
  | some m, some g =>
    if meetingLive d m g then
      match d.principalOf sub with
      | some deputy => seatOf d m g deputy
      | none => .ok none
    else .ok none
  | _, _ => .ok none

/-- `claim_pool_seat`: the `sub` of the represented member, and the tables with the claim. -/
def claimPoolSeat (sub : Text) (meeting : Option Uuid) (group : Text) : Except Problem (Option Text × Db) := do
  let found ← findSeat d sub meeting group
  match found, meeting, Uuid.ofText group with
  | some (deputy, member), some m, some g => do
      let claimed ← d.insertDelegation ⟨m, g, member.id, deputy.id, true, true, some sub⟩
      return (some member.sub, claimed)
  | _, _, _ => return (none, d)

def releasePoolSeat (meeting member : Uuid) : Db :=
  { d with delegations := d.delegations.eraseP fun g =>
      g.meeting = meeting && g.delegator = member && (d.principal g.delegate).any (poolSeat g) }

def releasePoolSeatOf (meeting : Uuid) (sub : Text) : Db :=
  match d.principalOf sub with
  | some member => releasePoolSeat d meeting member.id
  | none => d

end Delegations

section Attendances

variable (d : Db)

def currentMembers (gremium : Uuid) : List Principal :=
  d.principals.filter fun p => d.memberships.any fun m => m.principal = p.id && m.gremium = gremium

def hasDelegation (meeting member : Uuid) : Bool := d.delegations.any fun g => g.meeting = meeting && g.delegator = member

def concurrentChange : Problem :=
  .conflict (text "Another change of this attendance ran at the same time. Try again.")
    (text "concurrent_attendance_change")

/-- `_write` and `_flush_write`: an UPDATE, or an INSERT under the unique constraint. -/
def writeRecord (existing : Option Record) (row : Record) : Except Problem Db :=
  match existing with
  | some old => .ok { d with attendance := d.attendance.map fun r => if r = old then row else r }
  | none => do
      raiseUnless (d.record row.meeting row.principal).isNone concurrentChange
      return { d with attendance := d.attendance ++ [row] }

def meetingNotFound (id : Uuid) : Problem := .notFound (text "meeting " ++ Uuid.text id ++ text " not found")

def markMember (meeting : Uuid) (member : Principal) : Except Problem Db :=
  let existing := d.record meeting member.id
  if existing.any (·.status = .present) || hasDelegation d meeting member.id then .ok d
  else writeRecord d existing ⟨meeting, member.id, .present, (existing.map (·.source)).getD .self, none⟩

def markPresentOnCast (meeting : Uuid) (sub : Text) : Except Problem Db :=
  match d.meeting meeting with
  | none => .error (meetingNotFound meeting)
  | some row =>
    if row.status = .closed then .ok d
    else match (currentMembers d row.gremium).find? (·.sub = sub) with
      | none => .ok d
      | some member => markMember d meeting member

end Attendances

section Ballots

variable (d : Db)

def mayCast (p : User) (group : Text) : Bool := (Uuid.ofText group).isSome && p.groups.contains (text "vote:" ++ group)

def myBallot (vote : Vote) (sub : Text) : Bool := d.markers.contains (vote.id, sub)

def inWindow (vote : Vote) (now : Time) : Bool := !vote.closesAt.any (· ≤ now)

def freeSeatSub (p : User) (vote : Vote) : Except Problem (Option Text) :=
  (findSeat d p.sub vote.meeting vote.eligibleGroup).map fun seat => seat.map (·.2.sub)

def carriedOrSeat (p : User) (vote : Vote) (carried : Option Text) : Except Problem (Option Text) :=
  match carried with
  | some sub => .ok (some sub)
  | none => freeSeatSub d p vote

def canStillCast (vote : Vote) (p : User) (now : Time) : Except Problem Bool :=
  if vote.status ≠ .open then .ok false
  else if !inWindow vote now then .ok false
  else if p.scopePermissions.isSome then .ok false
  else
    let verdict := votingDelegationCheck d p.sub vote.meeting vote.eligibleGroup
    if !verdict.1 && mayCast p vote.eligibleGroup && !myBallot d vote p.sub then .ok true
    else (carriedOrSeat d p vote verdict.2).map fun represented => represented.any fun sub => !myBallot d vote sub

def representedVoter (p : User) (vote : Vote) (carried : Option Text) : Except Problem (Text × Db) :=
  match carried with
  | some sub => .ok (sub, d)
  | none => do
      let claim ← claimPoolSeat d p.sub vote.meeting vote.eligibleGroup
      match claim.1 with
      | some sub => return (sub, claim.2)
      | none => .error (.forbidden (text "No delegated voting right for this ballot."))

def ownVoter (p : User) (vote : Vote) (blocked : Bool) : Except Problem Text := do
  raiseUnless (!blocked) (.forbidden (text "Voting right has been delegated to another member."))
  raiseUnless (mayCast p vote.eligibleGroup) (.forbidden (text "Not eligible to vote in this ballot."))
  return p.sub

def voterOf (p : User) (vote : Vote) (asDelegation : Bool) (verdict : Bool × Option Text) : Except Problem (Text × Db) :=
  if asDelegation then representedVoter d p vote verdict.2 else (ownVoter p vote verdict.1).map (·, d)

def takePart (p : User) (vote : Vote) (asDelegation : Bool) : Except Problem Db :=
  match vote.meeting with
  | some m => if asDelegation then .ok d else markPresentOnCast (releasePoolSeatOf d m p.sub) m p.sub
  | none => .ok d

def castSecret (vote : Vote) (voter choice : Text) : Except Problem Db := do
  raiseUnless (!d.markers.contains (vote.id, voter)) (.conflict (text "Already voted.") (text "already_voted"))
  return { d with markers := d.markers ++ [(vote.id, voter)], ballots := d.ballots ++ [(vote.id, choice)] }

def getVote (id : Uuid) : Except Problem Vote :=
  match d.vote id with
  | some vote => .ok vote
  | none => .error (.notFound (text "vote " ++ Uuid.text id ++ text " not found"))

def cast (id : Uuid) (p : User) (choice : Choice) (now : Time) (asDelegation : Bool) : Except Problem Db := do
  let vote ← getVote d id
  raiseUnless (vote.status = .open) (.conflict (text "vote is not open.") (text "vote_not_open"))
  raiseUnless (inWindow vote now) (.conflict (text "voting window has closed.") (text "vote_window_closed"))
  raiseUnless p.scopePermissions.isNone (.forbidden (text "Only a human session can cast a ballot."))
  let voter ← voterOf d p vote asDelegation (votingDelegationCheck d p.sub vote.meeting vote.eligibleGroup)
  let stored ← (storedChoice vote.config choice).mapError Problem.choice
  let part ← takePart voter.2 p vote asDelegation
  castSecret part vote voter.1 stored

end Ballots

section Choices

theorem exists_choice (config : Config) : ∃ choice stored, storedChoice config choice = .ok stored := by
  cases config with
  | motion c =>
    obtain ⟨s, hs⟩ := exists_mem_of_length_pos (Nat.lt_of_lt_of_le Nat.zero_lt_two c.min_options)
    exact ⟨.option s, s, by simp [storedChoice, hs]⟩
  | election c =>
    by_cases hyesNo : c.yesNo
    · exact ⟨.option Voting.yesKey, Voting.yesKey, by simp [storedChoice, Voting.ElectionConfig.storedChoice, hyesNo]; decide⟩
    · exact ⟨.list [], _, by simp [storedChoice, Voting.ElectionConfig.storedChoice, hyesNo]; rfl⟩
  | poll c =>
    cases hmode : c.mode with
    | date =>
      let answers := c.optionIds.map fun id => (id, Voting.yesKey)
      have hkeys : answers.map (·.1) = c.optionIds := by
        rw [map_map]
        exact map_id c.optionIds
      have hvalues : answers.map (·.2) ⊆ [Voting.yesKey, Voting.maybeKey, Voting.noKey] := by
        intro a ha
        simp only [answers, map_map, mem_map, Function.comp_apply] at ha
        obtain ⟨_, _, rfl⟩ := ha
        exact mem_cons_self
      have hunique : (answers.map (·.1)).Nodup := by rw [hkeys]; exact c.ids_unique
      refine ⟨.answers answers hunique, Voting.encodePollAnswers answers, ?_⟩
      simp only [storedChoice, Voting.PollConfig.storedChoice, hmode, hkeys]
      rw [if_neg (by simp), if_neg (not_not.mpr hvalues)]
    | single => exact ⟨.list [], _, by simp [storedChoice, Voting.PollConfig.storedChoice, hmode]; rfl⟩
    | multi => exact ⟨.list [], _, by simp [storedChoice, Voting.PollConfig.storedChoice, hmode]; rfl⟩

end Choices

section Agreement

variable {d : Db}

theorem castSecret_iff {vote : Vote} {voter stored : Text} :
    (∃ d', castSecret d vote voter stored = .ok d') ↔ myBallot d vote voter = false := by
  constructor
  · rintro ⟨d', h⟩
    obtain ⟨_, hnew, _⟩ := bind_ok.mp h
    simpa [myBallot] using hnew
  · intro h
    exact ⟨_, bind_ok.mpr ⟨(), raiseUnless_ok.mpr (by simpa [myBallot] using h), rfl⟩⟩

/-- A seat that `_find_seat` gives is free in the meeting. -/
structure Free (d : Db) (meeting gremium : Uuid) (deputy member : Principal) : Prop where
  disengaged : engaged d meeting deputy.id = false
  untaken : ∀ g ∈ d.delegations, g.meeting = meeting → g.delegator ≠ member.id

theorem firstSeat_mem {personal : List Uuid} {members : List Principal} {m : Principal}
    (h : firstSeat personal members = some m) : m ∈ members := by
  cases members with
  | nil => cases h
  | cons first rest =>
    rw [firstSeat, Option.some.injEq] at h
    subst h
    induction rest using List.reverseRecOn with
    | nil => exact mem_cons_self
    | append_singleton rest last ih =>
      rw [foldl_append, foldl_cons, foldl_nil, ← cons_append, mem_append, mem_singleton]
      split
      · exact .inl ih
      · exact .inr rfl

theorem seatOf_free {meeting gremium : Uuid} {sub deputy member : Principal}
    (h : seatOf d meeting gremium sub = .ok (some (deputy, member))) : Free d meeting gremium deputy member := by
  simp only [seatOf] at h
  by_cases hpool : ((membersForSubstitute d gremium sub.id).1.isEmpty && !(membersForSubstitute d gremium sub.id).2) = true
  · rw [if_pos hpool] at h
    cases h
  rw [if_neg hpool] at h
  by_cases hengaged : engaged d meeting sub.id = true
  · rw [if_pos hengaged] at h
    cases h
  rw [if_neg hengaged] at h
  by_cases hempty : (freeSeats d meeting gremium sub.id).isEmpty = true
  · rw [if_pos hempty] at h
    cases h
  rw [if_neg hempty] at h
  cases hfirst : firstSeat (membersForSubstitute d gremium sub.id).1
      (d.principals.filter fun p => (freeSeats d meeting gremium sub.id).contains p.id) with
  | none =>
    rw [hfirst] at h
    cases h
  | some first =>
    rw [hfirst] at h
    cases h
    have hfree : member.id ∈ freeSeats d meeting gremium sub.id := by
      simpa using (mem_filter.mp (firstSeat_mem hfirst)).2
    refine ⟨by simpa using hengaged, fun g hg hmeeting heq => ?_⟩
    have huntaken := (mem_filter.mp hfree).2
    simp only [Bool.and_eq_true, Bool.not_eq_true', contains_eq_mem, decide_eq_false_iff_not] at huntaken
    refine huntaken.1.1 (mem_flatMap.mpr ⟨g, mem_filter.mpr ⟨hg, decide_eq_true hmeeting⟩, ?_⟩)
    exact heq ▸ mem_cons_self

theorem findSeat_free {sub : Text} {meeting : Option Uuid} {group : Text} {deputy member : Principal}
    (h : findSeat d sub meeting group = .ok (some (deputy, member))) :
    ∃ m g, meeting = some m ∧ Uuid.ofText group = some g ∧ Free d m g deputy member := by
  cases meeting with
  | none => cases h
  | some m =>
    cases hgroup : Uuid.ofText group with
    | none =>
      simp only [findSeat, hgroup] at h
      cases h
    | some g =>
      simp only [findSeat, hgroup] at h
      by_cases hlive : meetingLive d m g = true
      · rw [if_pos hlive] at h
        cases hsub : d.principalOf sub with
        | none =>
          rw [hsub] at h
          cases h
        | some account =>
          rw [hsub] at h
          exact ⟨m, g, rfl, rfl, seatOf_free h⟩
      · rw [if_neg hlive] at h
        cases h

theorem insert_claim {meeting gremium : Uuid} {deputy member : Principal} (h : Free d meeting gremium deputy member)
    (sub : Text) :
    ∃ d', d.insertDelegation ⟨meeting, gremium, member.id, deputy.id, true, true, some sub⟩ = .ok d' ∧
      d'.markers = d.markers := by
  refine ⟨_, bind_ok.mpr ⟨(), raiseUnless_ok.mpr ?_, bind_ok.mpr ⟨(), raiseUnless_ok.mpr ?_, rfl⟩⟩, rfl⟩
  · simpa using h.untaken
  · have hnone := h.disengaged
    simp only [engaged, any_eq_false, Bool.and_eq_true, Bool.or_eq_true, decide_eq_true_eq, not_and, not_or] at hnone
    simp only [Bool.true_and, Bool.not_eq_true', any_eq_false, Bool.and_eq_true, decide_eq_true_eq]
    rintro g hg ⟨⟨hmeeting, hdelegate⟩, hvoting⟩
    exact (hnone g hg hmeeting).2 hvoting hdelegate

theorem claimPoolSeat_exact (sub : Text) (meeting : Option Uuid) (group : Text) :
    (∃ e, findSeat d sub meeting group = .error e ∧ claimPoolSeat d sub meeting group = .error e) ∨
      (findSeat d sub meeting group = .ok none ∧ claimPoolSeat d sub meeting group = .ok (none, d)) ∨
      ∃ seat d', findSeat d sub meeting group = .ok (some seat) ∧
        claimPoolSeat d sub meeting group = .ok (some seat.2.sub, d') ∧ d'.markers = d.markers := by
  rw [claimPoolSeat]
  cases hfound : findSeat d sub meeting group with
  | error e => exact .inl ⟨e, rfl, rfl⟩
  | ok found =>
    cases found with
    | none => exact .inr (.inl ⟨rfl, rfl⟩)
    | some seat =>
      obtain ⟨m, g, rfl, hgroup, hfree⟩ := findSeat_free hfound
      obtain ⟨d', hinsert, hmarkers⟩ := insert_claim hfree sub
      refine .inr (.inr ⟨seat, d', rfl, ?_, hmarkers⟩)
      simp only [hgroup, bind, Except.bind, hinsert]
      rfl

/-- A represented ballot runs under the `sub` that the predicate asks about. -/
theorem representedVoter_exact (p : User) (vote : Vote) (carried : Option Text) :
    (∃ sub d', carriedOrSeat d p vote carried = .ok (some sub) ∧ representedVoter d p vote carried = .ok (sub, d') ∧
        d'.markers = d.markers) ∨
      (∀ sub, carriedOrSeat d p vote carried ≠ .ok (some sub)) ∧ ∃ e, representedVoter d p vote carried = .error e := by
  cases carried with
  | some carried => exact .inl ⟨carried, d, rfl, rfl, rfl⟩
  | none =>
    rw [carriedOrSeat, freeSeatSub, representedVoter]
    obtain ⟨e, hfind, hclaim⟩ | ⟨hfind, hclaim⟩ | ⟨seat, d', hfind, hclaim, hmarkers⟩ :=
      claimPoolSeat_exact (d := d) p.sub vote.meeting vote.eligibleGroup
    · rw [hfind, hclaim]
      exact .inr ⟨fun sub => by simp [Except.map], e, rfl⟩
    · rw [hfind, hclaim]
      exact .inr ⟨fun sub => by simp [Except.map], _, rfl⟩
    · rw [hfind, hclaim]
      exact .inl ⟨seat.2.sub, d', rfl, rfl, hmarkers⟩

theorem writeRecord_ok (m member : Uuid) (status : Status) (source : Source) (note : Option Text) :
    ∃ d', writeRecord d (d.record m member) ⟨m, member, status, source, note⟩ = .ok d' ∧ d'.markers = d.markers := by
  cases hrecord : d.record m member with
  | none => exact ⟨_, bind_ok.mpr ⟨(), raiseUnless_ok.mpr (by rw [hrecord]; rfl), rfl⟩, rfl⟩
  | some old => exact ⟨_, rfl, rfl⟩

theorem markMember_ok (m : Uuid) (member : Principal) :
    ∃ d', markMember d m member = .ok d' ∧ d'.markers = d.markers := by
  rw [markMember]
  split
  · exact ⟨d, rfl, rfl⟩
  · exact writeRecord_ok m member.id _ _ _

theorem markPresentOnCast_ok {m : Uuid} (hmeeting : ∃ row ∈ d.meetings, row.id = m) (sub : Text) :
    ∃ d', markPresentOnCast d m sub = .ok d' ∧ d'.markers = d.markers := by
  obtain ⟨row, hrow, hid⟩ := hmeeting
  obtain ⟨found, hfound⟩ : ∃ found, d.meeting m = some found :=
    Option.isSome_iff_exists.mp (List.find?_isSome.mpr ⟨row, hrow, decide_eq_true hid⟩)
  rw [markPresentOnCast, hfound]
  by_cases hclosed : found.status = .closed
  · exact ⟨d, by simp only [if_pos hclosed], rfl⟩
  · simp only [if_neg hclosed]
    cases (currentMembers d found.gremium).find? (·.sub = sub) with
    | none => exact ⟨d, rfl, rfl⟩
    | some member => exact markMember_ok m member

theorem takePart_ok {vote : Vote} (hvote : vote ∈ d.votes) (p : User) (asDelegation : Bool) :
    ∃ d', takePart d p vote asDelegation = .ok d' ∧ d'.markers = d.markers := by
  rw [takePart]
  cases hmeeting : vote.meeting with
  | none => exact ⟨d, rfl, rfl⟩
  | some m =>
    cases asDelegation with
    | true => exact ⟨d, rfl, rfl⟩
    | false =>
      obtain ⟨released, hreleased, hmeetings, hmarkers⟩ :
          ∃ released, releasePoolSeatOf d m p.sub = released ∧ released.meetings = d.meetings ∧ released.markers = d.markers := by
        refine ⟨_, rfl, ?_⟩
        rw [releasePoolSeatOf]
        cases d.principalOf p.sub <;> exact ⟨rfl, rfl⟩
      obtain ⟨d', hmark, hkeeps⟩ := markPresentOnCast_ok (d := released) (hmeetings ▸ d.meeting_known vote hvote m hmeeting) p.sub
      refine ⟨d', ?_, hkeeps.trans hmarkers⟩
      rw [← hreleased] at hmark
      exact hmark

/-- The `sub` that a ballot runs under: the own one with the right in hand, or the represented one. -/
def RunsUnder (d : Db) (vote : Vote) (p : User) (asDelegation : Bool) (sub : Text) : Prop :=
  let verdict := votingDelegationCheck d p.sub vote.meeting vote.eligibleGroup
  if asDelegation then carriedOrSeat d p vote verdict.2 = .ok (some sub)
  else verdict.1 = false ∧ mayCast p vote.eligibleGroup = true ∧ p.sub = sub

theorem ownVoter_iff {p : User} {vote : Vote} {blocked : Bool} {sub : Text} :
    ownVoter p vote blocked = .ok sub ↔ blocked = false ∧ mayCast p vote.eligibleGroup = true ∧ p.sub = sub := by
  constructor
  · intro h
    obtain ⟨_, hright, h⟩ := bind_ok.mp h
    obtain ⟨_, hmay, h⟩ := bind_ok.mp h
    cases h
    exact ⟨by simpa using hright, by simpa using hmay, rfl⟩
  · rintro ⟨rfl, hmay, rfl⟩
    exact bind_ok.mpr ⟨(), rfl, bind_ok.mpr ⟨(), raiseUnless_ok.mpr hmay, rfl⟩⟩

theorem takePart_represented (p : User) (vote : Vote) : takePart d p vote true = .ok d := by
  rw [takePart]
  cases vote.meeting <;> rfl

theorem voterOf_exact {vote : Vote} (hvote : vote ∈ d.votes) (p : User) (asDelegation : Bool) :
    (∃ voter part, voterOf d p vote asDelegation (votingDelegationCheck d p.sub vote.meeting vote.eligibleGroup) = .ok voter ∧
        RunsUnder d vote p asDelegation voter.1 ∧ takePart voter.2 p vote asDelegation = .ok part ∧ part.markers = d.markers) ∨
      (∀ sub, ¬ RunsUnder d vote p asDelegation sub) ∧
        ∃ e, voterOf d p vote asDelegation (votingDelegationCheck d p.sub vote.meeting vote.eligibleGroup) = .error e := by
  let verdict := votingDelegationCheck d p.sub vote.meeting vote.eligibleGroup
  cases asDelegation with
  | true =>
    obtain ⟨sub, d', hseat, hvoter, hmarkers⟩ | ⟨hnone, e, hvoter⟩ := representedVoter_exact (d := d) p vote verdict.2
    · exact .inl ⟨(sub, d'), d', hvoter, hseat, takePart_represented p vote, hmarkers⟩
    · exact .inr ⟨hnone, e, hvoter⟩
  | false =>
    cases hown : ownVoter p vote verdict.1 with
    | ok sub =>
      obtain ⟨part, hpart, hmarkers⟩ := takePart_ok hvote p false
      exact .inl ⟨(sub, d), part, congrArg (Except.map (·, d)) hown, ownVoter_iff.mp hown, hpart, hmarkers⟩
    | error e =>
      refine .inr ⟨fun sub hruns => ?_, e, congrArg (Except.map (·, d)) hown⟩
      cases hown.symm.trans (ownVoter_iff.mpr hruns)

/-- A ballot is taken exactly if the vote is open, the session is human, the choice fits, and the seat that
the ballot runs under has not voted. -/
theorem cast_iff {id : Uuid} {vote : Vote} (hvote : d.vote id = some vote) (p : User) (choice : Choice) (now : Time)
    (asDelegation : Bool) :
    (∃ d', cast d id p choice now asDelegation = .ok d') ↔
      vote.status = .open ∧ inWindow vote now = true ∧ p.scopePermissions.isNone = true ∧
        (∃ stored, storedChoice vote.config choice = .ok stored) ∧
        ∃ sub, RunsUnder d vote p asDelegation sub ∧ myBallot d vote sub = false := by
  have hmem : vote ∈ d.votes := mem_of_find?_eq_some hvote
  have hget : getVote d id = .ok vote := by rw [getVote, hvote]
  constructor
  · rintro ⟨d', h⟩
    obtain ⟨row, hrow, h⟩ := bind_ok.mp h
    cases hget.symm.trans hrow
    obtain ⟨_, hopen, h⟩ := bind_ok.mp h
    obtain ⟨_, hwindow, h⟩ := bind_ok.mp h
    obtain ⟨_, hhuman, h⟩ := bind_ok.mp h
    obtain ⟨voter, hvoter, h⟩ := bind_ok.mp h
    obtain ⟨stored, hstored, h⟩ := bind_ok.mp h
    obtain ⟨part, hpart, h⟩ := bind_ok.mp h
    obtain ⟨voter', part', hvoter', hruns, hpart', hmarkers⟩ | ⟨_, e, hrefused⟩ := voterOf_exact hmem p asDelegation
    · cases hvoter.symm.trans hvoter'
      cases hpart.symm.trans hpart'
      have hnew : myBallot part vote voter.1 = false := castSecret_iff.mp ⟨d', h⟩
      refine ⟨by simpa using hopen, by simpa using hwindow, by simpa using hhuman, ?_, voter.1, hruns, ?_⟩
      · cases hchoice : storedChoice vote.config choice with
        | ok s => exact ⟨s, rfl⟩
        | error e =>
          rw [hchoice] at hstored
          cases hstored
      · rwa [myBallot, ← hmarkers]
    · cases hvoter.symm.trans hrefused
  · rintro ⟨hopen, hwindow, hhuman, ⟨stored, hstored⟩, sub, hruns, hnew⟩
    obtain ⟨voter, part, hvoter, hruns', hpart, hmarkers⟩ | ⟨hnone, _⟩ := voterOf_exact hmem p asDelegation
    · have hsame : voter.1 = sub := by
        cases asDelegation with
        | true => simpa using hruns'.symm.trans hruns
        | false => exact hruns'.2.2.symm.trans hruns.2.2
      obtain ⟨d', hd'⟩ : ∃ d', castSecret part vote voter.1 stored = .ok d' :=
        castSecret_iff.mpr (by rwa [myBallot, hmarkers, hsame])
      exact ⟨d', bind_ok.mpr ⟨vote, hget, bind_ok.mpr ⟨(), raiseUnless_ok.mpr (decide_eq_true hopen),
        bind_ok.mpr ⟨(), raiseUnless_ok.mpr hwindow, bind_ok.mpr ⟨(), raiseUnless_ok.mpr hhuman,
        bind_ok.mpr ⟨voter, hvoter, bind_ok.mpr ⟨stored, by rw [hstored]; rfl, bind_ok.mpr ⟨part, hpart, hd'⟩⟩⟩⟩⟩⟩⟩⟩
    · exact absurd hruns (hnone sub)

theorem seats_iff (vote : Vote) (p : User) :
    (∃ asDelegation sub, RunsUnder d vote p asDelegation sub ∧ myBallot d vote sub = false) ↔
      ((votingDelegationCheck d p.sub vote.meeting vote.eligibleGroup).1 = false ∧ mayCast p vote.eligibleGroup = true ∧
          myBallot d vote p.sub = false) ∨
        ∃ sub, carriedOrSeat d p vote (votingDelegationCheck d p.sub vote.meeting vote.eligibleGroup).2 = .ok (some sub) ∧
          myBallot d vote sub = false := by
  constructor
  · rintro ⟨asDelegation, sub, hruns, hnew⟩
    cases asDelegation with
    | true => exact .inr ⟨sub, hruns, hnew⟩
    | false =>
      obtain ⟨hright, hmay, rfl⟩ := hruns
      exact .inl ⟨hright, hmay, hnew⟩
  · rintro (⟨hright, hmay, hnew⟩ | ⟨sub, hseat, hnew⟩)
    · exact ⟨false, p.sub, ⟨hright, hmay, rfl⟩, hnew⟩
    · exact ⟨true, sub, hseat, hnew⟩

theorem canStillCast_seats (vote : Vote) (p : User) (now : Time) :
    canStillCast d vote p now = .ok true ↔
      vote.status = .open ∧ inWindow vote now = true ∧ p.scopePermissions.isNone = true ∧
        ∃ asDelegation sub, RunsUnder d vote p asDelegation sub ∧ myBallot d vote sub = false := by
  rw [seats_iff, canStillCast]
  by_cases hopen : vote.status = .open
  · cases hwindow : inWindow vote now with
    | false => simp [hopen]
    | true =>
      cases hhuman : p.scopePermissions with
      | some permissions => simp [hopen]
      | none =>
        simp only [hopen, ne_eq, not_true_eq_false, if_false, Bool.not_true, Bool.false_eq_true, Option.isSome_none,
          Option.isNone_none, true_and]
        split
        case isTrue hown => simpa [and_assoc] using Or.inl hown
        case isFalse hown =>
          have hown' : ¬ ((votingDelegationCheck d p.sub vote.meeting vote.eligibleGroup).1 = false ∧
              mayCast p vote.eligibleGroup = true ∧ myBallot d vote p.sub = false) := by
            simpa [and_assoc] using hown
          rw [or_iff_right hown']
          cases carriedOrSeat d p vote (votingDelegationCheck d p.sub vote.meeting vote.eligibleGroup).2 with
          | error e => simp [Except.map]
          | ok represented => cases represented <;> simp [Except.map]
  · simp [hopen]

/-- The predicate says yes exactly if there is a choice and a seat for which the cast goes through. -/
theorem canStillCast_iff {id : Uuid} {vote : Vote} (hvote : d.vote id = some vote) (p : User) (now : Time) :
    canStillCast d vote p now = .ok true ↔
      ∃ choice asDelegation d', cast d id p choice now asDelegation = .ok d' := by
  rw [canStillCast_seats]
  constructor
  · rintro ⟨hopen, hwindow, hhuman, asDelegation, hseat⟩
    obtain ⟨choice, hchoice⟩ := exists_choice vote.config
    exact ⟨choice, asDelegation, (cast_iff hvote p choice now asDelegation).mpr ⟨hopen, hwindow, hhuman, hchoice, hseat⟩⟩
  · rintro ⟨choice, asDelegation, hcast⟩
    obtain ⟨hopen, hwindow, hhuman, _, hseat⟩ := (cast_iff hvote p choice now asDelegation).mp hcast
    exact ⟨hopen, hwindow, hhuman, asDelegation, hseat⟩

def boardGroup : Text := text "00000000-0000-0000-0000-00000000000a"

def boardVote : Vote where
  id := 1
  status := .open
  meeting := some 2
  eligibleGroup := boardGroup
  config := .motion ⟨[text "yes", text "no"], .simple, none, true, true, .rejected, false, by decide, by decide, by decide⟩
  closesAt := none

/-- A live meeting without its only member, who has a substitute in the pool. -/
def boardMeeting : Db where
  principals := [⟨3, text "member", []⟩, ⟨4, text "deputy", []⟩]
  meetings := [⟨2, 10, .live⟩]
  votes := [boardVote]
  delegations := []
  attendance := []
  roles := [⟨5, some [text "vote.cast"]⟩]
  memberships := [⟨3, 10, 5⟩]
  substitutes := [⟨10, some 3, 4⟩]
  markers := []
  ballots := []
  meeting_known := by simp [boardVote]

theorem deputy_votes :
    ∃ choice asDelegation d', cast boardMeeting 1 ⟨text "deputy", [], none⟩ choice 0 asDelegation = .ok d' := by
  have hvote : boardMeeting.vote 1 = some boardVote := rfl
  exact (canStillCast_iff hvote ⟨text "deputy", [], none⟩ 0).mp (by decide +kernel)

end Agreement

end Casting
