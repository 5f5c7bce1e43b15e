import StupaWorkflow.VotingModel

/-!
The view of an admitted guest of a public meeting. It is built from the agenda, the applications,
the attendance, the guests and the votes, and it reuses the vote output of the members.
-/
namespace Voting
open Py List

section Public

def ElectionCandidate.withoutAccount (c : ElectionCandidate) : ElectionCandidate := { c with principalId := none }

def ElectionConfig.public (c : ElectionConfig) : ElectionConfig where
  seats := c.seats
  candidates := c.candidates.map ElectionCandidate.withoutAccount
  secret := c.secret
  quorum := c.quorum
  abstainCountsQuorum := c.abstainCountsQuorum
  guestsVote := c.guestsVote
  seats_pos := c.seats_pos
  candidates_max := by simpa using c.candidates_max
  ids_valid := by simpa [ElectionCandidate.withoutAccount] using c.ids_valid
  ids_unique := by simpa [Function.comp_def, ElectionCandidate.withoutAccount] using c.ids_unique
  ids_free := by simpa [ElectionCandidate.withoutAccount] using c.ids_free
  persons_unique := by simp [filterMap_map, Function.comp_def, ElectionCandidate.withoutAccount]
  enough := by simpa using c.enough
  guests_no_quorum := c.guests_no_quorum

def Config.public : Config → Config
  | .election c => .election c.public
  | c => c

/-- `ElectionResultOut.public`: the lot without the `sub` of the lead. -/
def ElectionResultOut.public (r : ElectionResultOut) : ElectionResultOut :=
  { r with lot := r.lot.map ({ · with drawnBy := none }) }

def Vote.public (v : Vote) : Vote :=
  { v with config := v.config.public, electionResult := v.electionResult.map ElectionResultOut.public }

@[simp] theorem public_candidateIds (c : ElectionConfig) : c.public.candidateIds = c.candidateIds := by
  simp [ElectionConfig.candidateIds, ElectionConfig.public, Function.comp_def, ElectionCandidate.withoutAccount]

@[simp] theorem public_yesNo (c : ElectionConfig) : c.public.yesNo = c.yesNo := by
  simp [ElectionConfig.yesNo, ElectionConfig.public]

theorem tallyElection_public (choices : List Text) (c : ElectionConfig) (eligible : ℕ) :
    tallyElection choices c.public eligible = tallyElection choices c eligible := by
  have hyesNo : yesNoOutcome c.public choices eligible = yesNoOutcome c choices eligible := by
    simp only [yesNoOutcome, public_candidateIds]
    rfl
  have hmissed : missedOutcome c.public choices = missedOutcome c choices := by
    simp only [missedOutcome, electionPicks, public_candidateIds]
    rfl
  have hquorum : electionQuorumMet c.public choices eligible = electionQuorumMet c choices eligible := by
    simp only [electionQuorumMet, electionPicks, public_candidateIds]
    rfl
  simp only [tallyElection, public_yesNo, hyesNo, hmissed, hquorum, rankedCandidates, public_candidateIds]
  rfl

end Public

section Projection

theorem abstain_not_option {ids : List Text} (h : ∀ o ∈ ids, isPollOptionId o) : abstainKey ∉ ids := by
  intro hmem
  have := h _ hmem
  revert this
  decide

def ElectionConfig.asVoteConfig (c : ElectionConfig) : VoteConfig where
  options := if c.yesNo then [yesKey, noKey, abstainKey] else c.candidateIds ++ [abstainKey]
  majorityRule := .simple
  quorum := c.quorum
  abstainCountsQuorum := c.abstainCountsQuorum
  secret := c.secret
  tieBreak := .tie
  guestsVote := c.guestsVote
  min_options := by
    have := c.enough
    have := c.seats_pos
    split
    · decide
    · simp [ElectionConfig.candidateIds]
      omega
  unique_options := by
    split
    · decide
    · refine nodup_append.mpr ⟨c.ids_unique, nodup_singleton _, ?_⟩
      rintro a ha b hb rfl
      obtain ⟨candidate, hmem, rfl⟩ := mem_map.mp ha
      refine c.ids_free candidate hmem ?_
      rw [mem_singleton.mp hb]
      decide
  guests_no_quorum := c.guests_no_quorum

def PollConfig.asVoteConfig (c : PollConfig) : VoteConfig where
  options := if c.mode = .date then c.optionIds else c.optionIds ++ [abstainKey]
  majorityRule := .simple
  quorum := none
  abstainCountsQuorum := true
  secret := c.secret
  tieBreak := .tie
  guestsVote := c.guestsVote
  min_options := by
    have : 2 ≤ c.options.length := c.min_options
    split
    · simpa [PollConfig.optionIds] using this
    · simp [PollConfig.optionIds]
      omega
  unique_options := by
    split
    · exact c.ids_unique
    · refine nodup_append.mpr ⟨c.ids_unique, nodup_singleton _, ?_⟩
      rintro a ha b hb rfl
      have habstain : abstainKey ∈ c.optionIds := mem_singleton.mp hb ▸ ha
      refine abstain_not_option (fun o ho => ?_) habstain
      obtain ⟨option, hmem, rfl⟩ := mem_map.mp ho
      have hfits := c.options_fit option hmem
      unfold PollOption.fits at hfits
      exact (Bool.and_eq_true _ _ ▸ hfits).1
  guests_no_quorum _ := rfl

/-- `VoteConfig.from_stored`. -/
def Config.asVoteConfig : Config → VoteConfig
  | .motion c => c
  | .election c => c.asVoteConfig
  | .poll c => c.asVoteConfig

theorem public_asVoteConfig (c : Config) : c.public.asVoteConfig = c.asVoteConfig := by
  cases c with
  | motion c => rfl
  | poll c => rfl
  | election c =>
    simp only [Config.public, Config.asVoteConfig, ElectionConfig.asVoteConfig, public_yesNo, public_candidateIds]
    rfl

end Projection

section Output

def ElectionOutcome.displayCounts (o : ElectionOutcome) : Counts := o.counts ++ [(abstainKey, o.abstentions)]

/-- `display_counts` of a poll: a date poll has no abstentions. -/
def PollOutcome.displayCounts (o : PollOutcome) : Counts :=
  if o.maybe.isSome then o.counts else o.counts ++ [(abstainKey, o.abstentions)]

structure Counted where
  counts : Counts
  voted : ℕ
  quorumMet : Bool
  leading : Option Text
  deriving DecidableEq

/-- `_counted`: the stored ballots of a vote by its kind. -/
def counted (config : Config) (choices : List Text) (eligible : ℕ) : Counted :=
  match config with
  | .motion c =>
    let counts := tally c.options choices
    let outcome := result c counts eligible
    ⟨counts, counts.total, outcome.quorumMet, outcome.leading⟩
  | .election c =>
    let outcome := tallyElection choices c eligible
    ⟨outcome.displayCounts, outcome.ballots, outcome.quorumMet, none⟩
  | .poll c =>
    let outcome := tallyPoll choices c
    ⟨outcome.displayCounts, outcome.ballots, true, none⟩

inductive FailedReason where
  | quorum
  | majority
  deriving DecidableEq

def failedReason (result : VoteResult) (quorumMet : Bool) : Option FailedReason :=
  if result ≠ .rejected then none else if quorumMet then some .majority else some .quorum

structure TallyOut where
  counts : Counts
  eligible : ℕ
  voted : ℕ
  present : ℕ
  revealed : Bool
  quorumMet : Bool
  leading : Option Text
  result : Option VoteResult
  failedReason : Option FailedReason
  presentMembers : Option ℕ
  presentGuests : Option ℕ
  deriving DecidableEq

/-- `_attendance` of a meeting vote: fixed at the close, counted while it runs. -/
def attendance (vote : Vote) (members guests : ℕ) : Option ℕ × Option ℕ × ℕ :=
  if vote.status = .closed then (vote.presentMembers, vote.presentGuests, 0)
  else (some members, some guests, if vote.config.guestsVote then members + guests else members)

/-- `_tally_out` and `_with_stored_result`, from the counted ballots and the counted
members and guests. -/
def tallyOut (vote : Vote) (c : Counted) (members guests : ℕ) : TallyOut :=
  let revealed : Bool := vote.status = .closed
  { counts := if revealed then c.counts else []
    eligible := vote.eligibleCount.getD 0
    voted := c.voted
    present := (attendance vote members guests).2.2
    revealed
    quorumMet := c.quorumMet
    leading := if revealed then c.leading else none
    result := if revealed then vote.result else none
    failedReason := if revealed then vote.result.bind (failedReason · c.quorumMet) else none
    presentMembers := (attendance vote members guests).1
    presentGuests := (attendance vote members guests).2.1 }

theorem counted_public (config : Config) (choices : List Text) (eligible : ℕ) :
    counted config.public choices eligible = counted config choices eligible := by
  cases config with
  | motion c => rfl
  | poll c => rfl
  | election c => simp only [Config.public, counted, tallyElection_public]

@[simp] theorem public_guestsVote (config : Config) : config.public.guestsVote = config.guestsVote := by
  cases config with
  | motion c => rfl
  | poll c => rfl
  | election c => rfl

theorem tallyOut_public (vote : Vote) (c : Counted) (members guests : ℕ) :
    tallyOut vote.public c members guests = tallyOut vote c members guests := by
  have hattendance : attendance vote.public members guests = attendance vote members guests := by
    simp only [attendance, Vote.public, public_guestsVote]
  simp only [tallyOut, hattendance]
  rfl

end Output

end Voting

namespace GuestView
open Py Voting List

inductive GuestsMode where
  | watch
  | vote
  deriving DecidableEq

inductive GuestStatus where
  | pending
  | admitted
  | rejected
  | removed
  | left
  deriving DecidableEq

structure Meeting where
  id : ℕ
  status : MeetingStatus
  guestsMode : GuestsMode
  currentAgendaItemId : Option ℕ
  title : Text
  gremiumId : ℕ
  joinCode : Option Text
  date : Option ℤ
  startTime : Option ℤ
  startedAt : Option Time
  deriving DecidableEq

structure AgendaItem where
  id : ℕ
  meetingId : ℕ
  applicationId : Option ℕ
  title : Option Text
  body : Option Text
  position : ℤ
  createdAt : Time
  nonPublic : Bool
  doneAt : Option Time
  deriving DecidableEq

structure Application where
  id : ℕ
  data : List (Text × Json)

structure AttendanceRow where
  meetingId : ℕ
  principalId : ℕ
  present : Bool
  deriving DecidableEq

structure Guest where
  id : ℕ
  meetingId : ℕ
  seq : ℕ
  displayName : Option Text
  status : GuestStatus
  decidedAt : Option Time
  deriving DecidableEq

structure Delegation where
  meetingId : ℕ
  delegatorId : ℕ
  delegateId : ℕ
  deriving DecidableEq

structure VoteRow where
  id : ℕ
  createdAt : Time
  row : Vote

/-- The tables that a meeting has rows in. `choices` and `markers` list the
`secret_ballot` choices and the `voted_marker` voters of each vote. -/
structure State where
  gremien : List (ℕ × Text)
  items : List AgendaItem
  applications : List Application
  attendance : List AttendanceRow
  guests : List Guest
  delegations : List Delegation
  votes : List VoteRow
  choices : ℕ → List Text
  markers : ℕ → List Text

section Reads

variable (s : State) (m : Meeting)

/-- `agenda_order`. -/
def AgendaItem.before (a b : AgendaItem) : Prop :=
  a.position < b.position ∨ a.position = b.position ∧
    (a.createdAt < b.createdAt ∨ a.createdAt = b.createdAt ∧ a.id ≤ b.id)

instance (a b : AgendaItem) : Decidable (a.before b) :=
  inferInstanceAs (Decidable (_ ∨ _ ∧ (_ ∨ _ ∧ _)))

def State.agenda : List AgendaItem := (s.items.filter (·.meetingId = m.id)).insertionSort AgendaItem.before

def titleOf (data : List (Text × Json)) : Option Text :=
  match data.find? (·.1 = text "title") with
  | some (_, .str value) => if strip value = [] then none else some (strip value)
  | _ => none

/-- `_app_titles`. -/
def State.appTitle (application : ℕ) : Option Text :=
  (s.applications.find? (·.id = application)).bind fun a => titleOf a.data

def State.itemTitle (item : AgendaItem) : Option Text :=
  (item.title.filter (· ≠ [])).or (item.applicationId.bind s.appTitle)

def State.gremiumName : Option Text := (s.gremien.find? (·.1 = m.gremiumId)).map (·.2)

def State.presentMembers : ℕ := (s.attendance.filter fun a => a.meetingId = m.id && a.present).length

def State.admitted : List ℕ := (s.guests.filter fun g => g.meetingId = m.id && g.status = .admitted).map (·.id)

def State.publicIds : List ℕ := ((s.agenda m).filter (!·.nonPublic)).map (·.id)

/-- The rows that `_votes` selects: the open and the closed votes of the public items. -/
def State.shownVotes : List VoteRow :=
  (s.votes.filter fun v =>
    v.row.meetingId = some m.id && v.row.agendaItemId.any (· ∈ s.publicIds m) &&
      (v.row.status = .open || v.row.status = .closed)).insertionSort fun a b => a.createdAt ≤ b.createdAt

/-- `_guest_attendance`. -/
def State.guestsOf (v : VoteRow) : ℕ := guestAttendance v.row.config.guestsVote (s.admitted m) (s.markers v.id)

def State.counted (v : VoteRow) : Counted :=
  Voting.counted v.row.config (s.choices v.id) (v.row.eligibleCount.getD 0)

/-- `my_ballot`. -/
def State.cast (v : VoteRow) (g : Guest) : Bool := (s.markers v.id).contains (guestVoterSub g.id)

end Reads

section View

structure GuestAgendaItem where
  id : ℕ
  position : ℕ
  title : Option Text
  application : Bool
  nonPublic : Bool
  body : Option Text
  done : Bool
  deriving DecidableEq

structure GuestVote where
  id : ℕ
  agendaItemId : Option ℕ
  question : Option Text
  options : List Text
  status : VoteStatus
  secret : Bool
  majorityRule : MajorityRule
  guestsVote : Bool
  quorum : Option Quorum
  openedAt : Option Time
  closedAt : Option Time
  result : Option VoteResult
  failedReason : Option FailedReason
  tally : TallyOut
  cast : Bool
  canCast : Bool
  kind : VoteKind
  election : Option ElectionConfig
  electionResult : Option ElectionResultOut
  poll : Option PollConfig
  pollResult : Option PollOutcome

structure View where
  currentAgendaItemId : Option ℕ
  presentMembers : ℕ
  admittedGuests : ℕ
  agenda : List GuestAgendaItem
  votes : List GuestVote

structure Head where
  code : Text
  title : Text
  gremiumName : Option Text
  date : Option ℤ
  startTime : Option ℤ
  status : MeetingStatus
  startedAt : Option Time
  guestsMode : GuestsMode
  deriving DecidableEq

structure Me where
  guestId : ℕ
  number : ℕ
  displayName : Option Text
  status : GuestStatus
  retryAfter : Option ℤ
  meeting : Head
  view : Option View

/-- One agenda item of the view: no text of a non-public item, and none before the start. -/
def agendaItem (s : State) (m : Meeting) (position : ℕ) (item : AgendaItem) : GuestAgendaItem where
  id := item.id
  position
  title := s.itemTitle item
  application := item.applicationId.isSome
  nonPublic := item.nonPublic
  body := if item.nonPublic || m.status = .planned then none else item.body
  done := item.doneAt.isSome && !item.nonPublic

def electionOf : Config → Option ElectionConfig
  | .election c => some c
  | _ => none

def pollOf : Config → Option PollConfig
  | .poll c => some c
  | _ => none

/-- The fields of `_guest_vote` from the row and what is counted for it. -/
def guestVoteOf (m : Meeting) (id : ℕ) (row : Vote) (c : Counted) (members guests : ℕ) (cast : Bool) : GuestVote :=
  let config := row.config.asVoteConfig
  { id
    agendaItemId := row.agendaItemId
    question := row.question
    options := config.options
    status := row.status
    secret := config.secret
    majorityRule := config.majorityRule
    guestsVote := config.guestsVote
    quorum := config.quorum
    openedAt := row.opensAt
    closedAt := row.closedAt
    result := row.result
    failedReason := (tallyOut row c members guests).failedReason
    tally := tallyOut row c members guests
    cast
    canCast := row.status = .open && config.guestsVote && m.guestsMode = .vote && !cast
    kind := row.config.kind
    election := (electionOf row.config).map ElectionConfig.public
    electionResult := if row.config.kind = .election then row.electionResult.map ElectionResultOut.public else none
    poll := pollOf row.config
    pollResult := if row.config.kind = .poll then row.pollResult else none }

def guestVote (s : State) (m : Meeting) (g : Guest) (v : VoteRow) : GuestVote :=
  guestVoteOf m v.id v.row (s.counted v) (s.presentMembers m) (s.guestsOf m v) (s.cast v g)

/-- `enumerate(items, start=1)`. -/
def numbered {α β : Type} (f : ℕ → α → β) : ℕ → List α → List β
  | _, [] => []
  | n, a :: as => f n a :: numbered f (n + 1) as

def view (s : State) (m : Meeting) (g : Guest) : View where
  currentAgendaItemId := m.currentAgendaItemId
  presentMembers := s.presentMembers m
  admittedGuests := (s.admitted m).length
  agenda := numbered (agendaItem s m) 1 (s.agenda m)
  votes := (s.shownVotes m).map (guestVote s m g)

def head (s : State) (m : Meeting) : Head where
  code := m.joinCode.getD []
  title := m.title
  gremiumName := s.gremiumName m
  date := m.date
  startTime := m.startTime
  status := m.status
  startedAt := m.startedAt
  guestsMode := m.guestsMode

def retryAfter (g : Guest) (now : Time) : Option ℤ :=
  if g.status = .rejected || g.status = .removed then g.decidedAt.map fun t => max 0 (t + 180 - now) else none

def me (s : State) (m : Meeting) (g : Guest) (now : Time) : Me where
  guestId := g.id
  number := g.seq
  displayName := g.displayName
  status := g.status
  retryAfter := retryAfter g now
  meeting := head s m
  view := if g.status = .admitted then some (view s m g) else none

end View

section Agreement

/-- What two states share of an item: nothing but the title, the kind and the mark of a
non-public one. -/
structure SameItem (bodies : Bool) (s s' : State) (a b : AgendaItem) : Prop where
  id : a.id = b.id
  title : s.itemTitle a = s'.itemTitle b
  kind : a.applicationId.isSome = b.applicationId.isSome
  mark : a.nonPublic = b.nonPublic
  done : a.nonPublic = false → a.doneAt.isSome = b.doneAt.isSome
  body : bodies = true → a.nonPublic = false → a.body = b.body

/-- What two states share of a vote: the row but for accounts, its tally with the guests
that it counts, and the own ballot mark. -/
structure SameVote (s s' : State) (m : Meeting) (g : Guest) (v w : VoteRow) : Prop where
  id : v.id = w.id
  row : v.row.public = w.row.public
  tally : s.counted v = s'.counted w
  guests : s.guestsOf m v = s'.guestsOf m w
  cast : s.cast v g = s'.cast w g

/-- Two states with the same public part. `bodies` tells that the texts of the public items agree. -/
structure Agree (bodies : Bool) (m : Meeting) (g : Guest) (s s' : State) : Prop where
  items : List.Forall₂ (SameItem bodies s s') (s.agenda m) (s'.agenda m)
  votes : List.Forall₂ (SameVote s s' m g) (s.shownVotes m) (s'.shownVotes m)
  members : s.presentMembers m = s'.presentMembers m
  guests : (s.admitted m).length = (s'.admitted m).length

end Agreement

section Noninterference

variable {s s' : State} {m : Meeting} {g : Guest}

theorem public_public (c : ElectionConfig) : c.public.public = c.public := by
  simp [ElectionConfig.public, Function.comp_def, ElectionCandidate.withoutAccount]

theorem result_public_public (r : ElectionResultOut) : r.public.public = r.public := by
  simp [ElectionResultOut.public, Function.comp_def]

theorem public_kind (c : Config) : c.public.kind = c.kind := by
  cases c with
  | motion c => rfl
  | election c => rfl
  | poll c => rfl

theorem public_electionOf (c : Config) :
    (electionOf c.public).map ElectionConfig.public = (electionOf c).map ElectionConfig.public := by
  cases c with
  | motion c => rfl
  | election c => exact congrArg some (public_public c)
  | poll c => rfl

theorem public_pollOf (c : Config) : pollOf c.public = pollOf c := by
  cases c with
  | motion c => rfl
  | election c => rfl
  | poll c => rfl

theorem guestVoteOf_public (id : ℕ) (row : Vote) (c : Counted) (members guests : ℕ) (cast : Bool) :
    guestVoteOf m id row.public c members guests cast = guestVoteOf m id row c members guests cast := by
  have hconfig : row.public.config = row.config.public := rfl
  have hresult : row.public.electionResult.map ElectionResultOut.public =
      row.electionResult.map ElectionResultOut.public := by
    simp [Vote.public, Function.comp_def, result_public_public]
  simp only [guestVoteOf, tallyOut_public, hresult, hconfig, public_asVoteConfig, public_kind, public_electionOf,
    public_pollOf]
  rfl

theorem guestVote_agrees (hmembers : s.presentMembers m = s'.presentMembers m) {v w : VoteRow}
    (h : SameVote s s' m g v w) : guestVote s m g v = guestVote s' m g w := by
  rw [guestVote, guestVote, ← guestVoteOf_public v.id, ← guestVoteOf_public w.id, h.id, h.row, h.tally, h.guests,
    h.cast, hmembers]

theorem agendaItem_agrees {bodies : Bool} (hbodies : bodies = true ∨ m.status = .planned) {a b : AgendaItem}
    (h : SameItem bodies s s' a b) (position : ℕ) : agendaItem s m position a = agendaItem s' m position b := by
  have hdone : (a.doneAt.isSome && !a.nonPublic) = (b.doneAt.isSome && !b.nonPublic) := by
    rw [← h.mark]
    cases hmark : a.nonPublic with
    | true => simp
    | false => rw [h.done hmark]
  have hbody : (if a.nonPublic || m.status = .planned then none else a.body) =
      if b.nonPublic || m.status = .planned then none else b.body := by
    rw [← h.mark]
    split
    case isTrue => rfl
    case isFalse hshown =>
      simp only [Bool.or_eq_true, decide_eq_true_eq, not_or, Bool.not_eq_true] at hshown
      exact h.body (hbodies.resolve_right hshown.2) hshown.1
  rw [agendaItem, agendaItem, h.id, h.title, h.kind, hbody, hdone, h.mark]

theorem numbered_agrees {α β : Type} {R : α → α → Prop} {f f' : ℕ → α → β} (h : ∀ n a b, R a b → f n a = f' n b)
    {as bs : List α} (hall : List.Forall₂ R as bs) (n : ℕ) : numbered f n as = numbered f' n bs := by
  induction hall generalizing n with
  | nil => rfl
  | cons hab _ ih => rw [numbered, numbered, h n _ _ hab, ih]

theorem map_agrees {α β : Type} {R : α → α → Prop} {f f' : α → β} (h : ∀ a b, R a b → f a = f' b)
    {as bs : List α} (hall : List.Forall₂ R as bs) : as.map f = bs.map f' := by
  induction hall with
  | nil => rfl
  | cons hab _ ih => rw [map_cons, map_cons, h _ _ hab, ih]

/-- Two states with the same public part give a guest the same view, in a planned meeting
also where the texts differ. The page of the guest names the Gremium besides. -/
theorem guest_view_agrees {bodies : Bool} (h : Agree bodies m g s s') (hbodies : bodies = true ∨ m.status = .planned) :
    view s m g = view s' m g ∧ (s.gremiumName m = s'.gremiumName m → ∀ now, me s m g now = me s' m g now) := by
  have hview : view s m g = view s' m g := by
    have hagenda := numbered_agrees (R := SameItem bodies s s') (fun n _ _ hitem => agendaItem_agrees hbodies hitem n) h.items 1
    have hvotes := map_agrees (R := SameVote s s' m g) (fun _ _ hvote => guestVote_agrees h.members hvote) h.votes
    rw [view, view, h.members, h.guests, hagenda, hvotes]
  refine ⟨hview, fun hgremium now => ?_⟩
  rw [me, me, head, head, hgremium, hview]

def chairElection (a b : ℕ) (h : a ≠ b) : ElectionConfig where
  seats := 1
  candidates := [⟨text "c1", text "Anna", some a, false⟩, ⟨text "c2", text "Ben", some b, false⟩]
  secret := true
  quorum := none
  abstainCountsQuorum := true
  guestsVote := true
  seats_pos := le_refl 1
  candidates_max := by simp [electionMaxCandidates]
  ids_valid := by
    simp only [mem_cons, not_mem_nil, or_false, forall_eq_or_imp, forall_eq]
    decide
  ids_unique := by
    show [text "c1", text "c2"].Nodup
    decide
  ids_free := by
    simp only [mem_cons, not_mem_nil, or_false, forall_eq_or_imp, forall_eq]
    decide
  persons_unique := by simpa using h
  enough := by simp
  guests_no_quorum _ := rfl

def voteOn (item : ℕ) (question : Text) (config : Config) : Vote where
  applicationId := none
  meetingId := some 1
  agendaItemId := some item
  eligibleGroup := 3
  question := some question
  config
  proposal := none
  eligibleCount := some 4
  opensStateId := none
  opensAt := some 100
  closesAt := none
  closedAt := none
  status := .open
  result := none
  resultBranchTransitionId := none
  presentMembers := none
  presentGuests := none
  parentVoteId := none
  round := 1
  electionResult := none
  pollResult := none
  remindedAt := none

def hall : Meeting := ⟨1, .live, .vote, some 5, text "Session", 3, some (text "7KQ4MP"), none, none, some 90⟩

def visitor : Guest := ⟨40, 1, 1, some (text "Vera"), .admitted, some 95⟩

/-- A public item with an election and a non-public one; what a guest may not see is a parameter. -/
def hallState (a b : ℕ) (h : a ≠ b) (hidden name : Text) (member : ℕ) : State where
  gremien := [(3, text "Council")]
  items := [⟨6, 1, none, some (text "Staff"), some hidden, 2, 0, true, some 120⟩,
    ⟨5, 1, none, some (text "Chair"), some (text "open text"), 1, 0, false, none⟩]
  applications := []
  attendance := [⟨1, member, true⟩]
  guests := [visitor, ⟨41, 1, 2, some name, .admitted, some 96⟩]
  delegations := [⟨1, member, a⟩]
  votes := [⟨8, 2, voteOn 6 hidden (.election (chairElection b a h.symm))⟩,
    ⟨7, 1, voteOn 5 (text "Who?") (.election (chairElection a b h))⟩]
  choices v := if v = 7 then [text "[\"c1\"]"] else [hidden]
  markers v := if v = 7 then [guestVoterSub 40] else [name]

theorem hallState_agree (a b a' b' : ℕ) (h : a ≠ b) (h' : a' ≠ b') (hidden hidden' name name' : Text)
    (member member' : ℕ) :
    Agree true hall visitor (hallState a b h hidden name member) (hallState a' b' h' hidden' name' member') where
  items := .cons ⟨rfl, rfl, rfl, rfl, fun _ => rfl, fun _ _ => rfl⟩
    (.cons ⟨rfl, rfl, rfl, rfl, (nomatch ·), (nomatch ·, ·)⟩ .nil)
  votes := by
    refine .cons ⟨rfl, rfl, ?_, rfl, rfl⟩ .nil
    show Voting.counted (.election (chairElection a b h)) _ _ = Voting.counted (.election (chairElection a' b' h')) _ _
    rw [← counted_public, ← counted_public (.election (chairElection a' b' h'))]
    rfl
  members := rfl
  guests := rfl

theorem hallState_view :
    view (hallState 10 11 (by decide) (text "secret") (text "Gil") 20) hall visitor =
      view (hallState 12 13 (by decide) (text "other") (text "Mia") 21) hall visitor :=
  (guest_view_agrees (hallState_agree 10 11 12 13 (by decide) (by decide) _ _ _ _ 20 21) (.inl rfl)).1

end Noninterference

end GuestView
