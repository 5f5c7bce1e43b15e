import Mathlib.Data.List.Sort
import Mathlib.Tactic.Linarith
import StupaWorkflow.Json

/-!
The rules of a vote and its pure tally: a motion, a personnel election and a poll.
-/
namespace Voting
open Py List

inductive VoteResult where
  | passed
  | rejected
  | tie
  | elected
  | runoff
  deriving DecidableEq

inductive MajorityRule where
  | simple
  | absolute
  | twoThirds
  deriving DecidableEq

inductive TieBreak where
  | passed
  | rejected
  | tie
  deriving DecidableEq

def TieBreak.result : TieBreak → VoteResult
  | .passed => .passed
  | .rejected => .rejected
  | .tie => .tie

inductive QuorumType where
  | count
  | percent
  deriving DecidableEq

/-- The value is the exact decimal that the stored float prints. -/
structure Quorum where
  type : QuorumType
  value : ℚ
  nonneg : 0 ≤ value

def yesKey : Text := text "yes"
def noKey : Text := text "no"
def abstainKey : Text := text "abstain"
def maybeKey : Text := text "maybe"

/-- The rules of a motion, as its model validates them. -/
structure VoteConfig where
  options : List Text
  majorityRule : MajorityRule
  quorum : Option Quorum
  abstainCountsQuorum : Bool
  secret : Bool
  tieBreak : TieBreak
  guestsVote : Bool
  min_options : 2 ≤ options.length
  unique_options : options.Nodup
  guests_no_quorum : guestsVote → quorum = none

theorem motion_options : 2 ≤ [yesKey, noKey, abstainKey].length := by decide

theorem motion_options_nodup : [yesKey, noKey, abstainKey].Nodup := by decide

theorem no_guests : false = true → (none : Option Quorum) = none :=
  fun _ => rfl

structure ElectionCandidate where
  id : Text
  name : Text
  principalId : Option ℕ
  erased : Bool
  deriving DecidableEq

/-- `^[A-Za-z0-9_-]+$` of at most 64 characters. -/
def isCandidateId (s : Text) : Bool :=
  s ≠ [] && s.length ≤ 64 && s.all fun c =>
    isDigit c || (65 ≤ c && c ≤ 90) || (97 ≤ c && c ≤ 122) || c == 95 || c == 45

def electionReservedIds : List Text := [yesKey, noKey, abstainKey]
def electionMaxCandidates : ℕ := 50

structure ElectionConfig where
  seats : ℕ
  candidates : List ElectionCandidate
  secret : Bool
  quorum : Option Quorum
  abstainCountsQuorum : Bool
  guestsVote : Bool
  seats_pos : 1 ≤ seats
  candidates_max : candidates.length ≤ electionMaxCandidates
  ids_valid : ∀ c ∈ candidates, isCandidateId c.id
  ids_unique : (candidates.map (·.id)).Nodup
  ids_free : ∀ c ∈ candidates, c.id ∉ electionReservedIds
  persons_unique : (candidates.filterMap (·.principalId)).Nodup
  enough : seats ≤ candidates.length
  guests_no_quorum : guestsVote → quorum = none

namespace ElectionConfig
open List

def yesNo (c : ElectionConfig) : Bool := c.candidates.length == 1

def candidateIds (c : ElectionConfig) : List Text := c.candidates.map (·.id)

end ElectionConfig

inductive PollMode where
  | single
  | multi
  | date
  deriving DecidableEq

structure PollOption where
  id : Text
  label : Option Text
  start : Option ℤ
  ends : Option ℤ
  deriving DecidableEq

/-- `^o[0-9]+$` of at most 16 characters. -/
def isPollOptionId (s : Text) : Bool :=
  match s with
  | 111 :: ds => ds ≠ [] && ds.length ≤ 15 && ds.all isDigit
  | _ => false

def pollMinOptions : ℕ := 2
def pollMaxOptions : ℕ := 20

/-- The form of an option that the mode takes: a label, or a start with an end
that comes after it. -/
def PollOption.fits (mode : PollMode) (o : PollOption) : Bool :=
  isPollOptionId o.id &&
    match mode with
    | .date => o.start.isSome && o.label.isNone &&
        (match o.start, o.ends with
          | some a, some b => a < b
          | _, _ => true)
    | _ => o.label.isSome && o.start.isNone && o.ends.isNone

/-- The rules of a poll, as its model validates them. -/
structure PollConfig where
  mode : PollMode
  options : List PollOption
  maxChoices : Option ℕ
  secret : Bool
  guestsVote : Bool
  min_options : pollMinOptions ≤ options.length
  max_options : options.length ≤ pollMaxOptions
  options_fit : ∀ o ∈ options, o.fits mode
  ids_unique : (options.map (·.id)).Nodup
  max_choices : ∀ n ∈ maxChoices, mode = .multi ∧ 1 ≤ n ∧ n ≤ options.length

namespace PollConfig
open List

/-- Validate the parts of a poll; `none` when they do not fit together. -/
def build (mode : PollMode) (options : List PollOption) (maxChoices : Option ℕ)
    (secret guestsVote : Bool) : Option PollConfig :=
  if h : pollMinOptions ≤ options.length ∧ options.length ≤ pollMaxOptions ∧
      (∀ o ∈ options, o.fits mode) ∧ (options.map (·.id)).Nodup ∧
      (∀ n ∈ maxChoices, mode = .multi ∧ 1 ≤ n ∧ n ≤ options.length) then
    some ⟨mode, options, maxChoices, secret, guestsVote, h.1, h.2.1, h.2.2.1, h.2.2.2.1, h.2.2.2.2⟩
  else none

def optionIds (c : PollConfig) : List Text := c.options.map (·.id)

def choiceLimit (c : PollConfig) : ℕ :=
  match c.mode with
  | .single => 1
  | _ => c.maxChoices.getD c.options.length

end PollConfig

abbrev Counts := List (Text × ℕ)

def Counts.get (counts : Counts) (key : Text) : ℕ :=
  ((counts.find? fun p => p.1 == key).map (·.2)).getD 0

def Counts.total (counts : Counts) : ℕ := (counts.map (·.2)).sum

def countAll (keys hits : List Text) : Counts := keys.map fun key => (key, hits.count key)

def tally (options choices : List Text) : Counts := countAll options.eraseDups choices

/-- The option with the most votes, unless nobody voted or the top is shared. -/
def leading (counts : Counts) : Option Text :=
  let top := (counts.map (·.2)).foldr max 0
  match counts.filter fun p => p.2 == top with
  | [winner] => if 0 < top then some winner.1 else none
  | _ => none

def quorumMet (quorum : Option Quorum) (participation eligible : ℕ) : Bool :=
  match quorum with
  | none => true
  | some q =>
    match q.type with
    | .count => q.value ≤ participation
    | .percent => 0 < eligible && q.value * eligible ≤ participation * 100

def bySign (margin : ℤ) : VoteResult :=
  if 0 < margin then .passed else if margin < 0 then .rejected else .tie

def twoThirds (yes no : ℕ) : VoteResult :=
  let decisive := yes + no
  if 0 < decisive && 2 * decisive ≤ 3 * yes then .passed
  else if 0 < decisive && 2 * decisive ≤ 3 * no then .rejected
  else .tie

def majority (rule : MajorityRule) (yes no cast : ℕ) : VoteResult :=
  match rule with
  | .simple => bySign ((yes : ℤ) - no)
  | .absolute => bySign (2 * (yes : ℤ) - cast)
  | .twoThirds => twoThirds yes no

structure Outcome where
  result : VoteResult
  quorumMet : Bool
  leading : Option Text
  deriving DecidableEq

def result (config : VoteConfig) (counts : Counts) (eligible : ℕ) : Outcome :=
  let yes := counts.get yesKey
  let no := counts.get noKey
  let abstain := counts.get abstainKey
  let cast := counts.total
  let participation := if config.abstainCountsQuorum then cast else cast - abstain
  let met := quorumMet config.quorum participation eligible
  let raw := if met then majority config.majorityRule yes no cast else .rejected
  { result := if raw = .tie then config.tieBreak.result else raw
    quorumMet := met
    leading := leading counts }

def encodeElectionChoice (ids : List Text) : Text :=
  (Json.arr ((ids.insertionSort (· ≤ ·)).map .str)).dumps (text ",") (text ":")

def asStrings : List Json → Option (List Text)
  | [] => some []
  | .str s :: vs => (asStrings vs).map (s :: ·)
  | _ :: _ => none

def decodeElectionChoice (raw : Text) : Option (List Text) :=
  match Json.loadsAll raw with
  | .ok (.arr vs) => asStrings vs
  | _ => none

structure ElectionOutcome where
  result : VoteResult
  quorumMet : Bool
  counts : Counts
  abstentions : ℕ
  ballots : ℕ
  elected : List Text
  tied : List Text
  openSeats : ℕ
  yes : Option ℕ
  no : Option ℕ
  deriving DecidableEq

def yesNoOutcome (config : ElectionConfig) (choices : List Text) (eligible : ℕ) : ElectionOutcome :=
  let counts := tally [yesKey, noKey, abstainKey] choices
  let ballots := counts.total
  let participation :=
    if config.abstainCountsQuorum then ballots else ballots - counts.get abstainKey
  let met := quorumMet config.quorum participation eligible
  let won := met && decide (counts.get noKey < counts.get yesKey)
  { result := if won then .elected else .rejected
    quorumMet := met
    counts := [(yesKey, counts.get yesKey), (noKey, counts.get noKey)]
    abstentions := counts.get abstainKey
    ballots := ballots
    elected := if won then config.candidateIds.take 1 else []
    tied := []
    openSeats := 0
    yes := some (counts.get yesKey)
    no := some (counts.get noKey) }

/-- The known ids of one list ballot, without repeats and cut at the limit. -/
def listPicks (raw : Text) (known : List Text) (limit : ℕ) : List Text :=
  ((((decodeElectionChoice raw).getD []).eraseDups).filter fun c => known.contains c).take limit

def rankBy (key : Text → ℕ) (ids : List Text) : List Text :=
  ids.insertionSort fun a b => key b ≤ key a

def seatOutcome (base : ElectionOutcome) (ranked : List Text) (seats : ℕ) : ElectionOutcome :=
  let votes := fun c => base.counts.get c
  let fits := ranked.length ≤ seats
  let boundary := if fits then 0 else votes (ranked.getD (seats - 1) [])
  let clearCut := fits ∨ votes (ranked.getD seats []) < boundary
  let above := ranked.filter fun c => boundary < votes c
  let tied := ranked.filter fun c => votes c == boundary
  if clearCut then
    { base with
      result := if ranked = [] then .rejected else .elected
      quorumMet := true
      elected := ranked.take seats }
  else
    { base with
      result := .tie
      quorumMet := true
      elected := above
      tied := tied
      openSeats := seats - above.length }

def electionPicks (config : ElectionConfig) (choices : List Text) : List (List Text) :=
  choices.map fun raw => listPicks raw config.candidateIds config.seats

def electionQuorumMet (config : ElectionConfig) (choices : List Text) (eligible : ℕ) : Bool :=
  let fullAbstentions := (electionPicks config choices).countP fun ballot => ballot.isEmpty
  quorumMet config.quorum
    (if config.abstainCountsQuorum then choices.length else choices.length - fullAbstentions) eligible

def missedOutcome (config : ElectionConfig) (choices : List Text) : ElectionOutcome :=
  { result := .rejected
    quorumMet := false
    counts := countAll config.candidateIds (electionPicks config choices).flatten
    abstentions := ((electionPicks config choices).map fun ballot => config.seats - ballot.length).sum
    ballots := choices.length
    elected := []
    tied := []
    openSeats := 0
    yes := none
    no := none }

def rankedCandidates (config : ElectionConfig) (counts : Counts) : List Text :=
  rankBy counts.get (config.candidateIds.filter fun c => 0 < counts.get c)

def tallyElection (choices : List Text) (config : ElectionConfig) (eligible : ℕ) : ElectionOutcome :=
  let missed := missedOutcome config choices
  if config.yesNo then yesNoOutcome config choices eligible
  else if electionQuorumMet config choices eligible then
    seatOutcome missed (rankedCandidates config missed.counts) config.seats
  else missed

/-- Draw distinct candidates one at a time; the chooser picks from the pool that
is left. A pick outside the pool raises, as `list.index` does. -/
def drawLot (choose : List Text → Text) : ℕ → List Text → Option (List Text)
  | 0, _ => some []
  | _ + 1, [] => some []
  | seats + 1, pool =>
    let pick := choose pool
    if pick ∈ pool then (drawLot choose seats (pool.erase pick)).map (pick :: ·) else none

def encodePollAnswers (answers : List (Text × Text)) : Text :=
  (Json.obj ((answers.insertionSort fun a b => a.1 ≤ b.1).map fun (k, v) => (k, .str v))).dumps
    (text ",") (text ":")

def asAnswers : List (Text × Json) → Option (List (Text × Text))
  | [] => some []
  | (k, .str s) :: ms => (asAnswers ms).map ((k, s) :: ·)
  | _ :: _ => none

def decodePollAnswers (raw : Text) : Option (List (Text × Text)) :=
  match Json.loadsAll raw with
  | .ok (.obj ms) => asAnswers ms
  | _ => none

structure PollOutcome where
  counts : Counts
  maybe : Option Counts
  abstentions : ℕ
  ballots : ℕ
  order : List Text
  top : List Text
  deriving DecidableEq

def rankPairs (key : Text → ℕ × ℕ) (ids : List Text) : List Text :=
  ids.insertionSort fun a b => (key b).1 < (key a).1 ∨ ((key b).1 = (key a).1 ∧ (key b).2 ≤ (key a).2)

def datePoll (raw known : List Text) : PollOutcome :=
  let answers := raw.flatMap fun item =>
    ((decodePollAnswers item).getD []).filter fun p => known.contains p.1
  let hits := fun word => (answers.filter fun p => p.2 == word).map (·.1)
  let counts := countAll known (hits yesKey)
  let maybe := countAll known (hits maybeKey)
  let key := fun oid => (counts.get oid, counts.get oid + maybe.get oid)
  let order := rankPairs key known
  let best := key (order.headD [])
  { counts := counts
    maybe := some maybe
    abstentions := 0
    ballots := raw.length
    order := order
    top := if 0 < best.2 then order.filter fun oid => key oid == best else [] }

def listPoll (raw known : List Text) (limit : ℕ) : PollOutcome :=
  let picks := raw.map fun item => listPicks item known limit
  let counts := countAll known picks.flatten
  let order := rankBy counts.get known
  let most := counts.get (order.headD [])
  { counts := counts
    maybe := none
    abstentions := picks.countP fun ballot => ballot.isEmpty
    ballots := raw.length
    order := order
    top := if 0 < most then order.filter fun oid => counts.get oid == most else [] }

def tallyPoll (choices : List Text) (config : PollConfig) : PollOutcome :=
  match config.mode with
  | .date => datePoll choices config.optionIds
  | _ => listPoll choices config.optionIds config.choiceLimit

theorem countAll_perm (keys : List Text) {a b : List Text} (h : a.Perm b) :
    countAll keys a = countAll keys b := by
  simp only [countAll, h.count_eq]

theorem tally_perm (options : List Text) {a b : List Text} (h : a.Perm b) :
    tally options a = tally options b := countAll_perm _ h

theorem yesNoOutcome_perm (config : ElectionConfig) (eligible : ℕ) {a b : List Text} (h : a.Perm b) :
    yesNoOutcome config a eligible = yesNoOutcome config b eligible := by
  simp only [yesNoOutcome, tally_perm _ h]

theorem electionPicks_perm (config : ElectionConfig) {a b : List Text} (h : a.Perm b) :
    (electionPicks config a).Perm (electionPicks config b) := h.map _

theorem missedOutcome_perm (config : ElectionConfig) {a b : List Text} (h : a.Perm b) :
    missedOutcome config a = missedOutcome config b := by
  have hpicks := electionPicks_perm config h
  simp only [missedOutcome, countAll_perm _ hpicks.flatten, (hpicks.map _).sum_nat, h.length_eq]

theorem electionQuorumMet_perm (config : ElectionConfig) (eligible : ℕ) {a b : List Text} (h : a.Perm b) :
    electionQuorumMet config a eligible = electionQuorumMet config b eligible := by
  simp only [electionQuorumMet, (electionPicks_perm config h).countP_eq, h.length_eq]

theorem tallyElection_perm (config : ElectionConfig) (eligible : ℕ) {a b : List Text} (h : a.Perm b) :
    tallyElection a config eligible = tallyElection b config eligible := by
  simp only [tallyElection, yesNoOutcome_perm config eligible h, missedOutcome_perm config h,
    electionQuorumMet_perm config eligible h]

theorem datePoll_perm (known : List Text) {a b : List Text} (h : a.Perm b) :
    datePoll a known = datePoll b known := by
  have hanswers := h.flatMap_right fun item =>
    ((decodePollAnswers item).getD []).filter fun p => known.contains p.1
  have hhits := fun word => ((hanswers.filter fun p => p.2 == word).map Prod.fst)
  unfold datePoll
  simp only [countAll_perm known (hhits yesKey), countAll_perm known (hhits maybeKey), h.length_eq]

theorem listPoll_perm (known : List Text) (limit : ℕ) {a b : List Text} (h : a.Perm b) :
    listPoll a known limit = listPoll b known limit := by
  have hpicks := h.map fun raw => listPicks raw known limit
  unfold listPoll
  simp only [countAll_perm known hpicks.flatten, hpicks.countP_eq, h.length_eq]

theorem tallyPoll_perm (config : PollConfig) {a b : List Text} (h : a.Perm b) :
    tallyPoll a config = tallyPoll b config := by
  unfold tallyPoll
  cases config.mode with
  | single => exact listPoll_perm _ _ h
  | multi => exact listPoll_perm _ _ h
  | date => exact datePoll_perm _ h

theorem drawLot_fills {choose : List Text → Text} {seats : ℕ} {pool drawn : List Text}
    (hpool : pool.Nodup) (hsize : seats ≤ pool.length) (h : drawLot choose seats pool = some drawn) :
    drawn.length = seats ∧ drawn.Nodup ∧ drawn ⊆ pool := by
  induction seats generalizing pool drawn with
  | zero =>
    cases pool <;> cases h <;> simp
  | succ seats ih =>
    cases pool with
    | nil => simp at hsize
    | cons p ps =>
      simp only [drawLot] at h
      split at h
      case isTrue hpick =>
        obtain ⟨rest, hrest, rfl⟩ := Option.map_eq_some_iff.mp h
        have hlen := length_erase_of_mem hpick
        obtain ⟨hl, hn, hs⟩ := ih (hpool.erase _) (by simp only [hlen]; simp at hsize ⊢; omega) hrest
        refine ⟨by simp [hl], nodup_cons.mpr ⟨?_, hn⟩, ?_⟩
        · intro hmem
          exact (hpool.mem_erase_iff.mp (hs hmem)).1 rfl
        · intro c hc
          rcases mem_cons.mp hc with rfl | hc
          · exact hpick
          · exact mem_of_mem_erase (hs hc)
      case isFalse => cases h

theorem rankBy_nodup {key : Text → ℕ} {ids : List Text} (h : ids.Nodup) : (rankBy key ids).Nodup :=
  (perm_insertionSort _ _).nodup_iff.mpr h

theorem rankBy_sorted (key : Text → ℕ) (ids : List Text) :
    (rankBy key ids).Pairwise fun a b => key b ≤ key a := by
  have : Std.Total fun a b : Text => key b ≤ key a := ⟨fun a b => Nat.le_total _ _⟩
  have : IsTrans Text fun a b => key b ≤ key a := ⟨fun a b c hab hbc => le_trans hbc hab⟩
  exact pairwise_insertionSort _ _

theorem filter_gt_add_filter_eq (votes : Text → ℕ) (boundary : ℕ) (ranked : List Text) :
    (ranked.filter fun c => boundary < votes c).length + (ranked.filter fun c => votes c == boundary).length =
      (ranked.filter fun c => boundary ≤ votes c).length := by
  induction ranked with
  | nil => rfl
  | cons c cs ih =>
    simp only [filter_cons]
    rcases lt_trichotomy boundary (votes c) with h | h | h
    · simp only [h, h.le, decide_true, if_true, length_cons,
        (by simp; omega : (votes c == boundary) = false), Bool.false_eq_true, if_false]
      omega
    · simp only [h, lt_irrefl, decide_false, Bool.false_eq_true, if_false, beq_self_eq_true, if_true,
        le_refl, decide_true, length_cons]
      rw [← h]
      omega
    · simp only [not_lt.mpr h.le, not_le.mpr h, decide_false, Bool.false_eq_true, if_false,
        (by simp; omega : (votes c == boundary) = false), ih]

theorem sorted_prefix_le {votes : Text → ℕ} {ranked : List Text} {n : ℕ}
    (hs : ranked.Pairwise fun a b => votes b ≤ votes a) (hn : n < ranked.length) :
    n + 1 ≤ (ranked.filter fun c => votes (ranked.getD n []) ≤ votes c).length := by
  have htake : ∀ c ∈ ranked.take (n + 1), votes (ranked.getD n []) ≤ votes c := by
    intro c hc
    obtain ⟨i, hi, rfl⟩ := mem_iff_getElem.mp hc
    simp only [length_take, getElem_take] at hi ⊢
    rw [getD_eq_getElem?_getD, List.getElem?_eq_getElem hn, Option.getD_some]
    rcases Nat.lt_or_ge i n with hlt | hge
    · exact pairwise_iff_getElem.mp hs i n _ hn hlt
    · have : i = n := by omega
      subst this
      exact le_refl _
  have hsub := (take_sublist (n + 1) ranked).filter fun c => votes (ranked.getD n []) ≤ votes c
  have hall : (ranked.take (n + 1)).filter (fun c => votes (ranked.getD n []) ≤ votes c) =
      ranked.take (n + 1) := filter_eq_self.mpr (by simpa using htake)
  have := hsub.length_le
  rw [hall, length_take] at this
  omega

theorem seatOutcome_result (base : ElectionOutcome) (ranked : List Text) (seats : ℕ) :
    (seatOutcome base ranked seats).result = .elected ∨
      (seatOutcome base ranked seats).result = .rejected ∨
        (seatOutcome base ranked seats).result = .tie := by
  simp only [seatOutcome, apply_ite ElectionOutcome.result]
  split_ifs <;> simp

theorem seatOutcome_tie {base : ElectionOutcome} {ranked : List Text} {seats : ℕ}
    (hs : ranked.Pairwise fun a b => base.counts.get b ≤ base.counts.get a)
    (htie : (seatOutcome base ranked seats).result = .tie) :
    (seatOutcome base ranked seats).tied = ranked.filter (fun c =>
        base.counts.get c == base.counts.get (ranked.getD (seats - 1) [])) ∧
      (seatOutcome base ranked seats).openSeats ≤ (seatOutcome base ranked seats).tied.length := by
  unfold seatOutcome at htie ⊢
  dsimp only at htie ⊢
  by_cases hlong : ranked.length ≤ seats
  · rw [if_pos (.inl hlong)] at htie
    by_cases h : ranked = [] <;> simp [h] at htie
  · simp only [hlong, if_false, false_or] at htie ⊢
    by_cases hcross : base.counts.get (ranked.getD seats []) < base.counts.get (ranked.getD (seats - 1) [])
    · rw [if_pos hcross] at htie
      by_cases h : ranked = [] <;> simp [h] at htie
    · rw [if_neg hcross]
      refine ⟨rfl, ?_⟩
      have hsum := filter_gt_add_filter_eq base.counts.get
        (base.counts.get (ranked.getD (seats - 1) [])) ranked
      have hcount := sorted_prefix_le hs (n := seats - 1) (by omega)
      dsimp only
      omega

theorem yesNoOutcome_result (config : ElectionConfig) (choices : List Text) (eligible : ℕ) :
    (yesNoOutcome config choices eligible).result = .elected ∨
      (yesNoOutcome config choices eligible).result = .rejected := by
  unfold yesNoOutcome
  dsimp only
  exact (ite_eq_or_eq _ _ _)

theorem tallyElection_no_runoff (choices : List Text) (config : ElectionConfig) (eligible : ℕ) :
    (tallyElection choices config eligible).result ≠ .runoff := by
  unfold tallyElection
  dsimp only
  split
  · rcases yesNoOutcome_result config choices eligible with h | h <;> simp [h]
  · split
    · rcases seatOutcome_result (missedOutcome config choices)
        (rankedCandidates config (missedOutcome config choices).counts) config.seats with h | h | h <;> simp [h]
    · simp [missedOutcome]

theorem tallyElection_tie {choices : List Text} {config : ElectionConfig} {eligible : ℕ}
    (h : (tallyElection choices config eligible).result = .tie) :
    (tallyElection choices config eligible).tied.Nodup ∧
      (tallyElection choices config eligible).openSeats ≤
        (tallyElection choices config eligible).tied.length := by
  unfold tallyElection at h ⊢
  dsimp only at h ⊢
  split at h
  case isTrue =>
    rcases yesNoOutcome_result config choices eligible with hr | hr <;> simp [hr] at h
  case isFalse hyes =>
    rw [if_neg hyes]
    split at h
    case isTrue hmet =>
      have hsorted : (rankedCandidates config (missedOutcome config choices).counts).Pairwise _ :=
        rankBy_sorted _ _
      obtain ⟨htied, hseats⟩ := seatOutcome_tie hsorted h
      rw [if_pos hmet]
      refine ⟨?_, hseats⟩
      rw [htied]
      exact (rankBy_nodup (config.ids_unique.filter _)).filter _
    case isFalse => simp [missedOutcome] at h

theorem result_missed (config : VoteConfig) (counts : Counts) (eligible : ℕ) :
    (if (result config counts eligible).quorumMet then (result config counts eligible).result else .rejected) =
      (result config counts eligible).result := by
  split
  · rfl
  · next h =>
      simp only [result] at h ⊢
      simp [h]

theorem result_eligible {config : VoteConfig} (h : config.quorum = none) (counts : Counts) (a b : ℕ) :
    result config counts a = result config counts b := by
  simp only [result, h, quorumMet]

theorem tallyElection_eligible {config : ElectionConfig} (h : config.quorum = none) (choices : List Text)
    (a b : ℕ) : tallyElection choices config a = tallyElection choices config b := by
  simp only [tallyElection, yesNoOutcome, electionQuorumMet, h, quorumMet]

end Voting
