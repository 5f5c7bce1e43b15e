import StupaWorkflow.GuestView
import StupaWorkflow.VotingRuns

/-!
The figures of a meeting vote in its two paths. The live path counts one vote; the reload path
reads the ballots of all votes at once and counts them for each vote anew.
-/
namespace Voting
open Py ReadCommitted List

structure Figures where
  counts : Counts
  leading : Option Text
  voted : ℕ
  result : Option VoteResult
  failedReason : Option FailedReason
  deriving DecidableEq

def TallyOut.figures (t : TallyOut) : Figures := ⟨t.counts, t.leading, t.voted, t.result, t.failedReason⟩

/-- The live path: `get` counts the stored ballots of the vote. -/
def liveFigures (vote : Vote) (choices : List Text) (members guests : ℕ) : Figures :=
  (tallyOut vote (counted vote.config choices (vote.eligibleCount.getD 0)) members guests).figures

section Reload

/-- Counts, leading option and failed reason of one vote (`_Tally`). -/
structure ReloadTally where
  counts : Counts
  leading : Option Text
  reason : Option FailedReason

def grouped (rows : List (ℕ × Text)) (v : ℕ) : List Text := (rows.filter (·.1 = v)).map (·.2)

/-- `_reload_tally`: every kind is counted as a motion first. -/
def reloadTally (vote : Vote) (choices : List Text) : ReloadTally :=
  let config := vote.config.asVoteConfig
  let counts := tally config.options choices
  let outcome := result config counts (vote.eligibleCount.getD 0)
  { counts
    leading := outcome.leading
    reason := if vote.status = .closed && vote.result.isSome then failedReason outcome.result outcome.quorumMet else none }

def electionTally (vote : Vote) (choices : List Text) : Option ElectionOutcome :=
  match vote.config with
  | .election c => some (tallyElection choices c (vote.eligibleCount.getD 0))
  | _ => none

def pollTally (vote : Vote) (choices : List Text) : Option PollOutcome :=
  match vote.config with
  | .poll c => some (tallyPoll choices c)
  | _ => none

def aggregates (vote : Vote) (t : ReloadTally) (election : Option ElectionOutcome) (poll : Option PollOutcome) :
    ReloadTally × ℕ :=
  match election, poll with
  | _, some p => (⟨p.displayCounts, none, none⟩, p.ballots)
  | some e, none => (⟨e.displayCounts, none, if vote.status = .closed && !e.quorumMet then some .quorum else none⟩, e.ballots)
  | none, none => (t, t.counts.total)

/-- The batched reads of `_VoteReads` that the figures need. -/
structure VoteReads where
  tallies : List (ℕ × ReloadTally)
  elections : List (ℕ × ElectionOutcome)
  polls : List (ℕ × PollOutcome)

def shownFigures (vote : Vote) (shown : ReloadTally × ℕ) : Figures :=
  let revealed : Bool := vote.status = .closed
  { counts := if revealed then shown.1.counts else []
    leading := if revealed then shown.1.leading else none
    voted := shown.2
    result := vote.result
    failedReason := shown.1.reason }

def meetingVoteOut (v : ℕ) (vote : Vote) (reads : VoteReads) : Figures :=
  let t := (reads.tallies.lookup v).getD ⟨[], none, none⟩
  shownFigures vote (aggregates vote t (reads.elections.lookup v) (reads.polls.lookup v))

def readFor {β : Type} (rows : List (ℕ × Vote)) (ballots : List (ℕ × Text)) (f : Vote → List Text → Option β) :
    List (ℕ × β) :=
  rows.filterMap fun x => (f x.2 (grouped ballots x.1)).map (x.1, ·)

/-- `_votes_for`: the votes of the meetings and all their ballots, each from one query. -/
def votesFor (rows : List (ℕ × Vote)) (ballots : List (ℕ × Text)) : List (ℕ × Figures) :=
  let reads : VoteReads :=
    { tallies := readFor rows ballots fun vote choices => some (reloadTally vote choices)
      elections := readFor rows ballots electionTally
      polls := readFor rows ballots pollTally }
  rows.map fun x => (x.1, meetingVoteOut x.1 x.2 reads)

end Reload

section Agreement

/-- The two queries of a reload: the votes, and for each its ballots in some order. -/
structure Batch (d : Db) (rows : List (ℕ × Vote)) (ballots : List (ℕ × Text)) : Prop where
  loaded : ∀ x ∈ rows, d.votes x.1 = some x.2
  nodup : (rows.map Prod.fst).Nodup
  stored : ∀ x ∈ rows, (grouped ballots x.1).Perm (d.ballots x.1)

def Unelected (vote : Vote) (choices : List Text) : Prop :=
  vote.status = .closed ∧ vote.config.kind = .election ∧ vote.result = some .rejected ∧ closeQuorum vote choices = true

theorem readFor_cons {β : Type} (x : ℕ × Vote) (rows : List (ℕ × Vote)) (ballots : List (ℕ × Text))
    (f : Vote → List Text → Option β) :
    readFor (x :: rows) ballots f = ((f x.2 (grouped ballots x.1)).map (x.1, ·)).toList ++ readFor rows ballots f := by
  cases hf : f x.2 (grouped ballots x.1) <;> simp [readFor, hf]

variable {rows : List (ℕ × Vote)} {ballots : List (ℕ × Text)} {v : ℕ} {vote : Vote} {choices a b : List Text}

theorem lookup_absent {β : Type} {f : Vote → List Text → Option β} (hv : v ∉ rows.map Prod.fst) :
    (readFor rows ballots f).lookup v = none := by
  induction rows with
  | nil => rfl
  | cons x rows ih =>
    rw [map_cons, mem_cons, not_or] at hv
    have hne : (v == x.1) = false := beq_false_of_ne hv.1
    rw [readFor_cons]
    cases f x.2 (grouped ballots x.1) with
    | none => exact ih hv.2
    | some b => simpa [lookup_cons, hne] using ih hv.2

theorem lookup_readFor {β : Type} {f : Vote → List Text → Option β} (hnodup : (rows.map Prod.fst).Nodup) (hmem : (v, vote) ∈ rows) :
    (readFor rows ballots f).lookup v = f vote (grouped ballots v) := by
  induction rows with
  | nil => cases hmem
  | cons x rows ih =>
    obtain ⟨hx, hrest⟩ := nodup_cons.mp hnodup
    rw [readFor_cons]
    rcases mem_cons.mp hmem with rfl | hmem
    · cases f vote (grouped ballots v) with
      | none => simpa using lookup_absent hx
      | some b => simp
    · have hne : (v == x.1) = false := beq_false_of_ne fun heq => hx (heq ▸ mem_map_of_mem hmem)
      cases f x.2 (grouped ballots x.1) with
      | none => exact ih hrest hmem
      | some b => simpa [lookup_cons, hne] using ih hrest hmem

def reloadFigures (vote : Vote) (choices : List Text) : Figures :=
  shownFigures vote (aggregates vote (reloadTally vote choices) (electionTally vote choices) (pollTally vote choices))

theorem mem_votesFor (hnodup : (rows.map Prod.fst).Nodup) (hmem : (v, vote) ∈ rows) {figures : Figures} :
    (v, figures) ∈ votesFor rows ballots ↔ figures = reloadFigures vote (grouped ballots v) := by
  have hentry {w : ℕ} {row : Vote} (hrow : (w, row) ∈ rows) :
      meetingVoteOut w row
        { tallies := readFor rows ballots fun vote choices => some (reloadTally vote choices)
          elections := readFor rows ballots electionTally
          polls := readFor rows ballots pollTally } = reloadFigures row (grouped ballots w) := by
    simp only [meetingVoteOut, lookup_readFor hnodup hrow, Option.getD_some, reloadFigures]
  rw [votesFor, mem_map]
  constructor
  · rintro ⟨⟨w, row⟩, hrow, heq⟩
    obtain ⟨rfl, rfl⟩ := Prod.mk.inj heq
    have hsame : row = vote := congrArg Prod.snd (inj_on_of_nodup_map hnodup hrow hmem rfl)
    rw [hentry hrow, hsame]
  · rintro rfl
    exact ⟨(v, vote), hmem, Prod.ext rfl (hentry hmem)⟩

theorem seatOutcome_quorumMet (base : ElectionOutcome) (ranked : List Text) (seats : ℕ) :
    (seatOutcome base ranked seats).quorumMet = true := by
  simp only [seatOutcome]
  split_ifs <;> rfl

theorem tallyElection_missed {c : ElectionConfig} {eligible : ℕ} (h : (tallyElection choices c eligible).quorumMet = false) :
    (tallyElection choices c eligible).result = .rejected := by
  rw [tallyElection] at h ⊢
  by_cases hyesNo : c.yesNo = true
  · rw [if_pos hyesNo] at h ⊢
    have hmissed : quorumMet c.quorum _ eligible = false := h
    simp only [yesNoOutcome, hmissed, Bool.false_and, Bool.false_eq_true, if_false]
  · rw [if_neg hyesNo] at h ⊢
    by_cases hquorum : electionQuorumMet c choices eligible = true
    · rw [if_pos hquorum, seatOutcome_quorumMet] at h
      cases h
    · rw [if_neg hquorum]
      rfl

theorem electionReason_iff {result : Option VoteResult} {met : Bool} (hmissed : met = false → result = some .rejected) :
    result.bind (failedReason · met) = (if !met then some FailedReason.quorum else none) ↔
      ¬ (result = some .rejected ∧ met = true) := by
  cases met with
  | false => simp [hmissed rfl, failedReason]
  | true =>
    cases result with
    | none => simp
    | some r => cases r <;> simp [failedReason]

/-- Where the row holds what the store promises of its result, only the reason of an election can differ. -/
theorem figures_agree_iff (hclosed : vote.status = .closed → Tallied vote choices)
    (hunclosed : vote.status ≠ .closed → NoResult vote) (members guests : ℕ) :
    liveFigures vote choices members guests = reloadFigures vote choices ↔ ¬ Unelected vote choices := by
  by_cases hstatus : vote.status = .closed
  · have htallied := hclosed hstatus
    unfold Tallied at htallied
    cases hconfig : vote.config with
    | motion c =>
      rw [hconfig] at htallied
      simp only [liveFigures, tallyOut, TallyOut.figures, reloadFigures, shownFigures, aggregates, electionTally, pollTally,
        reloadTally, counted, hconfig, hstatus, Config.asVoteConfig, htallied.1, Unelected, Config.kind]
      simp
    | election c =>
      rw [hconfig] at htallied
      have hmissed : (tallyElection choices c (vote.eligibleCount.getD 0)).quorumMet = false → vote.result = some .rejected := by
        intro hmet
        have hrejected := tallyElection_missed hmet
        obtain ⟨hresult, _⟩ | ⟨_, _, _, _, htie, _⟩ := htallied.1
        · rw [hresult, hrejected]
        · cases htie.symm.trans hrejected
      have hreason := electionReason_iff hmissed
      simp only [liveFigures, tallyOut, TallyOut.figures, reloadFigures, shownFigures, aggregates, electionTally, pollTally,
        counted, hconfig, hstatus, Unelected, Config.kind, closeQuorum]
      simpa using hreason
    | poll c =>
      rw [hconfig] at htallied
      simp only [liveFigures, tallyOut, TallyOut.figures, reloadFigures, shownFigures, aggregates, electionTally, pollTally,
        counted, hconfig, hstatus, htallied.1, Unelected, Config.kind]
      simp
  · have hresult : vote.result = none := (hunclosed hstatus).1
    have hleft : ¬ Unelected vote choices := fun h => hstatus h.1
    refine iff_of_true ?_ hleft
    simp only [liveFigures, tallyOut, TallyOut.figures, reloadFigures, shownFigures, decide_eq_false hstatus, hresult]
    cases hconfig : vote.config with
    | motion c => simp [aggregates, electionTally, pollTally, reloadTally, counted, hconfig, hstatus, Config.asVoteConfig]
    | election c => simp [aggregates, electionTally, pollTally, counted, hconfig, hstatus]
    | poll c => simp [aggregates, electionTally, pollTally, counted, hconfig]

theorem counted_perm (config : Config) (eligible : ℕ) (h : a.Perm b) : counted config a eligible = counted config b eligible := by
  cases config with
  | motion c => simp only [counted, tally_perm _ h]
  | election c => simp only [counted, tallyElection_perm _ _ h]
  | poll c => simp only [counted, tallyPoll_perm _ h]

theorem reloadFigures_perm (vote : Vote) (h : a.Perm b) : reloadFigures vote a = reloadFigures vote b := by
  have htally : reloadTally vote a = reloadTally vote b := by simp only [reloadTally, tally_perm _ h]
  have helection : electionTally vote a = electionTally vote b := by
    rw [electionTally, electionTally]
    cases vote.config with
    | election c => simp only [tallyElection_perm _ _ h]
    | _ => rfl
  have hpoll : pollTally vote a = pollTally vote b := by
    rw [pollTally, pollTally]
    cases vote.config with
    | poll c => simp only [tallyPoll_perm _ h]
    | _ => rfl
  rw [reloadFigures, reloadFigures, htally, helection, hpoll]

/-- After every run, the reload shows the live figures of a vote if and only if the vote is no election that was
closed with its quorum met and elected nobody. -/
theorem reload_shows_live {meetings : ℕ → Option Meeting} {applications : ℕ → Option Application}
    {es : List (Event Request)} {s : Sys Request Db Key Problem}
    (h : run script ⟨Db.empty meetings applications, []⟩ es = some s) {rows : List (ℕ × Vote)} {ballots : List (ℕ × Text)}
    (hbatch : Batch s.db rows ballots) {v : ℕ} {vote : Vote} (hmem : (v, vote) ∈ rows) {choices : List Text}
    (hchoices : choices.Perm (s.db.ballots v)) (members guests : ℕ) :
    (v, liveFigures vote choices members guests) ∈ votesFor rows ballots ↔ ¬ Unelected vote (s.db.ballots v) := by
  have hinv := (run_sound script_keeps (C := contract) (inv_empty meetings applications) ⟨es, h⟩).inv v
  have hrow : s.db.votes v = some vote := hbatch.loaded (v, vote) hmem
  have hlive : liveFigures vote choices members guests = liveFigures vote (s.db.ballots v) members guests := by
    rw [liveFigures, counted_perm _ _ hchoices, liveFigures]
  rw [mem_votesFor hbatch.nodup hmem, reloadFigures_perm vote (hbatch.stored (v, vote) hmem), hlive]
  exact figures_agree_iff (hinv.closed vote hrow) (hinv.unclosed vote hrow) members guests

/-- One candidate for one seat without a quorum. -/
def soloElection : ElectionConfig where
  seats := 1
  candidates := [⟨text "c1", text "A", none, false⟩]
  secret := true
  quorum := none
  abstainCountsQuorum := true
  guestsVote := false
  seats_pos := Nat.one_pos
  candidates_max := by decide
  ids_valid := by decide
  ids_unique := by decide
  ids_free := by decide
  persons_unique := by decide
  enough := by decide
  guests_no_quorum := no_guests

/-- A live meeting with one agenda item. -/
def hall : Db := Db.empty (fun _ => some ⟨.live, some 7, [4]⟩) (fun _ => none)

def soloRun (answer : Text) : List (Event Request) :=
  [.start (.create 0 ⟨.election soloElection, 7, none, none, 1, some 3, none, none, none, none⟩ none (some 2) (some 4) false),
   .step 0, .step 0, .step 0, .step 0, .start (.openVote 0 10 none), .step 1, .step 1, .step 1, .step 1, .step 1, .step 1,
   .start (.cast 0 false (.ok (text "a")) (.option answer) 20), .step 2, .step 2, .step 2, .step 2, .step 2,
   .start (.close 0 ⟨none, 30, ⟨id, fun l => .refl l⟩, 0, [], none⟩), .step 3, .step 3, .step 3, .step 3, .step 3]

theorem batch_single {d : Db} (hvote : d.votes v = some vote) {ballot : Text} (hballots : d.ballots v = [ballot]) :
    Batch d [(v, vote)] [(v, ballot)] where
  loaded x hx := by rw [mem_singleton.mp hx, hvote]
  nodup := nodup_singleton v
  stored x hx := by simp [mem_singleton.mp hx, grouped, hballots]

theorem elected_shows_live :
    ∃ s vote, run script ⟨hall, []⟩ (soloRun yesKey) = some s ∧
      s.db.votes 0 = some vote ∧ (0, liveFigures vote [yesKey] 0 0) ∈ votesFor [(0, vote)] [(0, yesKey)] := by
  have hrun : (run script ⟨hall, []⟩ (soloRun yesKey)).map
      (fun s => (s.db.ballots 0, (s.db.votes 0).map fun vote => vote.result)) =
        some ([yesKey], some (some .elected)) := by decide +kernel
  obtain ⟨s, hs, hstate⟩ := Option.map_eq_some_iff.mp hrun
  obtain ⟨hballots, hvote⟩ := Prod.mk.injEq .. ▸ hstate
  obtain ⟨vote, hvote, hresult⟩ := Option.map_eq_some_iff.mp hvote
  have hchoices : [yesKey].Perm (s.db.ballots 0) := .of_eq hballots.symm
  refine ⟨s, vote, hs, hvote, ?_⟩
  refine (reload_shows_live hs (batch_single hvote hballots) mem_cons_self hchoices 0 0).mpr ?_
  rintro ⟨_, _, hrejected, _⟩
  rw [hresult] at hrejected
  cases hrejected

/-- A single candidate with one No: the live path gives the majority as the reason, the reload gives none. -/
theorem unelected_shows_other :
    ∃ s vote, run script ⟨hall, []⟩ (soloRun noKey) = some s ∧
      s.db.votes 0 = some vote ∧ s.db.ballots 0 = [noKey] ∧
      (0, liveFigures vote [noKey] 0 0) ∉ votesFor [(0, vote)] [(0, noKey)] := by
  have hrun : (run script ⟨hall, []⟩ (soloRun noKey)).map
      (fun s => (s.db.ballots 0, (s.db.votes 0).map fun vote =>
        ((liveFigures vote [noKey] 0 0).failedReason, (reloadFigures vote [noKey]).failedReason))) =
        some ([noKey], some (some .majority, none)) := by decide +kernel
  obtain ⟨s, hs, hstate⟩ := Option.map_eq_some_iff.mp hrun
  obtain ⟨hballots, hvote⟩ := Prod.mk.injEq .. ▸ hstate
  obtain ⟨vote, hvote, hreasons⟩ := Option.map_eq_some_iff.mp hvote
  obtain ⟨hlive, hreload⟩ := Prod.mk.injEq .. ▸ hreasons
  refine ⟨s, vote, hs, hvote, hballots, fun hmem => ?_⟩
  have hbatch := batch_single hvote hballots
  have hsame := (mem_votesFor hbatch.nodup mem_cons_self).mp hmem
  have hgrouped : grouped [(0, noKey)] 0 = [noKey] := rfl
  rw [hsame, hgrouped, hreload] at hlive
  cases hlive

end Agreement

end Voting
