import StupaWorkflow.BallotCounts
import StupaWorkflow.VotingModel

/-!
The seats of an election with list ballots. The candidates with votes stand in a ranking; the
seats go to its first places unless the last seat and the place behind it have the same votes.
-/
namespace Voting
open Py List

def candidateVotes (config : ElectionConfig) (choices : List (Option Text)) (id : Text) : ℕ :=
  (ballotTexts choices).countP fun raw => (listPicks raw config.candidateIds config.seats).contains id

def ranking (config : ElectionConfig) (choices : List (Option Text)) : List Text :=
  rankBy (candidateVotes config choices) (config.candidateIds.filter fun id => 0 < candidateVotes config choices id)

/-- The places `seats` and `seats + 1` of a ranking are taken and have the same votes. -/
def TieAtBoundary (votes : Text → ℕ) (ranked : List Text) (seats : ℕ) : Prop :=
  seats < ranked.length ∧ votes (ranked.getD (seats - 1) []) = votes (ranked.getD seats [])

section Boundary

variable (base : ElectionOutcome) {ranked : List Text} {seats : ℕ}

theorem seatOutcome_crossing (h : TieAtBoundary base.counts.get ranked seats) :
    seatOutcome base ranked seats =
      { base with
        result := .tie
        quorumMet := true
        elected := ranked.filter fun c => base.counts.get (ranked.getD (seats - 1) []) < base.counts.get c
        tied := ranked.filter fun c => base.counts.get c == base.counts.get (ranked.getD (seats - 1) [])
        openSeats := seats -
          (ranked.filter fun c => base.counts.get (ranked.getD (seats - 1) []) < base.counts.get c).length } := by
  obtain ⟨hlong, hsame⟩ := h
  unfold seatOutcome
  dsimp only
  rw [if_neg (show ¬ ranked.length ≤ seats by omega), if_neg]
  rintro (hfits | hbelow)
  · omega
  · omega

theorem seatOutcome_clear (hs : ranked.Pairwise fun a b => base.counts.get b ≤ base.counts.get a)
    (h : ¬ TieAtBoundary base.counts.get ranked seats) :
    seatOutcome base ranked seats =
      { base with
        result := if ranked = [] then .rejected else .elected
        quorumMet := true
        elected := ranked.take seats } := by
  unfold seatOutcome
  dsimp only
  rw [if_pos]
  by_cases hlong : ranked.length ≤ seats
  · exact .inl hlong
  · right
    rw [if_neg hlong]
    have hne : base.counts.get (ranked.getD (seats - 1) []) ≠ base.counts.get (ranked.getD seats []) :=
      fun hsame => h ⟨by omega, hsame⟩
    cases seats with
    | zero => exact absurd rfl hne
    | succ n =>
      rw [Nat.add_sub_cancel] at hne ⊢
      exact lt_of_le_of_ne (Ranking.getD_succ_le hs (by omega) []) (Ne.symm hne)

theorem openSeats_bounds (hs : ranked.Pairwise fun a b => base.counts.get b ≤ base.counts.get a) (hseats : 1 ≤ seats)
    (h : TieAtBoundary base.counts.get ranked seats) :
    (seatOutcome base ranked seats).elected.length + (seatOutcome base ranked seats).openSeats = seats ∧
      0 < (seatOutcome base ranked seats).openSeats ∧
      (seatOutcome base ranked seats).openSeats < (seatOutcome base ranked seats).tied.length := by
  rw [seatOutcome_crossing base h]
  dsimp only
  have habove := Ranking.length_above_le hs (seats - 1) []
  have hsum := filter_gt_add_filter_eq base.counts.get (base.counts.get (ranked.getD (seats - 1) [])) ranked
  have hplaces := sorted_prefix_le hs h.1
  rw [← h.2] at hplaces
  refine ⟨?_, ?_, ?_⟩ <;> omega

end Boundary

section Counted

variable {config : ElectionConfig} {choices : List (Option Text)}

theorem get_missed (config : ElectionConfig) (choices : List (Option Text)) :
    (missedOutcome config (ballotTexts choices)).counts.get = candidateVotes config choices := by
  funext id
  by_cases hid : id ∈ config.candidateIds
  · rw [get_missedOutcome hid, electionPicks, countP_map]
    rfl
  · have hnone : candidateVotes config choices id = 0 := by
      rw [candidateVotes, countP_eq_zero]
      intro raw _ hpicked
      exact hid (listPicks_known (contains_iff_mem.mp hpicked))
    rw [hnone]
    exact get_countAll_of_not_mem hid _

theorem rankedCandidates_eq (config : ElectionConfig) (choices : List (Option Text)) :
    rankedCandidates config (missedOutcome config (ballotTexts choices)).counts = ranking config choices := by
  rw [rankedCandidates, get_missed, ranking]

theorem tallyElection_seats (hlist : config.yesNo = false) (choices : List (Option Text)) (eligible : ℕ) :
    tallyElection (ballotTexts choices) config eligible =
      if electionQuorumMet config (ballotTexts choices) eligible then
        seatOutcome (missedOutcome config (ballotTexts choices)) (ranking config choices) config.seats
      else missedOutcome config (ballotTexts choices) := by
  rw [tallyElection, hlist, rankedCandidates_eq, if_neg (by decide)]

theorem ranking_perm (config : ElectionConfig) (choices : List (Option Text)) :
    (ranking config choices).Perm (config.candidateIds.filter fun id => 0 < candidateVotes config choices id) :=
  perm_insertionSort _ _

theorem mem_ranking {id : Text} : id ∈ ranking config choices ↔ id ∈ config.candidateIds ∧ 0 < candidateVotes config choices id := by
  rw [(ranking_perm config choices).mem_iff, mem_filter, decide_eq_true_eq]

theorem ranking_nodup (config : ElectionConfig) (choices : List (Option Text)) : (ranking config choices).Nodup :=
  rankBy_nodup (config.ids_unique.filter _)

theorem ranking_sorted (config : ElectionConfig) (choices : List (Option Text)) :
    (ranking config choices).Pairwise fun a b => candidateVotes config choices b ≤ candidateVotes config choices a :=
  rankBy_sorted _ _

theorem ranking_length (config : ElectionConfig) (choices : List (Option Text)) :
    (ranking config choices).length = config.candidateIds.countP fun id => 0 < candidateVotes config choices id := by
  rw [(ranking_perm config choices).length_eq, countP_eq_length_filter]

end Counted

structure SeatResult (config : ElectionConfig) (choices : List (Option Text)) (o : ElectionOutcome) : Prop where
  counts : o.counts.get = candidateVotes config choices
  candidates : ∀ id ∈ o.elected ++ o.tied, id ∈ config.candidateIds
  distinct : (o.elected ++ o.tied).Nodup
  elected_voted : ∀ id ∈ o.elected, 0 < candidateVotes config choices id
  elected_above_tied : ∀ id ∈ o.elected, ∀ other ∈ o.tied, candidateVotes config choices other < candidateVotes config choices id
  elected_above : ∀ id ∈ o.elected, ∀ other ∈ config.candidateIds, other ∉ o.elected →
    candidateVotes config choices other < candidateVotes config choices id
  tie_iff : o.result = .tie ↔
    o.quorumMet = true ∧ TieAtBoundary (candidateVotes config choices) (ranking config choices) config.seats
  tied : o.result = .tie → ∀ id, id ∈ o.tied ↔ id ∈ config.candidateIds ∧
    candidateVotes config choices id = candidateVotes config choices ((ranking config choices).getD (config.seats - 1) [])
  tie_seats : o.result = .tie → o.elected.length + o.openSeats = config.seats ∧ 0 < o.openSeats ∧ o.openSeats < o.tied.length
  clear : o.result ≠ .tie → o.tied = [] ∧ o.openSeats = 0
  clear_seats : o.result ≠ .tie → o.quorumMet = true →
    o.elected.length = min config.seats (config.candidateIds.countP fun id => 0 < candidateVotes config choices id)
  missed : o.quorumMet = false → o.elected = [] ∧ o.result = .rejected

section Result

variable {config : ElectionConfig}
variable {choices : List (Option Text)}

theorem seatResult_missed (config : ElectionConfig) (choices : List (Option Text)) :
    SeatResult config choices (missedOutcome config (ballotTexts choices)) where
  counts := get_missed config choices
  candidates := by simp [missedOutcome]
  distinct := by simp [missedOutcome]
  elected_voted := by simp [missedOutcome]
  elected_above_tied := by simp [missedOutcome]
  elected_above := by simp [missedOutcome]
  tie_iff := by simp [missedOutcome]
  tied := by simp [missedOutcome]
  tie_seats := by simp [missedOutcome]
  clear := by simp [missedOutcome]
  clear_seats := by simp [missedOutcome]
  missed := by simp [missedOutcome]

/-- A place of the ranking that gets a seat is above every candidate without one. -/
theorem seat_above (h : ¬ TieAtBoundary (candidateVotes config choices) (ranking config choices) config.seats) {id other : Text}
    (hid : id ∈ (ranking config choices).take config.seats) (hother : other ∈ config.candidateIds)
    (hout : other ∉ (ranking config choices).take config.seats) :
    candidateVotes config choices other < candidateVotes config choices id := by
  have hseats := config.seats_pos
  have hplace : config.seats - 1 + 1 = config.seats := by omega
  by_cases hvoted : 0 < candidateVotes config choices other
  · have hranked : other ∈ ranking config choices := mem_ranking.mpr ⟨hother, hvoted⟩
    rw [← take_append_drop config.seats (ranking config choices), mem_append] at hranked
    have hbehind := hranked.resolve_left hout
    have hlong : config.seats < (ranking config choices).length := by
      have hpos := length_pos_of_mem hbehind
      rw [length_drop] at hpos
      omega
    have hsorted := ranking_sorted config choices
    have hne : candidateVotes config choices ((ranking config choices).getD (config.seats - 1) []) ≠
        candidateVotes config choices ((ranking config choices).getD config.seats []) := fun hsame => h ⟨hlong, hsame⟩
    have hstep : candidateVotes config choices ((ranking config choices).getD (config.seats - 1 + 1) []) <
        candidateVotes config choices ((ranking config choices).getD (config.seats - 1) []) := by
      have hle := Ranking.getD_succ_le hsorted (hplace.symm ▸ hlong) []
      rw [hplace] at hle ⊢
      exact lt_of_le_of_ne hle (Ne.symm hne)
    rw [← hplace] at hid hbehind
    exact Ranking.lt_of_step hsorted (by omega) hstep hid hbehind
  · have hpos := (mem_ranking.mp (mem_of_mem_take hid)).2
    omega

theorem seatResult_clear (h : ¬ TieAtBoundary (candidateVotes config choices) (ranking config choices) config.seats) :
    SeatResult config choices
      { missedOutcome config (ballotTexts choices) with
        result := if ranking config choices = [] then .rejected else .elected
        quorumMet := true
        elected := (ranking config choices).take config.seats } := by
  have htied : (missedOutcome config (ballotTexts choices)).tied = [] := rfl
  have hresult : (if ranking config choices = [] then VoteResult.rejected else .elected) ≠ .tie := by
    split <;> simp
  exact {
    counts := get_missed config choices
    candidates := by
      intro id hid
      rw [htied, append_nil] at hid
      exact (mem_ranking.mp (mem_of_mem_take hid)).1
    distinct := by
      rw [htied, append_nil]
      exact (ranking_nodup config choices).sublist (take_sublist _ _)
    elected_voted := fun id hid => (mem_ranking.mp (mem_of_mem_take hid)).2
    elected_above_tied := by simp [htied]
    elected_above := fun id hid other hother hout => seat_above h hid hother hout
    tie_iff := ⟨fun htie => absurd htie hresult, fun htie => absurd htie.2 h⟩
    tied := fun htie => absurd htie hresult
    tie_seats := fun htie => absurd htie hresult
    clear := fun _ => ⟨rfl, rfl⟩
    clear_seats := fun _ _ => by
      dsimp only
      rw [length_take, ranking_length]
    missed := by simp }

theorem seatResult_crossing (h : TieAtBoundary (candidateVotes config choices) (ranking config choices) config.seats) :
    SeatResult config choices (seatOutcome (missedOutcome config (ballotTexts choices)) (ranking config choices) config.seats) := by
  have hvotes := get_missed config choices
  have hbounds := openSeats_bounds (missedOutcome config (ballotTexts choices))
    (by rw [hvotes]; exact ranking_sorted config choices) config.seats_pos (by rw [hvotes]; exact h)
  have hshape := seatOutcome_crossing (missedOutcome config (ballotTexts choices)) (by rw [hvotes]; exact h)
  rw [hshape] at hbounds ⊢
  simp only [hvotes] at hbounds ⊢
  -- the boundary has a vote, so every candidate with its count is ranked
  have hplace : (ranking config choices).getD (config.seats - 1) [] ∈ ranking config choices := by
    have hlong := h.1
    rw [getD_eq_getElem _ _ (by omega)]
    exact getElem_mem _
  have hboundary := (mem_ranking.mp hplace).2
  exact {
    counts := hvotes
    candidates := by
      intro id hid
      rcases mem_append.mp hid with habove | htied
      · exact (mem_ranking.mp (mem_filter.mp habove).1).1
      · exact (mem_ranking.mp (mem_filter.mp htied).1).1
    distinct := by
      rw [nodup_append']
      refine ⟨(ranking_nodup config choices).filter _, (ranking_nodup config choices).filter _, ?_⟩
      intro id habove htied
      have hlt := of_decide_eq_true (mem_filter.mp habove).2
      have heq := beq_iff_eq.mp (mem_filter.mp htied).2
      omega
    elected_voted := fun id hid => (mem_ranking.mp (mem_filter.mp hid).1).2
    elected_above_tied := by
      intro id habove other htied
      have hlt := of_decide_eq_true (mem_filter.mp habove).2
      have heq := beq_iff_eq.mp (mem_filter.mp htied).2
      omega
    elected_above := by
      intro id habove other hother hout
      have hlt := of_decide_eq_true (mem_filter.mp habove).2
      by_contra hge
      exact hout (mem_filter.mpr ⟨mem_ranking.mpr ⟨hother, by omega⟩, decide_eq_true (by omega)⟩)
    tie_iff := ⟨fun _ => ⟨rfl, h⟩, fun _ => rfl⟩
    tied := by
      intro _ id
      rw [mem_filter, mem_ranking, beq_iff_eq]
      constructor
      · exact fun hid => ⟨hid.1.1, hid.2⟩
      · exact fun hid => ⟨⟨hid.1, by omega⟩, hid.2⟩
    tie_seats := fun _ => hbounds
    clear := fun hne => absurd rfl hne
    clear_seats := fun hne => absurd rfl hne
    missed := by simp }

theorem tallyElection_seatResult (hlist : config.yesNo = false) (choices : List (Option Text)) (eligible : ℕ) :
    SeatResult config choices (tallyElection (ballotTexts choices) config eligible) := by
  rw [tallyElection_seats hlist]
  split
  · by_cases h : TieAtBoundary (candidateVotes config choices) (ranking config choices) config.seats
    · exact seatResult_crossing h
    · rw [seatOutcome_clear]
      · exact seatResult_clear h
      · rw [get_missed]
        exact ranking_sorted config choices
      · rw [get_missed]
        exact h
  · exact seatResult_missed config choices

end Result

section Draw

variable {config : ElectionConfig} {choose : List Text → Text}

theorem drawLot_returns (hchoose : ∀ pool, pool ≠ [] → choose pool ∈ pool) (seats : ℕ) (pool : List Text) :
    ∃ drawn, drawLot choose seats pool = some drawn := by
  induction seats generalizing pool with
  | zero => cases pool <;> exact ⟨[], rfl⟩
  | succ seats ih =>
    cases pool with
    | nil => exact ⟨[], rfl⟩
    | cons first pool =>
      obtain ⟨drawn, hdrawn⟩ := ih ((first :: pool).erase (choose (first :: pool)))
      refine ⟨choose (first :: pool) :: drawn, ?_⟩
      simp only [drawLot, if_pos (hchoose (first :: pool) (cons_ne_nil first pool)), hdrawn, Option.map_some]

structure SeatsFilled (config : ElectionConfig) (o : ElectionOutcome) (lot : LotOut) (drawn : List Text) : Prop where
  open_seats : drawn.length = o.openSeats
  among : ∀ id ∈ drawn, id ∈ o.tied
  distinct : (o.elected ++ drawn).Nodup
  filled : (o.elected ++ drawn).length = config.seats
  stored (now : Time) (sub name : Text) (row : Vote) :
    (drawnRow (resultOf o) lot drawn now sub name row).electionResult.map (·.elected) = some (o.elected ++ drawn)

theorem SeatResult.draw {choices : List (Option Text)} {o : ElectionOutcome} (h : SeatResult config choices o)
    (hchoose : ∀ pool, pool ≠ [] → choose pool ∈ pool) (htie : o.result = .tie) :
    ∃ lot drawn, (resultOf o).lot = some lot ∧ drawLot choose lot.seats lot.among = some drawn ∧
      SeatsFilled config o lot drawn := by
  obtain ⟨hseats, -, hfewer⟩ := h.tie_seats htie
  obtain ⟨-, htied, hdisjoint⟩ := nodup_append'.mp h.distinct
  obtain ⟨drawn, hdrawn⟩ := drawLot_returns hchoose o.openSeats o.tied
  obtain ⟨hlength, hnodup, hamong⟩ := drawLot_fills htied (Nat.le_of_lt hfewer) hdrawn
  refine ⟨⟨o.tied, o.openSeats, none, none, none, none⟩, drawn, ?_, hdrawn, hlength, hamong, ?_, ?_, ?_⟩
  · rw [resultOf, if_pos htie]
  · have helected := (nodup_append'.mp h.distinct).1
    exact nodup_append'.mpr ⟨helected, hnodup, fun id hid hdraw => hdisjoint hid (hamong hdraw)⟩
  · rw [length_append, hlength, hseats]
  · exact fun _ _ _ _ => rfl

end Draw

/-- An election for seats elects by votes, reports a tie exactly at the seat boundary and
fills every seat with the lot. -/
theorem seat_election (config : ElectionConfig) (hcandidates : 2 ≤ config.candidates.length)
    (choices : List (Option Text)) (eligible : ℕ) :
    (tallyElection (ballotTexts choices) config eligible).quorumMet =
        electionQuorumMet config (ballotTexts choices) eligible ∧
      SeatResult config choices (tallyElection (ballotTexts choices) config eligible) ∧
      ∀ choose : List Text → Text, (∀ pool, pool ≠ [] → choose pool ∈ pool) →
        (tallyElection (ballotTexts choices) config eligible).result = .tie →
        ∃ lot drawn, (resultOf (tallyElection (ballotTexts choices) config eligible)).lot = some lot ∧
          drawLot choose lot.seats lot.among = some drawn ∧
          SeatsFilled config (tallyElection (ballotTexts choices) config eligible) lot drawn := by
  have hlist : config.yesNo = false := by
    rw [ElectionConfig.yesNo, beq_eq_false_iff_ne]
    omega
  have hresult := tallyElection_seatResult hlist choices eligible
  refine ⟨?_, hresult, fun choose hchoose htie => hresult.draw hchoose htie⟩
  rw [tallyElection_seats hlist]
  split
  · next hmet =>
      rw [hmet]
      simp only [seatOutcome, apply_ite ElectionOutcome.quorumMet, ite_self]
  · next hmet => exact (Bool.eq_false_iff.mpr hmet).symm

def duel : ElectionConfig where
  seats := 1
  candidates := [⟨text "ada", text "Ada", none, false⟩, ⟨text "bea", text "Bea", none, false⟩]
  secret := true
  quorum := none
  abstainCountsQuorum := true
  guestsVote := false
  seats_pos := Nat.one_pos
  candidates_max := by decide
  ids_valid := by decide
  ids_unique := by decide
  ids_free := by decide
  persons_unique := by decide
  enough := by decide
  guests_no_quorum := no_guests

theorem seat_election_duel :
    ∃ lot drawn, (resultOf (tallyElection [text "[\"ada\"]", text "[\"bea\"]"] duel 2)).lot = some lot ∧
      drawLot (fun pool => pool.headD []) lot.seats lot.among = some drawn ∧
      SeatsFilled duel (tallyElection [text "[\"ada\"]", text "[\"bea\"]"] duel 2) lot drawn := by
  have hballots : ballotTexts [some (text "[\"ada\"]"), some (text "[\"bea\"]")] = [text "[\"ada\"]", text "[\"bea\"]"] := rfl
  have hduel := (seat_election duel (by decide) [some (text "[\"ada\"]"), some (text "[\"bea\"]")] 2).2.2
  rw [hballots] at hduel
  refine hduel (fun pool => pool.headD []) (fun pool hpool => ?_) (by decide +kernel)
  obtain ⟨first, rest, rfl⟩ := exists_cons_of_ne_nil hpool
  exact mem_cons_self

end Voting
