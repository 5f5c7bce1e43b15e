import StupaWorkflow.BallotCounts

/-!
The ranking of a poll. Options rank by their yes votes and then by yes and maybe together; a poll
without maybe answers ranks by its votes alone.
-/
namespace Voting
open Py List

def yesVotes (config : PollConfig) (choices : List (Option Text)) (id : Text) : ℕ :=
  match config.mode with
  | .date => (ballotTexts choices).countP fun raw => (ballotAnswers raw).lookup id == some yesKey
  | _ => (ballotTexts choices).countP fun raw => (listPicks raw config.optionIds config.choiceLimit).contains id

def maybeVotes (config : PollConfig) (choices : List (Option Text)) (id : Text) : ℕ :=
  match config.mode with
  | .date => (ballotTexts choices).countP fun raw => (ballotAnswers raw).lookup id == some maybeKey
  | _ => 0

def PollOutcome.key (o : PollOutcome) (id : Text) : ℕ × ℕ :=
  (o.counts.get id, o.counts.get id + (o.maybe.map (·.get id)).getD 0)

/-- The first key is not below the second one, place by place. -/
def AtLeast (a b : ℕ × ℕ) : Prop := b.1 < a.1 ∨ (b.1 = a.1 ∧ b.2 ≤ a.2)

structure PollRanked (config : PollConfig) (choices : List (Option Text)) (o : PollOutcome) : Prop where
  key : ∀ id ∈ config.optionIds, o.key id = (yesVotes config choices id, yesVotes config choices id + maybeVotes config choices id)
  perm : o.order.Perm config.optionIds
  sorted : o.order.Pairwise fun a b => AtLeast (o.key a) (o.key b)
  stable (k : ℕ × ℕ) : o.order.filter (fun id => o.key id == k) = config.optionIds.filter fun id => o.key id == k
  top_distinct : o.top.Nodup
  top_iff : (∃ id ∈ config.optionIds, 0 < yesVotes config choices id + maybeVotes config choices id) →
    ∀ id, id ∈ o.top ↔ id ∈ config.optionIds ∧ ∀ other ∈ config.optionIds, AtLeast (o.key id) (o.key other)
  top_empty : o.top = [] ↔ ∀ id ∈ config.optionIds, yesVotes config choices id = 0 ∧ maybeVotes config choices id = 0

section Rank

variable {key : Text → ℕ × ℕ} {ids : List Text}

instance : Std.Total fun a b : Text => (key b).1 < (key a).1 ∨ ((key b).1 = (key a).1 ∧ (key b).2 ≤ (key a).2) :=
  ⟨fun a b => by omega⟩

instance : IsTrans Text fun a b => (key b).1 < (key a).1 ∨ ((key b).1 = (key a).1 ∧ (key b).2 ≤ (key a).2) :=
  ⟨fun a b c hab hbc => by omega⟩

theorem rankBy_eq_rankPairs (votes : Text → ℕ) (ids : List Text) :
    rankBy votes ids = rankPairs (fun id => (votes id, votes id)) ids := by
  unfold rankBy rankPairs
  congr! 3
  dsimp only
  omega

theorem rankPairs_perm (key : Text → ℕ × ℕ) (ids : List Text) : (rankPairs key ids).Perm ids := perm_insertionSort _ _

theorem rankPairs_sorted (key : Text → ℕ × ℕ) (ids : List Text) :
    (rankPairs key ids).Pairwise fun a b => AtLeast (key a) (key b) :=
  pairwise_insertionSort
    (fun a b => (key b).1 < (key a).1 ∨ ((key b).1 = (key a).1 ∧ (key b).2 ≤ (key a).2)) ids

theorem rankPairs_stable (key : Text → ℕ × ℕ) (ids : List Text) (k : ℕ × ℕ) :
    (rankPairs key ids).filter (fun id => key id == k) = ids.filter fun id => key id == k := by
  apply Ranking.stable
  intro a b ha hb
  rw [beq_iff_eq] at ha hb
  exact .inr ⟨by rw [ha, hb], by rw [ha, hb]⟩

theorem mem_first_iff {first : Text} (h : (rankPairs key ids).head? = some first) {id : Text} :
    id ∈ (rankPairs key ids).filter (fun other => key other == key first) ↔
      id ∈ ids ∧ ∀ other ∈ ids, AtLeast (key id) (key other) := by
  rw [mem_filter, (rankPairs_perm key ids).mem_iff, beq_iff_eq]
  constructor
  · intro hid
    refine ⟨hid.1, fun other hother => ?_⟩
    rw [hid.2]
    exact Ranking.head_ranks h other hother
  · intro hid
    refine ⟨hid.1, ?_⟩
    have hle := (Ranking.maximal_iff h).mp hid.2
    have hge := Ranking.head_ranks h id hid.1
    apply Prod.ext <;> omega

end Rank

section Outcome

variable {config : PollConfig} {choices : List (Option Text)} {o : PollOutcome}

theorem first_voted {key : Text → ℕ × ℕ} {first : Text}
    (hkey : ∀ id ∈ config.optionIds, key id = (yesVotes config choices id, yesVotes config choices id + maybeVotes config choices id))
    (hfirst : (rankPairs key config.optionIds).head? = some first) :
    0 < (key first).2 ↔ ∃ id ∈ config.optionIds, 0 < yesVotes config choices id + maybeVotes config choices id := by
  have hmem : first ∈ config.optionIds := (rankPairs_perm _ _).mem_iff.mp (mem_of_mem_head? hfirst)
  constructor
  · intro h
    rw [hkey first hmem] at h
    exact ⟨first, hmem, h⟩
  · rintro ⟨id, hid, hvotes⟩
    have hahead := Ranking.head_ranks hfirst id hid
    rw [hkey id hid, hkey first hmem] at hahead
    rw [hkey first hmem]
    dsimp only at hahead ⊢
    omega

theorem pollRanked_of_key
    (hkey : ∀ id ∈ config.optionIds, o.key id = (yesVotes config choices id, yesVotes config choices id + maybeVotes config choices id))
    (horder : o.order = rankPairs o.key config.optionIds)
    (htop : o.top = if 0 < (o.key (o.order.headD [])).2 then o.order.filter fun id => o.key id == o.key (o.order.headD [])
      else []) : PollRanked config choices o := by
  have hpos : 0 < config.optionIds.length := by
    have hmin := config.min_options
    rw [PollConfig.optionIds, length_map]
    exact Nat.lt_of_lt_of_le (by decide) hmin
  obtain ⟨first, hfirst⟩ : ∃ first, (rankPairs o.key config.optionIds).head? = some first := by
    rw [← Option.isSome_iff_exists, isSome_head?, ← length_pos_iff, (rankPairs_perm _ _).length_eq]
    exact hpos
  have hhead : o.order.headD [] = first := by
    rw [horder, headD_eq_head?_getD, hfirst, Option.getD_some]
  have hmem : first ∈ config.optionIds := (rankPairs_perm _ _).mem_iff.mp (mem_of_mem_head? hfirst)
  rw [hhead] at htop
  have hsome := first_voted hkey hfirst
  exact {
    key := hkey
    perm := horder ▸ rankPairs_perm _ _
    sorted := horder ▸ rankPairs_sorted _ _
    stable := fun k => horder ▸ rankPairs_stable _ _ k
    top_distinct := by
      rw [htop, horder]
      split
      · exact ((rankPairs_perm _ _).nodup_iff.mpr config.ids_unique).filter _
      · exact nodup_nil
    top_iff := by
      intro hvoted id
      rw [htop, if_pos (hsome.mpr hvoted), horder]
      exact mem_first_iff hfirst
    top_empty := by
      rw [htop]
      constructor
      · intro hempty id hid
        by_contra hvotes
        have hvoted := hsome.mpr ⟨id, hid, by omega⟩
        rw [if_pos hvoted, horder, filter_eq_nil_iff] at hempty
        exact hempty first ((rankPairs_perm _ _).mem_iff.mpr hmem) (beq_self_eq_true _)
      · intro hnone
        rw [if_neg]
        rw [hsome]
        rintro ⟨id, hid, hvotes⟩
        have hzero := hnone id hid
        omega }

theorem listPoll_key (raws known : List Text) (limit : ℕ) :
    (listPoll raws known limit).key = fun id => ((listPoll raws known limit).counts.get id, (listPoll raws known limit).counts.get id) := rfl

/-- The outcome of every poll. -/
theorem poll_ranking (config : PollConfig) (choices : List (Option Text)) :
    PollRanked config choices (tallyPoll (ballotTexts choices) config) := by
  by_cases hmode : config.mode = .date
  · rw [tallyPoll_date hmode]
    refine pollRanked_of_key (fun id hid => ?_) rfl rfl
    obtain ⟨hyes, hmaybe⟩ := datePoll_counts hid (ballotTexts choices)
    rw [PollOutcome.key, hmaybe, hyes, yesVotes, maybeVotes, hmode]
    rfl
  · rw [tallyPoll_list hmode]
    refine pollRanked_of_key (fun id hid => ?_) (rankBy_eq_rankPairs _ _) ?_
    · rw [listPoll_key]
      dsimp only
      rw [listPoll_counts hid]
      cases hkind : config.mode with
      | date => exact absurd hkind hmode
      | single => simp only [yesVotes, maybeVotes, hkind, Nat.add_zero]
      | multi => simp only [yesVotes, maybeVotes, hkind, Nat.add_zero]
    · rw [listPoll_key]
      simp only [listPoll]
      refine if_congr Iff.rfl (filter_congr fun id _ => ?_) rfl
      rw [Bool.eq_iff_iff]
      simp

end Outcome

end Voting
