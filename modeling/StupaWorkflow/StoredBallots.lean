import StupaWorkflow.BallotCounts
import StupaWorkflow.VotingModel

/-!
From an accepted ballot to its place in the tally.
-/
namespace Voting
open Py List

def CountsExactly (count : List (Option Text) → Text → ℕ) (known : List Text) (stored : Text) (chosen : Text → Prop)
    [DecidablePred chosen] : Prop :=
  ∀ front back, ∀ id ∈ known,
    count (front ++ some stored :: back) id = count (front ++ back) id + if chosen id then 1 else 0

section Literals

variable {id : Text}

theorem plain_candidate (h : isCandidateId id = true) : Json.Plain id := by
  rw [isCandidateId, Bool.and_eq_true, all_eq_true] at h
  intro c hc
  have hchar := h.2 c hc
  simp only [isDigit, Bool.or_eq_true, Bool.and_eq_true, decide_eq_true_eq, beq_iff_eq] at hchar
  omega

theorem plain_option (h : isPollOptionId id = true) : Json.Plain id := by
  unfold isPollOptionId at h
  split at h
  · next digits =>
      rw [Bool.and_eq_true, all_eq_true] at h
      intro c hc
      rcases mem_cons.mp hc with rfl | hc
      · decide
      · have hchar := h.2 c hc
        simp only [isDigit, Bool.and_eq_true, decide_eq_true_eq] at hchar
        omega
  · cases h

theorem plain_answer (h : id ∈ [yesKey, maybeKey, noKey]) : Json.Plain id := by
  simp only [mem_cons, not_mem_nil, or_false] at h
  rcases h with rfl | rfl | rfl <;> unfold Json.Plain <;> decide

theorem plain_candidateIds (config : ElectionConfig) : ∀ id ∈ config.candidateIds, Json.Plain id := by
  intro id hid
  obtain ⟨candidate, hcandidate, rfl⟩ := mem_map.mp hid
  exact plain_candidate (config.ids_valid candidate hcandidate)

theorem plain_optionIds (config : PollConfig) : ∀ id ∈ config.optionIds, Json.Plain id := by
  intro id hid
  obtain ⟨o, ho, rfl⟩ := mem_map.mp hid
  have hfits := config.options_fit o ho
  unfold PollOption.fits at hfits
  rw [Bool.and_eq_true] at hfits
  exact plain_option hfits.1

end Literals

section Decoded

variable {ids known : List Text} {limit : ℕ} {answers : List (Text × Text)}
variable {acc : List (Text × Json)}

theorem asStrings_map (ids : List Text) : asStrings (ids.map .str) = some ids := by
  induction ids with
  | nil => rfl
  | cons id ids ih => rw [map_cons, asStrings, ih, Option.map_some]

theorem decode_encodeElectionChoice (hplain : ∀ id ∈ ids, Json.Plain id) :
    decodeElectionChoice (encodeElectionChoice ids) = some (ids.insertionSort (· ≤ ·)) := by
  rw [decodeElectionChoice, encodeElectionChoice, Json.loads_strings]
  · exact asStrings_map _
  · exact fun id hid => hplain id ((mem_insertionSort _).mp hid)

theorem listPicks_encode (hplain : ∀ id ∈ ids, Json.Plain id) (hnodup : ids.Nodup) (hknown : ids ⊆ known)
    (hlimit : ids.length ≤ limit) : listPicks (encodeElectionChoice ids) known limit = ids.insertionSort (· ≤ ·) := by
  have hperm := perm_insertionSort (· ≤ ·) ids
  have hkeep : (ids.insertionSort (· ≤ ·)).filter (fun c => known.contains c) = ids.insertionSort (· ≤ ·) := by
    rw [filter_eq_self]
    exact fun id hid => contains_iff_mem.mpr (hknown (hperm.mem_iff.mp hid))
  rw [listPicks, decode_encodeElectionChoice hplain, Option.getD_some,
    Ranking.eraseDups_of_nodup (hperm.nodup_iff.mpr hnodup), hkeep]
  exact take_of_length_le (hperm.length_eq ▸ hlimit)

theorem setMember_absent {key : Text} (h : key ∉ Json.keys acc) (v : Json) : Json.setMember key v acc = acc ++ [(key, v)] := by
  induction acc with
  | nil => rfl
  | cons m acc ih =>
    rw [Json.setMember, if_neg (Ne.symm (ne_of_not_mem_cons h)), ih (not_mem_of_not_mem_cons h), cons_append]

theorem setAll_distinct (h : (Json.keys acc ++ answers.map (·.1)).Nodup) :
    Json.setAll answers acc = acc ++ answers.map fun m => (m.1, .str m.2) := by
  induction answers generalizing acc with
  | nil => exact (append_nil acc).symm
  | cons m answers ih =>
    have habsent : m.1 ∉ Json.keys acc := by
      have hdisjoint := (nodup_append'.mp h).2.2
      exact fun hm => hdisjoint hm mem_cons_self
    have hnext : Json.setAll (m :: answers) acc = Json.setAll answers (Json.setMember m.1 (.str m.2) acc) := rfl
    rw [hnext, setMember_absent habsent, ih, append_assoc]
    · rfl
    · rw [Json.keys, map_append, append_assoc]
      exact h

theorem lookup_perm {other : List (Text × Text)} (h : answers.Perm other) (hnodup : (answers.map (·.1)).Nodup) (id : Text) :
    answers.lookup id = other.lookup id := by
  induction h with
  | nil => rfl
  | cons p _ ih =>
    rw [lookup_pair, lookup_pair, ih (nodup_cons.mp hnodup).2]
  | swap p q rest =>
    have hkeys : p.1 ≠ q.1 := fun heq => (nodup_cons.mp hnodup).1 (by simp [heq])
    rw [lookup_pair, lookup_pair, lookup_pair, lookup_pair]
    by_cases hp : id = p.1
    · rw [if_pos hp, if_pos hp, if_neg fun hq => hkeys (hp.symm.trans hq)]
    · rw [if_neg hp, if_neg hp]
  | trans hfirst _ ih ih' =>
    rw [ih hnodup, ih' ((hfirst.map (·.1)).nodup_iff.mp hnodup)]

theorem decode_encodePollAnswers (hplain : ∀ m ∈ answers, Json.Plain m.1 ∧ Json.Plain m.2) (hnodup : (answers.map (·.1)).Nodup) :
    decodePollAnswers (encodePollAnswers answers) = some (answers.insertionSort fun a b => a.1 ≤ b.1) := by
  have hperm := perm_insertionSort (fun a b : Text × Text => a.1 ≤ b.1) answers
  have hsorted := decode_answersText fun m hm => hplain m (hperm.mem_iff.mp hm)
  obtain ⟨decoded, hdecode, hset⟩ := hsorted
  have hdistinct : (Json.keys [] ++ (answers.insertionSort fun a b => a.1 ≤ b.1).map (·.1)).Nodup := by
    show ((answers.insertionSort fun a b => a.1 ≤ b.1).map Prod.fst).Nodup
    exact (hperm.map Prod.fst).nodup_iff.mpr hnodup
  rw [setAll_distinct hdistinct, nil_append] at hset
  have hsame : some (answers.insertionSort fun a b => a.1 ≤ b.1) = some decoded := by
    rw [← asAnswers_map, hset, asAnswers_map]
  exact hdecode.trans hsame.symm

end Decoded

section Counted

variable {stored : Text} {ids : List Text}
variable {config : ElectionConfig}

theorem election_countsExactly (hlist : config.yesNo = false)
    (hpicks : ∀ id, id ∈ listPicks stored config.candidateIds config.seats ↔ id ∈ ids) (eligible : ℕ) :
    CountsExactly (fun choices => (tallyElection (ballotTexts choices) config eligible).counts.get) config.candidateIds stored
      (· ∈ ids) := by
  intro front back id hid
  dsimp only
  rw [(tallyElection_counts hlist _ eligible).1, (tallyElection_counts hlist _ eligible).1, get_missedOutcome hid,
    get_missedOutcome hid, ballotTexts_middle, ballotTexts_append, electionPicks, electionPicks, map_append, map_append,
    map_cons, countP_append, countP_append, countP_cons]
  by_cases hchosen : id ∈ ids
  · rw [if_pos (contains_iff_mem.mpr ((hpicks id).mpr hchosen)), if_pos hchosen]
    omega
  · rw [if_neg (fun h => hchosen ((hpicks id).mp (contains_iff_mem.mp h))), if_neg hchosen]
    omega

theorem poll_countsExactly {config : PollConfig} (hlist : config.mode ≠ .date)
    (hpicks : ∀ id, id ∈ listPicks stored config.optionIds config.choiceLimit ↔ id ∈ ids) :
    CountsExactly (fun choices => (tallyPoll (ballotTexts choices) config).counts.get) config.optionIds stored (· ∈ ids) := by
  intro front back id hid
  dsimp only
  rw [tallyPoll_list hlist, tallyPoll_list hlist, listPoll_counts hid, listPoll_counts hid, ballotTexts_middle,
    ballotTexts_append, countP_append, countP_append, countP_cons]
  by_cases hchosen : id ∈ ids
  · rw [if_pos (contains_iff_mem.mpr ((hpicks id).mpr hchosen)), if_pos hchosen]
    omega
  · rw [if_neg (fun h => hchosen ((hpicks id).mp (contains_iff_mem.mp h))), if_neg hchosen]
    omega

theorem date_countsExactly {config : PollConfig} (hdate : config.mode = .date) {answers : List (Text × Text)}
    (hanswers : ∀ id, (ballotAnswers stored).lookup id = answers.lookup id) :
    CountsExactly (fun choices => (tallyPoll (ballotTexts choices) config).counts.get) config.optionIds stored
        (fun id => answers.lookup id = some yesKey) ∧
      CountsExactly (fun choices id => ((tallyPoll (ballotTexts choices) config).maybe.map (·.get id)).getD 0) config.optionIds
        stored fun id => answers.lookup id = some maybeKey := by
  constructor
  · intro front back id hid
    dsimp only
    rw [tallyPoll_date hdate, tallyPoll_date hdate, (datePoll_counts hid _).1, (datePoll_counts hid _).1, ballotTexts_middle,
      ballotTexts_append, countP_append, countP_append, countP_cons, hanswers]
    simp only [beq_iff_eq]
    omega
  · intro front back id hid
    dsimp only
    rw [tallyPoll_date hdate, tallyPoll_date hdate, (datePoll_counts hid _).2, (datePoll_counts hid _).2, ballotTexts_middle,
      ballotTexts_append, countP_append, countP_append, countP_cons, hanswers]
    simp only [beq_iff_eq, Option.getD_some]
    omega

def yesNoCount (config : ElectionConfig) (eligible : ℕ) (choices : List (Option Text)) (word : Text) : ℕ :=
  if word = abstainKey then (tallyElection (ballotTexts choices) config eligible).abstentions
  else (tallyElection (ballotTexts choices) config eligible).counts.get word

theorem yesNoCount_eq (hyesNo : config.yesNo = true) (eligible : ℕ) (choices : List (Option Text)) {word : Text}
    (hword : word ∈ electionReservedIds) : yesNoCount config eligible choices word = (ballotTexts choices).count word := by
  have htally : ∀ {key : Text}, key ∈ electionReservedIds →
      (tally [yesKey, noKey, abstainKey] (ballotTexts choices)).get key = (ballotTexts choices).count key := by
    intro key hkey
    exact get_countAll (mem_eraseDups.mpr hkey) _
  rw [yesNoCount, tallyElection, hyesNo, if_pos rfl, yesNoOutcome]
  dsimp only
  simp only [electionReservedIds, mem_cons, not_mem_nil, or_false] at hword
  rcases hword with rfl | rfl | rfl
  · rw [if_neg (by decide), Counts.get_cons, if_pos rfl, htally (by decide)]
  · rw [if_neg (by decide), Counts.get_cons, if_neg (show yesKey ≠ noKey by decide), Counts.get_cons, if_pos rfl, htally (by decide)]
  · rw [if_pos rfl, htally (by decide)]

theorem yesNo_countsExactly (hyesNo : config.yesNo = true) (eligible : ℕ) :
    CountsExactly (yesNoCount config eligible) electionReservedIds stored (· = stored) := by
  intro front back word hword
  rw [yesNoCount_eq hyesNo eligible _ hword, yesNoCount_eq hyesNo eligible _ hword, ballotTexts_middle, ballotTexts_append,
    count_append, count_append, count_cons]
  by_cases h : word = stored
  · rw [if_pos h, if_pos (by simp [h])]
    omega
  · rw [if_neg h, if_neg (by simpa using Ne.symm h)]
    omega

end Counted

def ElectionReadsBack (config : ElectionConfig) (stored : Text) : Choice → Prop
  | .option word => config.yesNo = true ∧ stored = word ∧ word ∈ electionReservedIds ∧
      ∀ eligible, CountsExactly (yesNoCount config eligible) electionReservedIds stored (· = word)
  | .list ids => config.yesNo = false ∧
      (∃ decoded, decodeElectionChoice stored = some decoded ∧ decoded.Perm ids ∧
        listPicks stored config.candidateIds config.seats = decoded) ∧
      ∀ eligible, CountsExactly (fun choices => (tallyElection (ballotTexts choices) config eligible).counts.get)
        config.candidateIds stored (· ∈ ids)
  | .answers _ _ => False

def PollReadsBack (config : PollConfig) (stored : Text) : Choice → Prop
  | .option _ => False
  | .list ids => config.mode ≠ .date ∧
      (∃ decoded, decodeElectionChoice stored = some decoded ∧ decoded.Perm ids ∧
        listPicks stored config.optionIds config.choiceLimit = decoded) ∧
      CountsExactly (fun choices => (tallyPoll (ballotTexts choices) config).counts.get) config.optionIds stored (· ∈ ids)
  | .answers pairs _ => config.mode = .date ∧
      (∃ decoded, decodePollAnswers stored = some decoded ∧ decoded.Perm pairs ∧ ∀ id, decoded.lookup id = pairs.lookup id) ∧
      CountsExactly (fun choices => (tallyPoll (ballotTexts choices) config).counts.get) config.optionIds stored
        (fun id => pairs.lookup id = some yesKey) ∧
      CountsExactly (fun choices id => ((tallyPoll (ballotTexts choices) config).maybe.map (·.get id)).getD 0)
        config.optionIds stored fun id => pairs.lookup id = some maybeKey

section Accepted

variable {stored : Text} {choice : Choice}

theorem election_readsBack {config : ElectionConfig} (h : config.storedChoice choice = .ok stored) :
    ElectionReadsBack config stored choice := by
  cases choice with
  | option word =>
    rw [ElectionConfig.storedChoice] at h
    split at h
    · next hok =>
        cases h
        rw [Bool.and_eq_true, contains_iff_mem] at hok
        exact ⟨hok.1, rfl, hok.2, fun eligible => yesNo_countsExactly hok.1 eligible⟩
    · cases h
  | list ids =>
    rw [ElectionConfig.storedChoice] at h
    split_ifs at h with hyesNo hnodup hseats hknown
    cases h
    have hplain : ∀ id ∈ ids, Json.Plain id := fun id hid => plain_candidateIds config id (hknown hid)
    have hpicks := listPicks_encode hplain hnodup hknown (Nat.le_of_not_lt hseats)
    have hlist := Bool.eq_false_iff.mpr hyesNo
    refine ⟨hlist, ⟨_, decode_encodeElectionChoice hplain, perm_insertionSort _ _, hpicks⟩, fun eligible => ?_⟩
    exact election_countsExactly hlist (fun id => by rw [hpicks, mem_insertionSort]) eligible
  | answers pairs unique => cases h

theorem poll_readsBack {config : PollConfig} (h : config.storedChoice choice = .ok stored) :
    PollReadsBack config stored choice := by
  have hlist : ∀ ids, config.mode ≠ .date → choice = .list ids → PollReadsBack config stored choice := by
    rintro ids hmode rfl
    have hids : (if ¬ ids.Nodup then .error .invalidChoice
        else if config.choiceLimit < ids.length then .error .invalidChoice
        else if ¬ ids ⊆ config.optionIds then .error .invalidChoice
        else .ok (encodeElectionChoice ids) : Except Problem Text) = .ok stored := by
      rw [← h]
      unfold PollConfig.storedChoice
      cases hkind : config.mode with
      | date => exact absurd hkind hmode
      | single => rfl
      | multi => rfl
    split_ifs at hids with hnodup hlimit hknown
    cases hids
    have hplain : ∀ id ∈ ids, Json.Plain id := fun id hid => plain_optionIds config id (hknown hid)
    have hpicks := listPicks_encode hplain hnodup hknown (Nat.le_of_not_lt hlimit)
    refine ⟨hmode, ⟨_, decode_encodeElectionChoice hplain, perm_insertionSort _ _, hpicks⟩, ?_⟩
    exact poll_countsExactly hmode fun id => by rw [hpicks, mem_insertionSort]
  cases hmode : config.mode with
  | single =>
    cases choice with
    | list ids => exact hlist ids (by rw [hmode]; decide) rfl
    | option word => simp [PollConfig.storedChoice, hmode] at h
    | answers pairs unique => simp [PollConfig.storedChoice, hmode] at h
  | multi =>
    cases choice with
    | list ids => exact hlist ids (by rw [hmode]; decide) rfl
    | option word => simp [PollConfig.storedChoice, hmode] at h
    | answers pairs unique => simp [PollConfig.storedChoice, hmode] at h
  | date =>
    cases choice with
    | list ids => simp [PollConfig.storedChoice, hmode] at h
    | option word => simp [PollConfig.storedChoice, hmode] at h
    | answers pairs unique =>
      unfold PollConfig.storedChoice at h
      rw [hmode] at h
      dsimp only at h
      split_ifs at h with hkeys hwords
      cases h
      have hplain : ∀ m ∈ pairs, Json.Plain m.1 ∧ Json.Plain m.2 := fun m hm =>
        ⟨plain_optionIds config m.1 (hkeys.1 (mem_map_of_mem hm)), plain_answer (hwords (mem_map_of_mem hm))⟩
      have hdecode := decode_encodePollAnswers hplain unique
      have hperm := perm_insertionSort (fun a b : Text × Text => a.1 ≤ b.1) pairs
      have hlookup : ∀ id, (pairs.insertionSort fun a b => a.1 ≤ b.1).lookup id = pairs.lookup id :=
        lookup_perm hperm ((hperm.map (·.1)).nodup_iff.mpr unique)
      refine ⟨hmode, ⟨_, hdecode, hperm, hlookup⟩, date_countsExactly hmode fun id => ?_⟩
      rw [ballotAnswers, hdecode, Option.getD_some, hlookup]

end Accepted

/-- Every accepted ballot of an election and of a poll is counted for what was chosen. -/
theorem stored_choice_reads_back :
    (∀ (config : ElectionConfig) (choice : Choice) (stored : Text), config.storedChoice choice = .ok stored →
        ElectionReadsBack config stored choice) ∧
      ∀ (config : PollConfig) (choice : Choice) (stored : Text), config.storedChoice choice = .ok stored →
        PollReadsBack config stored choice :=
  ⟨fun _ _ _ h => election_readsBack h, fun _ _ _ h => poll_readsBack h⟩

def twoDates : PollConfig where
  mode := .date
  options := [⟨text "o1", none, some 0, none⟩, ⟨text "o2", none, some 86400, none⟩]
  maxChoices := none
  secret := true
  guestsVote := false
  min_options := by decide
  max_options := by decide
  options_fit := by decide
  ids_unique := by decide
  max_choices := by decide

theorem stored_choice_reads_back_dates :
    PollReadsBack twoDates (encodePollAnswers [(text "o2", maybeKey), (text "o1", yesKey)])
      (.answers [(text "o2", maybeKey), (text "o1", yesKey)] (by decide)) :=
  stored_choice_reads_back.2 twoDates _ _ (by rfl)

end Voting
