import StupaWorkflow.JsonStrings
import StupaWorkflow.VoteMonotone

/-!
What one ballot adds to the counts of an election and of a poll.
-/
namespace Voting
open Py List

/-- The stored choices as the tally reads them: a ballot without a text reads like the
empty one, which is neither JSON nor an option. -/
def ballotTexts (choices : List (Option Text)) : List Text := choices.map fun choice => choice.getD []

theorem ballotTexts_perm {a b : List (Option Text)} (h : a.Perm b) : (ballotTexts a).Perm (ballotTexts b) := h.map _

theorem ballotTexts_append (a b : List (Option Text)) : ballotTexts (a ++ b) = ballotTexts a ++ ballotTexts b := map_append

theorem ballotTexts_length (choices : List (Option Text)) : (ballotTexts choices).length = choices.length :=
  length_map _

section Picks

variable {raw raw' : Text} {known : List Text} {limit : ℕ}

theorem listPicks_nodup (raw : Text) (known : List Text) (limit : ℕ) : (listPicks raw known limit).Nodup :=
  ((Ranking.nodup_eraseDups _).filter _).sublist (take_sublist _ _)

theorem listPicks_known {id : Text} (h : id ∈ listPicks raw known limit) : id ∈ known := by
  have hfiltered := mem_of_mem_take h
  simpa using (mem_filter.mp hfiltered).2

theorem listPicks_length (raw : Text) (known : List Text) (limit : ℕ) : (listPicks raw known limit).length ≤ limit :=
  length_take_le _ _

/-- `raw` is the list ballot `raw'` with one id more, which the vote does not know or
which stands before it already. -/
def ExtraPick (known : List Text) (raw raw' : Text) : Prop :=
  ∃ front id back, decodeElectionChoice raw = some (front ++ id :: back) ∧
    decodeElectionChoice raw' = some (front ++ back) ∧ (id ∉ known ∨ id ∈ front)

theorem ExtraPick.listPicks_eq (h : ExtraPick known raw raw') (limit : ℕ) :
    listPicks raw known limit = listPicks raw' known limit := by
  obtain ⟨front, id, back, hraw, hraw', hid⟩ := h
  rw [listPicks, listPicks, hraw, hraw']
  simp only [Option.getD_some]
  rcases hid with hunknown | hrepeated
  · rw [Ranking.filter_eraseDups, Ranking.filter_eraseDups, filter_append, filter_append,
      filter_cons_of_neg (by simpa using hunknown)]
  · rw [Ranking.eraseDups_repeated hrepeated]

theorem decode_answer {word : Text} (h : word ∈ [yesKey, noKey, abstainKey]) : decodeElectionChoice word = none := by
  simp only [mem_cons, not_mem_nil, or_false] at h
  rcases h with rfl | rfl | rfl
  · rfl
  · rfl
  · simp [decodeElectionChoice, abstainKey, text, Json.loadsAll, Json.loads, Json.skipSpace, Json.isSpace, Json.scanOnce,
      Json.scanNumber, Json.scanDigits]
    rfl

end Picks

section Counts

variable {keys hits : List Text} {key : Text}

theorem get_countAll (h : key ∈ keys) (hits : List Text) : (countAll keys hits).get key = hits.count key := by
  induction keys with
  | nil => cases h
  | cons first keys ih =>
    rw [countAll, map_cons, Counts.get_cons]
    by_cases hfirst : first = key
    · rw [if_pos hfirst, hfirst]
    · rw [if_neg hfirst]
      exact ih ((mem_cons.mp h).resolve_left (Ne.symm hfirst))

theorem count_flatten_nodup {ballots : List (List Text)} (h : ∀ ballot ∈ ballots, ballot.Nodup) (key : Text) :
    ballots.flatten.count key = ballots.countP fun ballot => ballot.contains key := by
  induction ballots with
  | nil => rfl
  | cons ballot ballots ih =>
    obtain ⟨hballot, hballots⟩ := forall_mem_cons.mp h
    rw [flatten_cons, count_append, ih hballots, countP_cons, hballot.count, Nat.add_comm]
    simp

theorem total_countAll (hnodup : keys.Nodup) (hhits : ∀ hit ∈ hits, hit ∈ keys) :
    (countAll keys hits).total = hits.length := by
  rw [← Ranking.eraseDups_of_nodup hnodup, ← tally]
  induction hits with
  | nil => simp [tally, countAll, Counts.total, Function.comp_def]
  | cons hit hits ih =>
    obtain ⟨hhit, hrest⟩ := forall_mem_cons.mp hhits
    rw [tally_cons hhit, Counts.total_cast, ih hrest, length_cons]

end Counts

section Election

variable {config : ElectionConfig} {front back : List Text} {raw raw' : Text}

theorem tally_unknown {options : List Text} (h : raw ∉ options) :
    tally options (front ++ raw :: back) = tally options (front ++ back) := by
  rw [tally, tally, countAll, countAll]
  refine map_congr_left fun key hkey => ?_
  have hne : raw ≠ key := fun heq => h (heq ▸ mem_eraseDups.mp hkey)
  rw [count_append, count_append, count_cons_of_ne hne]

theorem electionPicks_extra (h : ExtraPick config.candidateIds raw raw') (front back : List Text) :
    electionPicks config (front ++ raw :: back) = electionPicks config (front ++ raw' :: back) := by
  simp only [electionPicks, map_append, map_cons, h.listPicks_eq]

theorem tallyElection_extra (h : ExtraPick config.candidateIds raw raw') (front back : List Text) (eligible : ℕ) :
    tallyElection (front ++ raw :: back) config eligible = tallyElection (front ++ raw' :: back) config eligible := by
  have hpicks := electionPicks_extra h front back
  have hlength : (front ++ raw :: back).length = (front ++ raw' :: back).length := by simp
  have hmissed : missedOutcome config (front ++ raw :: back) = missedOutcome config (front ++ raw' :: back) := by
    rw [missedOutcome, missedOutcome, hpicks, hlength]
  have hmet : electionQuorumMet config (front ++ raw :: back) eligible =
      electionQuorumMet config (front ++ raw' :: back) eligible := by
    rw [electionQuorumMet, electionQuorumMet, hpicks, hlength]
  have hlist : ∀ {text : Text} {ids : List Text}, decodeElectionChoice text = some ids → text ∉ [yesKey, noKey, abstainKey] := by
    intro text ids htext hmem
    rw [decode_answer hmem] at htext
    cases htext
  obtain ⟨_, _, _, hraw, hraw', -⟩ := h
  have hyesNo : yesNoOutcome config (front ++ raw :: back) eligible = yesNoOutcome config (front ++ raw' :: back) eligible := by
    simp only [yesNoOutcome, tally_unknown (hlist hraw), tally_unknown (hlist hraw')]
  rw [tallyElection, tallyElection, hmissed, hmet, hyesNo]

theorem tallyElection_unknown (hyesNo : config.yesNo = true) (hraw : raw ∉ [yesKey, noKey, abstainKey]) (eligible : ℕ) :
    tallyElection (front ++ raw :: back) config eligible = tallyElection (front ++ back) config eligible := by
  simp only [tallyElection, hyesNo, if_true, yesNoOutcome, tally_unknown hraw]

theorem electionPicks_known (config : ElectionConfig) (choices : List Text) :
    ∀ id ∈ (electionPicks config choices).flatten, id ∈ config.candidateIds := by
  intro id hid
  obtain ⟨ballot, hballot, hmem⟩ := mem_flatten.mp hid
  obtain ⟨raw, -, rfl⟩ := mem_map.mp hballot
  exact listPicks_known hmem

theorem picks_add_abstentions (config : ElectionConfig) (choices : List Text) :
    (electionPicks config choices).flatten.length +
      ((electionPicks config choices).map fun ballot => config.seats - ballot.length).sum = config.seats * choices.length := by
  induction choices with
  | nil => rfl
  | cons raw choices ih =>
    have hlimit := listPicks_length raw config.candidateIds config.seats
    rw [electionPicks] at ih ⊢
    rw [map_cons, flatten_cons, length_append, map_cons, sum_cons, length_cons,
      Nat.mul_add, ← ih]
    omega

theorem seatOutcome_counts (base : ElectionOutcome) (ranked : List Text) (seats : ℕ) :
    (seatOutcome base ranked seats).counts = base.counts ∧ (seatOutcome base ranked seats).abstentions = base.abstentions ∧
      (seatOutcome base ranked seats).ballots = base.ballots := by
  simp only [seatOutcome, apply_ite ElectionOutcome.counts, apply_ite ElectionOutcome.abstentions,
    apply_ite ElectionOutcome.ballots, ite_self, and_self]

theorem tallyElection_counts (hlist : config.yesNo = false) (choices : List Text) (eligible : ℕ) :
    (tallyElection choices config eligible).counts = (missedOutcome config choices).counts ∧
      (tallyElection choices config eligible).abstentions = (missedOutcome config choices).abstentions ∧
      (tallyElection choices config eligible).ballots = choices.length := by
  rw [tallyElection, hlist, if_neg (by decide)]
  split
  · exact seatOutcome_counts _ _ _
  · exact ⟨rfl, rfl, rfl⟩

theorem get_missedOutcome {id : Text} (h : id ∈ config.candidateIds) (choices : List Text) :
    (missedOutcome config choices).counts.get id = (electionPicks config choices).countP fun ballot => ballot.contains id := by
  rw [missedOutcome, get_countAll h]
  refine count_flatten_nodup (fun ballot hballot => ?_) id
  obtain ⟨raw, -, rfl⟩ := mem_map.mp hballot
  exact listPicks_nodup _ _ _

end Election

section Answers

variable {raw raw' : Text} {answers : List (Text × Text)} {members : List (Text × Json)} {known : List Text}
variable {id : Text}

theorem asAnswers_some (h : asAnswers members = some answers) : members = answers.map fun m => (m.1, .str m.2) := by
  induction members generalizing answers with
  | nil =>
    cases h
    rfl
  | cons m members ih =>
    obtain ⟨key, value⟩ := m
    cases value with
    | str s =>
      obtain ⟨rest, hrest, rfl⟩ := Option.map_eq_some_iff.mp h
      rw [ih hrest, map_cons]
    | _ => cases h

theorem asAnswers_map (answers : List (Text × Text)) : asAnswers (answers.map fun m => (m.1, .str m.2)) = some answers := by
  induction answers with
  | nil => rfl
  | cons m answers ih => rw [map_cons, asAnswers, ih, Option.map_some]

theorem lookup_map_str (answers : List (Text × Text)) (id : Text) :
    (answers.map fun m => (m.1, Json.str m.2)).lookup id = (answers.lookup id).map .str := by
  induction answers with
  | nil => rfl
  | cons m answers ih =>
    rw [map_cons, lookup_cons, lookup_cons, ih]
    cases id == m.1 <;> rfl

theorem decodePollAnswers_nodup (h : decodePollAnswers raw = some answers) : (answers.map (·.1)).Nodup := by
  rw [decodePollAnswers] at h
  split at h
  · next members hloads =>
      have hnodup := Json.nodup_loads hloads
      rw [asAnswers_some h, Json.keys, map_map] at hnodup
      exact hnodup
  · cases h

def ballotAnswers (raw : Text) : List (Text × Text) := (decodePollAnswers raw).getD []

theorem ballotAnswers_nodup (raw : Text) : ((ballotAnswers raw).map (·.1)).Nodup := by
  rw [ballotAnswers]
  cases hdecode : decodePollAnswers raw with
  | none => exact nodup_nil
  | some answers => exact decodePollAnswers_nodup hdecode

def answered (known : List Text) (word : Text) (answers : List (Text × Text)) : List Text :=
  ((answers.filter fun p => known.contains p.1).filter fun p => p.2 == word).map (·.1)

theorem answered_cons (p : Text × Text) (answers : List (Text × Text)) (word : Text) :
    answered known word (p :: answers) =
      if p.1 ∈ known ∧ p.2 = word then p.1 :: answered known word answers else answered known word answers := by
  unfold answered
  by_cases hknown : p.1 ∈ known <;> by_cases hword : p.2 = word <;> simp [hknown, hword]

theorem count_answered (hnodup : (answers.map (·.1)).Nodup) (hid : id ∈ known) (word : Text) :
    (answered known word answers).count id = if answers.lookup id = some word then 1 else 0 := by
  induction answers with
  | nil => rfl
  | cons p answers ih =>
    obtain ⟨hp, hrest⟩ := nodup_cons.mp hnodup
    rw [answered_cons, lookup_pair]
    by_cases hfirst : id = p.1
    · -- the option has no answer behind its own
      have hnone : answers.lookup id = none := by
        rw [lookup_eq_none_iff]
        intro q hq
        have hne : id ≠ q.1 := fun heq => hp (mem_map.mpr ⟨q, hq, heq.symm.trans hfirst⟩)
        simpa using hne
      have hrestCount := ih hrest
      rw [hnone, if_neg (by simp)] at hrestCount
      rw [if_pos hfirst]
      simp only [Option.some_inj]
      by_cases hword : p.2 = word
      · rw [if_pos ⟨hfirst ▸ hid, hword⟩, if_pos hword, hfirst, count_cons_self, ← hfirst, hrestCount]
      · rw [if_neg fun h => hword h.2, if_neg hword, hrestCount]
    · rw [if_neg hfirst, ← ih hrest]
      split
      · rw [count_cons_of_ne (Ne.symm hfirst)]
      · rfl

theorem datePoll_hits (raws : List Text) (known : List Text) (word : Text) :
    (((raws.flatMap fun raw => (ballotAnswers raw).filter fun p => known.contains p.1).filter fun p => p.2 == word).map
      (·.1)) = raws.flatMap fun raw => answered known word (ballotAnswers raw) := by
  rw [filter_flatMap, map_flatMap]
  rfl

theorem count_hits (hid : id ∈ known) (word : Text) (raws : List Text) :
    (raws.flatMap fun raw => answered known word (ballotAnswers raw)).count id =
      raws.countP fun raw => (ballotAnswers raw).lookup id == some word := by
  induction raws with
  | nil => rfl
  | cons raw raws ih =>
    rw [flatMap_cons, count_append, ih, count_answered (ballotAnswers_nodup raw) hid, countP_cons, Nat.add_comm]
    simp

theorem datePoll_counts (hid : id ∈ known) (raws : List Text) :
    (datePoll raws known).counts.get id = (raws.countP fun raw => (ballotAnswers raw).lookup id == some yesKey) ∧
      (datePoll raws known).maybe.map (·.get id) =
        some (raws.countP fun raw => (ballotAnswers raw).lookup id == some maybeKey) := by
  refine ⟨?_, congrArg some ?_⟩
  · apply (get_countAll hid _).trans
    rw [← count_hits hid, ← datePoll_hits]
    rfl
  · apply (get_countAll hid _).trans
    rw [← count_hits hid, ← datePoll_hits]
    rfl

/-- `raw` is the ballot `raw'` of a date poll with an answer for an option that the poll
does not know. -/
def ExtraAnswer (known : List Text) (raw raw' : Text) : Prop :=
  ∃ front answer back, decodePollAnswers raw = some (front ++ answer :: back) ∧
    decodePollAnswers raw' = some (front ++ back) ∧ answer.1 ∉ known

theorem datePoll_extra (h : ExtraAnswer known raw raw') (front back : List Text) :
    datePoll (front ++ raw :: back) known = datePoll (front ++ raw' :: back) known := by
  obtain ⟨before, answer, behind, hraw, hraw', hunknown⟩ := h
  have hanswers : ((front ++ raw :: back).flatMap fun item =>
      ((decodePollAnswers item).getD []).filter fun p => known.contains p.1) =
        (front ++ raw' :: back).flatMap fun item => ((decodePollAnswers item).getD []).filter fun p => known.contains p.1 := by
    simp only [flatMap_append, flatMap_cons, hraw, hraw', Option.getD_some, filter_append]
    rw [filter_cons_of_neg (by simpa using hunknown)]
  have hlength : (front ++ raw :: back).length = (front ++ raw' :: back).length := by simp
  unfold datePoll
  rw [hanswers, hlength]

theorem listPoll_extra (h : ExtraPick known raw raw') (limit : ℕ) (front back : List Text) :
    listPoll (front ++ raw :: back) known limit = listPoll (front ++ raw' :: back) known limit := by
  have hpicks : (front ++ raw :: back).map (fun item => listPicks item known limit) =
      (front ++ raw' :: back).map fun item => listPicks item known limit := by
    simp only [map_append, map_cons, h.listPicks_eq]
  have hlength : (front ++ raw :: back).length = (front ++ raw' :: back).length := by simp
  unfold listPoll
  rw [hpicks, hlength]

theorem listPoll_counts (hid : id ∈ known) (raws : List Text) (limit : ℕ) :
    (listPoll raws known limit).counts.get id = raws.countP fun raw => (listPicks raw known limit).contains id := by
  apply (get_countAll hid _).trans
  rw [count_flatten_nodup _ id, countP_map]
  · rfl
  · intro ballot hballot
    obtain ⟨raw, -, rfl⟩ := mem_map.mp hballot
    exact listPicks_nodup _ _ _

/-- A JSON object of texts with its members in the given order, repeated keys included. -/
def answersText (answers : List (Text × Text)) : Text :=
  (Json.obj (answers.map fun m => (m.1, .str m.2))).dumps (text ",") (text ":")

theorem setMember_strings (key value : Text) (answers : List (Text × Text)) :
    ∃ merged : List (Text × Text), Json.setMember key (.str value) (answers.map fun m => (m.1, .str m.2)) =
      merged.map fun m => (m.1, .str m.2) := by
  induction answers with
  | nil => exact ⟨[(key, value)], rfl⟩
  | cons m answers ih =>
    obtain ⟨merged, hmerged⟩ := ih
    rw [map_cons, Json.setMember]
    split
    · exact ⟨(m.1, value) :: answers, rfl⟩
    · exact ⟨m :: merged, by rw [hmerged, map_cons]⟩

theorem setAll_strings (members answers : List (Text × Text)) :
    ∃ merged : List (Text × Text), Json.setAll members (answers.map fun m => (m.1, .str m.2)) =
      merged.map fun m => (m.1, .str m.2) := by
  induction members generalizing answers with
  | nil => exact ⟨answers, rfl⟩
  | cons m members ih =>
    obtain ⟨merged, hmerged⟩ := setMember_strings m.1 m.2 answers
    obtain ⟨all, hall⟩ := ih merged
    exact ⟨all, by rw [← hall, ← hmerged]; rfl⟩

theorem decode_answersText {members : List (Text × Text)} (hplain : ∀ m ∈ members, Json.Plain m.1 ∧ Json.Plain m.2) :
    ∃ answers, decodePollAnswers (answersText members) = some answers ∧
      Json.setAll members [] = answers.map fun m => (m.1, .str m.2) := by
  obtain ⟨answers, hanswers⟩ := setAll_strings members []
  refine ⟨answers, ?_, hanswers⟩
  rw [decodePollAnswers, answersText, Json.loads_members hplain]
  exact (congrArg asAnswers hanswers).trans (asAnswers_map answers)

theorem lookup_answersText {members : List (Text × Text)} (hplain : ∀ m ∈ members, Json.Plain m.1 ∧ Json.Plain m.2)
    (id : Text) : ((ballotAnswers (answersText members)).lookup id).map .str = (Json.setAll members []).lookup id := by
  obtain ⟨answers, hdecode, hset⟩ := decode_answersText hplain
  rw [ballotAnswers, hdecode, hset, Option.getD_some, lookup_map_str]

theorem lookup_answersText_other {front back : List (Text × Text)} {key value : Text} (hid : id ≠ key)
    (hplain : ∀ m ∈ front ++ (key, value) :: back, Json.Plain m.1 ∧ Json.Plain m.2) :
    (ballotAnswers (answersText (front ++ (key, value) :: back))).lookup id =
      (ballotAnswers (answersText (front ++ back))).lookup id := by
  apply Option.map_injective (fun _ _ h => Json.str.inj h)
  rw [lookup_answersText hplain, Json.lookup_setAll_other hid, lookup_answersText]
  intro m hm
  apply hplain
  rw [mem_append, mem_cons]
  exact (mem_append.mp hm).imp_right .inr

end Answers

section Conserved

/-- What holds of the tally of an election for every list of ballots. -/
structure ElectionConserves (config : ElectionConfig) : Prop where
  order {a b : List (Option Text)} (h : a.Perm b) (eligible : ℕ) :
    tallyElection (ballotTexts a) config eligible = tallyElection (ballotTexts b) config eligible
  extraPick (front back : List (Option Text)) {raw raw' : Text} (h : ExtraPick config.candidateIds raw raw') (eligible : ℕ) :
    tallyElection (ballotTexts (front ++ some raw :: back)) config eligible =
      tallyElection (ballotTexts (front ++ some raw' :: back)) config eligible
  unknownAnswer (front back : List (Option Text)) {raw : Text} (hyesNo : config.yesNo = true)
      (h : raw ∉ [yesKey, noKey, abstainKey]) (eligible : ℕ) :
    tallyElection (ballotTexts (front ++ some raw :: back)) config eligible =
      tallyElection (ballotTexts (front ++ back)) config eligible
  seats (choices : List (Option Text)) (hlist : config.yesNo = false) (eligible : ℕ) :
    (tallyElection (ballotTexts choices) config eligible).ballots = choices.length ∧
      (tallyElection (ballotTexts choices) config eligible).counts.total +
        (tallyElection (ballotTexts choices) config eligible).abstentions = config.seats * choices.length

def SameCounts (config : PollConfig) (id : Text) (a b : List (Option Text)) : Prop :=
  (tallyPoll (ballotTexts a) config).counts.get id = (tallyPoll (ballotTexts b) config).counts.get id ∧
    (tallyPoll (ballotTexts a) config).maybe.map (·.get id) = (tallyPoll (ballotTexts b) config).maybe.map (·.get id)

/-- What holds of the tally of a poll for every list of ballots. An answer of a date poll
is a member of a JSON object, so a key that is repeated in the text is there too. -/
structure PollConserves (config : PollConfig) : Prop where
  order {a b : List (Option Text)} (h : a.Perm b) : tallyPoll (ballotTexts a) config = tallyPoll (ballotTexts b) config
  extraPick (front back : List (Option Text)) {raw raw' : Text} (hlist : config.mode ≠ .date)
      (h : ExtraPick config.optionIds raw raw') :
    tallyPoll (ballotTexts (front ++ some raw :: back)) config = tallyPoll (ballotTexts (front ++ some raw' :: back)) config
  extraAnswer (front back : List (Option Text)) {raw raw' : Text} (hdate : config.mode = .date)
      (h : ExtraAnswer config.optionIds raw raw') :
    tallyPoll (ballotTexts (front ++ some raw :: back)) config = tallyPoll (ballotTexts (front ++ some raw' :: back)) config
  ownAnswer (front back : List (Option Text)) {raw raw' id : Text} (hdate : config.mode = .date)
      (h : (ballotAnswers raw).lookup id = (ballotAnswers raw').lookup id) :
    SameCounts config id (front ++ some raw :: back) (front ++ some raw' :: back)
  repeatedAnswer (front back : List (Option Text)) {before behind : List (Text × Text)} {key value id : Text}
      (hdate : config.mode = .date) (hid : id ≠ key)
      (hplain : ∀ m ∈ before ++ (key, value) :: behind, Json.Plain m.1 ∧ Json.Plain m.2) :
    SameCounts config id (front ++ some (answersText (before ++ (key, value) :: behind)) :: back)
      (front ++ some (answersText (before ++ behind)) :: back)

theorem ballotTexts_middle (front back : List (Option Text)) (raw : Text) :
    ballotTexts (front ++ some raw :: back) = ballotTexts front ++ raw :: ballotTexts back := by
  simp [ballotTexts]

theorem get_countAll_of_not_mem {keys : List Text} {key : Text} (h : key ∉ keys) (hits : List Text) :
    (countAll keys hits).get key = 0 := by
  induction keys with
  | nil => rfl
  | cons first keys ih =>
    rw [countAll, map_cons, Counts.get_cons, if_neg (Ne.symm (ne_of_not_mem_cons h))]
    exact ih (not_mem_of_not_mem_cons h)

theorem election_conserves (config : ElectionConfig) : ElectionConserves config where
  order h eligible := tallyElection_perm config eligible (ballotTexts_perm h)
  extraPick front back raw raw' h eligible := by
    rw [ballotTexts_middle, ballotTexts_middle, tallyElection_extra h]
  unknownAnswer front back raw hyesNo h eligible := by
    rw [ballotTexts_middle, tallyElection_unknown hyesNo h, ← ballotTexts_append]
  seats choices hlist eligible := by
    obtain ⟨hcounts, habstentions, hballots⟩ := tallyElection_counts hlist (ballotTexts choices) eligible
    refine ⟨hballots.trans (ballotTexts_length choices), ?_⟩
    rw [hcounts, habstentions, ← ballotTexts_length choices, ← picks_add_abstentions]
    exact congrArg (· + _) (total_countAll config.ids_unique (electionPicks_known config _))

variable {config : PollConfig}

theorem tallyPoll_date (h : config.mode = .date) (choices : List Text) :
    tallyPoll choices config = datePoll choices config.optionIds := by
  rw [tallyPoll, h]

theorem tallyPoll_list (h : config.mode ≠ .date) (choices : List Text) :
    tallyPoll choices config = listPoll choices config.optionIds config.choiceLimit := by
  rw [tallyPoll]
  cases hmode : config.mode with
  | single => rfl
  | multi => rfl
  | date => exact absurd hmode h

theorem sameCounts_of_lookup (hdate : config.mode = .date) (front back : List (Option Text)) {raw raw' id : Text}
    (h : (ballotAnswers raw).lookup id = (ballotAnswers raw').lookup id) :
    SameCounts config id (front ++ some raw :: back) (front ++ some raw' :: back) := by
  rw [SameCounts, tallyPoll_date hdate, tallyPoll_date hdate, ballotTexts_middle, ballotTexts_middle]
  by_cases hid : id ∈ config.optionIds
  · obtain ⟨hyes, hmaybe⟩ := datePoll_counts hid (ballotTexts front ++ raw :: ballotTexts back)
    obtain ⟨hyes', hmaybe'⟩ := datePoll_counts hid (ballotTexts front ++ raw' :: ballotTexts back)
    rw [hyes, hyes', hmaybe, hmaybe']
    simp only [countP_append, countP_cons, h, and_self]
  · exact ⟨(get_countAll_of_not_mem hid _).trans (get_countAll_of_not_mem hid _).symm,
      congrArg some ((get_countAll_of_not_mem hid _).trans (get_countAll_of_not_mem hid _).symm)⟩

theorem poll_conserves (config : PollConfig) : PollConserves config where
  order h := tallyPoll_perm config (ballotTexts_perm h)
  extraPick front back raw raw' hlist h := by
    rw [ballotTexts_middle, ballotTexts_middle, tallyPoll_list hlist, tallyPoll_list hlist, listPoll_extra h]
  extraAnswer front back raw raw' hdate h := by
    rw [ballotTexts_middle, ballotTexts_middle, tallyPoll_date hdate, tallyPoll_date hdate, datePoll_extra h]
  ownAnswer front back _ _ _ hdate h := sameCounts_of_lookup hdate front back h
  repeatedAnswer front back _ _ _ _ _ hdate hid hplain :=
    sameCounts_of_lookup hdate front back (lookup_answersText_other hid hplain)

/-- Every tally depends on the ballots as a multiset, reads every ballot on its own and
accounts for every seat of a list ballot. -/
theorem tallies_conserve :
    (∀ config : ElectionConfig, ElectionConserves config) ∧ ∀ config : PollConfig, PollConserves config :=
  ⟨election_conserves, poll_conserves⟩

end Conserved

end Voting
