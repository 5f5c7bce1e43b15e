import StupaWorkflow.Ranking
import StupaWorkflow.VotingTally

/-!
The result of a motion as a function of its counts. A ballot more for yes, or one moved
to yes, does not lower the result; a ballot more for no does not raise it, unless the
quorum is met only with this ballot.
-/
namespace Voting
open Py List

namespace Counts
open List

def cast (key : Text) : Counts → Counts
  | [] => [(key, 1)]
  | p :: counts => if p.1 = key then (p.1, p.2 + 1) :: counts else p :: cast key counts

def withdraw (key : Text) : Counts → Counts
  | [] => []
  | p :: counts => if p.1 = key then (p.1, p.2 - 1) :: counts else p :: withdraw key counts

variable {key other : Text} {counts : Counts}

theorem get_cons (p : Text × ℕ) (counts : Counts) : get (p :: counts) key = if p.1 = key then p.2 else get counts key := by
  by_cases h : p.1 = key <;> simp [get, h]

theorem total_cons (p : Text × ℕ) (counts : Counts) : total (p :: counts) = p.2 + total counts := by
  simp [total]

theorem get_change {p : Text × ℕ} {rest : Counts} (change : ℕ → ℕ)
    (h : get rest other = if other = key then change (get counts other) else get counts other) :
    get (if p.1 = key then (p.1, change p.2) :: counts else p :: rest) other =
      if other = key then change (get (p :: counts) other) else get (p :: counts) other := by
  by_cases hp : p.1 = key
  · rw [if_pos hp, get_cons, get_cons]
    by_cases hother : p.1 = other
    · rw [if_pos hother, if_pos hother, if_pos (hother.symm.trans hp)]
    · rw [if_neg hother, if_neg hother, if_neg fun heq => hother (hp.trans heq.symm)]
  · rw [if_neg hp, get_cons, get_cons, h]
    by_cases hother : p.1 = other
    · rw [if_pos hother, if_pos hother, if_neg fun heq => hp (hother.trans heq)]
    · rw [if_neg hother, if_neg hother]

theorem get_cast (key other : Text) (counts : Counts) :
    get (cast key counts) other = if other = key then get counts other + 1 else get counts other := by
  induction counts with
  | nil =>
    by_cases h : other = key
    · simp [cast, get, h]
    · simp [cast, get, h, Ne.symm h]
  | cons p counts ih => exact get_change (· + 1) ih

theorem total_cast (key : Text) (counts : Counts) : total (cast key counts) = total counts + 1 := by
  induction counts with
  | nil => simp [cast, total]
  | cons p counts ih =>
    rw [cast]
    split
    · rw [total_cons, total_cons]
      omega
    · rw [total_cons, total_cons, ih]
      omega

theorem get_withdraw (key other : Text) (counts : Counts) :
    get (withdraw key counts) other = if other = key then get counts other - 1 else get counts other := by
  induction counts with
  | nil => simp [withdraw, get]
  | cons p counts ih => exact get_change (· - 1) ih

theorem total_withdraw (h : 0 < get counts key) : total (withdraw key counts) + 1 = total counts := by
  induction counts with
  | nil => simp [get] at h
  | cons p counts ih =>
    rw [get_cons] at h
    rw [withdraw]
    by_cases hp : p.1 = key
    · rw [if_pos hp] at h ⊢
      rw [total_cons, total_cons]
      omega
    · rw [if_neg hp] at h ⊢
      rw [total_cons, total_cons]
      have := ih h
      omega

end Counts

theorem tally_cons {options choices : List Text} {key : Text} (h : key ∈ options) :
    tally options (key :: choices) = (tally options choices).cast key := by
  have hkeys : ∀ keys : List Text, keys.Nodup → key ∈ keys →
      countAll keys (key :: choices) = (countAll keys choices).cast key := by
    intro keys hnodup hmem
    induction keys with
    | nil => cases hmem
    | cons first keys ih =>
      obtain ⟨hfirst, hnodup⟩ := nodup_cons.mp hnodup
      rw [countAll, countAll, map_cons, map_cons, Counts.cast]
      by_cases heq : first = key
      · subst heq
        rw [if_pos rfl, count_cons_self]
        refine congrArg _ (map_congr_left fun k hk => ?_)
        rw [count_cons_of_ne fun hk' : first = k => hfirst (hk' ▸ hk)]
      · rw [if_neg heq, count_cons_of_ne (Ne.symm heq)]
        exact congrArg _ (ih hnodup ((mem_cons.mp hmem).resolve_left (Ne.symm heq)))
  exact hkeys _ (Ranking.nodup_eraseDups options) (mem_eraseDups.mpr h)

def VoteResult.level : VoteResult → ℕ
  | .rejected => 0
  | .tie => 1
  | _ => 2

def twoThirdsPasses (yes no : ℕ) : Bool := 0 < yes + no && 2 * (yes + no) ≤ 3 * yes

def twoThirdsRejects (yes no : ℕ) : Bool := 0 < yes + no && 2 * (yes + no) ≤ 3 * no

theorem twoThirds_eq (yes no : ℕ) :
    twoThirds yes no = if twoThirdsPasses yes no then .passed else if twoThirdsRejects yes no then .rejected else .tie := rfl

theorem twoThirds_exclusive (yes no : ℕ) : ¬ (twoThirdsPasses yes no = true ∧ twoThirdsRejects yes no = true) := by
  simp only [twoThirdsPasses, twoThirdsRejects, Bool.and_eq_true, decide_eq_true_eq]
  omega

section Monotone

variable {rule : MajorityRule} {yes no cast yes' no' cast' : ℕ}

theorem level_bySign_mono {margin margin' : ℤ} (h : margin ≤ margin') :
    (bySign margin).level ≤ (bySign margin').level := by
  unfold bySign
  split_ifs <;> first | decide | omega

theorem level_twoThirds_mono (hyes : yes ≤ yes') (hno : no' ≤ no) : (twoThirds yes no).level ≤ (twoThirds yes' no').level := by
  rw [twoThirds_eq, twoThirds_eq]
  simp only [twoThirdsPasses, twoThirdsRejects, Bool.and_eq_true, decide_eq_true_eq]
  split_ifs <;> first | decide | omega

theorem level_majority_mono (hyes : yes ≤ yes') (hno : no' ≤ no) (hcast : 2 * (yes : ℤ) - cast ≤ 2 * (yes' : ℤ) - cast') :
    (majority rule yes no cast).level ≤ (majority rule yes' no' cast').level := by
  cases rule with
  | simple => exact level_bySign_mono (by omega)
  | absolute => exact level_bySign_mono hcast
  | twoThirds => exact level_twoThirds_mono hyes hno

theorem majority_cases (rule : MajorityRule) (yes no cast : ℕ) :
    majority rule yes no cast = .passed ∨ majority rule yes no cast = .rejected ∨ majority rule yes no cast = .tie := by
  have hsign : ∀ margin : ℤ, bySign margin = .passed ∨ bySign margin = .rejected ∨ bySign margin = .tie := by
    intro margin
    unfold bySign
    split_ifs <;> simp
  cases rule with
  | simple => exact hsign _
  | absolute => exact hsign _
  | twoThirds =>
    rw [majority, twoThirds_eq]
    split_ifs <;> simp

/-- A tie goes where the configuration says. -/
def resolveTie (tieBreak : TieBreak) (raw : VoteResult) : VoteResult := if raw = .tie then tieBreak.result else raw

theorem level_resolveTie_mono {tieBreak : TieBreak} {raw raw' : VoteResult}
    (hraw : raw = .passed ∨ raw = .rejected ∨ raw = .tie) (hraw' : raw' = .passed ∨ raw' = .rejected ∨ raw' = .tie)
    (h : raw.level ≤ raw'.level) : (resolveTie tieBreak raw).level ≤ (resolveTie tieBreak raw').level := by
  rcases hraw with rfl | rfl | rfl <;> rcases hraw' with rfl | rfl | rfl <;> cases tieBreak <;> revert h <;> decide

theorem quorumMet_mono {quorum : Option Quorum} {few many eligible : ℕ} (h : few ≤ many)
    (hmet : quorumMet quorum few eligible = true) : quorumMet quorum many eligible = true := by
  have hcast : (few : ℚ) ≤ many := by exact_mod_cast h
  cases quorum with
  | none => rfl
  | some q =>
    unfold quorumMet at hmet ⊢
    cases hq : q.type with
    | count =>
      simp only [hq, decide_eq_true_eq] at hmet ⊢
      exact hmet.trans hcast
    | percent =>
      simp only [hq, Bool.and_eq_true, decide_eq_true_eq] at hmet ⊢
      exact ⟨hmet.1, hmet.2.trans (by linarith)⟩

end Monotone

section Result

variable {config : VoteConfig} {counts counts' : Counts} {eligible : ℕ}

def turnout (config : VoteConfig) (counts : Counts) : ℕ :=
  if config.abstainCountsQuorum then counts.total else counts.total - counts.get abstainKey

theorem result_quorumMet (config : VoteConfig) (counts : Counts) (eligible : ℕ) :
    (result config counts eligible).quorumMet = quorumMet config.quorum (turnout config counts) eligible := rfl

theorem result_met (h : quorumMet config.quorum (turnout config counts) eligible = true) :
    (result config counts eligible).result =
      resolveTie config.tieBreak (majority config.majorityRule (counts.get yesKey) (counts.get noKey) counts.total) := by
  have hmet := h
  unfold turnout at hmet
  simp only [result, hmet, if_true, resolveTie]

theorem result_missed_rejected (h : quorumMet config.quorum (turnout config counts) eligible = false) :
    (result config counts eligible).result = .rejected := by
  unfold turnout at h
  simp [result, h]

theorem level_result_mono (hquorum : quorumMet config.quorum (turnout config counts) eligible = true →
      quorumMet config.quorum (turnout config counts') eligible = true)
    (hyes : counts.get yesKey ≤ counts'.get yesKey) (hno : counts'.get noKey ≤ counts.get noKey)
    (hcast : 2 * (counts.get yesKey : ℤ) - counts.total ≤ 2 * (counts'.get yesKey : ℤ) - counts'.total) :
    (result config counts eligible).result.level ≤ (result config counts' eligible).result.level := by
  cases hmet : quorumMet config.quorum (turnout config counts) eligible with
  | false =>
    rw [result_missed_rejected hmet]
    exact Nat.zero_le _
  | true =>
    rw [result_met hmet, result_met (hquorum hmet)]
    exact level_resolveTie_mono (majority_cases _ _ _ _) (majority_cases _ _ _ _) (level_majority_mono hyes hno hcast)

theorem level_cast_yes (config : VoteConfig) (counts : Counts) (eligible : ℕ) :
    (result config counts eligible).result.level ≤ (result config (counts.cast yesKey) eligible).result.level := by
  have habstain : (counts.cast yesKey).get abstainKey = counts.get abstainKey := by
    rw [Counts.get_cast, if_neg (by decide)]
  refine level_result_mono (quorumMet_mono ?_) ?_ ?_ ?_
  · rw [turnout, turnout, habstain, Counts.total_cast]
    split <;> omega
  · rw [Counts.get_cast, if_pos rfl]
    omega
  · rw [Counts.get_cast, if_neg (by decide)]
  · rw [Counts.get_cast, if_pos rfl, Counts.total_cast]
    push_cast
    omega

theorem level_moved_yes (config : VoteConfig) (eligible : ℕ) {other : Text} (hother : other ≠ yesKey)
    (hpos : 0 < counts.get other) :
    (result config counts eligible).result.level ≤
      (result config ((counts.withdraw other).cast yesKey) eligible).result.level := by
  have htotal : ((counts.withdraw other).cast yesKey).total = counts.total := by
    rw [Counts.total_cast, Counts.total_withdraw hpos]
  have hyes : ((counts.withdraw other).cast yesKey).get yesKey = counts.get yesKey + 1 := by
    rw [Counts.get_cast, if_pos rfl, Counts.get_withdraw, if_neg (Ne.symm hother)]
  have hrest : ∀ key, key ≠ yesKey → ((counts.withdraw other).cast yesKey).get key ≤ counts.get key := by
    intro key hkey
    rw [Counts.get_cast, if_neg hkey, Counts.get_withdraw]
    split <;> omega
  have habstain := hrest abstainKey (by decide)
  refine level_result_mono (quorumMet_mono ?_) ?_ (hrest noKey (by decide)) ?_
  · rw [turnout, turnout, htotal]
    split <;> omega
  · omega
  · rw [hyes, htotal]
    push_cast
    omega

theorem level_cast_no (config : VoteConfig) (eligible : ℕ)
    (h : ¬ ((result config counts eligible).quorumMet = false ∧
      (result config (counts.cast noKey) eligible).quorumMet = true)) :
    (result config (counts.cast noKey) eligible).result.level ≤ (result config counts eligible).result.level := by
  rw [result_quorumMet, result_quorumMet] at h
  refine level_result_mono (fun hmet => ?_) ?_ ?_ ?_
  · by_contra hmissed
    exact h ⟨by simpa using hmissed, hmet⟩
  · rw [Counts.get_cast, if_neg (by decide)]
  · rw [Counts.get_cast, if_pos rfl]
    omega
  · rw [Counts.get_cast, if_neg (by decide), Counts.total_cast]
    push_cast
    omega

/-- A ballot is one vote more in the tally. More yes does not lower the result, more no raises it only where it
meets the quorum; the two-thirds conditions exclude each other, and a missed quorum rejects. -/
theorem result_monotone (config : VoteConfig) (counts : Counts) (eligible : ℕ) :
    (∀ choices, ∀ key ∈ config.options, tally config.options (key :: choices) = (tally config.options choices).cast key) ∧
      (result config counts eligible).result.level ≤ (result config (counts.cast yesKey) eligible).result.level ∧
      (∀ other, other ≠ yesKey → 0 < counts.get other →
        (result config counts eligible).result.level ≤
          (result config ((counts.withdraw other).cast yesKey) eligible).result.level) ∧
      (¬ ((result config counts eligible).quorumMet = false ∧
          (result config (counts.cast noKey) eligible).quorumMet = true) →
        (result config (counts.cast noKey) eligible).result.level ≤ (result config counts eligible).result.level) ∧
      (∀ yes no, ¬ (twoThirdsPasses yes no = true ∧ twoThirdsRejects yes no = true)) ∧
      ((result config counts eligible).quorumMet = false → (result config counts eligible).result = .rejected) := by
  refine ⟨fun _ _ h => tally_cons h, level_cast_yes config counts eligible, ?_, level_cast_no config eligible, twoThirds_exclusive, ?_⟩
  · exact fun other hother hpos => level_moved_yes config eligible hother hpos
  · rw [result_quorumMet]
    exact result_missed_rejected

def quorateMotion : VoteConfig where
  options := [yesKey, noKey, abstainKey]
  majorityRule := .twoThirds
  quorum := some ⟨.percent, 50, by norm_num⟩
  abstainCountsQuorum := false
  secret := true
  tieBreak := .passed
  guestsVote := false
  min_options := motion_options
  unique_options := motion_options_nodup
  guests_no_quorum := fun h => nomatch h

def quorateCounts : Counts := [(yesKey, 3), (noKey, 1), (abstainKey, 1)]

theorem result_monotone_quorate :
    tally quorateMotion.options [yesKey, noKey] = (tally quorateMotion.options [noKey]).cast yesKey ∧
      (result quorateMotion quorateCounts 6).result.level ≤
        (result quorateMotion ((quorateCounts.withdraw abstainKey).cast yesKey) 6).result.level ∧
      (result quorateMotion (quorateCounts.cast noKey) 6).result.level ≤ (result quorateMotion quorateCounts 6).result.level ∧
      (result quorateMotion quorateCounts 9).result = .rejected := by
  have hmet : (result quorateMotion quorateCounts 6).quorumMet = true := by decide +kernel
  have hmissed : (result quorateMotion quorateCounts 9).quorumMet = false := by decide +kernel
  obtain ⟨hcast, -, hmoved, hno, -, -⟩ := result_monotone quorateMotion quorateCounts 6
  obtain ⟨-, -, -, -, -, hrejected⟩ := result_monotone quorateMotion quorateCounts 9
  exact ⟨hcast [noKey] yesKey (by decide), hmoved abstainKey (by decide) (by decide), hno (by simp [hmet]), hrejected hmissed⟩

end Result

end Voting
