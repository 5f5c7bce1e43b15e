import Mathlib.Data.List.Nodup
import StupaWorkflow.StorageKeys

/-!
The erasure of a person from the candidate lists of the elections. A candidacy belongs to the person
if it links the account or one that was merged into it. A round is looked at if it carries such a
candidacy, and the walk to the first round goes through such rounds only.
-/
namespace CandidateErasure
open Py List StorageKeys

section Model

/-- An account: the columns that `_principal_ids` reads. -/
structure Principal where
  id : Uuid
  mergedInto : Option Uuid
  deriving DecidableEq

/-- `_principal_ids`: the erased id and the ids of the accounts merged into it. -/
def principalIds (accounts : List Principal) (principalId : Uuid) : List Text :=
  Uuid.text principalId :: (accounts.filter fun p => p.mergedInto = some principalId).map fun p => Uuid.text p.id

structure Candidate where
  id : Text
  name : Text
  principalId : Option Text
  erased : Bool
  deriving DecidableEq

/-- A round with its configuration: the candidates and the other keys. `elected` is empty without a result. -/
structure Vote where
  id : Uuid
  isElection : Bool
  parentVoteId : Option Uuid
  closed : Bool
  elected : List Text
  candidates : List Candidate
  rest : List (Text × Text)
  deriving DecidableEq

def erasedCandidateName : Text := text "Gelöscht"

variable (principals : List Text)

def Candidate.linked (c : Candidate) : Bool := c.principalId.any principals.contains

def Candidate.unerased (c : Candidate) : Bool := c.linked principals && !c.erased

/-- `_locked_elections` without a parallel runoff. -/
def lockedElections (votes : List Vote) : List Vote := votes.filter fun v => v.isElection && v.candidates.any (·.linked principals)

/-- `_elected_in` for one of the candidacies. -/
def Vote.electedOne (v : Vote) : Bool := v.closed && v.candidates.any fun c => c.linked principals && v.elected.contains c.id

def parentIn (found : List Vote) (v : Vote) : Option Vote := v.parentVoteId.bind fun p => found.find? (·.id = p)

theorem unseen_lt {found : List Vote} {v parent : Vote} {seen : List Uuid} (h : parentIn found v = some parent)
    (hseen : parent.id ∉ seen) : (found.filter (·.id ∉ parent.id :: seen)).length < (found.filter (·.id ∉ seen)).length := by
  obtain ⟨_, _, hfind⟩ := Option.bind_eq_some_iff.mp h
  have hfewer : found.filter (·.id ∉ parent.id :: seen) = (found.filter (·.id ∉ seen)).filter (·.id ≠ parent.id) := by
    rw [filter_filter]
    exact filter_congr fun x _ => by simp
  rw [hfewer, length_filter_lt_length_iff_exists]
  exact ⟨parent, mem_filter.mpr ⟨mem_of_find?_eq_some hfind, by simpa using hseen⟩, by simp⟩

/-- `_walk_up` ends on every parent map: each step sees one more of the found rounds. -/
def walkUp (found : List Vote) (v : Vote) (seen : List Uuid) : Uuid :=
  match h : parentIn found v with
  | none => v.id
  | some parent => if hseen : parent.id ∈ seen then parent.id else walkUp found parent (parent.id :: seen)
termination_by (found.filter (·.id ∉ seen)).length
decreasing_by exact unseen_lt h hseen

def rootOf (found : List Vote) (v : Vote) : Uuid := walkUp found v [v.id]

def Candidate.erase (c : Candidate) : Candidate := { c with name := erasedCandidateName, erased := true }

/-- `_erased_config`. -/
def Vote.eraseNames (v : Vote) : Vote :=
  { v with candidates := v.candidates.map fun c => if c.unerased principals then c.erase else c }

def electedRoots (votes : List Vote) : List Uuid :=
  ((lockedElections principals votes).filter (Vote.electedOne principals)).map (rootOf (lockedElections principals votes))

def changes (votes : List Vote) (v : Vote) : Bool :=
  v.isElection && v.candidates.any (·.unerased principals) &&
    !(electedRoots principals votes).contains (rootOf (lockedElections principals votes) v)

/-- `erase_candidacies` for the account `principalId`. -/
def eraseCandidacies (accounts : List Principal) (principalId : Uuid) (votes : List Vote) : List Vote :=
  let principals := principalIds accounts principalId
  votes.map fun v => if changes principals votes v then v.eraseNames principals else v

end Model

section Roots

variable {found votes : List Vote} {v p q r : Vote} {seen : List Uuid}

/-- `p` is the round that `v` is a runoff of. -/
def Parent (votes : List Vote) (v p : Vote) : Prop := p ∈ votes ∧ v.parentVoteId = some p.id

/-- The first round of the election of `v`. -/
def IsRoot (votes : List Vote) (v r : Vote) : Prop := Relation.ReflTransGen (Parent votes) v r ∧ ∀ p, ¬ Parent votes r p

theorem Parent.unique (hids : (votes.map Vote.id).Nodup) (hp : Parent votes v p) (hq : Parent votes v q) : p = q :=
  inj_on_of_nodup_map hids hp.1 hq.1 (Option.some.inj (hp.2.symm.trans hq.2))

theorem IsRoot.acyclic (hids : (votes.map Vote.id).Nodup) (h : IsRoot votes v r) : ¬ Relation.TransGen (Parent votes) v v := by
  obtain ⟨hpath, hlast⟩ := h
  induction hpath using Relation.ReflTransGen.head_induction_on with
  | refl =>
    intro hcycle
    obtain ⟨p, hp, -⟩ := Relation.TransGen.head'_iff.mp hcycle
    exact hlast p hp
  | head hstep _ ih =>
    intro hcycle
    obtain ⟨q, hq, hback⟩ := Relation.TransGen.head'_iff.mp hcycle
    obtain rfl := hq.unique hids hstep
    exact ih (Relation.TransGen.tail' hback hstep)

theorem walkUp_none (h : parentIn found v = none) : walkUp found v seen = v.id := by
  rw [walkUp]
  split
  · rfl
  · next hsome => rw [h] at hsome; cases hsome

theorem walkUp_some (h : parentIn found v = some p) :
    walkUp found v seen = if p.id ∈ seen then p.id else walkUp found p (p.id :: seen) := by
  rw [walkUp]
  split
  · next hnone => rw [h] at hnone; cases hnone
  · next q hq => rw [Option.some.inj (h.symm.trans hq), dite_eq_ite]

/-- The walk ends at the round or at a found one, also on a cycle. -/
theorem walkUp_ends (found : List Vote) (v : Vote) (seen : List Uuid) :
    walkUp found v seen = v.id ∨ ∃ u ∈ found, walkUp found v seen = u.id := by
  fun_induction walkUp found v seen with
  | case1 v seen hnone => exact .inl rfl
  | case2 v seen parent hparent hseen =>
    obtain ⟨_, _, hfind⟩ := Option.bind_eq_some_iff.mp hparent
    exact .inr ⟨parent, mem_of_find?_eq_some hfind, rfl⟩
  | case3 v seen parent hparent hseen ih =>
    obtain ⟨_, _, hfind⟩ := Option.bind_eq_some_iff.mp hparent
    exact .inr (ih.elim (fun h => ⟨parent, mem_of_find?_eq_some hfind, h⟩) id)

/-- The walk reads the ids and the parents only. -/
theorem walkUp_map {e : Vote → Vote} (hid : ∀ v, (e v).id = v.id) (hup : ∀ v, (e v).parentVoteId = v.parentVoteId)
    (v : Vote) (seen : List Uuid) : walkUp (found.map e) (e v) seen = walkUp found v seen := by
  have hparent (v : Vote) : parentIn (found.map e) (e v) = (parentIn found v).map e := by
    simp only [parentIn, hup, find?_map, Option.map_bind]
    simp only [Function.comp_def, hid]
  fun_induction walkUp found v seen with
  | case1 v seen hnone => rw [walkUp_none (by rw [hparent, hnone]; rfl), hid]
  | case2 v seen parent hsome hseen => rw [walkUp_some (by rw [hparent, hsome]; rfl), hid, if_pos hseen]
  | case3 v seen parent hsome hseen ih => rw [walkUp_some (by rw [hparent, hsome]; rfl), hid, if_neg hseen, ih]

theorem parentIn_iff (hids : (found.map Vote.id).Nodup) : parentIn found v = some p ↔ Parent found v p := by
  constructor
  · intro h
    obtain ⟨id, hid, hfind⟩ := Option.bind_eq_some_iff.mp h
    have hp : p.id = id := by simpa using find?_some hfind
    exact ⟨mem_of_find?_eq_some hfind, hp ▸ hid⟩
  · rintro ⟨hp, hid⟩
    unfold parentIn
    rw [hid, Option.bind_some]
    cases hfind : found.find? (·.id = p.id) with
    | none => simpa using find?_eq_none.mp hfind p hp
    | some q =>
      have hq : q.id = p.id := by simpa using find?_some hfind
      rw [inj_on_of_nodup_map hids (mem_of_find?_eq_some hfind) hp hq]

/-- Where the parents of found rounds are found, the walk ends at the first round. -/
theorem walkUp_root (hids : (votes.map Vote.id).Nodup) (hsub : found.Sublist votes)
    (hcarried : ∀ v ∈ found, ∀ p, Parent votes v p → p ∈ found) (h : IsRoot votes v r) (hv : v ∈ found)
    (hseen : ∀ x, Relation.TransGen (Parent votes) v x → x.id ∉ seen) : walkUp found v seen = r.id := by
  have hfound : (found.map Vote.id).Nodup := hids.sublist (hsub.map _)
  obtain ⟨hpath, hlast⟩ := h
  induction hpath using Relation.ReflTransGen.head_induction_on generalizing seen with
  | refl =>
    refine walkUp_none (Option.eq_none_iff_forall_ne_some.mpr fun p hp => ?_)
    obtain ⟨hmem, hid⟩ := (parentIn_iff hfound).mp hp
    exact hlast p ⟨hsub.subset hmem, hid⟩
  | @head v p hstep hrest ih =>
    have hp := hcarried v hv p hstep
    have hnew := hseen p (.single hstep)
    rw [walkUp_some ((parentIn_iff hfound).mpr ⟨hp, hstep.2⟩), if_neg hnew]
    refine ih hp fun x hx => ?_
    rw [mem_cons, not_or]
    refine ⟨fun hid => ?_, hseen x (.head hstep hx)⟩
    obtain ⟨_, -, hlast'⟩ := Relation.TransGen.tail'_iff.mp hx
    obtain rfl : x = p := inj_on_of_nodup_map hids hlast'.1 hstep.1 hid
    exact IsRoot.acyclic hids ⟨hrest, hlast⟩ hx

theorem IsRoot.mem (h : IsRoot votes v r) (hv : v ∈ votes) : r ∈ votes := by
  obtain ⟨hpath, -⟩ := h
  cases hpath with
  | refl => exact hv
  | tail _ hlast => exact hlast.1

theorem IsRoot.rootOf_eq (hids : (votes.map Vote.id).Nodup) (hsub : found.Sublist votes)
    (hcarried : ∀ v ∈ found, ∀ p, Parent votes v p → p ∈ found) (h : IsRoot votes v r) (hv : v ∈ found) : rootOf found v = r.id := by
  refine walkUp_root hids hsub hcarried h hv fun x hx hid => ?_
  obtain ⟨_, -, hlast⟩ := Relation.TransGen.tail'_iff.mp hx
  obtain rfl : x = v := inj_on_of_nodup_map hids hlast.1 (hsub.subset hv) (mem_singleton.mp hid)
  exact h.acyclic hids hx

/-- A forest keeps a first round for each round when rounds are left out. -/
theorem IsRoot.restrict (hids : (votes.map Vote.id).Nodup) (hsub : found ⊆ votes) (h : IsRoot votes v r) :
    ∃ r', IsRoot found v r' := by
  obtain ⟨hpath, hlast⟩ := h
  induction hpath using Relation.ReflTransGen.head_induction_on with
  | refl => exact ⟨r, .refl, fun p hp => hlast p ⟨hsub hp.1, hp.2⟩⟩
  | @head v p hstep _ ih =>
    by_cases hp : p ∈ found
    · obtain ⟨r', hrest, hlast'⟩ := ih
      exact ⟨r', .head ⟨hp, hstep.2⟩ hrest, hlast'⟩
    · refine ⟨v, .refl, fun q hq => hp ?_⟩
      obtain rfl : q = p := Parent.unique hids ⟨hsub hq.1, hq.2⟩ hstep
      exact hq.1

def SameElection (tree : List Vote) (v w : Vote) : Prop := ∃ r, IsRoot tree v r ∧ IsRoot tree w r

theorem rootOf_eq_iff {w : Vote} (hids : (votes.map Vote.id).Nodup) (hforest : ∀ v ∈ votes, ∃ r, IsRoot votes v r)
    (hv : v ∈ votes) (hw : w ∈ votes) : rootOf votes v = rootOf votes w ↔ SameElection votes v w := by
  have hroot {v r : Vote} (h : IsRoot votes v r) : v ∈ votes → rootOf votes v = r.id :=
    h.rootOf_eq hids (List.Sublist.refl _) fun _ _ _ hp => hp.1
  constructor
  · intro h
    obtain ⟨r, hr⟩ := hforest v hv
    obtain ⟨s, hs⟩ := hforest w hw
    rw [hroot hr hv, hroot hs hw] at h
    obtain rfl := inj_on_of_nodup_map hids (hr.mem hv) (hs.mem hw) h
    exact ⟨r, hr, hs⟩
  · rintro ⟨r, hr, hs⟩
    rw [hroot hr hv, hroot hs hw]

end Roots

section Erasure

variable {principals : List Text} {accounts : List Principal} {k : Uuid} {votes tree : List Vote} {v v' : Vote} {c : Candidate}

/-- The candidacy links the account `k` or an account that was merged into it. -/
def Candidate.Of (accounts : List Principal) (k : Uuid) (c : Candidate) : Prop :=
  ∃ a, c.principalId = some (Uuid.text a) ∧ (a = k ∨ ⟨a, some k⟩ ∈ accounts)

/-- A closed result of the round elected a candidacy of `k`. -/
def Vote.Elected (accounts : List Principal) (k : Uuid) (v : Vote) : Prop :=
  v.closed ∧ ∃ c ∈ v.candidates, c.Of accounts k ∧ c.id ∈ v.elected

/-- The candidacy belongs to `k` and no round of the same election, by the rounds `tree`, elected `k`. -/
def Renames (accounts : List Principal) (k : Uuid) (tree votes : List Vote) (v : Vote) (c : Candidate) : Prop :=
  v.isElection ∧ (c.Of accounts k ∧ c.erased = false) ∧
    ¬ ∃ w ∈ votes, w.isElection ∧ w.Elected accounts k ∧ SameElection tree v w

/-- Exactly the candidacies that the election did not elect are renamed, and the round is the same otherwise. -/
structure Erased (accounts : List Principal) (k : Uuid) (tree votes : List Vote) (v v' : Vote) : Prop where
  others : { v' with candidates := v.candidates } = v
  candidates : List.Forall₂ (fun c c' => (Renames accounts k tree votes v c → c' = c.erase) ∧
    (¬ Renames accounts k tree votes v c → c' = c)) v.candidates v'.candidates

theorem linked_iff : c.linked (principalIds accounts k) ↔ c.Of accounts k := by
  simp only [Candidate.linked, Option.any_eq_true, contains_iff_mem, principalIds, mem_cons, mem_map, mem_filter,
    decide_eq_true_eq, Candidate.Of]
  constructor
  · rintro ⟨s, hs, heq | ⟨p, ⟨hp, hmerged⟩, heq⟩⟩
    · exact ⟨k, heq ▸ hs, .inl rfl⟩
    · exact ⟨p.id, heq ▸ hs, .inr (hmerged ▸ hp)⟩
  · rintro ⟨a, hs, ha | ha⟩
    · exact ⟨_, hs, .inl (ha ▸ rfl)⟩
    · exact ⟨_, hs, .inr ⟨_, ⟨ha, rfl⟩, rfl⟩⟩

theorem unerased_iff : c.unerased (principalIds accounts k) ↔ c.Of accounts k ∧ c.erased = false := by
  rw [Candidate.unerased, Bool.and_eq_true, linked_iff, Bool.not_eq_true']

theorem electedOne_iff : v.electedOne (principalIds accounts k) ↔ v.Elected accounts k := by
  simp only [Vote.electedOne, Vote.Elected, Bool.and_eq_true, any_eq_true, linked_iff, contains_iff_mem]

theorem renames_iff : Renames accounts k tree votes v c ↔ v.isElection ∧ c.unerased (principalIds accounts k) ∧
    ¬ ∃ w ∈ votes, w.isElection ∧ w.electedOne (principalIds accounts k) ∧ SameElection tree v w := by
  simp only [Renames, unerased_iff, electedOne_iff]

theorem mem_lockedElections : v ∈ lockedElections principals votes ↔ v ∈ votes ∧ v.isElection ∧ v.candidates.any (·.linked principals) := by
  simp [lockedElections]

theorem electedOne_linked (h : v.electedOne principals) : v.candidates.any (·.linked principals) := by
  obtain ⟨c, hc, h⟩ := any_eq_true.mp (Bool.and_eq_true_iff.mp h).2
  exact any_eq_true.mpr ⟨c, hc, (Bool.and_eq_true_iff.mp h).1⟩

theorem mem_electedRoots {root : Uuid} : root ∈ electedRoots principals votes ↔
    ∃ w ∈ votes, w.isElection ∧ w.electedOne principals ∧ rootOf (lockedElections principals votes) w = root := by
  simp only [electedRoots, mem_map, mem_filter, mem_lockedElections]
  grind [electedOne_linked]

/-- A round with a candidacy to erase changes when no round of its election elected the principal. -/
theorem changes_iff (hids : (votes.map Vote.id).Nodup) (hforest : ∀ v ∈ votes, ∃ r, IsRoot votes v r) (hv : v ∈ votes) :
    changes (principalIds accounts k) votes v ↔
      ∃ c ∈ v.candidates, Renames accounts k (lockedElections (principalIds accounts k) votes) votes v c := by
  simp only [renames_iff]
  generalize principalIds accounts k = principals
  have hsub : (lockedElections principals votes).Sublist votes := filter_sublist
  have hlocked : ((lockedElections principals votes).map Vote.id).Nodup := hids.sublist (hsub.map _)
  have hforest' : ∀ w ∈ lockedElections principals votes, ∃ r, IsRoot (lockedElections principals votes) w r := by
    intro w hw
    obtain ⟨r, hr⟩ := hforest w (hsub.subset hw)
    exact hr.restrict hids hsub.subset
  have hroots (he : v.isElection) (hany : v.candidates.any (·.unerased principals)) :
      rootOf (lockedElections principals votes) v ∈ electedRoots principals votes ↔
        ∃ w ∈ votes, w.isElection ∧ w.electedOne principals ∧ SameElection (lockedElections principals votes) v w := by
    have hmem (w : Vote) (hw : w ∈ votes) (he : w.isElection) (h : w.candidates.any (·.linked principals)) :
        w ∈ lockedElections principals votes := mem_lockedElections.mpr ⟨hw, he, h⟩
    rw [mem_electedRoots]
    refine exists_congr fun w => and_congr_right fun hw => and_congr_right fun he' => and_congr_right fun h => ?_
    rw [eq_comm]
    refine rootOf_eq_iff hlocked hforest' (hmem v hv he ?_) (hmem w hw he' (electedOne_linked h))
    obtain ⟨c, hc, hun⟩ := any_eq_true.mp hany
    exact any_eq_true.mpr ⟨c, hc, (Bool.and_eq_true_iff.mp hun).1⟩
  simp only [changes, Bool.and_eq_true, Bool.not_eq_true', ← Bool.not_eq_true, contains_iff_mem]
  constructor
  · rintro ⟨⟨he, hany⟩, hnone⟩
    obtain ⟨c, hc, hun⟩ := any_eq_true.mp hany
    exact ⟨c, hc, he, hun, fun h => hnone ((hroots he hany).mpr h)⟩
  · rintro ⟨c, hc, he, hun, hnone⟩
    have hany : v.candidates.any (·.unerased principals) := any_eq_true.mpr ⟨c, hc, hun⟩
    exact ⟨⟨he, hany⟩, fun h => hnone ((hroots he hany).mp h)⟩

theorem eraseCandidacies_erased (hids : (votes.map Vote.id).Nodup) (hforest : ∀ v ∈ votes, ∃ r, IsRoot votes v r) :
    List.Forall₂ (Erased accounts k (lockedElections (principalIds accounts k) votes) votes) votes
      (eraseCandidacies accounts k votes) := by
  unfold eraseCandidacies
  rw [forall₂_map_right_iff, forall₂_same]
  intro v hv
  split
  · next h =>
      refine ⟨rfl, ?_⟩
      obtain ⟨_, _, hren⟩ := (changes_iff hids hforest hv).mp h
      obtain ⟨he, -, hnone⟩ := renames_iff.mp hren
      unfold Vote.eraseNames
      rw [forall₂_map_right_iff, forall₂_same]
      intro c _
      by_cases hun : c.unerased (principalIds accounts k)
      · rw [if_pos hun]
        exact ⟨fun _ => rfl, fun hnot => absurd (renames_iff.mpr ⟨he, hun, hnone⟩) hnot⟩
      · rw [if_neg hun]
        exact ⟨fun hc => absurd (renames_iff.mp hc).2.1 hun, fun _ => rfl⟩
  · next h =>
      refine ⟨rfl, forall₂_same.mpr fun c hc => ⟨fun hren => ?_, fun _ => rfl⟩⟩
      exact absurd ((changes_iff hids hforest hv).mpr ⟨c, hc, hren⟩) h

theorem eraseNames_unerased : (v.eraseNames principals).candidates.any (·.unerased principals) = false := by
  simp only [Vote.eraseNames, any_map, any_eq_false, Function.comp_apply]
  intro c _
  split
  · simp [Candidate.unerased, Candidate.erase]
  · assumption

/-- A round as an erasure of the rounds that `b` names leaves it. -/
def partly (principals : List Text) (b : Vote → Bool) (v : Vote) : Vote := if b v then v.eraseNames principals else v

variable {b : Vote → Bool}

theorem partly_keeps : (partly principals b v).id = v.id ∧ (partly principals b v).parentVoteId = v.parentVoteId ∧
    (partly principals b v).isElection = v.isElection ∧
    (partly principals b v).candidates.any (·.linked principals) = v.candidates.any (·.linked principals) ∧
    (partly principals b v).electedOne principals = v.electedOne principals := by
  unfold partly
  split
  · refine ⟨rfl, rfl, rfl, ?_, ?_⟩ <;> simp only [Vote.electedOne, Vote.eraseNames, any_map, Function.comp_def]
    all_goals congr 2
    all_goals
      funext c
      split <;> rfl
  · exact ⟨rfl, rfl, rfl, rfl, rfl⟩

theorem lockedElections_partly : lockedElections principals (votes.map (partly principals b)) = (lockedElections principals votes).map (partly principals b) := by
  unfold lockedElections
  rw [filter_map]
  refine congrArg (List.map _) (filter_congr fun v _ => ?_)
  obtain ⟨-, -, he, hl, -⟩ := @partly_keeps principals v b
  rw [Function.comp_apply, he, hl]

theorem rootOf_partly : rootOf (lockedElections principals (votes.map (partly principals b))) (partly principals b v) =
    rootOf (lockedElections principals votes) v := by
  unfold rootOf
  rw [lockedElections_partly, walkUp_map (fun _ => partly_keeps.1) (fun _ => partly_keeps.2.1), partly_keeps.1]

theorem electedRoots_partly : electedRoots principals (votes.map (partly principals b)) = electedRoots principals votes := by
  unfold electedRoots
  nth_rewrite 2 [lockedElections_partly]
  rw [filter_map, map_map]
  have hroot : rootOf (lockedElections principals (votes.map (partly principals b))) ∘ partly principals b =
      rootOf (lockedElections principals votes) := funext fun v => rootOf_partly
  have helected : Vote.electedOne principals ∘ partly principals b = Vote.electedOne principals := funext fun v => partly_keeps.2.2.2.2
  rw [hroot, helected]

/-- A second erasure sees the same roots and no candidacy that is left to erase. -/
theorem eraseCandidacies_idem :
    eraseCandidacies accounts k (eraseCandidacies accounts k votes) = eraseCandidacies accounts k votes := by
  unfold eraseCandidacies
  generalize principalIds accounts k = principals
  change (votes.map (partly principals (changes principals votes))).map
    (partly principals (changes principals (votes.map (partly principals (changes principals votes))))) = _
  rw [map_map]
  refine map_congr_left fun v _ => if_neg fun h => ?_
  obtain ⟨⟨he, hany⟩, hroot⟩ := by simpa only [changes, Bool.and_eq_true] using h
  rw [electedRoots_partly, rootOf_partly] at hroot
  by_cases hv : changes principals votes v
  · rw [partly, if_pos hv, eraseNames_unerased] at hany
    cases hany
  · rw [partly, if_neg hv] at he hany
    exact hv (by simp only [changes, he, hany, hroot, Bool.and_self])

theorem erasure_exact (accounts : List Principal) (k : Uuid) (votes : List Vote) (hids : (votes.map Vote.id).Nodup)
    (hforest : ∀ v ∈ votes, ∃ r, IsRoot votes v r) :
    List.Forall₂ (Erased accounts k (lockedElections (principalIds accounts k) votes) votes) votes
      (eraseCandidacies accounts k votes) ∧
    (∀ v, v ∈ lockedElections (principalIds accounts k) votes ↔ v ∈ votes ∧ v.isElection ∧ ∃ c ∈ v.candidates, c.Of accounts k) ∧
    eraseCandidacies accounts k (eraseCandidacies accounts k votes) = eraseCandidacies accounts k votes ∧
    ((∀ v ∈ lockedElections (principalIds accounts k) votes, ∀ p, Parent votes v p →
        p ∈ lockedElections (principalIds accounts k) votes) →
      ∀ v ∈ lockedElections (principalIds accounts k) votes, ∀ r, IsRoot votes v r →
        rootOf (lockedElections (principalIds accounts k) votes) v = r.id) ∧
    (∀ (found : List Vote) (v : Vote) (seen : List Uuid), walkUp found v seen = v.id ∨ ∃ u ∈ found, walkUp found v seen = u.id) :=
  ⟨eraseCandidacies_erased hids hforest, fun _ => by simp only [mem_lockedElections, any_eq_true, linked_iff],
    eraseCandidacies_idem, fun hcarried _ hv _ hr => hr.rootOf_eq hids filter_sublist hcarried hv, walkUp_ends⟩

/-- Account 7 was merged into account 1. -/
def merged : List Principal := [⟨1, none⟩, ⟨7, some 1⟩]

def candidacy : Candidate := ⟨[2], text "Anna", some (Uuid.text 7), false⟩

def first (candidates : List Candidate) : Vote := ⟨1, true, none, true, [], candidates, []⟩

def runoff (id : Uuid) (elected : List Text) : Vote := ⟨id, true, some 1, true, elected, [candidacy], []⟩

theorem isRoot_first {cs : List Candidate} : IsRoot votes (first cs) (first cs) := ⟨.refl, fun p hp => by cases hp.2⟩

theorem isRoot_runoff {cs : List Candidate} {id : Uuid} {elected : List Text} :
    IsRoot (first cs :: votes) (runoff id elected) (first cs) := ⟨.single ⟨mem_cons_self, rfl⟩, isRoot_first.2⟩

theorem Erased.of_single (h : Erased accounts k tree votes v v') (hc : v.candidates = [c]) (hren : Renames accounts k tree votes v c) :
    v' = { v with candidates := [c.erase] } := by
  obtain ⟨hothers, hcandidates⟩ := h
  rw [hc] at hcandidates
  obtain ⟨c', rest, ⟨hnew, -⟩, hrest, heq⟩ := forall₂_cons_left_iff.mp hcandidates
  rw [hnew hren, forall₂_nil_left_iff.mp hrest] at heq
  rw [← hothers, ← heq]

theorem candidacy_merged : candidacy.Of merged 1 := ⟨7, rfl, .inr (by decide)⟩

/-- A lost election: the candidacy of the merged account is erased in both rounds. -/
theorem rounds_exact : eraseCandidacies merged 1 [first [candidacy], runoff 2 []] =
    [first [candidacy.erase], { runoff 2 [] with candidates := [candidacy.erase] }] := by
  have hforest : ∀ v ∈ [first [candidacy], runoff 2 []], ∃ r, IsRoot [first [candidacy], runoff 2 []] v r :=
    forall_mem_cons.mpr ⟨⟨_, isRoot_first⟩, forall_mem_singleton.mpr ⟨_, isRoot_runoff⟩⟩
  have hlost : ∀ w ∈ [first [candidacy], runoff 2 []], w.elected = [] := by decide
  have hren (v : Vote) (he : v.isElection) (tree : List Vote) :
      Renames merged 1 tree [first [candidacy], runoff 2 []] v candidacy := by
    refine ⟨he, ⟨candidacy_merged, rfl⟩, ?_⟩
    rintro ⟨w, hw, -, ⟨-, c, -, -, hc⟩, -⟩
    simp [hlost w hw] at hc
  obtain ⟨hexact, -⟩ := erasure_exact merged 1 [first [candidacy], runoff 2 []] (by decide) hforest
  obtain ⟨v, rest, hv, hrest, heq⟩ := forall₂_cons_left_iff.mp hexact
  obtain ⟨w, _, hw, hnil, rfl⟩ := forall₂_cons_left_iff.mp hrest
  rw [heq, forall₂_nil_left_iff.mp hnil]
  rw [hv.of_single rfl (hren _ rfl _), hw.of_single rfl (hren _ rfl _)]
  rfl

/-- Two runoffs of a round without the candidacy: the loss in the one is erased although the other elected the principal. -/
theorem sibling_renamed : ¬ ∀ (accounts : List Principal) (k : Uuid) (votes : List Vote), (votes.map Vote.id).Nodup →
    (∀ v ∈ votes, ∃ r, IsRoot votes v r) →
    List.Forall₂ (Erased accounts k votes votes) votes (eraseCandidacies accounts k votes) := by
  intro h
  have hall := h merged 1 [first [], runoff 2 [[2]], runoff 3 []] (by decide) (forall_mem_cons.mpr ⟨⟨_, isRoot_first⟩,
    fun v hv => by rcases mem_pair.mp hv with rfl | rfl <;> exact ⟨_, isRoot_runoff⟩⟩)
  have hlocked : lockedElections (principalIds merged 1) [first [], runoff 2 [[2]], runoff 3 []] = [runoff 2 [[2]], runoff 3 []] := by decide
  have helected : [runoff 2 [[2]], runoff 3 []].filter (Vote.electedOne (principalIds merged 1)) = [runoff 2 [[2]]] := by decide
  have hroot (v : Vote) (hv : v.parentVoteId = some 1) : rootOf [runoff 2 [[2]], runoff 3 []] v = v.id :=
    walkUp_none (by rw [parentIn, hv]; decide)
  have hchanges : changes (principalIds merged 1) [first [], runoff 2 [[2]], runoff 3 []] (runoff 3 []) := by
    rw [changes, electedRoots, hlocked, helected, map_singleton, hroot _ rfl, hroot _ rfl]
    decide
  unfold eraseCandidacies at hall
  rw [forall₂_map_right_iff, forall₂_same] at hall
  have hlast := (hall (runoff 3 []) (by decide)).candidates
  rw [if_pos hchanges] at hlast
  obtain ⟨⟨-, hsame⟩, -⟩ := forall₂_cons.mp hlast
  have hkept : ¬ Renames merged 1 [first [], runoff 2 [[2]], runoff 3 []] [first [], runoff 2 [[2]], runoff 3 []] (runoff 3 []) candidacy :=
    fun hren => hren.2.2 ⟨runoff 2 [[2]], by decide, rfl, ⟨rfl, candidacy, mem_cons_self, candidacy_merged, mem_cons_self⟩,
      first [], isRoot_runoff, isRoot_runoff⟩
  exact absurd (hsame hkept) (by decide)

end Erasure

end CandidateErasure
