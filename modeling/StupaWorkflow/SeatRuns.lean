import Mathlib.Data.List.Perm.Subperm
import StupaWorkflow.DelegationRuns

/-!
One seat, one ballot. The voting members of the Gremium are fixed, and every request answers from
them.
-/
namespace Attendance
open Py StorageKeys ReadCommitted List

section Roster

variable (d₀ : Db) (roster : List Uuid)

def members : List Principal := d₀.principals.filter (·.id ∈ roster)

/-- The answers about membership and eligibility in a request come from the roster,
and a vote of the meeting is prepared for its Gremium. -/
def FromRoster : Request → Prop
  | .cast c => (c.mayCast = true → c.sub ∈ (members d₀ roster).map (·.sub)) ∧ ∀ m ∈ c.voters, m ∈ roster
  | .create c => c.eligible = true → ∀ me ∈ d₀.principalOf c.actor, me.id ∈ roster
  | .createByLead c => c.eligible = true → c.delegator ∈ roster
  | .prepareVote _ eligible _ => eligible = some d₀.gremium
  | _ => True

instance decidableFromRoster : (r : Request) → Decidable (FromRoster d₀ roster r)
  | .cast c =>
    -- over the voters, and not over all ids
    haveI : Decidable (∀ m ∈ c.voters, m ∈ roster) := List.decidableBAll _ _
    inferInstanceAs (Decidable ((c.mayCast = true → c.sub ∈ (members d₀ roster).map (·.sub)) ∧ ∀ m ∈ c.voters, m ∈ roster))
  | .create c => inferInstanceAs (Decidable (c.eligible = true → ∀ me ∈ d₀.principalOf c.actor, me.id ∈ roster))
  | .createByLead c => inferInstanceAs (Decidable (c.eligible = true → c.delegator ∈ roster))
  | .prepareVote _ eligible _ => inferInstanceAs (Decidable (eligible = some d₀.gremium))
  | .setSelf _ | .setFor _ | .reset _ | .revoke _ | .patch _ | .openVote _ _ | .closeVote _ | .cancelVote _ => isTrue trivial

abbrev Asked := {r : Request // FromRoster d₀ roster r}

def asked (r : Asked d₀ roster) : P Unit := script r.1

/-- The accounts and the Gremium stay, and the votes are for this Gremium. -/
structure SameMeeting (d : Db) : Prop where
  principals : d.principals = d₀.principals
  gremium : d.gremium = d₀.gremium
  eligible : ∀ v ∈ d.votes, v.eligible = some d₀.gremium

/-- The delegations and the ballots of the meeting belong to the roster. -/
structure Seated (d : Db) : Prop extends SameMeeting d₀ d where
  delegators : ∀ g ∈ d.delegations, g.delegator ∈ roster
  once : d.markers.Nodup
  seats : ∀ m ∈ d.markers, m.2 ∈ (members d₀ roster).map (·.sub)
  ballots : d.ballots.map (·.1) = d.markers.map (·.1)

def AddsBallot (d e : Db) : Request → Prop
  | .cast c =>
    ∃ voter choice, e.markers = d.markers ++ [(c.vote, voter)] ∧ e.ballots = d.ballots ++ [(c.vote, choice)] ∧
      (c.asDelegation = false → voter = c.sub)
  | _ => e.markers = d.markers ∧ e.ballots = d.ballots

def seating : Contract (Asked d₀ roster) Db Key where
  inv := Seated d₀ roster
  rely held d e := ∀ v sub, .vote v ∈ held → (v, sub) ∈ e.markers → (v, sub) ∈ d.markers
  guar r held d e := (∀ v sub, .vote v ∉ held → (v, sub) ∈ e.markers → (v, sub) ∈ d.markers) ∧ AddsBallot d e r.1
  refl _ _ _ _ _ h := h
  trans h h' v sub hheld hmem := h v sub hheld (h' v sub hheld hmem)
  compat _ hguar hfree v sub hheld := hguar.1 v sub (apart_row hfree (by simp [Key.conflict]) hheld)

end Roster

section Seats

variable {d₀ : Db} {roster : List Uuid} {d e : Db} {r : Asked d₀ roster} {held : List Key} {l : Loc Db Key}
variable {vote : Vote}

/-- A write that keeps the rows seated and touches no ballot. -/
def Quiet (d₀ : Db) (roster : List Uuid) (w : Db → Db) : Prop :=
  ∀ d, Seated d₀ roster d → Seated d₀ roster (w d) ∧ (w d).markers = d.markers ∧ (w d).ballots = d.ballots

theorem Quiet.id : Quiet d₀ roster id := fun _ h => ⟨h, rfl, rfl⟩

theorem Quiet.comp {w u : Db → Db} (hw : Quiet d₀ roster w) (hu : Quiet d₀ roster u) : Quiet d₀ roster (w ∘ u) := by
  intro d h
  obtain ⟨hseated, hmarkers, hballots⟩ := hu d h
  obtain ⟨hseated', hmarkers', hballots'⟩ := hw (u d) hseated
  exact ⟨hseated', hmarkers'.trans hmarkers, hballots'.trans hballots⟩

theorem Seated.votes (h : Seated d₀ roster d) (hprincipals : e.principals = d.principals) (hgremium : e.gremium = d.gremium)
    (helig : ∀ v ∈ e.votes, v.eligible = some d₀.gremium) (hdelegations : ∀ g ∈ e.delegations, g.delegator ∈ roster)
    (hmarkers : e.markers = d.markers) (hballots : e.ballots = d.ballots) : Seated d₀ roster e where
  principals := hprincipals.trans h.principals
  gremium := hgremium.trans h.gremium
  eligible := helig
  delegators := hdelegations
  once := hmarkers ▸ h.once
  seats := hmarkers ▸ h.seats
  ballots := by rw [hmarkers, hballots, h.ballots]

theorem quiet_harmless : Harmless (Quiet d₀ roster) where
  putRecord _ _ h := ⟨h.votes rfl rfl h.eligible h.delegators rfl rfl, rfl, rfl⟩
  dropRecord _ _ h := ⟨h.votes rfl rfl h.eligible h.delegators rfl rfl, rfl, rfl⟩
  dropDelegation _ _ h :=
    ⟨h.votes rfl rfl h.eligible (fun g hg => h.delegators g (mem_of_mem_filter hg)) rfl rfl, rfl, rfl⟩
  setStatus _ _ h := ⟨h.votes rfl rfl h.eligible h.delegators rfl rfl, rfl, rfl⟩
  setVote id s d h := by
    refine ⟨h.votes rfl rfl (fun v hv => ?_) h.delegators rfl rfl, rfl, rfl⟩
    obtain ⟨old, hold, rfl⟩ := mem_map.mp hv
    split
    · exact h.eligible old hold
    · exact h.eligible old hold

theorem quiet_insertVote (v : Uuid) (closesAt : Option Time) :
    Quiet d₀ roster (Db.insertVote ⟨v, .draft, some d₀.gremium, closesAt⟩) := by
  intro d h
  refine ⟨h.votes rfl rfl (fun w hw => ?_) h.delegators rfl rfl, rfl, rfl⟩
  rcases mem_append.mp hw with hold | hnew
  · exact h.eligible w hold
  · rw [mem_singleton.mp hnew]

theorem quiet_insertDelegation {g : Delegation} (hseat : g.delegator ∈ roster) : Quiet d₀ roster (Db.insertDelegation g) := by
  intro d h
  refine ⟨h.votes rfl rfl h.eligible (fun x hx => ?_) rfl rfl, rfl, rfl⟩
  rcases mem_append.mp hx with hold | hnew
  · exact h.delegators x hold
  · rwa [mem_singleton.mp hnew]

theorem keeps_of_quiet (hr : ∀ c, r.1 ≠ .cast c) {p : P Unit}
    (hp : p.Writes (Seated d₀ roster) (Quiet d₀ roster) (fun _ => True) fun _ => True) : Keeps (seating d₀ roster) r p := by
  intro d _
  refine wp_mono (fun _ _ _ _ => trivial) (wp_of_writes (S := Quiet d₀ roster) (A := fun _ _ => True)
    Quiet.comp (fun hw _ hinv => (hw _ hinv).1)
    (fun _ _ _ => trivial) (fun _ => trivial) ?_ hp Quiet.id trivial)
  intro _ w held d _ hw _ hinv
  obtain ⟨hseated, hmarkers, hballots⟩ := hw d hinv
  refine ⟨hseated, fun _ _ _ hmem => hmarkers ▸ hmem, ?_⟩
  unfold AddsBallot
  split
  next c hc => exact absurd hc (hr c)
  next => exact ⟨hmarkers, hballots⟩

theorem SameMeeting.principalOf (h : SameMeeting d₀ d) (sub : Text) : d.principalOf sub = d₀.principalOf sub := by
  rw [Db.principalOf, h.principals]
  rfl

theorem carried_seated (h : Seated d₀ roster d) {sub carried : Text}
    (hcarried : (votingDelegationCheck d vote sub).2 = some carried) : carried ∈ (members d₀ roster).map (·.sub) := by
  unfold votingDelegationCheck at hcarried
  split at hcarried
  · cases hcarried
  · obtain ⟨g, hg, hcarried⟩ := Option.bind_eq_some_iff.mp hcarried
    obtain ⟨p, hp, rfl⟩ := Option.map_eq_some_iff.mp hcarried
    obtain ⟨hmem, hid⟩ := Table.of_find hp
    refine mem_map_of_mem (mem_filter.mpr ⟨h.principals ▸ hmem, ?_⟩)
    rw [decide_eq_true_eq, hid]
    exact h.delegators g (mem_of_find?_eq_some hg)

theorem findSeat_seated (h : Seated d₀ roster d) {c : Cast} (hvoters : ∀ m ∈ c.voters, m ∈ roster) {deputy member : Principal}
    (hseat : findSeat d c vote = some (deputy, member)) : member ∈ members d₀ roster := by
  unfold findSeat at hseat
  split at hseat <;> try cases hseat
  obtain ⟨p, -, hseat⟩ := Option.bind_eq_some_iff.mp hseat
  split at hseat <;> try cases hseat
  split at hseat <;> try cases hseat
  obtain ⟨first, hfirst, hpair⟩ := Option.map_eq_some_iff.mp hseat
  obtain ⟨rfl, rfl⟩ := Prod.mk.inj hpair
  have hmem := mem_of_mem_head? hfirst
  rw [mem_mergeSort, mem_filter] at hmem
  have hpool := (mem_filter.mp (contains_iff_mem.mp hmem.2)).1
  refine mem_filter.mpr ⟨h.principals ▸ hmem.1, decide_eq_true ?_⟩
  split at hpool
  · exact hvoters _ hpool
  · exact hvoters _ (contains_iff_mem.mp (mem_filter.mp hpool).2)

theorem create_seated (c : Create) (hr : FromRoster d₀ roster (.create c)) :
    Keeps (seating d₀ roster) ⟨.create c, hr⟩ (create c) := by
  refine keeps_of_quiet (by simp) ?_
  simp only [create, writes_do, writes_query, writes_require, writes_ofOption]
  intro d hd _ _ me hme delegate _ _ heligible _ _
  rw [hd.toSameMeeting.principalOf] at hme
  exact insertDelegation_writes trivial (quiet_insertDelegation (hr heligible me hme))

theorem createByLead_seated (c : CreateByLead) (hr : FromRoster d₀ roster (.createByLead c)) :
    Keeps (seating d₀ roster) ⟨.createByLead c, hr⟩ (createByLead c) := by
  refine keeps_of_quiet (by simp) ?_
  simp only [createByLead, writes_do, writes_query, writes_lockRow, writes_require, writes_ofOption]
  intro _ d _ _ _ delegator hdelegator delegate _ _ _ heligible e _ _ _
  have hid : delegator.id = c.delegator := (Table.of_find hdelegator).2
  exact insertDelegation_writes trivial (quiet_insertDelegation (hid ▸ hr heligible))

theorem representedVoter_writes {c : Cast} (hr : FromRoster d₀ roster (.cast c)) {carried : Option Text}
    (hcarried : ∀ sub, carried = some sub → sub ∈ (members d₀ roster).map (·.sub)) :
    (representedVoter c vote carried).Writes (Seated d₀ roster) (Quiet d₀ roster)
      (fun voter => voter ∈ (members d₀ roster).map (·.sub)) fun _ => False := by
  cases carried with
  | some sub => exact hcarried sub rfl
  | none =>
    rw [representedVoter, writes_do, claimPoolSeat, writes_do, writes_lockRow]
    intro d hd
    split
    · simp only [writes_return, writes_ofOption]
      exact fun voter h => by cases h
    next deputy member hseat =>
      have hmember := findSeat_seated hd hr.2 hseat
      have hid : member.id ∈ roster := of_decide_eq_true (mem_filter.mp hmember).2
      simp only [writes_do, writes_update, writes_return, writes_ofOption]
      refine ⟨quiet_insertDelegation hid, fun voter h => ?_⟩
      cases h
      exact mem_map_of_mem hmember

theorem castSecret_seated {c : Cast} {hr : FromRoster d₀ roster (.cast c)} {voter : Text}
    (hvoter : voter ∈ (members d₀ roster).map (·.sub)) (hown : c.asDelegation = false → voter = c.sub)
    (hquiet : Quiet d₀ roster l.pend) (hlock : .vote c.vote ∈ l.held) (choice : Text) :
    wp (seating d₀ roster) ⟨.cast c, hr⟩ (castSecret c.vote voter choice) (fun _ _ _ => True) l d := by
  rw [castSecret, wp_do, wp_query]
  intro e _ hinv
  rw [wp_do, wp_require]
  intro hunvoted
  have hunvoted : (c.vote, voter) ∉ e.markers := by
    rw [← (hquiet e hinv).2.1]
    simpa using hunvoted
  have hballot : MayCommit (seating d₀ roster) ⟨.cast c, hr⟩
      ⟨fun x => (l.pend x).insertBallot c.vote voter choice, l.held⟩ e := by
    intro f hrely hinv'
    obtain ⟨hseated, hmarkers, hballots⟩ := hquiet f hinv'
    have hnew : (c.vote, voter) ∉ f.markers := fun hmem => hunvoted (hrely c.vote voter hlock hmem)
    refine ⟨?_, fun v sub hfree hmem => ?_, voter, choice, ?_, ?_, hown⟩
    · refine ⟨⟨hseated.principals, hseated.gremium, hseated.eligible⟩, hseated.delegators, ?_, fun m hm => ?_, ?_⟩
      · show ((l.pend f).markers ++ [(c.vote, voter)]).Nodup
        rw [hmarkers, ← concat_eq_append]
        exact (Seated.once hinv').concat hnew
      · rcases mem_append.mp hm with hold | hlast
        · exact hseated.seats m hold
        · rw [mem_singleton.mp hlast]
          exact hvoter
      · show ((l.pend f).ballots ++ [(c.vote, choice)]).map (·.1) = ((l.pend f).markers ++ [(c.vote, voter)]).map (·.1)
        rw [map_append, map_append, hseated.ballots]
        rfl
    · rcases mem_append.mp hmem with hold | hlast
      · exact hmarkers ▸ hold
      · obtain ⟨rfl, rfl⟩ := Prod.mk.inj (mem_singleton.mp hlast)
        exact absurd hlock hfree
    · exact congrArg (· ++ [(c.vote, voter)]) hmarkers
    · exact congrArg (· ++ [(c.vote, choice)]) hballots
  exact hballot.publish

theorem wp_underLock {α : Type} {p : P α} {Q : α → Prop} {v : Uuid} (hquiet : Quiet d₀ roster l.pend) (hlock : .vote v ∈ l.held)
    (hp : p.Writes (Seated d₀ roster) (Quiet d₀ roster) Q fun _ => False) :
    wp (seating d₀ roster) r p (fun a l _ => Q a ∧ Quiet d₀ roster l.pend ∧ .vote v ∈ l.held) l d := by
  refine wp_mono (fun a l d h => h.resolve_right id) (wp_of_writes (S := Quiet d₀ roster) (A := fun held _ => .vote v ∈ held)
    Quiet.comp (fun hw _ hinv => (hw _ hinv).1) (fun hheld _ _ => hheld) (fun hheld => mem_cons_of_mem _ hheld)
    (fun hR => hR.elim) hp hquiet hlock)

theorem cast_seated (c : Cast) (hr : FromRoster d₀ roster (.cast c)) :
    Keeps (seating d₀ roster) ⟨.cast c, hr⟩ (cast c) := by
  intro d _
  rw [cast, wp_do, lockVote, wp_do, wp_lockRow]
  intro e _ _
  cases hvote : e.vote c.vote with
  | none => simp [Loc.fresh, hvote]
  | some vote =>
    simp only [Loc.fresh, id_eq, hvote, Option.map_some, wp_ofOption, Option.some.injEq, forall_eq', wp_do, wp_require,
      wp_query]
    intro _ _ _ e₁ hrely hinv
    cases hown : c.asDelegation with
    | true =>
      simp only [if_true, Bool.not_true, Bool.false_eq_true, if_false, wp_do, wp_ofExcept]
      refine wp_mono (fun voter l d h => ?_) (wp_underLock Quiet.id mem_cons_self
        (representedVoter_writes hr fun sub hsub => carried_seated hinv hsub))
      obtain ⟨hvoter, hquiet, hlock⟩ := h
      exact fun choice _ => castSecret_seated hvoter (fun h => by rw [hown] at h; cases h) hquiet hlock choice
    | false =>
      simp only [Bool.false_eq_true, if_false, Bool.not_false, if_true, ownVoter, wp_do, wp_require, wp_return, wp_ofExcept]
      intro _ hmay choice _
      refine wp_mono (fun _ l d h => ?_) (wp_underLock Quiet.id mem_cons_self
        (takePart_writes (Q := fun _ => True) quiet_harmless.toRowWrites trivial))
      obtain ⟨-, hquiet, hlock⟩ := h
      exact castSecret_seated (hr.1 hmay) (fun _ => rfl) hquiet hlock choice

theorem asked_seated (r : Asked d₀ roster) : Keeps (seating d₀ roster) r (asked d₀ roster r) := by
  obtain ⟨r, hr⟩ := r
  cases r with
  | setSelf s => exact keeps_of_quiet (by simp) (setSelf_writes quiet_harmless.toRowWrites trivial s)
  | setFor s => exact keeps_of_quiet (by simp) (setFor_writes quiet_harmless.toRowWrites trivial s)
  | reset s => exact keeps_of_quiet (by simp) (reset_writes quiet_harmless.toRowWrites trivial s)
  | cast c => exact cast_seated c hr
  | create c => exact create_seated c hr
  | createByLead c => exact createByLead_seated c hr
  | revoke v => exact keeps_of_quiet (by simp) (revoke_writes quiet_harmless.toRowWrites trivial v)
  | patch p => exact keeps_of_quiet (by simp) (patch_writes quiet_harmless trivial p)
  | prepareVote v eligible closesAt =>
    obtain rfl : eligible = some d₀.gremium := hr
    exact keeps_of_quiet (by simp) (prepareVote_writes trivial (quiet_insertVote v closesAt))
  | openVote v refused => exact keeps_of_quiet (by simp) (openVote_writes quiet_harmless trivial v refused)
  | closeVote v => exact keeps_of_quiet (by simp) (endVote_writes quiet_harmless trivial v .closed (text "close"))
  | cancelVote v => exact keeps_of_quiet (by simp) (endVote_writes quiet_harmless trivial v .cancelled (text "cancel"))

/-- The ballots of a vote are at most as many as the voting members. -/
theorem Seated.ballots_le (h : Seated d₀ roster d) (v : Uuid) :
    (d.ballots.filter (·.1 = v)).length ≤ (members d₀ roster).length := by
  have hpaired : (d.ballots.filter (·.1 = v)).length = (d.markers.filter (·.1 = v)).length := by
    have := congrArg (fun l => (l.filter (· = v)).length) h.ballots
    simpa only [filter_map, length_map, Function.comp_def] using this
  have honce : ((d.markers.filter (·.1 = v)).map (·.2)).Nodup := by
    refine List.Nodup.map_on ?_ (h.once.filter _)
    intro a ha b hb hsub
    have hva := of_decide_eq_true (mem_filter.mp ha).2
    have hvb := of_decide_eq_true (mem_filter.mp hb).2
    exact Prod.ext (hva.trans hvb.symm) hsub
  have hsub : (d.markers.filter (·.1 = v)).map (·.2) ⊆ (members d₀ roster).map (·.sub) := by
    intro sub hmem
    obtain ⟨m, hm, rfl⟩ := mem_map.mp hmem
    exact h.seats m (mem_of_mem_filter hm)
  have := (subperm_of_subset honce hsub).length_le
  rw [length_map, length_map] at this
  omega

end Seats

section GivenAway

variable {d₀ : Db} {roster : List Uuid} {p : Uuid} {d e : Db} {held : List Key}

def GivesVote (d : Db) (p : Uuid) (g : Delegation) : Prop :=
  g.delegator = p ∧ g.delegateVoting = true ∧ d.poolSeat g = false

def OwnBallot (d : Db) (p : Uuid) : Request → Prop
  | .cast c => c.asDelegation = false ∧ (d.principalOf c.sub).map (·.id) = some p
  | _ => False

instance (d : Db) (p : Uuid) (g : Delegation) : Decidable (GivesVote d p g) := inferInstanceAs (Decidable (_ ∧ _ ∧ _))

instance decidableOwnBallot (d : Db) (p : Uuid) : (r : Request) → Decidable (OwnBallot d p r)
  | .cast c => inferInstanceAs (Decidable (c.asDelegation = false ∧ (d.principalOf c.sub).map (·.id) = some p))
  | .create _ | .createByLead _ | .prepareVote _ _ _ | .setSelf _ | .setFor _ | .reset _ | .revoke _ | .patch _
  | .openVote _ _ | .closeVote _ | .cancelVote _ => isFalse id

def Uncrossed (s : Sys (Asked d₀ roster) Db Key Problem) (ev : Event (Asked d₀ roster)) : Prop :=
  ∀ q ∈ commitOf s ev, ∀ g ∈ q.2.delegations, g ∉ s.db.delegations → GivesVote s.db g.delegator g →
    ∀ t ∈ s.live, OwnBallot s.db g.delegator t.req.1 → t.loc.held = []

instance (s : Sys (Asked d₀ roster) Db Key Problem) (ev : Event (Asked d₀ roster)) : Decidable (Uncrossed s ev) :=
  inferInstanceAs (Decidable (∀ q ∈ commitOf s ev, _))

/-- Once a row is locked, no new row gives the vote of the member away. -/
def keepsVote (d₀ : Db) (roster : List Uuid) (p : Uuid) : Contract (Asked d₀ roster) Db Key where
  inv := SameMeeting d₀
  rely held d e := held ≠ [] → ∀ g ∈ e.delegations, GivesVote d₀ p g → g ∈ d.delegations
  guar _ _ d e := (∀ g ∈ d.delegations, ¬ GivesVote d₀ p g) ∧ e.delegations ⊆ d.delegations
  refl _ _ _ _ hg _ := hg
  trans h h' hheld g hg hgives := h hheld g (h' hheld g hg hgives) hgives
  compat _ hguar _ _ _ hg _ := hguar.2 hg

theorem givesVote_congr (h : e.principals = d.principals) (g : Delegation) : GivesVote e p g ↔ GivesVote d p g := by
  rw [GivesVote, GivesVote, poolSeat_congr h]

theorem ownBallot_congr (h : SameMeeting d₀ d) (r : Request) : OwnBallot d p r ↔ OwnBallot d₀ p r := by
  cases r with
  | cast c => rw [OwnBallot, OwnBallot, h.principalOf]
  | _ => rfl

theorem unblocked (h : SameMeeting d₀ d) {vote : Vote} (hvote : vote.eligible = some d₀.gremium) {sub : Text}
    (hp : (d₀.principalOf sub).map (·.id) = some p) (hblocked : (votingDelegationCheck d vote sub).1 = false) :
    ∀ g ∈ d.delegations, ¬ GivesVote d₀ p g := by
  rintro g hg ⟨hdelegator, hvoting, hseat⟩
  rw [votingDelegationCheck, if_neg (by simp [hvote, h.gremium]), h.principalOf, hp] at hblocked
  have := any_eq_false.mp hblocked g hg
  rw [poolSeat_congr h.principals] at this
  simp [hdelegator, hvoting, hseat] at this

/-- A write of an own ballot: no delegation is added. -/
def Retains (d₀ : Db) (w : Db → Db) : Prop :=
  ∀ d, SameMeeting d₀ d → SameMeeting d₀ (w d) ∧ (w d).delegations ⊆ d.delegations

theorem Retains.comp {w u : Db → Db} (hw : Retains d₀ w) (hu : Retains d₀ u) : Retains d₀ (w ∘ u) := by
  intro d h
  obtain ⟨hsame, hsub⟩ := hu d h
  obtain ⟨hsame', hsub'⟩ := hw (u d) hsame
  exact ⟨hsame', List.Subset.trans hsub' hsub⟩

theorem retains_harmless : Harmless (Retains d₀) where
  putRecord _ _ h := ⟨⟨h.principals, h.gremium, h.eligible⟩, List.Subset.refl _⟩
  dropRecord _ _ h := ⟨⟨h.principals, h.gremium, h.eligible⟩, List.Subset.refl _⟩
  dropDelegation _ _ h := ⟨⟨h.principals, h.gremium, h.eligible⟩, filter_subset_self _⟩
  setStatus _ _ h := ⟨⟨h.principals, h.gremium, h.eligible⟩, List.Subset.refl _⟩
  setVote id s d h := by
    refine ⟨⟨h.principals, h.gremium, fun v hv => ?_⟩, List.Subset.refl _⟩
    obtain ⟨old, hold, rfl⟩ := mem_map.mp hv
    split
    · exact h.eligible old hold
    · exact h.eligible old hold

theorem wp_unblocked {α : Type} {r : Asked d₀ roster} {q : P α} {Q R : α → Prop} {l : Loc Db Key}
    (hq : q.Writes (fun _ => True) (Retains d₀) Q R) (hl : Retains d₀ l.pend) (hheld : l.held ≠ [])
    (hgone : ∀ g ∈ d.delegations, ¬ GivesVote d₀ p g) :
    wp (keepsVote d₀ roster p) r q (fun a l d =>
      Q a ∧ Retains d₀ l.pend ∧ l.held ≠ [] ∧ (∀ g ∈ d.delegations, ¬ GivesVote d₀ p g) ∨ R a) l d := by
  refine wp_of_writes (S := Retains d₀) (A := fun held d => held ≠ [] ∧ ∀ g ∈ d.delegations, ¬ GivesVote d₀ p g)
    Retains.comp (fun _ _ _ => trivial) ?_ (fun h => ⟨cons_ne_nil _ _, h.2⟩) ?_ hq hl ⟨hheld, hgone⟩
  · rintro held d e ⟨hheld, hgone⟩ hrely _
    exact ⟨hheld, fun g hg hgives => hgone g (hrely hheld g hg hgives) hgives⟩
  · rintro _ w held d _ hw ⟨-, hgone⟩ hinv
    obtain ⟨hsame, hsub⟩ := hw d hinv
    exact ⟨hsame, hgone, hsub⟩

theorem ownBallot_keepsVote (r : Asked d₀ roster) (hr : OwnBallot d₀ p r.1) :
    Keeps (keepsVote d₀ roster p) r (asked d₀ roster r) := by
  obtain ⟨r, hanswers⟩ := r
  cases r with
  | cast c =>
    obtain ⟨hown, hp⟩ := hr
    intro d _
    rw [asked, script, cast, wp_do, lockVote, wp_do, wp_lockRow]
    intro e _ hinv
    cases hvote : e.vote c.vote with
    | none => simp [Loc.fresh, hvote]
    | some vote =>
      have heligible := hinv.eligible vote (Table.of_find hvote).1
      simp only [Loc.fresh, id_eq, hvote, Option.map_some, wp_ofOption, Option.some.injEq, forall_eq', wp_do, wp_require,
        wp_query, hown, Bool.false_eq_true, if_false, Bool.not_false, if_true, ownVoter, wp_return, wp_ofExcept]
      intro _ _ _ e₁ _ hinv₁ hblocked _ choice _
      have hgone := unblocked hinv₁ heligible hp (by simpa using hblocked)
      have hstart : Retains d₀ id := fun _ h => ⟨h, List.Subset.refl _⟩
      refine wp_mono (fun _ l d h => ?_) (wp_unblocked (Q := fun _ => True) (R := fun _ => False)
        (takePart_writes retains_harmless.toRowWrites trivial) hstart (cons_ne_nil _ _) hgone)
      obtain ⟨-, hretains, hheld, hgone⟩ := h.resolve_right id
      refine wp_mono (fun _ _ _ _ => trivial) (wp_unblocked (Q := fun _ => True) (R := fun _ => True) ?_ hretains hheld hgone)
      simp only [castSecret, writes_do, writes_query, writes_require, writes_update, writes_publish, and_true]
      exact fun _ _ _ x h => ⟨⟨h.principals, h.gremium, h.eligible⟩, List.Subset.refl _⟩
  | _ => cases hr

theorem uncrossed_respects {s : Sys (Asked d₀ roster) Db Key Problem} {ev : Event (Asked d₀ roster)}
    (hs : Sound (seating d₀ roster) s) (h : Uncrossed s ev) :
    Respects (keepsVote d₀ roster p) (fun r => OwnBallot d₀ p r.1) s ev := by
  rintro ⟨r, e⟩ hq
  have hinv : Seated d₀ roster e := (hs.of_commitOf hq).1
  refine ⟨hinv.toSameMeeting, fun j t hj hW => .inl fun hheld g hg hgives => ?_⟩
  by_contra hnew
  have hprincipals : s.db.principals = d₀.principals := hs.inv.principals
  have hdelegator : g.delegator = p := hgives.1
  refine hheld (h _ hq g hg hnew ?_ t (mem_of_getElem? hj) ?_)
  · rw [givesVote_congr hprincipals, hdelegator]
    exact hgives
  · have hsame : SameMeeting d₀ s.db := Seated.toSameMeeting hs.inv
    rw [hdelegator, ownBallot_congr hsame]
    exact hW

/-- In every run each seat has at most one ballot in a vote, a cast adds the ballot of one seat,
and the ballots never outnumber the voting members. In an uncrossed run no own ballot commits
while its voter has given the vote away. -/
theorem one_seat_one_ballot (hd : Seated d₀ roster d₀) {es : List (Event (Asked d₀ roster))}
    {s : Sys (Asked d₀ roster) Db Key Problem} (hrun : run (asked d₀ roster) ⟨d₀, []⟩ es = some s) :
    (∀ v, ∀ m ∈ members d₀ roster, s.db.markers.count (v, m.sub) ≤ 1) ∧
    (∀ c ∈ commits (asked d₀ roster) ⟨d₀, []⟩ es, AddsBallot c.before c.after c.req.1) ∧
    (∀ v, (s.db.ballots.filter (·.1 = v)).length ≤ (members d₀ roster).length) ∧
    (Along Uncrossed (asked d₀ roster) ⟨d₀, []⟩ es →
      ∀ c ∈ commits (asked d₀ roster) ⟨d₀, []⟩ es, ∀ p, OwnBallot d₀ p c.req.1 →
        ∀ g ∈ c.before.delegations, ¬ GivesVote c.before p g) := by
  have hstart : Sound (seating d₀ roster) (⟨d₀, []⟩ : Sys (Asked d₀ roster) Db Key Problem) := sound_start hd
  have hseated : Seated d₀ roster s.db := (run_sound asked_seated hd ⟨es, hrun⟩).inv
  have hguar := commits_guar asked_seated hstart es
  refine ⟨fun v m _ => nodup_iff_count_le_one.mp hseated.once _, fun c hc => ?_, hseated.ballots_le, ?_⟩
  · obtain ⟨-, held, -, hadds⟩ := hguar c hc
    exact hadds
  · intro huncrossed c hc p hp g hg hgives
    have hrespects := huncrossed.imp asked_seated (fun hs h => uncrossed_respects (p := p) hs h) hstart
    have hwatched : Watched (keepsVote d₀ roster p) (fun r => OwnBallot d₀ p r.1)
        (⟨d₀, []⟩ : Sys (Asked d₀ roster) Db Key Problem) := ⟨hd.toSameMeeting, fun i t hi => by simp at hi⟩
    obtain ⟨held, hgone, -⟩ := watched_commits ownBallot_keepsVote hwatched hrespects c hc hp
    have hbefore : Seated d₀ roster c.before := (hguar c hc).1
    exact hgone g hg ((givesVote_congr hbefore.principals g).mp hgives)

def asking (d₀ : Db) (roster : List Uuid) (es : List (Event Request)) : List (Event (Asked d₀ roster)) :=
  es.filterMap fun
    | .start r => if h : FromRoster d₀ roster r then some (.start ⟨r, h⟩) else none
    | .step i => some (.step i)
    | .abort i => some (.abort i)

def cleoVotes : Request := .cast ⟨7, text "cleo", false, true, false, .ok (text "no"), true, [], false, [], 22, 0⟩

def benVotes : Request := .cast ⟨7, text "ben", true, true, true, .ok (text "yes"), false, [], false, [], 23, 0⟩

def substituted : List (Event Request) :=
  alone startMeeting 0 3 ++ alone (.openVote 7 none) 1 4 ++ alone (leadEnters 2) 2 5 ++ alone annaVotes 3 12 ++
    alone cleoVotes 4 5 ++ alone benVotes 5 3

theorem plannedMeeting_seated : Seated plannedMeeting [1, 2] plannedMeeting where
  principals := rfl
  gremium := rfl
  eligible v hv := by
    rw [mem_singleton.mp hv]
    rfl
  delegators _ hg := absurd hg not_mem_nil
  once := nodup_nil
  seats _ hm := absurd hm not_mem_nil
  ballots := rfl

theorem substituted_oneBallot :
    ∃ s, run (asked plannedMeeting [1, 2]) ⟨plannedMeeting, []⟩ (asking plannedMeeting [1, 2] substituted) = some s ∧
      s.db.markers = [(7, text "anna"), (7, text "ben")] ∧ (s.db.ballots.filter (·.1 = 7)).length ≤ 2 ∧
      ∀ c ∈ commits (asked plannedMeeting [1, 2]) ⟨plannedMeeting, []⟩ (asking plannedMeeting [1, 2] substituted),
        OwnBallot plannedMeeting 2 c.req.1 → ∀ g ∈ c.before.delegations, ¬ GivesVote c.before 2 g := by
  have huncrossed : Along Uncrossed (asked plannedMeeting [1, 2]) ⟨plannedMeeting, []⟩
      (asking plannedMeeting [1, 2] substituted) := by decide +kernel
  have hrun : (run (asked plannedMeeting [1, 2]) ⟨plannedMeeting, []⟩ (asking plannedMeeting [1, 2] substituted)).map
      (·.db.markers) = some [(7, text "anna"), (7, text "ben")] := by decide +kernel
  obtain ⟨s, hs, hmarkers⟩ := Option.map_eq_some_iff.mp hrun
  obtain ⟨-, -, hle, hgiven⟩ := one_seat_one_ballot plannedMeeting_seated hs
  exact ⟨s, hs, hmarkers, hle 7, fun c hc => hgiven huncrossed c hc 2⟩

theorem crossedBallot_given :
    ∃ c ∈ commits (asked plannedMeeting [1, 2]) ⟨plannedMeeting, []⟩ (asking plannedMeeting [1, 2] crossedBallot),
      OwnBallot plannedMeeting 1 c.req.1 ∧ ∃ g ∈ c.before.delegations, GivesVote c.before 1 g := by
  have hcommits : ((commits (asked plannedMeeting [1, 2]) ⟨plannedMeeting, []⟩
      (asking plannedMeeting [1, 2] crossedBallot)).any fun c =>
        decide (OwnBallot plannedMeeting 1 c.req.1 ∧ ∃ g ∈ c.before.delegations, GivesVote c.before 1 g)) = true := by
    decide +kernel
  obtain ⟨c, hc, hgiven⟩ := any_eq_true.mp hcommits
  exact ⟨c, hc, of_decide_eq_true hgiven⟩

end GivenAway

end Attendance
