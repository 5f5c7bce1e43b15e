import StupaWorkflow.AttendanceRuns
import StupaWorkflow.TransactionWrites

/-!
The delegations of one meeting under any interleaving. A member who gives a delegation receives
none, gives one only, and nobody carries two votes of others.
-/
namespace Attendance
open Py StorageKeys ReadCommitted
open List hiding beq_eq_decide

section Footprints

variable {V : Db → Prop} {S : (Db → Db) → Prop} {Q R : Unit → Prop}

theorem openForAttendance_writes (hQ : Q ()) : openForAttendance.Writes V S Q R := by
  simp only [openForAttendance, writes_do, writes_lockRow, writes_require]
  exact fun _ _ _ => hQ

theorem lockRecord_writes {p : Uuid} {Q R : Option Record → Prop} (hQ : ∀ row, Q row) :
    (lockRecord p).Writes V S Q R := by
  simp only [lockRecord, writes_do, writes_lockRow, writes_return]
  exact fun d _ => hQ _

theorem hasDelegation_writes {p : Uuid} {Q R : Bool → Prop} (hQ : ∀ b, Q b) : (hasDelegation p).Writes V S Q R := by
  simp only [hasDelegation, writes_do, writes_query, writes_return]
  exact fun d _ => hQ _

theorem revokeAsLead_writes {v : Revoke} {row : Delegation} (hQ : Q ()) : (revokeAsLead v row).Writes V S Q R := by
  rw [revokeAsLead, writes_do, writes_query]
  intro d _
  split
  · exact hQ
  · simp only [writes_do, writes_require]
    exact fun _ _ => hQ

theorem lockLiveMeeting_writes {plannedOk : Bool} (hQ : Q ()) : (lockLiveMeeting plannedOk).Writes V S Q R := by
  simp only [lockLiveMeeting, writes_do, writes_lockRow, writes_require]
  exact fun _ _ _ _ => hQ

theorem prepareVote_writes (hR : R ()) {v : Uuid} {eligible : Option Uuid} {closesAt : Option Time}
    (hinsert : S (Db.insertVote ⟨v, .draft, eligible, closesAt⟩)) : (prepareVote v eligible closesAt).Writes V S Q R := by
  simp only [prepareVote, writes_do, writes_lockRow, writes_require, writes_update, writes_publish]
  exact lockLiveMeeting_writes fun _ _ _ => ⟨hinsert, hR⟩

theorem insertDelegation_writes (hR : R ()) {g : Delegation} (hinsert : S (Db.insertDelegation g)) :
    (insertDelegation g).Writes V S Q R := by
  rw [insertDelegation, writes_do, writes_lockRow]
  intro d _
  split
  · trivial
  · exact ⟨hinsert, hR⟩

theorem lockVote_writes {v : Uuid} {Q R : Vote → Prop} (hQ : ∀ vote, Q vote) : (lockVote v).Writes V S Q R := by
  simp only [lockVote, writes_do, writes_lockRow, writes_ofOption]
  exact fun d _ vote _ => hQ vote

/-- The writes of the attendance, and the delegations that go. -/
structure RowWrites (S : (Db → Db) → Prop) : Prop where
  putRecord : ∀ row, S (Db.putRecord row)
  dropRecord : ∀ p, S (Db.dropRecord p)
  dropDelegation : ∀ id, S (Db.dropDelegation id)

/-- The writes that add no delegation, no ballot and no vote. -/
structure Harmless (S : (Db → Db) → Prop) : Prop extends RowWrites S where
  setStatus : ∀ s, S (Db.setStatus s)
  setVote : ∀ id s, S (Db.setVote id s)

section Rows

variable (hS : RowWrites S)
include hS

theorem flushRecord_writes {existing : Option Record} {row : Record} (hQ : Q ()) :
    (flushRecord existing row).Writes V S Q R := by
  cases existing with
  | some old => exact ⟨hS.putRecord row, hQ⟩
  | none =>
    simp only [flushRecord, Option.isNone_none, if_true, writes_do, writes_lockRow, writes_require, writes_update]
    exact fun _ _ _ => ⟨hS.putRecord row, hQ⟩

theorem releasePoolSeat_writes {p : Uuid} (hQ : Q ()) : (releasePoolSeat p).Writes V S Q R := by
  rw [releasePoolSeat, writes_do, writes_query]
  intro d _
  split
  · exact hQ
  next seat _ =>
    simp only [writes_do, writes_lockRow, writes_update]
    exact fun _ _ => ⟨hS.dropDelegation seat.id, hQ⟩

theorem refuseDelegated_writes {status : Status} {p : Uuid} (hQ : Q ()) :
    (refuseDelegated status p).Writes V S Q R := by
  rw [refuseDelegated]
  split
  · simp only [writes_do, writes_require]
    exact releasePoolSeat_writes hS (hasDelegation_writes fun _ _ => hQ)
  · exact hQ

theorem setSelf_writes (hR : R ()) (s : SetSelf) : (setSelf s).Writes V S Q R := by
  simp only [setSelf, writes_do, writes_query, writes_ofOption, writes_require, writes_publish]
  refine openForAttendance_writes fun _ _ member _ => lockRecord_writes fun existing _ => ?_
  exact refuseDelegated_writes hS (flushRecord_writes hS hR)

theorem setFor_writes (hR : R ()) (s : SetFor) : (setFor s).Writes V S Q R := by
  simp only [setFor, writes_do, writes_require, writes_publish]
  refine fun _ => openForAttendance_writes fun _ => refuseDelegated_writes hS ?_
  exact lockRecord_writes fun existing => flushRecord_writes hS hR

theorem reset_writes (hR : R ()) (s : Reset) : (reset s).Writes V S Q R := by
  simp only [reset, writes_do, writes_require]
  refine fun _ => openForAttendance_writes (lockRecord_writes fun existing => ?_)
  split
  · exact ⟨hS.dropRecord _, hR⟩
  · exact hR

theorem revoke_writes (hR : R ()) (v : Revoke) : (revoke v).Writes V S Q R := by
  rw [revoke, writes_do, writes_query]
  intro d _
  simp only [writes_do, writes_ofOption]
  intro row _
  have hdelete : ∀ e, V e → S (Db.dropDelegation v.id) ∧ R () := fun _ _ => ⟨hS.dropDelegation v.id, hR⟩
  split
  · rw [writes_do]
    exact revokeAsLead_writes hdelete
  · exact hdelete

theorem markPresentOnCast_writes {c : Cast} (hQ : Q ()) : (markPresentOnCast c).Writes V S Q R := by
  rw [markPresentOnCast, writes_do, writes_query]
  intro d _
  split
  · exact hQ
  next member _ =>
    rw [writes_do]
    refine lockRecord_writes fun existing => ?_
    split
    · exact hQ
    · rw [writes_do]
      refine hasDelegation_writes fun delegated => ?_
      split
      · exact hQ
      · exact flushRecord_writes hS hQ

theorem takePart_writes {c : Cast} (hQ : Q ()) : (takePart c).Writes V S Q R := by
  simp only [takePart, releasePoolSeatOf, writes_do, writes_query]
  intro d _
  split
  · exact markPresentOnCast_writes hS hQ
  · exact releasePoolSeat_writes hS (markPresentOnCast_writes hS hQ)

end Rows

variable (hS : Harmless S)
include hS

theorem cancelDrafts_writes (hQ : Q ()) : cancelDrafts.Writes V S Q R := by
  rw [cancelDrafts, writes_do, writes_query]
  intro d _
  refine writes_forEach hQ fun id _ => ?_
  rw [writes_do, writes_lockRow]
  intro e _
  split
  · exact ⟨hS.setVote id .cancelled, trivial⟩
  · trivial

theorem patch_writes (hR : R ()) (p : StatusPatch) : (patch p).Writes V S Q R := by
  rw [patch, writes_do, writes_lockRow]
  intro d _
  rw [writes_do, writes_require]
  intro _
  have hstatus : S (Db.setStatus p.status) ∧ R () := ⟨hS.setStatus p.status, hR⟩
  split
  · rw [writes_do, writes_require]
    intro _
    split
    · rw [writes_do, writes_query]
      intro e _
      simp only [writes_do, writes_require]
      exact fun _ => cancelDrafts_writes hS hstatus
    · rw [writes_do, refuseStart]
      split
      · trivial
      · exact hstatus
  · exact hR

theorem openVote_writes (hR : R ()) (v : Uuid) (refused : Option Problem) : (openVote v refused).Writes V S Q R := by
  simp only [openVote, writes_do, writes_require]
  refine lockLiveMeeting_writes (lockVote_writes fun vote _ => ?_)
  cases refused with
  | some problem => trivial
  | none => exact ⟨hS.setVote v .open, hR⟩

theorem endVote_writes (hR : R ()) (v : Uuid) (s : VoteStatus) (verb : Text) : (endVote v s verb).Writes V S Q R := by
  simp only [endVote, writes_do, writes_require, writes_update, writes_publish]
  exact lockVote_writes fun vote _ => ⟨hS.setVote v s, hR⟩

end Footprints

section Chains

/-- No member both gives and receives a delegation, each gives one at most, and each
carries the vote of one other at most. -/
structure Unchained (d : Db) : Prop where
  apart : ∀ g ∈ d.delegations, ∀ h ∈ d.delegations, g.delegator ≠ h.delegate
  outgoing : (d.delegations.map (·.delegator)).Nodup
  incoming : ((d.delegations.filter (·.delegateVoting)).map (·.delegate)).Nodup

/-- The checks before a new row, as the rows are under the advisory lock. -/
structure Fits (new : Delegation) (d : Db) : Prop where
  self : new.delegator ≠ new.delegate
  gives : ∀ g ∈ d.delegations, g.delegator ≠ new.delegator ∧ g.delegator ≠ new.delegate
  receives : ∀ g ∈ d.delegations, g.delegate ≠ new.delegator
  votes : new.delegateVoting = true → ∀ g ∈ d.delegations, g.delegateVoting = true → g.delegate ≠ new.delegate

variable {d e : Db} {new : Delegation} {r : Request} {held : List Key} {l : Loc Db Key}

theorem Unchained.sublist (h : Unchained d) (hsub : e.delegations.Sublist d.delegations) : Unchained e where
  apart g hg g' hg' := h.apart g (hsub.subset hg) g' (hsub.subset hg')
  outgoing := h.outgoing.sublist (hsub.map _)
  incoming := h.incoming.sublist ((hsub.filter _).map _)

theorem Fits.mono (h : Fits new d) (hsub : e.delegations ⊆ d.delegations) : Fits new e where
  self := h.self
  gives g hg := h.gives g (hsub hg)
  receives g hg := h.receives g (hsub hg)
  votes hvoting g hg := h.votes hvoting g (hsub hg)

theorem Unchained.insert (h : Unchained d) (hfits : Fits new d) : Unchained (d.insertDelegation new) where
  apart g hg g' hg' := by
    rcases mem_append.mp hg with hold | hnew
    · rcases mem_append.mp hg' with hold' | hnew'
      · exact h.apart g hold g' hold'
      · rw [mem_singleton.mp hnew']
        exact (hfits.gives g hold).2
    · rw [mem_singleton.mp hnew]
      rcases mem_append.mp hg' with hold' | hnew'
      · exact (hfits.receives g' hold').symm
      · rw [mem_singleton.mp hnew']
        exact hfits.self
  outgoing := by
    have hnew : new.delegator ∉ d.delegations.map (·.delegator) := by
      intro hmem
      obtain ⟨g, hg, hdelegator⟩ := mem_map.mp hmem
      exact (hfits.gives g hg).1 hdelegator
    rw [Db.insertDelegation, map_append, map_singleton, ← concat_eq_append]
    exact h.outgoing.concat hnew
  incoming := by
    rw [Db.insertDelegation, filter_append, map_append]
    cases hvoting : new.delegateVoting with
    | false => simpa [hvoting] using h.incoming
    | true =>
      have hnew : new.delegate ∉ (d.delegations.filter (·.delegateVoting)).map (·.delegate) := by
        intro hmem
        obtain ⟨g, hg, hdelegate⟩ := mem_map.mp hmem
        obtain ⟨hold, hvotes⟩ := mem_filter.mp hg
        exact hfits.votes hvoting g hold hvotes hdelegate
      rw [filter_singleton, hvoting, cond_true, map_singleton, ← concat_eq_append]
      exact h.incoming.concat hnew

/-- What `_insert` refuses. -/
theorem fits_of_chainProblem (hself : new.delegator ≠ new.delegate) (h : d.delegations.findSome? (chainProblem new) = none) :
    Fits new d := by
  have hrow : ∀ g ∈ d.delegations, chainProblem new g = none := List.findSome?_eq_none_iff.mp h
  have hchecks : ∀ g ∈ d.delegations, g.delegator ≠ new.delegator ∧ g.delegate ≠ new.delegator ∧
      g.delegator ≠ new.delegate ∧ (new.delegateVoting = true → g.delegateVoting = true → g.delegate ≠ new.delegate) := by
    intro g hg
    have := hrow g hg
    unfold chainProblem at this
    split at this <;> try cases this
    split at this <;> try cases this
    split at this <;> try cases this
    split at this <;> try cases this
    simp_all
  exact ⟨hself, fun g hg => ⟨(hchecks g hg).1, (hchecks g hg).2.2.1⟩, fun g hg => (hchecks g hg).2.1,
    fun hvoting g hg => (hchecks g hg).2.2.2 hvoting⟩

/-- What `_find_seat` passes over. -/
theorem fits_of_findSeat {c : Cast} {vote : Vote} {deputy member : Principal}
    (h : findSeat d c vote = some (deputy, member)) :
    Fits ⟨c.seat, member.id, deputy.id, true, true, some c.sub, false⟩ d := by
  unfold findSeat at h
  split at h <;> try cases h
  obtain ⟨p, -, h⟩ := Option.bind_eq_some_iff.mp h
  split at h <;> try cases h
  split at h <;> try cases h
  next hbusy =>
    obtain ⟨first, hfirst, hpair⟩ := Option.map_eq_some_iff.mp h
    obtain ⟨rfl, rfl⟩ := Prod.mk.inj hpair
    have hmem := mem_of_mem_head? hfirst
    rw [mem_mergeSort, mem_filter] at hmem
    have hfree := (mem_filter.mp (contains_iff_mem.mp hmem.2)).2
    simp only [Bool.and_eq_true, Bool.not_eq_true', decide_eq_true_eq] at hfree
    obtain ⟨⟨htaken, -⟩, hother⟩ := hfree
    simp only [contains_eq_mem, decide_eq_false_iff_not, mem_flatMap, not_exists, not_and, mem_cons,
      not_mem_nil, or_false, not_or] at htaken
    have huntaken : ∀ g ∈ d.delegations, g.delegator ≠ first.id ∧ g.delegate ≠ first.id :=
      fun g hg => ⟨Ne.symm (htaken g hg).1, Ne.symm (htaken g hg).2⟩
    have hidle : ∀ g ∈ d.delegations, g.delegator ≠ p.id ∧ (g.delegateVoting = true → g.delegate ≠ p.id) := by
      intro g hg
      have := any_eq_false.mp (Bool.eq_false_iff.mpr hbusy) g hg
      simpa using this
    exact ⟨hother, fun g hg => ⟨(huntaken g hg).1, (hidle g hg).1⟩, fun g hg => (huntaken g hg).2,
      fun _ g hg => (hidle g hg).2⟩

/-- Rows go only, while another transaction holds the advisory lock. -/
def chains : Contract Request Db Key where
  inv := Unchained
  rely held d e := .delegations ∈ held → e.delegations ⊆ d.delegations
  guar _ held d e := .delegations ∉ held → e.delegations ⊆ d.delegations
  refl _ _ _ := List.Subset.refl _
  trans h h' hheld := List.Subset.trans (h' hheld) (h hheld)
  compat _ hguar hfree hheld := hguar (apart_row hfree (by simp [Key.conflict]) hheld)

def Shrinks (w : Db → Db) : Prop := ∀ d, (w d).delegations.Sublist d.delegations

theorem shrinks_harmless : Harmless Shrinks where
  putRecord _ _ := List.Sublist.refl _
  dropRecord _ _ := List.Sublist.refl _
  dropDelegation _ _ := filter_sublist
  setStatus _ _ := List.Sublist.refl _
  setVote _ _ _ := List.Sublist.refl _

theorem shrinks_mayCommit (h : Shrinks l.pend) : MayCommit chains r l d :=
  fun e _ hinv => ⟨Unchained.sublist hinv (h e), fun _ => (h e).subset⟩

theorem keeps_of_shrinks {p : P Unit} (hp : p.Writes (fun _ => True) Shrinks (fun _ => True) fun _ => True) :
    Keeps chains r p := by
  intro d _
  refine wp_mono (fun _ _ _ _ => trivial) (wp_of_writes (A := fun _ _ => True) ?_ (fun _ _ _ => trivial)
    (fun _ _ _ => trivial) (fun _ => trivial) ?_ hp (fun _ => List.Sublist.refl _) trivial)
  · exact fun hw hu x => (hw _).trans (hu x)
  · exact fun _ hw _ hinv => ⟨Unchained.sublist hinv (hw _), fun _ => (hw _).subset⟩

theorem insertDelegation_mayCommit (hfits : Fits new d) (hlock : .delegations ∈ held) :
    MayCommit chains r ⟨Db.insertDelegation new, held⟩ d :=
  fun _ hrely hinv => ⟨Unchained.insert hinv (hfits.mono (hrely hlock)), fun hfree => absurd hlock hfree⟩

theorem insertDelegation_chains (hself : new.delegator ≠ new.delegate) :
    wp chains r (insertDelegation new) (fun _ _ _ => True) ⟨id, held⟩ d := by
  rw [insertDelegation, wp_do, wp_lockRow]
  intro e _ _
  dsimp only
  split
  · trivial
  next hnone => exact (insertDelegation_mayCommit (fits_of_chainProblem hself hnone) mem_cons_self).publish

theorem create_chains (c : Create) : Keeps chains (.create c) (create c) := by
  intro d _
  simp only [create, wp_do, wp_require, wp_ofOption]
  intro e _ _ _ _ me _ delegate _ hself _ _ _
  exact insertDelegation_chains (Ne.symm (of_decide_eq_true hself))

theorem createByLead_chains (c : CreateByLead) : Keeps chains (.createByLead c) (createByLead c) := by
  intro d _
  simp only [createByLead, wp_do, wp_require, wp_ofOption]
  intro _ e _ _ _ _ delegator _ delegate _ hself _ _ e₁ _ _ _ _
  exact insertDelegation_chains (Ne.symm (of_decide_eq_true hself))

theorem representedVoter_chains {c : Cast} (vote : Vote) (carried : Option Text) :
    wp chains r (representedVoter c vote carried) (fun _ l d => MayCommit chains r l d) ⟨id, held⟩ d := by
  cases carried with
  | some sub => exact shrinks_mayCommit fun _ => List.Sublist.refl _
  | none =>
    rw [representedVoter, wp_do, claimPoolSeat, wp_do, wp_lockRow]
    intro e _ _
    dsimp only
    split
    · trivial
    next hseat => exact insertDelegation_mayCommit (fits_of_findSeat hseat) mem_cons_self

theorem castSecret_chains (h : MayCommit chains r l d) (vote : Uuid) (voter choice : Text) :
    wp chains r (castSecret vote voter choice) (fun _ _ _ => True) l d := by
  rw [castSecret, wp_do, wp_query]
  intro e hrely _
  rw [wp_do, wp_require]
  intro _
  have hballot : MayCommit chains r ⟨fun x => (l.pend x).insertBallot vote voter choice, l.held⟩ e := by
    intro f hrely' hinv
    obtain ⟨hinv', hguar⟩ := h.rely hrely f hrely' hinv
    exact ⟨⟨hinv'.apart, hinv'.outgoing, hinv'.incoming⟩, hguar⟩
  exact hballot.publish

theorem cast_chains (c : Cast) : Keeps chains (.cast c) (cast c) := by
  cases hown : c.asDelegation with
  | false =>
    refine keeps_of_shrinks ?_
    simp only [cast, hown, Bool.false_eq_true, if_false, Bool.not_false, if_true, ownVoter, castSecret, writes_do,
      writes_require, writes_query, writes_return, writes_ofExcept, writes_update, writes_publish]
    refine lockVote_writes fun vote _ _ _ _ _ _ _ choice _ => takePart_writes shrinks_harmless.toRowWrites fun _ _ _ => ?_
    exact ⟨fun _ => List.Sublist.refl _, trivial⟩
  | true =>
    intro d _
    rw [cast, wp_do]
    refine wp_mono (fun vote l d h => ?_) (wp_of_silent (A := fun _ _ => True) (fun _ => trivial) (fun _ _ _ => trivial)
      (fun _ => trivial) (lockVote_writes fun _ => trivial) trivial)
    obtain ⟨pend, held⟩ := l
    obtain ⟨-, rfl, -⟩ := h
    simp only [hown, if_true, Bool.not_true, Bool.false_eq_true, if_false, wp_do, wp_require, wp_query]
    intro _ _ _ e _ _
    refine wp_mono (fun voter l d hready => ?_) (representedVoter_chains vote _)
    rw [wp_ofExcept]
    exact fun choice _ => castSecret_chains hready c.vote voter choice

theorem script_chains (r : Request) : Keeps chains r (script r) := by
  cases r with
  | setSelf s => exact keeps_of_shrinks (setSelf_writes shrinks_harmless.toRowWrites trivial s)
  | setFor s => exact keeps_of_shrinks (setFor_writes shrinks_harmless.toRowWrites trivial s)
  | reset s => exact keeps_of_shrinks (reset_writes shrinks_harmless.toRowWrites trivial s)
  | cast c => exact cast_chains c
  | create c => exact create_chains c
  | createByLead c => exact createByLead_chains c
  | revoke v => exact keeps_of_shrinks (revoke_writes shrinks_harmless.toRowWrites trivial v)
  | patch p => exact keeps_of_shrinks (patch_writes shrinks_harmless trivial p)
  | prepareVote v eligible closesAt => exact keeps_of_shrinks (prepareVote_writes trivial fun _ => List.Sublist.refl _)
  | openVote v refused => exact keeps_of_shrinks (openVote_writes shrinks_harmless trivial v refused)
  | closeVote v => exact keeps_of_shrinks (endVote_writes shrinks_harmless trivial v .closed (text "close"))
  | cancelVote v => exact keeps_of_shrinks (endVote_writes shrinks_harmless trivial v .cancelled (text "cancel"))

/-- In every committed state a member who gives a delegation receives none, voting or not, no
member gives two, and none carries two votes. -/
theorem delegations_unchained {d : Db} (hd : Unchained d) {s : Sys Request Db Key Problem} (hs : Reachable script d s) :
    (∀ p, (∃ g ∈ s.db.delegations, g.delegator = p) → ∀ g ∈ s.db.delegations, g.delegate ≠ p) ∧
    (∀ p, (s.db.delegations.filter (·.delegator = p)).length ≤ 1) ∧
    ∀ p, (s.db.delegations.filter fun g => g.delegateVoting && g.delegate = p).length ≤ 1 := by
  have hinv : Unchained s.db := (run_sound script_chains hd hs).inv
  refine ⟨?_, fun p => ?_, fun p => ?_⟩
  · rintro p ⟨g, hg, rfl⟩ g' hg'
    exact Ne.symm (hinv.apart g hg g' hg')
  · have := nodup_iff_count_le_one.mp hinv.outgoing p
    rwa [count_eq_countP, countP_map, countP_eq_length_filter] at this
  · have := nodup_iff_count_le_one.mp hinv.incoming p
    rw [count_eq_countP, countP_map, countP_filter, countP_eq_length_filter] at this
    simpa only [Function.comp_apply, beq_eq_decide, Bool.and_comm] using this

def benDelegates : Request :=
  .create ⟨21, text "ben", 1, true, true, true, true, false, false, none, 0, 0⟩

def crossedChain : List (Event Request) :=
  alone annaDelegates 0 2 ++ alone benDelegates 1 1 ++ goesOn 0 2 ++ goesOn 1 2

theorem crossedChain_unchained :
    ∃ s, run script ⟨plannedMeeting, []⟩ crossedChain = some s ∧ s.db.overview.2 = [(1, false)] ∧
      (s.db.delegations.filter (·.delegator = 1)).length ≤ 1 ∧ ∀ g ∈ s.db.delegations, g.delegate ≠ 1 := by
  have hrun : (run script ⟨plannedMeeting, []⟩ crossedChain).map (fun s => s.db.overview.2) = some [(1, false)] := by
    decide +kernel
  obtain ⟨s, hs, hend⟩ := Option.map_eq_some_iff.mp hrun
  have hstart : Unchained plannedMeeting :=
    ⟨fun g hg => absurd hg not_mem_nil, nodup_nil, nodup_nil⟩
  obtain ⟨hgives, houtgoing, -⟩ := delegations_unchained hstart ⟨crossedChain, hs⟩
  obtain ⟨g, hg, hpair⟩ := mem_map.mp (hend ▸ mem_singleton_self (1, false) : (1, false) ∈ s.db.overview.2)
  exact ⟨s, hs, hend, houtgoing 1, hgives 1 ⟨g, hg, congrArg Prod.fst hpair⟩⟩

end Chains

end Attendance
