import StupaWorkflow.VotingRuns

/-!
The removal of votes next to the operations of the vote store.
-/
namespace Voting
open Py ReadCommitted List Option
open Prog hiding bind pure

section Programs

def Vote.recorded (row : Vote) : Bool := row.status = .open || row.status = .closed

def Db.removeVote (v : ℕ) (d : Db) : Db :=
  { d with
    votes := Function.update d.votes v none
    ids := d.ids.filter (· ≠ v)
    ballots := Function.update d.ballots v []
    markers := Function.update d.markers v [] }

def Meeting.without (item : ℕ) (row : Meeting) : Meeting :=
  { row with agendaItems := row.agendaItems.filter (· ≠ item) }

def Db.removeItem (m item : ℕ) (d : Db) : Db :=
  { d with meetings := Function.update d.meetings m ((d.meetings m).map (Meeting.without item)) }

inductive RemovalProblem where
  | store (p : Problem)
  | voteMeetingBound
  | voteNotDeletable
  | agendaItemHasVote
  | forbidden
  deriving DecidableEq

abbrev Removal := Prog Db Key RemovalProblem

def deleteRow (v : ℕ) : Removal Unit := do
  let d ← lockRow fun d => (d.votes v).map fun _ => .vote v
  if (d.votes v).isSome then update (Db.removeVote v) else .pure ()

def deleteAudited (v : ℕ) (row : Vote) : Removal Unit := do
  (releaseRunoffLink v row).mapErr .store
  deleteRow v

def delete (v meeting : ℕ) : Removal Unit := do
  let row ← (getVote v).mapErr .store
  require (row.meetingId = some meeting) (.store .notFound)
  require (!row.recorded) .voteNotDeletable
  deleteAudited v row
  publish

/-- The read of the vote takes no lock. -/
def deleteStandalone (v : ℕ) : Removal Unit := do
  let d ← query
  let row ← ofOption (d.votes v) (.store .notFound)
  require row.meetingId.isNone .voteMeetingBound
  require (!row.recorded) .voteNotDeletable
  deleteAudited v row
  publish

def deleteForAgendaItem (item : ℕ) (mayDelete : Bool) : Removal Unit := do
  let d ← query
  let cond : Vote → Bool := fun row => row.agendaItemId = some item
  let rows ← (lockRows cond (d.ids.filter fun v => (d.votes v).any cond)).mapErr .store
  require (rows.all fun p => !p.2.recorded) .agendaItemHasVote
  require (rows.isEmpty || mayDelete) .forbidden
  forEach rows fun p => deleteAudited p.1 p.2

def removeAgendaItem (meeting item : ℕ) (mayDelete : Bool) : Removal Unit := do
  (lockLiveMeeting meeting (some item) true).mapErr .store
  deleteForAgendaItem item mayDelete
  update (Db.removeItem meeting item)
  publish

inductive RemovalRequest where
  | store (r : Request)
  | delete (v meeting : ℕ)
  | deleteStandalone (v : ℕ)
  | removeAgendaItem (meeting item : ℕ) (mayDelete : Bool)

def removalScript : RemovalRequest → Removal Unit
  | .store r => (script r).mapErr .store
  | .delete v meeting => delete v meeting
  | .deleteStandalone v => deleteStandalone v
  | .removeAgendaItem meeting item mayDelete => removeAgendaItem meeting item mayDelete

end Programs

section Contract

/-- The vote went, and it was no part of the record unless a standalone delete removed it. -/
structure Removed (r : RemovalRequest) (v : ℕ) (d e : Db) : Prop where
  row : e.votes v = none
  ballots : e.ballots v = []
  markers : e.markers v = []
  checked : r = .deleteStandalone v ∨ ∀ row, d.votes v = some row → row.recorded = false

def removals : Contract RemovalRequest Db Key where
  inv := Inv
  rely held d e := ∀ v, Key.vote v ∈ held → Same v d e
  guar r held d e := (∀ v, Key.vote v ∉ held → Same v d e) ∧ ∀ v, (∃ q, Move q v d e) ∨ Removed r v d e
  refl _ d v _ := .refl v d
  trans := contract.trans
  compat _ g free v hv := g.1 v (free.not_mem hv)

variable {r : RemovalRequest} {l : Loc Db Key} {d : Db}
variable {gone : List ℕ}

theorem wp_store {Err α : Type} {q : Request} {p : Prog Db Key Err α} {Q : α → Loc Db Key → Db → Prop}
    (h : wp contract q p Q l d) : wp removals r p Q l d :=
  wp_transfer (D := removals) (C := contract) (fun hrely => hrely) Iff.rfl
    (fun hguar => ⟨hguar.1, fun v => .inl ⟨q, hguar.2 v⟩⟩) h

/-- A transaction that removes these locked votes and writes nothing else of the votes. -/
structure Removing (r : RemovalRequest) (gone : List ℕ) (l : Loc Db Key) (d : Db) : Prop where
  votes : ∀ e v, (l.pend e).votes v = if v ∈ gone then none else e.votes v
  ballots : ∀ e v, (l.pend e).ballots v = if v ∈ gone then [] else e.ballots v
  markers : ∀ e v, (l.pend e).markers v = if v ∈ gone then [] else e.markers v
  held : ∀ v ∈ gone, Key.vote v ∈ l.held
  checked : ∀ v ∈ gone, r = .deleteStandalone v ∨ ∀ row, d.votes v = some row → row.recorded = false

theorem Removing.none (r : RemovalRequest) (held : List Key) (d : Db) : Removing r [] ⟨id, held⟩ d :=
  ⟨by simp, by simp, by simp, by simp, by simp⟩

theorem Removing.later {e : Db} (h : Removing r gone l d) (hrely : removals.rely l.held d e) : Removing r gone l e where
  votes := h.votes
  ballots := h.ballots
  markers := h.markers
  held := h.held
  checked v hv := by
    rw [(hrely v (h.held v hv)).row]
    exact h.checked v hv

theorem Removing.lock {held : List Key} (h : Removing r gone l d) (hsub : ∀ k ∈ l.held, k ∈ held) :
    Removing r gone ⟨l.pend, held⟩ d :=
  ⟨h.votes, h.ballots, h.markers, fun v hv => hsub _ (h.held v hv), h.checked⟩

theorem Removing.add {v : ℕ} (h : Removing r gone l d) (hv : Key.vote v ∈ l.held)
    (hchecked : r = .deleteStandalone v ∨ ∀ row, d.votes v = some row → row.recorded = false) :
    Removing r (v :: gone) ⟨Db.removeVote v ∘ l.pend, l.held⟩ d := by
  refine ⟨fun e u => ?_, fun e u => ?_, fun e u => ?_, ?_, ?_⟩
  · by_cases hu : u = v <;> simp [Db.removeVote, hu, h.votes]
  · by_cases hu : u = v <;> simp [Db.removeVote, hu, h.ballots]
  · by_cases hu : u = v <;> simp [Db.removeVote, hu, h.markers]
  · simpa using ⟨hv, h.held⟩
  · simpa using ⟨hchecked, h.checked⟩

theorem Removing.commit (h : Removing r gone l d) (hd : Inv d) :
    removals.inv (l.pend d) ∧ removals.guar r l.held d (l.pend d) := by
  have hsame : ∀ v, v ∉ gone → Same v d (l.pend d) := fun v hv =>
    ⟨by rw [h.votes, if_neg hv], by rw [h.ballots, if_neg hv], by rw [h.markers, if_neg hv]⟩
  refine ⟨fun v => ?_, fun v hv => hsame v fun hg => hv (h.held v hg), fun v => ?_⟩
  · by_cases hv : v ∈ gone
    · have hrow : (l.pend d).votes v = Option.none := by rw [h.votes, if_pos hv]
      have hballots : (l.pend d).ballots v = [] := by rw [h.ballots, if_pos hv]
      have hmarkers : (l.pend d).markers v = [] := by rw [h.markers, if_pos hv]
      constructor <;> simp [hrow, hballots, hmarkers]
    · exact (hd v).of_same (hsame v hv)
  · by_cases hv : v ∈ gone
    · exact .inr ⟨by rw [h.votes, if_pos hv], by rw [h.ballots, if_pos hv], by rw [h.markers, if_pos hv], h.checked v hv⟩
    · exact .inl ⟨.cancel 0 0, (hsame v hv).move⟩

end Contract

section Keeps

variable {r : RemovalRequest} {l : Loc Db Key} {d : Db}
variable {Q : Unit → Loc Db Key → Db → Prop}

theorem wp_deleteAudited {gone : List ℕ} {v : ℕ} {row : Vote} (h : Removing r gone l d)
    (hchecked : ∀ (held : List Key) (e : Db), removals.rely l.held d e → (∀ k ∈ l.held, k ∈ held) → r = .deleteStandalone v ∨
      ∀ row, e.votes v = some row → row.recorded = false)
    (hQ : ∀ (gone : List ℕ) (l' : Loc Db Key) (e : Db), removals.rely l.held d e → (∀ k ∈ l.held, k ∈ l'.held) → Removing r gone l' e → Q () l' e) :
    wp removals r (deleteAudited v row) Q l d := by
  rw [deleteAudited, wp_do, wp_mapErr]
  refine wp_store (q := .cancel 0 0) (wp_releaseRunoffLink (fun e hinv u row hrow stored hstored => ?_) ?_)
  · rw [h.votes] at hrow
    split at hrow
    · cases hrow
    · exact (hinv u).no_runoff hrow hstored
  · intro held e hrely hsub
    have h : Removing r gone ⟨l.pend, held⟩ e := (h.later hrely).lock hsub
    rw [deleteRow, wp_do, wp_lockRow]
    intro f hrely' _
    have hrelyf : removals.rely l.held d f := removals.trans hrely fun u hu => hrely' u (hsub _ hu)
    cases hrow : (l.pend f).votes v with
    | none =>
      simp only [map_none, isSome_none]
      exact hQ gone _ f hrelyf hsub (h.later hrely')
    | some row =>
      simp only [map_some, isSome_some, if_true, wp_update]
      have hlock := (h.later hrely').lock fun k hk => mem_cons_of_mem (Key.vote v) hk
      refine hQ (v :: gone) _ f hrelyf (fun k hk => mem_cons_of_mem _ (hsub k hk)) (hlock.add mem_cons_self ?_)
      exact hchecked held f hrelyf hsub

theorem wp_removed {gone : List ℕ} (h : Removing r gone l d) :
    wp removals r (publish : Removal Unit) (fun _ _ _ => True) l d := by
  rw [wp_publish]
  intro e hrely hinv
  obtain ⟨hafter, hguar⟩ := (h.later hrely).commit hinv
  exact ⟨hafter, hguar, trivial⟩

theorem delete_keeps (v meeting : ℕ) : Keeps removals (.delete v meeting) (delete v meeting) := by
  intro d _
  rw [delete, wp_do, wp_mapErr]
  refine wp_store (q := .cancel 0 0) (wp_getVote fun e _ _ row hrow => ?_)
  simp only [wp_do, wp_require]
  intro _ hdeletable
  refine wp_deleteAudited (.none _ _ e) (fun held f hrely _ => .inr fun row' hrow' => ?_) fun gone l' f _ _ h => wp_removed h
  rw [(hrely v mem_cons_self).row] at hrow'
  have heq : some row = some row' := Eq.trans (Eq.symm hrow) hrow'
  rw [some_inj] at heq
  simpa [← heq] using hdeletable

theorem deleteStandalone_keeps (v : ℕ) : Keeps removals (.deleteStandalone v) (deleteStandalone v) := by
  intro d _
  simp only [deleteStandalone, wp_do, wp_query, wp_ofOption, wp_require]
  intro e _ _ row _ _ _
  exact wp_deleteAudited (.none _ _ e) (fun _ _ _ _ => .inl rfl) fun gone l' f _ _ h => wp_removed h

/-- The locked rows that are still to come are no part of the record. -/
theorem wp_deleteAll {cond : Vote → Bool} {held : List Key} {rows : List (ℕ × Vote)} (hlocked : Locked cond held d rows)
    (hcond : ∀ p ∈ rows, p.2.recorded = false) (hQ : ∀ gone l e, Removing r gone l e → Q () l e) :
    wp removals r (forEach rows fun p => deleteAudited p.1 p.2) Q ⟨id, held⟩ d := by
  refine wp_mono ?_ (wp_forEach _ (fun rest l e => (Locked cond l.held e rest ∧ ∀ p ∈ rest, p.2.recorded = false) ∧
    ∃ gone, Removing r gone l e) ?_ rows ⟨⟨hlocked, hcond⟩, [], .none r held d⟩)
  · rintro _ l e ⟨_, gone, h⟩
    exact hQ gone l e h
  · rintro ⟨v, row⟩ rest l e ⟨⟨hlocked, hcond⟩, gone, h⟩
    obtain ⟨hv, hrow, _⟩ := hlocked (v, row) mem_cons_self
    refine wp_deleteAudited h (fun held f hrely _ => .inr fun row' hrow' => ?_) fun gone l' f hrely hsub h => ?_
    · rw [(hrely v hv).row, hrow, some_inj] at hrow'
      exact hrow' ▸ hcond (v, row) mem_cons_self
    · refine ⟨⟨?_, fun p hp => hcond p (mem_cons_of_mem _ hp)⟩, gone, h⟩
      exact Locked.stable (fun p hp => hlocked p (mem_cons_of_mem _ hp)) hrely hsub

theorem removeAgendaItem_keeps (meeting item : ℕ) (mayDelete : Bool) :
    Keeps removals (.removeAgendaItem meeting item mayDelete) (removeAgendaItem meeting item mayDelete) := by
  intro d _
  rw [removeAgendaItem, wp_do, wp_mapErr]
  refine wp_store (q := .cancel 0 0) (wp_lockLiveMeeting fun e _ _ => ?_)
  rw [wp_do, deleteForAgendaItem, wp_do, wp_query]
  intro f _ _
  rw [wp_do, wp_mapErr]
  refine wp_store (q := .cancel 0 0) (wp_lockRows _ fun rows held g _ _ hlocked => ?_)
  simp only [wp_do, wp_require]
  intro hdeletable _
  refine wp_deleteAll hlocked (fun p hp => ?_) fun gone l g h => ?_
  · simpa using all_eq_true.mp hdeletable p hp
  · rw [wp_update]
    exact @wp_removed _ _ _ gone ⟨h.votes, h.ballots, h.markers, h.held, h.checked⟩

theorem removalScript_keeps (r : RemovalRequest) : Keeps removals r (removalScript r) := by
  cases r with
  | store q =>
    intro d hd
    rw [removalScript, wp_mapErr]
    exact wp_store (script_keeps q d hd)
  | delete v meeting => exact delete_keeps v meeting
  | deleteStandalone v => exact deleteStandalone_keeps v
  | removeAgendaItem meeting item mayDelete => exact removeAgendaItem_keeps meeting item mayDelete

end Keeps

section Record

variable {d e : Db}

def Kept (d e : Db) : Prop :=
  ∀ v row, d.votes v = some row → row.recorded →
    (e.votes v).isSome ∧ d.ballots v <+: e.ballots v ∧ d.markers v <+: e.markers v

def StillUnopened (r : RemovalRequest) (d e : Db) : Prop :=
  match r with
  | .deleteStandalone v => (e.votes v).isNone → ∀ row ∈ d.votes v, row.recorded = false
  | _ => True

instance (r : RemovalRequest) (d e : Db) : Decidable (StillUnopened r d e) := by
  unfold StillUnopened
  split <;> infer_instance

theorem Move.kept {q : Request} {v : ℕ} (h : Move q v d e) {row : Vote} (hrow : d.votes v = some row) :
    (e.votes v).isSome ∧ d.ballots v <+: e.ballots v ∧ d.markers v <+: e.markers v := by
  obtain ⟨row', hrow', -⟩ := h.row row hrow
  refine ⟨by rw [hrow']; rfl, ?_⟩
  rcases h.ballots with ⟨hballots, hmarkers⟩ | ⟨_, voter, ballot, _, _, _, _, _, _, _, hballots, hmarkers⟩
  · rw [hballots, hmarkers]
    exact ⟨prefix_refl _, prefix_refl _⟩
  · rw [hballots, hmarkers]
    exact ⟨prefix_append _ _, prefix_append _ _⟩

theorem guar_kept {r : RemovalRequest} {held : List Key} (h : removals.guar r held d e) :
    StillUnopened r d e ↔ Kept d e := by
  constructor
  · intro hopen v row hrow hrecorded
    rcases h.2 v with ⟨q, hmove⟩ | hremoved
    · exact hmove.kept hrow
    · have hfalse : row.recorded = false := by
        rcases hremoved.checked with rfl | hchecked
        · exact hopen (by rw [hremoved.row]; rfl) row hrow
        · exact hchecked row hrow
      rw [hfalse] at hrecorded
      cases hrecorded
  · intro hkept
    cases r with
    | deleteStandalone v =>
      intro hnone row hrow
      cases hrecorded : row.recorded with
      | false => rfl
      | true =>
        have hsome := (hkept v row hrow hrecorded).1
        rw [← not_isNone, hnone] at hsome
        cases hsome
    | store q => trivial
    | delete v meeting => trivial
    | removeAgendaItem meeting item mayDelete => trivial

/-- No commit of a run removes an open or a closed vote, or a ballot of one, exactly when the standalone
deletes find their votes still unopened. -/
theorem record_kept (hd : Inv d) (es : List (Event RemovalRequest)) :
    Guarded StillUnopened removalScript ⟨d, []⟩ es ↔ ∀ c ∈ commits removalScript ⟨d, []⟩ es, Kept c.before c.after := by
  rw [guarded_iff_commits]
  refine forall_congr' fun c => forall_congr' fun hc => ?_
  obtain ⟨-, held, hguar⟩ := commits_guar (C := removals) removalScript_keeps (sound_start hd) es c hc
  exact guar_kept hguar

def steps (i n : ℕ) : List (Event RemovalRequest) := List.replicate n (.step i)

def standalone (v : ℕ) : RemovalRequest := .store (.create v plainPayload none none none false)

def castYes (v : ℕ) : RemovalRequest := .store (.cast v false (.ok (text "a")) (.option yesKey) 20)

def noRows : Db := Db.empty (fun _ => none) (fun _ => none)

def preparedDeleted : List (Event RemovalRequest) :=
  .start (standalone 0) :: steps 0 3 ++ .start (standalone 1) :: steps 1 3 ++ .start (.store (.openVote 0 10 none)) :: steps 2 5 ++
    .start (castYes 0) :: steps 3 5 ++ .start (.deleteStandalone 1) :: steps 4 4

theorem preparedDeleted_kept : ∃ s, run removalScript ⟨noRows, []⟩ preparedDeleted = some s ∧ s.db.votes 1 = none ∧
    s.db.ballots 0 = [yesKey] ∧ ∀ c ∈ commits removalScript ⟨noRows, []⟩ preparedDeleted, Kept c.before c.after := by
  have hrun : (run removalScript ⟨noRows, []⟩ preparedDeleted).map
      (fun s => ((s.db.votes 1).isNone, s.db.ballots 0)) = some (true, [yesKey]) := by decide +kernel
  have hguarded : Guarded StillUnopened removalScript ⟨noRows, []⟩ preparedDeleted := by decide +kernel
  obtain ⟨s, hs, hstate⟩ := map_eq_some_iff.mp hrun
  obtain ⟨hnone, hballots⟩ := Prod.mk.injEq .. ▸ hstate
  exact ⟨s, hs, isNone_iff_eq_none.mp hnone, hballots,
    (record_kept (inv_empty _ _) preparedDeleted).mp hguarded⟩

def crossedDelete : List (Event RemovalRequest) :=
  .start (standalone 0) :: steps 0 3 ++ .start (.deleteStandalone 0) :: steps 1 1 ++
    .start (.store (.openVote 0 10 none)) :: steps 2 5 ++ .start (castYes 0) :: steps 3 5 ++ steps 1 3

theorem crossedDelete_not_kept : ∃ c ∈ commits removalScript ⟨noRows, []⟩ crossedDelete,
    (c.before.votes 0).map Vote.status = some .open ∧ c.before.ballots 0 = [yesKey] ∧ c.after.votes 0 = none ∧
      ¬ Kept c.before c.after := by
  have hany : (commits removalScript ⟨noRows, []⟩ crossedDelete).any (fun c => (c.before.votes 0).map Vote.status = some .open ∧
      c.before.ballots 0 = [yesKey] ∧ (c.after.votes 0).isNone) = true := by decide +kernel
  obtain ⟨c, hc, hcommit⟩ := any_eq_true.mp hany
  obtain ⟨hopen, hballots, hnone⟩ := of_decide_eq_true hcommit
  refine ⟨c, hc, hopen, hballots, isNone_iff_eq_none.mp hnone, fun hkept => ?_⟩
  obtain ⟨row, hrow, hstatus⟩ := map_eq_some_iff.mp hopen
  have hsome := (hkept 0 row hrow (by rw [Vote.recorded, hstatus]; rfl)).1
  rw [← not_isNone, hnone] at hsome
  cases hsome

end Record

end Voting
