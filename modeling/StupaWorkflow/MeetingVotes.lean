import StupaWorkflow.DelegationRuns

/-!
The status of a meeting and the status of its votes under any interleaving.
-/
namespace Attendance
open Py StorageKeys ReadCommitted List

section Footprints

variable {V : Db → Prop} {S : (Db → Db) → Prop} {Q R : Unit → Prop}

theorem create_writes (hR : R ()) (hinsert : ∀ g, S (Db.insertDelegation g)) (c : Create) :
    (create c).Writes V S Q R := by
  simp only [create, writes_do, writes_query, writes_require, writes_ofOption]
  exact fun _ _ _ _ _ _ _ _ _ _ _ _ => insertDelegation_writes hR (hinsert _)

theorem createByLead_writes (hR : R ()) (hinsert : ∀ g, S (Db.insertDelegation g)) (c : CreateByLead) :
    (createByLead c).Writes V S Q R := by
  simp only [createByLead, writes_do, writes_query, writes_lockRow, writes_require, writes_ofOption]
  exact fun _ _ _ _ _ _ _ _ _ _ _ _ _ _ _ _ => insertDelegation_writes hR (hinsert _)

theorem substitute_writes {c : Cast} {vote : Vote} {carried : Option Text} {Q R : Text → Prop}
    (hinsert : ∀ g, S (Db.insertDelegation g)) (hQ : ∀ voter, Q voter) : (representedVoter c vote carried).Writes V S Q R := by
  cases carried with
  | some sub => exact hQ sub
  | none =>
    simp only [representedVoter, claimPoolSeat, writes_do, writes_lockRow]
    intro d _
    split
    · trivial
    · exact ⟨hinsert _, hQ _⟩

theorem castSecret_writes (hR : R ()) (hballot : ∀ vote voter choice, S (Db.insertBallot vote voter choice))
    {vote : Uuid} {voter choice : Text} : (castSecret vote voter choice).Writes V S Q R := by
  simp only [castSecret, writes_do, writes_query, writes_require, writes_update, writes_publish]
  exact fun _ _ _ => ⟨hballot vote voter choice, hR⟩

theorem cast_writes (hR : R ()) (hrows : RowWrites S) (hinsert : ∀ g, S (Db.insertDelegation g))
    (hballot : ∀ vote voter choice, S (Db.insertBallot vote voter choice)) (c : Cast) : (cast c).Writes V S Q R := by
  have hsecret : ∀ voter choice, (castSecret c.vote voter choice).Writes V S Q R :=
    fun _ _ => castSecret_writes hR hballot
  rw [cast, writes_do]
  refine lockVote_writes fun vote => ?_
  simp only [writes_do, writes_require, writes_query]
  intro _ _ _ d _
  cases c.asDelegation with
  | true =>
    simp only [if_true, Bool.not_true, Bool.false_eq_true, if_false, writes_do, writes_ofExcept]
    exact substitute_writes hinsert fun voter choice _ => hsecret voter choice
  | false =>
    simp only [Bool.false_eq_true, if_false, Bool.not_false, if_true, ownVoter, writes_do, writes_require,
      writes_return, writes_ofExcept]
    exact fun _ _ choice _ => takePart_writes hrows (hsecret c.sub choice)

end Footprints

section Statuses

def VoteStatus.active (s : VoteStatus) : Bool := s = .draft || s = .open

/-- No vote of a closed meeting is prepared or open, and none of a planned meeting is open. -/
structure Matched (d : Db) : Prop where
  closed : d.status = .closed → ∀ v ∈ d.votes, v.status ≠ .draft ∧ v.status ≠ .open
  planned : d.status = .planned → ∀ v ∈ d.votes, v.status ≠ .open

structure VotesInv (d : Db) : Prop extends Matched d where
  keyed : (d.votes.map (·.id)).Nodup

/-- What stays while the meeting row is locked for update and while votes are locked:
no vote becomes prepared or open. -/
structure Stays (meeting : Prop) (vote : Uuid → Prop) (d e : Db) : Prop where
  status : meeting → e.status = d.status
  active : meeting → ∀ v ∈ e.votes, v.status.active = true → ∃ w ∈ d.votes, w.id = v.id ∧ w.status = v.status
  vote : ∀ id, vote id → e.vote id = d.vote id

def statuses : Contract Request Db Key where
  inv := VotesInv
  rely held := Stays (.meeting ∈ held) (.vote · ∈ held)
  guar _ held := Stays (.meeting ∉ held) (.vote · ∉ held)
  refl _ _ := ⟨fun _ => rfl, fun _ v hv _ => ⟨v, hv, rfl, rfl⟩, fun _ _ => rfl⟩
  trans h h' := by
    refine ⟨fun hk => (h'.status hk).trans (h.status hk), fun hk v hv hactive => ?_,
      fun id hk => (h'.vote id hk).trans (h.vote id hk)⟩
    obtain ⟨w, hw, hid, hstatus⟩ := h'.active hk v hv hactive
    obtain ⟨u, hu, hid', hstatus'⟩ := h.active hk w hw (hstatus ▸ hactive)
    exact ⟨u, hu, hid'.trans hid, hstatus'.trans hstatus⟩
  compat _ hguar hapart :=
    ⟨fun hk => hguar.status (apart_row hapart (by simp [Key.conflict]) hk),
      fun hk => hguar.active (apart_row hapart (by simp [Key.conflict]) hk),
      fun id hk => hguar.vote id (apart_row hapart (by simp [Key.conflict]) hk)⟩

variable {r : Request} {d e : Db} {held : List Key} {l : Loc Db Key}

theorem vote_congr (h : e.votes = d.votes) (id : Uuid) : e.vote id = d.vote id := by
  rw [Db.vote, h, Db.vote]

theorem VotesInv.congr (h : VotesInv d) (hvotes : e.votes = d.votes) (hstatus : e.status = d.status) : VotesInv e where
  closed hclosed v hv := h.closed (hstatus ▸ hclosed) v (hvotes ▸ hv)
  planned hplanned v hv := h.planned (hstatus ▸ hplanned) v (hvotes ▸ hv)
  keyed := by
    rw [hvotes]
    exact h.keyed

def VotesApart (w : Db → Db) : Prop := ∀ d, (w d).votes = d.votes ∧ (w d).status = d.status

theorem apart_rows : RowWrites VotesApart where
  putRecord _ _ := ⟨rfl, rfl⟩
  dropRecord _ _ := ⟨rfl, rfl⟩
  dropDelegation _ _ := ⟨rfl, rfl⟩

theorem keeps_of_apart {p : P Unit} (hp : p.Writes (fun _ => True) VotesApart (fun _ => True) fun _ => True) :
    Keeps statuses r p := by
  intro d _
  refine wp_mono (fun _ _ _ _ => trivial) (wp_of_writes (A := fun _ _ => True) ?_ (fun _ _ _ => trivial)
    (fun _ _ _ => trivial) (fun _ => trivial) ?_ hp (fun _ => ⟨rfl, rfl⟩) trivial)
  · exact fun hw hu x => ⟨(hw _).1.trans (hu x).1, (hw _).2.trans (hu x).2⟩
  · intro _ w held x _ hw _ hinv
    obtain ⟨hvotes, hstatus⟩ := hw x
    exact ⟨hinv.congr hvotes hstatus, fun _ => hstatus, fun _ v hv _ => ⟨v, hvotes ▸ hv, rfl, rfl⟩,
      fun id _ => vote_congr hvotes id⟩

end Statuses

section Meeting

variable {r : Request} {d e : Db} {held : List Key} {l : Loc Db Key}

theorem VotesInv.insert (h : VotesInv d) (hopen : d.status ≠ .closed) {v : Vote} (hdraft : v.status = .draft)
    (hnew : d.vote v.id = none) : VotesInv (d.insertVote v) where
  closed hclosed := absurd hclosed hopen
  planned hplanned w hw := by
    rcases mem_append.mp hw with hold | hlast
    · exact h.planned hplanned w hold
    · rw [mem_singleton.mp hlast, hdraft]
      decide
  keyed := by
    have hfree : v.id ∉ d.votes.map (·.id) := by
      intro hmem
      obtain ⟨w, hw, hid⟩ := mem_map.mp hmem
      have := find?_eq_none.mp hnew w hw
      simp [hid] at this
    rw [Db.insertVote, map_append, map_singleton, ← concat_eq_append]
    exact h.keyed.concat hfree

theorem prepareVote_matched (v : Uuid) (eligible : Option Uuid) (closesAt : Option Time) :
    Keeps statuses (.prepareVote v eligible closesAt) (prepareVote v eligible closesAt) := by
  intro d _
  rw [prepareVote, wp_do]
  refine wp_lockLiveMeeting fun e _ hopen _ => ?_
  rw [wp_do, wp_lockRow]
  intro f hrely _
  simp only [wp_do, wp_require]
  intro hnone
  rw [wp_update, wp_publish]
  intro g hrely' hinv
  have hstatus : g.status = e.status :=
    (hrely'.status (by simp)).trans (hrely.status mem_cons_self)
  have hfree : g.vote v = none := by
    rw [hrely'.vote v mem_cons_self]
    exact Option.isNone_iff_eq_none.mp hnone
  refine ⟨VotesInv.insert hinv (hstatus ▸ hopen) rfl hfree, ⟨fun _ => rfl, fun hout => absurd (by simp) hout, ?_⟩, trivial⟩
  intro id hid
  have hne : v ≠ id := fun h => hid (h ▸ mem_cons_self)
  show (g.votes ++ [_]).find? _ = g.votes.find? _
  simp [find?_append, hne]

theorem setVote_keys (v : Uuid) (s : VoteStatus) (d : Db) : (d.setVote v s).votes.map (·.id) = d.votes.map (·.id) := by
  rw [Db.setVote, Table.modify, map_map]
  refine map_congr_left fun row _ => ?_
  simp only [Function.comp_apply]
  split <;> rfl

theorem setVote_commit {v : Uuid} {s : VoteStatus} (hinv : VotesInv d) (hvote : .vote v ∈ held)
    (hopen : s.active = true → .meeting ∈ held ∧ d.status = .live) :
    VotesInv (d.setVote v s) ∧ statuses.guar r held d (d.setVote v s) := by
  have hcases : ∀ w ∈ (d.setVote v s).votes, w ∈ d.votes ∨ w.status = s := fun w hw => mem_setVote hw
  refine ⟨⟨⟨fun hclosed w hw => ?_, fun hplanned w hw => ?_⟩, ?_⟩, fun _ => rfl, fun hout w hw hactive => ?_, fun id hid => ?_⟩
  · have hclosed : d.status = .closed := hclosed
    rcases hcases w hw with hold | hnew
    · exact hinv.closed hclosed w hold
    · rw [hnew]
      have hs : s.active ≠ true := fun hactive => by
        rw [(hopen hactive).2] at hclosed
        cases hclosed
      constructor
      · rintro rfl
        exact hs rfl
      · rintro rfl
        exact hs rfl
  · have hplanned : d.status = .planned := hplanned
    rcases hcases w hw with hold | hnew
    · exact hinv.planned hplanned w hold
    · rintro hw'
      have hactive : s.active = true := by simp [VoteStatus.active, ← hnew, hw']
      rw [(hopen hactive).2] at hplanned
      cases hplanned
  · rw [setVote_keys]
    exact hinv.keyed
  · rcases hcases w hw with hold | hnew
    · exact ⟨w, hold, rfl, rfl⟩
    · exact absurd (hopen (hnew ▸ hactive)).1 hout
  · rw [vote_setVote, if_neg fun h : id = v => hid (h ▸ hvote)]

theorem openVote_matched (v : Uuid) (refused : Option Problem) :
    Keeps statuses (.openVote v refused) (openVote v refused) := by
  intro d _
  unfold openVote
  rw [wp_do]
  refine wp_lockLiveMeeting fun e _ _ hlive => ?_
  rw [wp_do]
  refine wp_lockVote (fun _ => rfl) fun f vote hrely _ _ => ?_
  rw [wp_do, wp_require]
  intro _
  cases refused with
  | some problem => trivial
  | none =>
    rw [wp_do, wp_update, wp_publish]
    intro g hrely' hinv
    have hstatus : g.status = .live :=
      (hrely'.status (by simp)).trans ((hrely.status mem_cons_self).trans (hlive rfl))
    obtain ⟨hafter, hguar⟩ : VotesInv (g.setVote v .open) ∧
        statuses.guar (.openVote v none) [.vote v, .meeting] g (g.setVote v .open) :=
      setVote_commit hinv mem_cons_self fun _ => ⟨by simp, hstatus⟩
    exact ⟨hafter, hguar, trivial⟩

theorem endVote_matched (v : Uuid) {s : VoteStatus} (hs : s.active = false) (verb : Text) :
    Keeps statuses r (endVote v s verb) := by
  intro d _
  rw [endVote, wp_do]
  refine wp_lockVote (fun _ => rfl) fun e vote _ _ _ => ?_
  rw [wp_do, wp_require]
  intro _
  rw [wp_do, wp_update, wp_publish]
  intro f _ hinv
  obtain ⟨hafter, hguar⟩ : VotesInv (f.setVote v s) ∧ statuses.guar r [.vote v] f (f.setVote v s) :=
    setVote_commit hinv mem_cons_self fun hactive => by
      rw [hs] at hactive
      cases hactive
  exact ⟨hafter, hguar, trivial⟩

def cancelAll (ids : List Uuid) (d : Db) : Db :=
  { d with votes := d.votes.map fun v => if v.id ∈ ids then { v with status := .cancelled } else v }

theorem setVote_cancelAll (id : Uuid) (ids : List Uuid) (d : Db) :
    (cancelAll ids d).setVote id .cancelled = cancelAll (id :: ids) d := by
  simp only [Db.setVote, Table.modify, cancelAll, map_map]
  congr 1
  refine map_congr_left fun v _ => ?_
  simp only [Function.comp_apply, mem_cons]
  by_cases hids : v.id ∈ ids
  · have hor : v.id = id ∨ v.id ∈ ids := .inr hids
    rw [if_pos hids, if_pos hor]
    split <;> rfl
  · rw [if_neg hids]
    by_cases hid : v.id = id
    · have hor : v.id = id ∨ v.id ∈ ids := .inl hid
      rw [if_pos hid, if_pos hor]
    · have hnor : ¬ (v.id = id ∨ v.id ∈ ids) := by simp [hid, hids]
      rw [if_neg hid, if_neg hnor]

theorem cancelAll_active {ids : List Uuid} {v : Vote} (hv : v ∈ (cancelAll ids d).votes) (hactive : v.status.active = true) :
    v ∈ d.votes ∧ v.id ∉ ids := by
  obtain ⟨w, hw, rfl⟩ := mem_map.mp hv
  by_cases hids : w.id ∈ ids
  · rw [if_pos hids] at hactive
    cases hactive
  · rw [if_neg hids]
    exact ⟨hw, hids⟩

theorem cancelAll_vote {ids : List Uuid} {id : Uuid} (h : id ∉ ids) : (cancelAll ids d).vote id = d.vote id := by
  rw [Db.vote, cancelAll, find?_map]
  have hkeys : (fun v : Vote => decide (v.id = id)) ∘ (fun v : Vote => if v.id ∈ ids then { v with status := .cancelled } else v) =
      fun v : Vote => decide (v.id = id) := by
    funext v
    simp only [Function.comp_apply]
    split <;> rfl
  rw [hkeys, Db.vote]
  cases hfind : d.votes.find? fun v => decide (v.id = id) with
  | none => rfl
  | some v =>
    have hid : v.id = id := by simpa using find?_some hfind
    rw [Option.map_some, if_neg (hid ▸ h)]

/-- Under the lock of the live meeting no vote is open, and each draft is cancelled or
still to come. -/
structure Ending (left : List Uuid) (l : Loc Db Key) (d : Db) : Prop where
  pending : ∃ ids, l.pend = cancelAll ids ∧ (∀ id ∈ ids, .vote id ∈ l.held) ∧
    ∀ v ∈ d.votes, v.status = .draft → v.id ∈ ids ∨ v.id ∈ left
  locked : .meeting ∈ l.held
  closed : d.status ≠ .closed
  opened : ∀ v ∈ d.votes, v.status ≠ .open

theorem Ending.rely {left : List Uuid} (h : Ending left l d) (hrely : statuses.rely l.held d e) : Ending left l e := by
  obtain ⟨⟨ids, hpend, hheld, hdrafts⟩, hlock, hclosed, hopened⟩ := h
  refine ⟨⟨ids, hpend, hheld, fun v hv hdraft => ?_⟩, hlock, hrely.status hlock ▸ hclosed, fun v hv hopen => ?_⟩
  · obtain ⟨w, hw, hid, hstatus⟩ := hrely.active hlock v hv (by simp [hdraft, VoteStatus.active])
    exact hid ▸ hdrafts w hw (hstatus.trans hdraft)
  · obtain ⟨w, hw, _, hstatus⟩ := hrely.active hlock v hv (by simp [hopen, VoteStatus.active])
    exact hopened w hw (hstatus.trans hopen)

theorem wp_cancelDrafts_ending (h : Ending (d.votes.map (·.id)) l d) (hnone : l.pend = id) :
    wp statuses r cancelDrafts (fun _ l d => Ending [] l d) l d := by
  rw [cancelDrafts, wp_do, wp_query]
  intro e hrely hinv
  have hstart : Ending ((e.votes.filter (·.status = .draft)).map (·.id)) l e := by
    obtain ⟨_, hlock, hclosed, hopened⟩ := h.rely hrely
    refine ⟨⟨[], ?_, by simp, fun v hv hdraft => .inr ?_⟩, hlock, hclosed, hopened⟩
    · rw [hnone]
      funext x
      simp [cancelAll]
    · exact mem_map_of_mem (mem_filter.mpr ⟨hv, by simpa using hdraft⟩)
  rw [hnone]
  refine wp_forEach _ Ending (fun id left l d h => ?_) _ hstart
  rw [wp_do, wp_lockRow]
  intro f hrely' hinv'
  obtain ⟨⟨ids, hpend, hheld, hdrafts⟩, hlock, hclosed, hopened⟩ := h.rely hrely'
  dsimp only
  rw [hpend]
  split
  next hdraft =>
    refine ⟨⟨id :: ids, ?_, ?_, fun v hv hd => ?_⟩, mem_cons_of_mem _ hlock, hclosed, hopened⟩
    · funext x
      exact setVote_cancelAll id ids x
    · rintro id' hid'
      rcases mem_cons.mp hid' with rfl | hid'
      · exact mem_cons_self
      · exact mem_cons_of_mem _ (hheld id' hid')
    · rcases hdrafts v hv hd with hin | hleft
      · exact .inl (mem_cons_of_mem _ hin)
      · rcases mem_cons.mp hleft with hid' | hleft
        · exact .inl (hid' ▸ mem_cons_self)
        · exact .inr hleft
  next hdraft =>
    refine ⟨⟨ids, rfl, fun id' hid' => mem_cons_of_mem _ (hheld id' hid'), fun v hv hd => ?_⟩,
      mem_cons_of_mem _ hlock, hclosed, hopened⟩
    rcases hdrafts v hv hd with hin | hleft
    · exact .inl hin
    · rcases mem_cons.mp hleft with hid' | hleft
      · -- the row is the draft that the lookup finds
        left
        by_contra hout
        subst hid'
        rw [cancelAll_vote hout, Db.vote, Table.find_of_mem hinv'.keyed hv rfl] at hdraft
        simp [hd] at hdraft
      · exact .inr hleft

/-- The close publishes no prepared and no open vote. -/
theorem Ending.commit (h : Ending [] l d) (hinv : VotesInv d) :
    VotesInv ((l.pend d).setStatus .closed) ∧ statuses.guar r l.held d ((l.pend d).setStatus .closed) := by
  obtain ⟨⟨ids, hpend, hheld, hdrafts⟩, hlock, _, hopened⟩ := h
  rw [hpend]
  have hnone : ∀ v ∈ (cancelAll ids d).votes, v.status.active ≠ true := by
    intro v hv hactive
    obtain ⟨hold, hout⟩ := cancelAll_active hv hactive
    simp only [VoteStatus.active, Bool.or_eq_true, decide_eq_true_eq] at hactive
    rcases hactive with hdraft | hopen
    · rcases hdrafts v hold hdraft with hin | hleft
      · exact hout hin
      · cases hleft
    · exact hopened v hold hopen
  refine ⟨⟨⟨fun _ v hv => ⟨fun hdraft => ?_, fun hopen => ?_⟩, fun hplanned => by cases hplanned⟩, ?_⟩,
    fun hout => absurd hlock hout, fun hout => absurd hlock hout, fun id hid => ?_⟩
  · exact hnone v hv (by simp [hdraft, VoteStatus.active])
  · exact hnone v hv (by simp [hopen, VoteStatus.active])
  · have hkeys : (cancelAll ids d).votes.map (·.id) = d.votes.map (·.id) := by
      rw [cancelAll, map_map]
      refine map_congr_left fun v _ => ?_
      simp only [Function.comp_apply]
      split <;> rfl
    show ((cancelAll ids d).votes.map (·.id)).Nodup
    rw [hkeys]
    exact hinv.keyed
  · exact cancelAll_vote fun hin => hid (hheld id hin)

theorem patch_matched (p : StatusPatch) : Keeps statuses (.patch p) (patch p) := by
  intro d _
  rw [patch, wp_do, wp_lockRow]
  intro e _ _
  dsimp only
  rw [wp_do, wp_require]
  intro _
  split
  case isFalse =>
    rw [wp_publish]
    exact fun f _ hinv => ⟨hinv, ⟨fun _ => rfl, fun _ v hv _ => ⟨v, hv, rfl, rfl⟩, fun _ _ => rfl⟩, trivial⟩
  case isTrue hchange =>
    rw [wp_do, wp_require]
    intro hallowed
    have hallowed : allowedTransition e.status p.status = true := hallowed
    split
    case isTrue hclosing =>
      rw [wp_do, wp_query]
      intro f hrely _
      rw [wp_do, wp_require]
      intro hvotes
      have hvotes : (!f.votes.any (·.status = .open)) = true := hvotes
      simp only [Bool.not_eq_true', any_eq_false, decide_eq_true_eq] at hvotes
      have hending : Ending (f.votes.map (·.id)) ⟨id, [.meeting]⟩ f := by
        refine ⟨⟨[], ?_, by simp, fun v hv _ => .inr (mem_map_of_mem hv)⟩, mem_cons_self, ?_, hvotes⟩
        · funext x
          simp [cancelAll]
        · rw [hrely.status mem_cons_self]
          exact source_of_allowed hallowed
      rw [wp_do]
      refine wp_mono (fun _ l d h => ?_) (wp_cancelDrafts_ending hending rfl)
      rw [hclosing, wp_do, wp_update, wp_publish]
      intro g hrely' hinv'
      obtain ⟨hafter, hguar⟩ := (Ending.rely h hrely').commit (r := .patch p) hinv'
      exact ⟨hafter, hguar, trivial⟩
    case isFalse hopening =>
      have hlive := live_of_allowed hallowed hopening
      rw [wp_do, refuseStart]
      split
      · trivial
      · rw [hlive, wp_return, wp_do, wp_update, wp_publish]
        intro f hrely hinv
        refine ⟨⟨⟨?_, ?_⟩, hinv.keyed⟩, ⟨fun hout => absurd mem_cons_self hout,
          fun _ v hv _ => ⟨v, hv, rfl, rfl⟩, fun _ _ => rfl⟩, trivial⟩
        · intro h
          cases h
        · intro h
          cases h

theorem script_matched (r : Request) : Keeps statuses r (script r) := by
  have hinsert : ∀ g, VotesApart (Db.insertDelegation g) := fun _ _ => ⟨rfl, rfl⟩
  have hballot : ∀ vote voter choice, VotesApart (Db.insertBallot vote voter choice) := fun _ _ _ _ => ⟨rfl, rfl⟩
  cases r with
  | setSelf s => exact keeps_of_apart (setSelf_writes apart_rows trivial s)
  | setFor s => exact keeps_of_apart (setFor_writes apart_rows trivial s)
  | reset s => exact keeps_of_apart (reset_writes apart_rows trivial s)
  | cast c => exact keeps_of_apart (cast_writes trivial apart_rows hinsert hballot c)
  | create c => exact keeps_of_apart (create_writes trivial hinsert c)
  | createByLead c => exact keeps_of_apart (createByLead_writes trivial hinsert c)
  | revoke v => exact keeps_of_apart (revoke_writes apart_rows trivial v)
  | patch p => exact patch_matched p
  | prepareVote v eligible closesAt => exact prepareVote_matched v eligible closesAt
  | openVote v refused => exact openVote_matched v refused
  | closeVote v => exact endVote_matched v rfl (text "close")
  | cancelVote v => exact endVote_matched v rfl (text "cancel")

/-- In every committed state of a run no vote of a closed meeting is prepared or open,
and no vote of a planned meeting is open. -/
theorem statuses_match {d : Db} (hkeys : (d.votes.map (·.id)).Nodup) (hd : Matched d) {s : Sys Request Db Key Problem}
    (hs : Reachable script d s) :
    (s.db.status = .closed → ∀ v ∈ s.db.votes, v.status ≠ .draft ∧ v.status ≠ .open) ∧
    (s.db.status = .planned → ∀ v ∈ s.db.votes, v.status ≠ .open) := by
  have hinv : VotesInv s.db := (run_sound script_matched ⟨hd, hkeys⟩ hs).inv
  exact ⟨hinv.closed, hinv.planned⟩

/-- A vote that is prepared and one that is open when the meeting closes: the first close
is refused, the second one cancels the draft, and the create that waited is refused. -/
def racedClose : List (Event Request) :=
  alone (.prepareVote 8 (some 7) none) 0 4 ++ alone startMeeting 1 3 ++ alone (.prepareVote 9 (some 7) none) 2 4 ++
    alone (.openVote 9 none) 3 4 ++ alone closeMeeting 4 3 ++ alone (.closeVote 9) 5 3 ++
    alone closeMeeting 6 4 ++ [.start (.prepareVote 10 (some 7) none)] ++ goesOn 6 3 ++ goesOn 7 2

def unvotedMeeting : Db := { plannedMeeting with votes := [] }

theorem unvotedMeeting_matched : Matched unvotedMeeting where
  closed _ v hv := by cases hv
  planned _ v hv := by cases hv

theorem racedClose_matches :
    ∃ s, run script ⟨unvotedMeeting, []⟩ racedClose = some s ∧ s.db.status = .closed ∧
      s.db.votes.map (fun v => (v.id, v.status)) = [(8, .cancelled), (9, .closed)] ∧
      ∀ v ∈ s.db.votes, v.status ≠ .draft ∧ v.status ≠ .open := by
  have hrun : (run script ⟨unvotedMeeting, []⟩ racedClose).map
      (fun s => (s.db.status, s.db.votes.map fun v => (v.id, v.status))) =
        some (.closed, [(8, .cancelled), (9, .closed)]) := by decide +kernel
  obtain ⟨s, hs, heq⟩ := Option.map_eq_some_iff.mp hrun
  simp only [Prod.mk.injEq] at heq
  have hkeys : (unvotedMeeting.votes.map (·.id)).Nodup := nodup_nil
  exact ⟨s, hs, heq.1, heq.2, (statuses_match hkeys unvotedMeeting_matched ⟨racedClose, hs⟩).1 heq.1⟩

end Meeting

end Attendance
