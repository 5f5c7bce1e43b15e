import StupaWorkflow.StatusModel

/-!
What the transactions on an application and its votes rely on and guarantee: the holder
of the application row decides the next state, and a state change holds every vote that
may be open when it commits.
-/
namespace Status
open ReadCommitted List

section Rows

variable {d : Db}

theorem vote_map {f : Vote → Vote} (hid : ∀ v, (f v).id = v.id) (id : Uuid) :
    ({ d with votes := d.votes.map f } : Db).vote id = (d.vote id).map f := by
  have hkey : (fun v : Vote => decide (v.id = id)) ∘ f = fun v => decide (v.id = id) := by
    funext v
    simp [hid]
  rw [Db.vote, find?_map, hkey, Db.vote]

@[simp] theorem vote_move (m : Move) (id : Uuid) : (d.move m).vote id = d.vote id := rfl

theorem vote_mark (ids : List Uuid) (status : VoteStatus) (id : Uuid) :
    (d.mark ids status).vote id = (d.vote id).map fun v => if v.id ∈ ids then { v with status := status } else v :=
  vote_map (fun v => by split <;> rfl) id

theorem vote_startVote (id : Uuid) (visit : ℕ) (j : Uuid) :
    (d.startVote id visit).vote j =
      (d.vote j).map fun v => if v.id = id then { v with status := .running, openedIn := some visit } else v :=
  vote_map (fun v => by split <;> rfl) j

theorem of_vote {id : Uuid} {v : Vote} (h : d.vote id = some v) : v ∈ d.votes ∧ v.id = id := Table.of_find h

theorem vote_mark_of_notMem {ids : List Uuid} {status : VoteStatus} {id : Uuid} (h : id ∉ ids) :
    (d.mark ids status).vote id = d.vote id := by
  rw [vote_mark]
  cases hv : d.vote id with
  | none => rfl
  | some v => rw [Option.map_some, if_neg ((of_vote hv).2 ▸ h)]

theorem vote_startVote_of_ne {id : Uuid} {visit : ℕ} {j : Uuid} (h : j ≠ id) : (d.startVote id visit).vote j = d.vote j := by
  rw [vote_startVote]
  cases hv : d.vote j with
  | none => rfl
  | some v => rw [Option.map_some, if_neg ((of_vote hv).2 ▸ h)]

theorem map_ids {f : Vote → Vote} (hid : ∀ v, (f v).id = v.id) : (d.votes.map f).map Vote.id = d.votes.map Vote.id := by
  rw [map_map]
  exact map_congr_left fun v _ => hid v

end Rows

section Changes

inductive Change where
  | moved (m : Move) (orphans : List Uuid)
  | opened (id : Uuid) (visit : ℕ)
  | closed (id : Uuid) (m : Option Move)
  | cancelled (id : Uuid)

def Db.stage (d : Db) : Option Move → Db
  | none => d
  | some m => d.move m

def Db.apply (d : Db) : Change → Db
  | .moved m orphans => (d.move m).mark orphans .cancelled
  | .opened id visit => d.startVote id visit
  | .closed id m => (d.mark [id] .closed).stage m
  | .cancelled id => d.mark [id] .cancelled

def Db.Has (d : Db) (id : Uuid) (status : VoteStatus) : Prop := ∃ v, d.vote id = some v ∧ v.status = status

def Legal (d : Db) : Change → Prop
  | .moved m orphans => d.app.state = some m.source ∧ m.vote = none ∧
      (∀ id ∈ orphans, ∃ v, d.vote id = some v ∧ v.pending) ∧ ∀ id, d.Has id .running → id ∈ orphans
  | .opened id _ => d.Has id .draft
  | .closed id m => d.Has id .running ∧ ∀ n ∈ m, d.app.state = some n.source ∧ n.vote = some id
  | .cancelled id => d.Has id .running

def Change.footprint : Change → List Key
  | .moved _ orphans => .application :: orphans.map .vote
  | .opened id _ => [.vote id]
  | .closed id m => .vote id :: m.toList.map fun _ => .application
  | .cancelled id => [.vote id]

def Makes : Request → Change → Prop
  | .fire .., .moved .. => True
  | .advance .., .moved .. => True
  | .force .., .moved .. => True
  | .revert .., .moved .. => True
  | .openVote id _, .opened id' _ => id' = id
  | .closeVote c, .closed id _ => id = c.vote
  | .cancelVote id, .cancelled id' => id' = id
  | _, _ => False

/-- What the others leave alone: the locked rows, and the votes that have ended. -/
structure Rely (held : List Key) (d e : Db) : Prop where
  app : .application ∈ held → e.app = d.app ∧ e.events = d.events
  ids : e.votes.map Vote.id = d.votes.map Vote.id
  vote : ∀ id, .vote id ∈ held → e.vote id = d.vote id
  ended : ∀ id v, d.vote id = some v → v.pending = false → e.vote id = some v

def Guar (r : Request) (held : List Key) (d e : Db) : Prop :=
  ∃ c, e = d.apply c ∧ Legal d c ∧ Makes r c ∧ ∀ k ∈ c.footprint, k ∈ held

variable {d e f : Db} {held : List Key}
variable {c : Change}

theorem Rely.refl (held : List Key) (d : Db) : Rely held d d := ⟨fun _ => ⟨rfl, rfl⟩, rfl, fun _ _ => rfl, fun _ _ h _ => h⟩

theorem Rely.trans (h : Rely held d e) (h' : Rely held e f) : Rely held d f where
  app hk := ⟨(h'.app hk).1.trans (h.app hk).1, (h'.app hk).2.trans (h.app hk).2⟩
  ids := h'.ids.trans h.ids
  vote id hk := (h'.vote id hk).trans (h.vote id hk)
  ended id v hv hend := h'.ended id v (h.ended id v hv hend) hend

theorem apply_ids (c : Change) : (d.apply c).votes.map Vote.id = d.votes.map Vote.id := by
  cases c with
  | moved m orphans => exact map_ids fun v => by split <;> rfl
  | opened id visit => exact map_ids fun v => by split <;> rfl
  | closed id m =>
    cases m with
    | none => exact map_ids fun v => by split <;> rfl
    | some m => exact map_ids fun v => by split <;> rfl
  | cancelled id => exact map_ids fun v => by split <;> rfl

theorem apply_app (h : .application ∉ c.footprint) : (d.apply c).app = d.app ∧ (d.apply c).events = d.events := by
  cases c with
  | moved m orphans => exact absurd mem_cons_self h
  | opened id visit => exact ⟨rfl, rfl⟩
  | closed id m =>
    cases m with
    | none => exact ⟨rfl, rfl⟩
    | some m => exact absurd (by simp [Change.footprint]) h
  | cancelled id => exact ⟨rfl, rfl⟩

theorem vote_stage (m : Option Move) (id : Uuid) : (d.stage m).vote id = d.vote id := by
  cases m <;> rfl

theorem apply_vote {id : Uuid} (h : .vote id ∉ c.footprint) : (d.apply c).vote id = d.vote id := by
  cases c with
  | moved m orphans => exact vote_mark_of_notMem fun hmem => h (mem_cons_of_mem _ (mem_map_of_mem hmem))
  | opened j visit => exact vote_startVote_of_ne fun heq => h (by simp [Change.footprint, heq])
  | closed j m =>
    rw [Db.apply, vote_stage]
    exact vote_mark_of_notMem fun hmem => h (by simp [Change.footprint, mem_singleton.mp hmem])
  | cancelled j => exact vote_mark_of_notMem fun hmem => h (by simp [Change.footprint, mem_singleton.mp hmem])

/-- A change touches votes that have not ended. -/
theorem Legal.pending (h : Legal d c) {id : Uuid} (hk : .vote id ∈ c.footprint) {v : Vote} (hv : d.vote id = some v) :
    v.pending := by
  have hof {status : VoteStatus} (hhas : d.Has id status) (hstatus : status = .running ∨ status = .draft) : v.pending := by
    obtain ⟨w, hw, hws⟩ := hhas
    rw [hv, Option.some_inj] at hw
    subst hw
    rw [Vote.pending, hws]
    rcases hstatus with rfl | rfl <;> rfl
  cases c with
  | moved m orphans =>
    obtain ⟨j, hj, heq⟩ := mem_map.mp ((mem_cons.mp hk).resolve_left nofun)
    cases heq
    obtain ⟨w, hw, hpending⟩ := h.2.2.1 _ hj
    rw [hv, Option.some_inj] at hw
    exact hw ▸ hpending
  | opened j visit =>
    cases mem_singleton.mp hk
    exact hof h (.inr rfl)
  | closed j m =>
    rcases mem_cons.mp hk with heq | hmem
    · cases heq
      exact hof h.1 (.inl rfl)
    · obtain ⟨_, _, heq⟩ := mem_map.mp hmem
      cases heq
  | cancelled j =>
    cases mem_singleton.mp hk
    exact hof h (.inl rfl)

theorem guar_rely {r : Request} {other : List Key} (h : Guar r held d e) (hapart : Apart other held) : Rely other d e := by
  obtain ⟨c, rfl, hlegal, -, hheld⟩ := h
  have hfoot {k : Key} (hk : k ∈ other) : k ∉ c.footprint := fun hmem => hapart.not_mem hk (hheld k hmem)
  refine ⟨fun hk => apply_app (hfoot hk), apply_ids c, fun id hk => apply_vote (hfoot hk), fun id v hv hend => ?_⟩
  rw [apply_vote, hv]
  intro hmem
  rw [hlegal.pending hmem hv] at hend
  cases hend

def contract : Contract Request Db Key where
  inv d := (d.votes.map Vote.id).Nodup
  rely := Rely
  guar := Guar
  refl := Rely.refl
  trans := Rely.trans
  compat _ h hapart := guar_rely h hapart

end Changes

section Scripts

variable {G : Graph} {r : Request} {l : Loc Db Key} {d : Db}

theorem publish_staged {c : Change} (hmakes : Makes r c) (hpend : l.pend = fun d => d.apply c)
    (hheld : ∀ k ∈ c.footprint, k ∈ l.held) (hlegal : ∀ e, Rely l.held d e → (contract.inv e) → Legal e c) :
    wp contract r (Prog.publish : Prog Db Key Problem Unit) (fun _ _ _ => True) l d := by
  rw [wp_publish]
  intro e hrely hinv
  refine ⟨?_, ⟨c, by rw [hpend], hlegal e hrely hinv, hmakes, hheld⟩, trivial⟩
  show ((l.pend e).votes.map Vote.id).Nodup
  rw [hpend, apply_ids]
  exact hinv

theorem Rely.has {held : List Key} {e : Db} (h : Rely held d e) {id : Uuid} (hk : .vote id ∈ held) {status : VoteStatus}
    (hhas : d.Has id status) : e.Has id status := by
  obtain ⟨v, hv, hstatus⟩ := hhas
  exact ⟨v, (h.vote id hk).trans hv, hstatus⟩

theorem wp_getVoteForUpdate {id : Uuid} {Q : Vote → Loc Db Key → Db → Prop}
    (h : ∀ e v, Rely l.held d e → (contract.inv e) → (l.pend e).vote id = some v → Q v ⟨l.pend, .vote id :: l.held⟩ e) :
    wp contract r (getVoteForUpdate id) Q l d := by
  rw [getVoteForUpdate, wp_do, wp_lockRow]
  intro e hrely hinv
  cases hv : (l.pend e).vote id with
  | none => simp
  | some v =>
    simp only [Option.map_some, wp_ofOption]
    rintro _ ⟨⟩
    exact h e v hrely hinv hv

theorem wpOr_writeMove {problem : Problem} {read : Application} {target : Option State} {m : Move}
    {Q : Unit → Loc Db Key → Db → Prop} {E : Problem → Loc Db Key → Db → Prop} (happ : ∀ e, (l.pend e).app = e.app)
    (hE : ∀ e, Rely l.held d e → (contract.inv e) → E problem l e)
    (hQ : ∀ e, Rely l.held d e → (contract.inv e) → e.app.state = some m.source →
      Q () ⟨Db.move m ∘ l.pend, .application :: l.held⟩ e) :
    wpOr contract r (writeMove problem read target m) Q E l d := by
  rw [writeMove, wpOr_do, wpOr_lockRow]
  intro e hrely hinv
  cases hu : unchanged read m.source target e.app with
  | false => simpa [happ, hu] using hE e hrely hinv
  | true =>
    have hstate : e.app.state = some m.source := by
      rw [unchanged, Bool.and_eq_true, beq_iff_eq] at hu
      exact hu.1
    simpa [happ, hu] using hQ e hrely hinv hstate

theorem wp_writeMove {problem : Problem} {read : Application} {target : Option State} {m : Move}
    {Q : Unit → Loc Db Key → Db → Prop} (happ : ∀ e, (l.pend e).app = e.app)
    (hQ : ∀ e, Rely l.held d e → (contract.inv e) → e.app.state = some m.source →
      Q () ⟨Db.move m ∘ l.pend, .application :: l.held⟩ e) :
    wp contract r (writeMove problem read target m) Q l d := by
  rw [writeMove, wp_do, wp_lockRow]
  intro e hrely hinv
  cases hu : unchanged read m.source target e.app with
  | false => simp [happ, hu]
  | true =>
    have hstate : e.app.state = some m.source := by
      rw [unchanged, Bool.and_eq_true, beq_iff_eq] at hu
      exact hu.1
    simpa [happ, hu] using hQ e hrely hinv hstate

/-- The votes that a locking SELECT still has to visit, beside the ones that it holds. -/
structure Collecting (m : Move) (rest : List Uuid) (rows : List Vote) (l : Loc Db Key) (d : Db) : Prop where
  pend : l.pend = Db.move m
  app : .application ∈ l.held
  state : d.app.state = some m.source
  got : ∀ v ∈ rows, .vote v.id ∈ l.held ∧ d.vote v.id = some v ∧ v.pending
  all : ∀ id v, d.vote id = some v → v.pending → v ∈ rows ∨ id ∈ rest

theorem Collecting.later {m : Move} {rest : List Uuid} {rows : List Vote} {e : Db} (h : Collecting m rest rows l d)
    (hrely : Rely l.held d e) : Collecting m rest rows l e where
  pend := h.pend
  app := h.app
  state := by rw [(hrely.app h.app).1, h.state]
  got v hv := by
    obtain ⟨hheld, hrow, hpending⟩ := h.got v hv
    exact ⟨hheld, (hrely.vote v.id hheld).trans hrow, hpending⟩
  all id v hv hpending := by
    -- a vote that may be open now was not over when the row was read
    have hmem : id ∈ d.votes.map Vote.id := by
      rw [← hrely.ids]
      exact (of_vote hv).2 ▸ mem_map_of_mem (of_vote hv).1
    cases hw : d.vote id with
    | none =>
      obtain ⟨w, hw', hid⟩ := mem_map.mp hmem
      have := find?_eq_none.mp hw w hw'
      simp [hid] at this
    | some w =>
      cases hpw : w.pending with
      | false =>
        rw [hrely.ended id w hw hpw, Option.some_inj] at hv
        rw [hv, hpending] at hpw
        cases hpw
      | true =>
        rcases h.all id w hw hpw with hrow | hrest
        · left
          obtain ⟨hheld, hrow', -⟩ := h.got w hrow
          rw [(of_vote hw).2] at hheld
          rw [hrely.vote id hheld, hw, Option.some_inj] at hv
          exact hv ▸ hrow
        · exact .inr hrest

theorem lockPending_collects {m : Move} (id : Uuid) (rest : List Uuid) (rows : List Vote)
    (h : Collecting m (id :: rest) rows l d) :
    wp contract r (lockPending id) (fun x l d => Collecting m rest (rows ++ x.toList) l d) l d := by
  rw [lockPending, wp_do, wp_lockRow]
  intro e hrely hinv
  have h := h.later hrely
  have hview : (l.pend e).vote id = e.vote id := by rw [h.pend, vote_move]
  cases hx : (e.vote id).filter (·.pending) with
  | none =>
    simp only [hview, hx, Option.map_none, wp_return, Option.toList_none, append_nil]
    refine ⟨h.pend, h.app, h.state, h.got, fun j v hv hpending => ?_⟩
    rcases h.all j v hv hpending with hrow | hrest
    · exact .inl hrow
    · rcases mem_cons.mp hrest with rfl | hrest
      · rw [hv, Option.filter_some, if_pos hpending] at hx
        cases hx
      · exact .inr hrest
  | some v =>
    obtain ⟨hv, hpending⟩ := Option.filter_eq_some_iff.mp hx
    simp only [hview, hx, Option.map_some, wp_return, Option.toList_some]
    refine ⟨h.pend, mem_cons_of_mem _ h.app, h.state, ?_, fun j w hw hpw => ?_⟩
    · intro w hw
      rcases mem_append.mp hw with hold | hnew
      · obtain ⟨hheld, hrow⟩ := h.got w hold
        exact ⟨mem_cons_of_mem _ hheld, hrow⟩
      · rw [mem_singleton.mp hnew, (of_vote hv).2]
        exact ⟨mem_cons_self, hv, hpending⟩
    · rcases h.all j w hw hpw with hrow | hrest
      · exact .inl (mem_append_left _ hrow)
      · rcases mem_cons.mp hrest with rfl | hrest
        · rw [hv, Option.some_inj] at hw
          exact .inl (mem_append_right _ (mem_singleton.mpr hw.symm))
        · exact .inr hrest

theorem cancelForApplication_publishes {m : Move} {left entered : Uuid} (hmakes : ∀ orphans, Makes r (.moved m orphans))
    (hvote : m.vote = none) (hpend : l.pend = Db.move m) (happ : .application ∈ l.held)
    (hstate : d.app.state = some m.source) :
    wp contract r (cancelForApplication G left entered)
      (fun _ l d => wp contract r (Prog.publish : Prog Db Key Problem Unit) (fun _ _ _ => True) l d) l d := by
  rw [cancelForApplication, wp_do, wp_query]
  intro e hrely hinv
  have hstart : Collecting m (((l.pend e).votes.filter (·.pending)).map (·.id)) [] l e := by
    refine ⟨hpend, happ, by rw [(hrely.app happ).1, hstate], by simp, fun id v hv hpending => .inr ?_⟩
    rw [hpend]
    have hmem : v ∈ e.votes.filter (·.pending) := mem_filter.mpr ⟨(of_vote hv).1, hpending⟩
    exact (of_vote hv).2 ▸ mem_map_of_mem hmem
  rw [wp_do]
  refine wp_mono (fun rows l d h => ?_) (wp_collect _ (Collecting m)
    (fun id rest rows l d h => lockPending_collects id rest rows h) _ _ hstart)
  rw [wp_update]
  refine publish_staged (hmakes _) (by rw [h.pend]; rfl) ?_ fun e hrely hinv => ?_
  · intro k hk
    rcases mem_cons.mp hk with rfl | hk
    · exact h.app
    · obtain ⟨id, hid, rfl⟩ := mem_map.mp hk
      obtain ⟨v, hv, rfl⟩ := mem_map.mp hid
      exact (h.got v (mem_filter.mp hv).1).1
  · have h := h.later hrely
    refine ⟨h.state, hvote, fun id hid => ?_, fun id ⟨v, hv, hrunning⟩ => ?_⟩
    · obtain ⟨v, hv, rfl⟩ := mem_map.mp hid
      obtain ⟨-, hrow, hpending⟩ := h.got v (mem_filter.mp hv).1
      exact ⟨v, hrow, hpending⟩
    · -- an open vote is orphaned in any case
      have hgot := (h.all id v hv (by rw [Vote.pending, hrunning]; rfl)).resolve_right not_mem_nil
      refine (of_vote hv).2 ▸ mem_map_of_mem (mem_filter.mpr ⟨hgot, ?_⟩)
      rw [orphaned, hrunning]
      rfl

theorem moves_publishes {problem : Problem} {read : Application} {target : Option State} {m : Move} {left entered : Uuid}
    (hmakes : ∀ orphans, Makes r (.moved m orphans)) (hvote : m.vote = none) :
    wp contract r (writeMove problem read target m) (fun _ l d => wp contract r (cancelForApplication G left entered)
      (fun _ l d => wp contract r (Prog.publish : Prog Db Key Problem Unit) (fun _ _ _ => True) l d) l d) .fresh d := by
  refine wp_writeMove (fun e => rfl) fun e hrely hinv hstate => ?_
  exact cancelForApplication_publishes hmakes hvote rfl mem_cons_self hstate

theorem stageFire_publishes {read : Application} {t : Transition} {manual : Bool} {answers : Answers}
    (hmakes : ∀ m orphans, Makes r (.moved m orphans)) (hbranch : manual = false → t.branch = none) :
    wp contract r (stageFire G read t manual answers none)
      (fun _ l d => wp contract r (Prog.publish : Prog Db Key Problem Unit) (fun _ _ _ => True) l d) .fresh d := by
  simp only [stageFire, wp_do, wp_require, wp_ofExcept]
  intro _ _ hmanual _ _ gremium _
  have hnone : t.branch = none := by
    cases manual with
    | false => exact hbranch rfl
    | true => simpa using hmanual
  simp only [cancelUnlessBranch, hnone]
  exact moves_publishes (hmakes _) rfl

theorem autoTransition_plain {a : Application} {answers : Answers} {t : Transition}
    (h : autoTransition G a answers = some t) : t.branch = none := by
  rw [autoTransition] at h
  split at h
  next => cases h
  next hplain =>
    obtain ⟨hmem, hout⟩ := mem_filter.mp (mem_of_find?_eq_some h)
    rw [Bool.and_eq_true, beq_iff_eq, beq_iff_eq] at hout
    cases hb : t.branch with
    | none => rfl
    | some b =>
      have hvote := G.branches t hmem (by rw [hb]; rfl)
      rw [← hout.2] at hplain
      exact absurd hvote hplain

theorem fire_keeps (id : Uuid) (answers : Answers) : Keeps contract (.fire id answers) (fire G id answers) := by
  intro d _
  simp only [fire, wp_do, wp_query, wp_ofOption]
  intro e _ _ t _
  exact stageFire_publishes (fun _ _ => trivial) fun h => Bool.noConfusion h

theorem autoAdvance_keeps (answers : Answers) : Keeps contract (.advance answers) (autoAdvance G answers) := by
  intro d _
  simp only [autoAdvance, wp_do, wp_query, wp_ofOption]
  intro e _ _ t ht
  exact stageFire_publishes (fun _ _ => trivial) fun _ => autoTransition_plain ht

theorem forceStatus_keeps (target : Uuid) (answers : Answers) :
    Keeps contract (.force target answers) (forceStatus G target answers) := by
  intro d _
  simp only [forceStatus, wp_do, wp_query, wp_require, wp_ofOption, wp_ofExcept]
  intro e _ _ _ source _ s _ _ gremium _
  exact moves_publishes (fun _ => trivial) rfl

theorem revertStatus_keeps (source target : Uuid) (answers : Answers) :
    Keeps contract (.revert source target answers) (revertStatus G source target answers) := by
  intro d _
  simp only [revertStatus, wp_do, wp_query, wp_require, wp_ofOption, wp_ofExcept]
  intro e _ _ _ _ restored _ gremium _
  exact moves_publishes (fun _ => trivial) rfl

theorem wp_lockLiveMeeting {meeting : Option Uuid} {live : Bool} {Q : Unit → Loc Db Key → Db → Prop} (hd : contract.inv d)
    (h : ∀ held e, (contract.inv e) → Q () ⟨l.pend, held⟩ e) : wp contract r (lockLiveMeeting meeting live) Q l d := by
  cases meeting with
  | none => exact h l.held d hd
  | some m =>
    rw [lockLiveMeeting, wp_bind, wp_lockRow]
    intro e _ hinv
    simp only [wp_require]
    exact fun _ => h _ e hinv

theorem openVote_keeps (id : Uuid) (live : Bool) : Keeps contract (.openVote id live) (openVote G id live) := by
  intro d hd
  simp only [openVote, wp_do, wp_query]
  intro e _ hinv
  refine wp_lockLiveMeeting hinv fun held e hinv => ?_
  refine wp_getVoteForUpdate fun e v hrely hinv hv => ?_
  simp only [wp_require, wp_update]
  intro hdraft e₁ hrely₁ _ _
  refine publish_staged (show Makes (.openVote id live) (.opened id _) from rfl) rfl (fun k hk => ?_) fun e₂ hrely₂ _ => ?_
  · exact mem_singleton.mp hk ▸ mem_cons_self
  have hhas : e.Has id .draft := ⟨v, hv, of_decide_eq_true hdraft⟩
  exact hrely₂.has mem_cons_self (hrely₁.has mem_cons_self hhas)

theorem cancelVote_keeps (id : Uuid) : Keeps contract (.cancelVote id) (cancelVote id) := by
  intro d hd
  simp only [cancelVote, wp_do]
  refine wp_getVoteForUpdate fun e v hrely hinv hv => ?_
  simp only [wp_require, wp_update]
  intro hrunning
  refine publish_staged (show Makes (.cancelVote id) (.cancelled id) from rfl) rfl (fun k hk => ?_) fun e₁ hrely₁ _ => ?_
  · exact mem_singleton.mp hk ▸ mem_cons_self
  exact hrely₁.has mem_cons_self ⟨v, hv, of_decide_eq_true hrunning⟩

theorem branchTransition_branch {a : Application} {branch : Branch} {t : Transition}
    (h : branchTransition G a branch = some t) : t.branch = some branch := by
  rw [branchTransition] at h
  simpa using find?_some h

section Close

variable {c : Close}

/-- The close is staged, and so may be the move that its branch makes. -/
structure Closing (c : Close) (m : Option Move) (l : Loc Db Key) (d : Db) : Prop where
  pend : l.pend = fun d => (d.mark [c.vote] .closed).stage m
  vote : .vote c.vote ∈ l.held
  running : d.Has c.vote .running
  move : ∀ n ∈ m, .application ∈ l.held ∧ d.app.state = some n.source ∧ n.vote = some c.vote

theorem Closing.later {m : Option Move} {e : Db} (h : Closing c m l d) (hrely : Rely l.held d e) : Closing c m l e where
  pend := h.pend
  vote := h.vote
  running := hrely.has h.vote h.running
  move n hn := by
    obtain ⟨happ, hstate, hvote⟩ := h.move n hn
    exact ⟨happ, by rw [(hrely.app happ).1, hstate], hvote⟩

theorem closing_publishes {m : Option Move} (h : Closing c m l d) :
    wp contract (.closeVote c) (Prog.publish : Prog Db Key Problem Unit) (fun _ _ _ => True) l d := by
  refine publish_staged (show Makes (.closeVote c) (.closed c.vote m) from rfl) h.pend ?_ fun e hrely _ => ?_
  · intro k hk
    rcases mem_cons.mp hk with rfl | hk
    · exact h.vote
    · obtain ⟨n, hn, rfl⟩ := mem_map.mp hk
      exact (h.move n (Option.mem_toList.mp hn)).1
  · have h := h.later hrely
    exact ⟨h.running, fun n hn => (h.move n hn).2⟩

theorem tryStage_publishes (h : Closing c none l d) :
    wpOr contract (.closeVote c) (tryStage G c)
      (fun _ l d => wp contract (.closeVote c) (Prog.publish : Prog Db Key Problem Unit) (fun _ _ _ => True) l d)
      (fun _ l d => wp contract (.closeVote c) (Prog.publish : Prog Db Key Problem Unit) (fun _ _ _ => True) l d) l d := by
  rw [tryStage, wpOr_do, wpOr_query]
  intro e hrely _
  have h := h.later hrely
  have happ : ∀ e, (l.pend e).app = e.app := fun e => by rw [h.pend]; rfl
  simp only [stageFire, wpOr_do, wpOr_ofOption, wpOr_require, wpOr_ofExcept]
  refine ⟨fun t ht => ?_, fun _ => closing_publishes h⟩
  have hbranch : t.branch.isSome := by
    rw [branchTransition_branch ht]
    rfl
  refine ⟨fun _ => ⟨fun _ => ⟨fun _ => ⟨fun _ => ⟨fun _ => ⟨fun gremium _ => ?_, ?_⟩, ?_⟩, ?_⟩, ?_⟩, ?_⟩, ?_⟩
  · refine wpOr_writeMove happ (fun e hrely _ => closing_publishes (h.later hrely)) fun e hrely _ hstate => ?_
    have h := h.later hrely
    rw [cancelUnlessBranch, if_pos hbranch, wpOr_pure]
    refine closing_publishes (m := some ⟨t.source, t.target, gremium, some t.id, some c.vote⟩)
      ⟨?_, mem_cons_of_mem _ h.vote, h.running, ?_⟩
    · rw [h.pend]
      rfl
    · rintro _ ⟨⟩
      exact ⟨mem_cons_self, hstate, rfl⟩
  · exact fun _ _ => closing_publishes h
  all_goals exact fun _ => closing_publishes h

theorem closeVote_keeps (c : Close) : Keeps contract (.closeVote c) (closeVote G c) := by
  intro d hd
  simp only [closeVote, wp_do]
  refine wp_getVoteForUpdate fun e v hrely hinv hv => ?_
  simp only [wp_require, wp_update]
  intro hrunning _
  have h : Closing c none ⟨Db.mark [c.vote] .closed, [.vote c.vote]⟩ e :=
    ⟨rfl, mem_cons_self, ⟨v, hv, of_decide_eq_true hrunning⟩, fun _ hn => absurd hn (Option.not_mem_none _)⟩
  rw [stageBranch, wp_do, wp_query]
  intro e₁ hrely₁ _
  have h := h.later hrely₁
  split
  · exact closing_publishes h
  · rw [wp_catchWith]
    exact tryStage_publishes h

end Close

theorem script_keeps (r : Request) : Keeps contract r (script G r) := by
  cases r with
  | fire transition answers => exact fire_keeps transition answers
  | advance answers => exact autoAdvance_keeps answers
  | force target answers => exact forceStatus_keeps target answers
  | revert source target answers => exact revertStatus_keeps source target answers
  | openVote vote live => exact openVote_keeps vote live
  | closeVote c => exact closeVote_keeps c
  | cancelVote vote => exact cancelVote_keeps vote

end Scripts

end Status
