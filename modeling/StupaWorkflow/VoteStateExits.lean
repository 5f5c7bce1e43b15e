import StupaWorkflow.StatusHistory

/-!
The votes of an application against the visits of its states.
-/
namespace Status
open ReadCommitted List

section Visits

/-- A vote is open only in the visit that it was opened in, and a vote fired its branch in that
visit, from the state that it was prepared for where it names one. -/
structure Settled (d : Db) : Prop where
  current : ∀ v ∈ d.votes, v.status = .running → v.openedIn = some d.visit
  fired : ∀ (n : ℕ) (ev : StatusEvent), d.events[n]? = some ev → ∀ id, ev.vote = some id →
    ∃ v ∈ d.votes, v.id = id ∧ v.status = .closed ∧ v.openedIn = some n ∧ ∀ s ∈ v.opensState, ev.source = some s

/-- An open commits in the visit that it read. A close that fires a branch closes the only open vote,
in the state that this vote was prepared for where it names one. -/
def InVisit (r : Request) (d e : Db) : Prop :=
  match r with
  | .openVote id _ => ∀ v ∈ e.votes, v.id = id → v.openedIn = some d.visit
  | .closeVote c => e.events ≠ d.events → ∀ v ∈ d.votes,
      (v.status = .running → v.id = c.vote) ∧ (v.id = c.vote → ∀ s ∈ v.opensState, d.app.state = some s)
  | _ => True

instance (r : Request) (d e : Db) : Decidable (InVisit r d e) := by
  unfold InVisit
  split <;> infer_instance

variable {d : Db}
variable {v : Vote} {ids : List Uuid} {status : VoteStatus}

theorem vote_of_mem (hids : (d.votes.map Vote.id).Nodup) (hv : v ∈ d.votes) : d.vote v.id = some v :=
  Table.find_of_mem hids hv rfl

theorem mem_mark (hv : v ∈ (d.mark ids status).votes) :
    ∃ w ∈ d.votes, w.id = v.id ∧ w.openedIn = v.openedIn ∧ w.opensState = v.opensState ∧
      (w.id ∈ ids ∧ v.status = status ∨ w.id ∉ ids ∧ v = w) := by
  obtain ⟨w, hw, rfl⟩ := mem_map.mp hv
  refine ⟨w, hw, ?_⟩
  split
  next hmem => exact ⟨rfl, rfl, rfl, .inl ⟨hmem, rfl⟩⟩
  next hnot => exact ⟨rfl, rfl, rfl, .inr ⟨hnot, rfl⟩⟩

theorem mem_mark_of_notMem (hv : v ∈ d.votes) (h : v.id ∉ ids) :
    v ∈ (d.mark ids status).votes := mem_map.mpr ⟨v, hv, if_neg h⟩

theorem fired_mark (hids : (d.votes.map Vote.id).Nodup) (hpending : ∀ id ∈ ids, ∃ v, d.vote id = some v ∧ v.pending)
    (hv : v ∈ d.votes) (hclosed : v.status = .closed) : v ∈ (d.mark ids status).votes := by
  refine mem_mark_of_notMem hv fun hmem => ?_
  obtain ⟨w, hw, hp⟩ := hpending _ hmem
  rw [vote_of_mem hids hv, Option.some_inj] at hw
  rw [← hw, Vote.pending, hclosed] at hp
  cases hp

theorem Db.Has.pending {id : Uuid} (h : d.Has id status) (hstatus : status = .running ∨ status = .draft) :
    ∃ v, d.vote id = some v ∧ v.pending := by
  obtain ⟨v, hv, rfl⟩ := h
  refine ⟨v, hv, ?_⟩
  rcases hstatus with hs | hs <;> rw [Vote.pending, hs] <;> rfl

end Visits

section Steps

variable {d : Db}
variable {id : Uuid}

theorem moved_settled (hids : (d.votes.map Vote.id).Nodup) (h : Settled d) {m : Move} {orphans : List Uuid}
    (hlegal : Legal d (.moved m orphans)) : Settled (d.apply (.moved m orphans)) := by
  obtain ⟨hstate, hvote, hpending, hall⟩ := hlegal
  refine ⟨fun v hv hrunning => ?_, fun n ev hn id hid => ?_⟩
  · -- every open vote is cancelled
    obtain ⟨w, hw, -, -, -, hmark⟩ := mem_mark (d := d.move m) hv
    rcases hmark with ⟨-, hcancelled⟩ | ⟨hnot, rfl⟩
    · rw [hcancelled] at hrunning
      cases hrunning
    · exact absurd (hall v.id ⟨v, vote_of_mem hids hw, hrunning⟩) hnot
  · have hn : (d.events ++ [m.event])[n]? = some ev := hn
    rw [getElem?_append] at hn
    split at hn
    · obtain ⟨v, hv, hvid, hclosed, hrest⟩ := h.fired n ev hn id hid
      exact ⟨v, fired_mark (d := d.move m) hids hpending hv hclosed, hvid, hclosed, hrest⟩
    · rw [mem_singleton.mp (mem_of_getElem? hn)] at hid
      rw [show m.event.vote = none from hvote] at hid
      cases hid

/-- A vote that comes to an end leaves no other one behind. -/
theorem ended_settled (hids : (d.votes.map Vote.id).Nodup) (h : Settled d) (hlegal : d.Has id .running) {s : VoteStatus}
    (hs : s ≠ .running) : Settled (d.mark [id] s) := by
  refine ⟨fun v hv hrunning => ?_, fun n ev hn j hj => ?_⟩
  · obtain ⟨w, hw, -, -, -, hmark⟩ := mem_mark hv
    rcases hmark with ⟨-, hended⟩ | ⟨-, rfl⟩
    · exact absurd (hended.symm.trans hrunning) hs
    · exact h.current v hw hrunning
  · obtain ⟨v, hv, hvid, hclosed, hrest⟩ := h.fired n ev hn j hj
    refine ⟨v, fired_mark hids (fun k hk => ?_) hv hclosed, hvid, hclosed, hrest⟩
    rw [mem_singleton.mp hk]
    exact hlegal.pending (.inl rfl)

theorem opened_settled (hids : (d.votes.map Vote.id).Nodup) (h : Settled d) {visit : ℕ} (hlegal : d.Has id .draft) :
    (∀ v ∈ (d.startVote id visit).votes, v.id = id → v.openedIn = some d.visit) ↔ Settled (d.startVote id visit) := by
  constructor
  · intro hvisit
    refine ⟨fun v hv hrunning => ?_, fun n ev hn j hj => ?_⟩
    · by_cases hid : v.id = id
      · exact hvisit v hv hid
      · obtain ⟨w, hw, rfl⟩ := mem_map.mp hv
        split at hid
        next hwid => exact absurd hwid hid
        next hwid =>
          rw [if_neg hwid] at hrunning ⊢
          exact h.current w hw hrunning
    · obtain ⟨v, hv, hvid, hclosed, hrest⟩ := h.fired n ev hn j hj
      refine ⟨v, mem_map.mpr ⟨v, hv, if_neg fun heq => ?_⟩, hvid, hclosed, hrest⟩
      obtain ⟨w, hw, hdraft⟩ := hlegal
      rw [← heq, vote_of_mem hids hv, Option.some_inj] at hw
      rw [← hw, hclosed] at hdraft
      cases hdraft
  · intro hsettled v hv hid
    refine hsettled.current v hv ?_
    obtain ⟨w, hw, rfl⟩ := mem_map.mp hv
    split at hid
    next hwid => rw [if_pos hwid]
    next hwid => exact absurd hid hwid

/-- The branch of a close leaves no stale vote exactly when the closed vote was the only open one and
the application is in the state of that vote. -/
theorem branch_settled (hids : (d.votes.map Vote.id).Nodup) (h : Settled d) {m : Move} (hlegal : Legal d (.closed id (some m))) :
    (∀ v ∈ d.votes, (v.status = .running → v.id = id) ∧ (v.id = id → ∀ s ∈ v.opensState, d.app.state = some s)) ↔
      Settled ((d.mark [id] .closed).move m) := by
  obtain ⟨hrunning, hmove⟩ := hlegal
  obtain ⟨hstate, hvote⟩ := hmove m rfl
  have hclose : Settled (d.mark [id] .closed) := ended_settled hids h hrunning (by decide)
  have hvisit : ((d.mark [id] .closed).move m).visit = d.visit + 1 := by
    show (d.events ++ [m.event]).length = _
    rw [length_append]
    rfl
  constructor
  · intro hall
    refine ⟨fun v hv hopen => ?_, fun n ev hn j hj => ?_⟩
    · obtain ⟨w, hw, -, -, -, hmark⟩ := mem_mark (d := d) hv
      rcases hmark with ⟨-, hclosed⟩ | ⟨hnot, rfl⟩
      · rw [hclosed] at hopen
        cases hopen
      · exact absurd (mem_singleton.mpr ((hall v hw).1 hopen)) hnot
    · have hn : (d.events ++ [m.event])[n]? = some ev := hn
      rw [getElem?_append] at hn
      split at hn
      next hlt => exact hclose.fired n ev hn j hj
      next hge =>
        obtain ⟨w, hw, hwopen⟩ := hrunning
        obtain ⟨hmem, hwid⟩ := of_vote hw
        have hev : ev = m.event := mem_singleton.mp (mem_of_getElem? hn)
        have hn : n = d.visit := by
          have := (List.getElem?_eq_some_iff.mp hn).1
          simp only [length_singleton] at this
          rw [Db.visit]
          omega
        rw [hev, show m.event.vote = some id from hvote, Option.some_inj] at hj
        refine ⟨{ w with status := .closed }, mem_map.mpr ⟨w, hmem, if_pos (by simp [hwid])⟩, hwid.trans hj, rfl, ?_, ?_⟩
        · rw [hn]
          exact h.current w hmem hwopen
        · intro s hs
          rw [hev, ← (hall w hmem).2 hwid s hs, hstate]
          rfl
  · intro hsettled v hv
    constructor
    · intro hopen
      by_contra hid
      have hstays : v ∈ (d.mark [id] .closed).votes := mem_mark_of_notMem hv fun hmem => hid (mem_singleton.mp hmem)
      have hnow := hsettled.current v hstays hopen
      rw [h.current v hv hopen, hvisit, Option.some_inj] at hnow
      omega
    · rintro rfl s hs
      have hlast : ((d.mark [v.id] .closed).move m).events[d.visit]? = some m.event := getElem?_concat_length
      obtain ⟨w, hw, hid, -, -, hsource⟩ := hsettled.fired _ _ hlast v.id hvote
      obtain ⟨x, hx, hxid, -, hopens, -⟩ := mem_mark (d := d) hw
      have heq : x = v := inj_on_of_nodup_map hids hx hv (hxid.trans hid)
      rw [heq] at hopens
      rw [hstate]
      exact hsource s (hopens ▸ hs)

theorem guar_settled {r : Request} {held : List Key} {e : Db} (hids : contract.inv d) (h : Settled d)
    (hguar : Guar r held d e) : InVisit r d e ↔ Settled e := by
  obtain ⟨c, rfl, hlegal, hmakes, -⟩ := hguar
  cases c with
  | moved m orphans =>
    have hsettled := moved_settled hids h hlegal
    cases r <;> first | exact iff_of_true trivial hsettled | cases hmakes
  | opened id visit =>
    cases r with
    | openVote j live =>
      obtain rfl : id = j := hmakes
      exact opened_settled hids h hlegal
    | _ => cases hmakes
  | closed id m =>
    cases r with
    | closeVote c =>
      obtain rfl : id = c.vote := hmakes
      cases m with
      | none => exact iff_of_true (fun hne => absurd rfl hne) (ended_settled hids h hlegal.1 (by decide))
      | some m =>
        have hne : (d.apply (.closed c.vote (some m))).events ≠ d.events := fun heq => by
          have := congrArg List.length (show d.events ++ [m.event] = d.events from heq)
          simp at this
        refine Iff.trans ?_ (branch_settled hids h hlegal)
        exact ⟨fun hall => hall hne, fun hall _ => hall⟩
    | _ => cases hmakes
  | cancelled id =>
    have hsettled : Settled (d.apply (.cancelled id)) := ended_settled hids h hlegal (by decide)
    cases r <;> first | exact iff_of_true trivial hsettled | cases hmakes

end Steps

section Runs

variable {G : Graph} {d : Db}

/-- No vote outlives the visit that it was opened in and none fires a branch outside of it, exactly
when every open commits in the visit that it read and every branch fires while no other vote is
open and in the state that its vote was prepared for. -/
theorem exits_settled (hids : (d.votes.map Vote.id).Nodup) (h : Settled d) (es : List (Event Request)) :
    Guarded InVisit (script G) ⟨d, []⟩ es ↔
      ∀ fs s, fs <+: es → run (script G) ⟨d, []⟩ fs = some s → Settled s.db :=
  guarded_iff (C := contract) script_keeps guar_settled (sound_start hids) h

def twoReadings : Graph where
  states := [⟨2, 5, true, false⟩, ⟨3, 5, true, false⟩, ⟨4, 5, false, false⟩]
  transitions := [⟨11, 5, 2, 3, some .pass, false⟩, ⟨12, 5, 2, 4, some .fail, false⟩, ⟨13, 5, 3, 4, some .pass, false⟩,
    ⟨14, 5, 3, 2, some .fail, false⟩]
  branches := by decide

def firstReading : Db where
  app := ⟨5, some 2, some 6, none⟩
  events := [⟨none, 2, none, none⟩]
  votes := [⟨20, none, some 6, none, .draft, none⟩, ⟨21, none, some 6, none, .draft, none⟩,
    ⟨22, none, some 6, some 3, .draft, none⟩]

def passes (vote : Uuid) : Request := .closeVote ⟨vote, true, true, granted⟩

theorem firstReading_settled : Settled firstReading := by
  refine ⟨by decide, fun n ev hn id hid => ?_⟩
  rw [mem_singleton.mp (mem_of_getElem? (show [_][n]? = some ev from hn))] at hid
  cases hid

def oneVoteEach : List (Event Request) :=
  .start (.openVote 20 true) :: steps 0 5 ++ .start (passes 20) :: steps 1 7 ++
    .start (.openVote 22 true) :: steps 2 5 ++ .start (passes 22) :: steps 3 7

theorem oneVoteEach_settled :
    ∃ s, run (script twoReadings) ⟨firstReading, []⟩ oneVoteEach = some s ∧ s.db.app.state = some 4 ∧ Settled s.db := by
  have hrun : (run (script twoReadings) ⟨firstReading, []⟩ oneVoteEach).map (fun s => s.db.app.state) = some (some 4) := by
    decide +kernel
  have hguarded : Guarded InVisit (script twoReadings) ⟨firstReading, []⟩ oneVoteEach := by decide +kernel
  obtain ⟨s, hs, hstate⟩ := Option.map_eq_some_iff.mp hrun
  exact ⟨s, hs, hstate,
    (exits_settled (by decide) firstReading_settled oneVoteEach).mp hguarded oneVoteEach s (prefix_refl _) hs⟩

def secondStaysOpen : List (Event Request) :=
  .start (.openVote 20 true) :: steps 0 5 ++ .start (.openVote 21 true) :: steps 1 5 ++ .start (passes 20) :: steps 2 7

def secondFires : List (Event Request) := secondStaysOpen ++ .start (passes 21) :: steps 3 7

def crossedOpen : List (Event Request) :=
  .start (.openVote 20 true) :: steps 0 5 ++ .start (.openVote 21 true) :: steps 1 3 ++ .start (passes 20) :: steps 2 7 ++
    steps 1 2

def strayVote : List (Event Request) := .start (.openVote 22 true) :: steps 0 5 ++ .start (passes 22) :: steps 1 7

/-- An open vote of the left state, in order and through a crossed open; a branch fired from the next
state, and one fired from another state than the vote was prepared for. -/
theorem twoVotes_not_settled :
    (∃ s, run (script twoReadings) ⟨firstReading, []⟩ secondStaysOpen = some s ∧ s.db.app.state = some 3 ∧
      (∃ v ∈ s.db.votes, v.id = 21 ∧ v.status = .running ∧ v.openedIn = some 1) ∧ ¬ Settled s.db) ∧
    (∃ s, run (script twoReadings) ⟨firstReading, []⟩ secondFires = some s ∧
      ⟨some 3, 4, some 13, some 21⟩ ∈ s.db.events ∧ ¬ Settled s.db) ∧
    (∃ s, run (script twoReadings) ⟨firstReading, []⟩ crossedOpen = some s ∧ s.db.app.state = some 3 ∧
      (∃ v ∈ s.db.votes, v.id = 21 ∧ v.status = .running ∧ v.openedIn = some 1) ∧ ¬ Settled s.db) ∧
    ∃ s, run (script twoReadings) ⟨firstReading, []⟩ strayVote = some s ∧
      ⟨some 2, 3, some 11, some 22⟩ ∈ s.db.events ∧ ¬ Settled s.db := by
  have hstale : ∀ d : Db, d.visit = 2 → (∃ v ∈ d.votes, v.id = 21 ∧ v.status = .running ∧ v.openedIn = some 1) → ¬ Settled d := by
    rintro d hvisit ⟨v, hv, -, hrunning, hopened⟩ hsettled
    have := hsettled.current v hv hrunning
    rw [hopened, hvisit] at this
    cases this
  have hfirst : (run (script twoReadings) ⟨firstReading, []⟩ secondStaysOpen).map Sys.db = some
      ⟨⟨5, some 3, some 6, none⟩, [⟨none, 2, none, none⟩, ⟨some 2, 3, some 11, some 20⟩],
        [⟨20, none, some 6, none, .closed, some 1⟩, ⟨21, none, some 6, none, .running, some 1⟩,
          ⟨22, none, some 6, some 3, .draft, none⟩]⟩ := by decide +kernel
  have hsecond : (run (script twoReadings) ⟨firstReading, []⟩ secondFires).map Sys.db = some
      ⟨⟨5, some 4, none, none⟩, [⟨none, 2, none, none⟩, ⟨some 2, 3, some 11, some 20⟩, ⟨some 3, 4, some 13, some 21⟩],
        [⟨20, none, some 6, none, .closed, some 1⟩, ⟨21, none, some 6, none, .closed, some 1⟩,
          ⟨22, none, some 6, some 3, .draft, none⟩]⟩ := by decide +kernel
  have hcrossed : (run (script twoReadings) ⟨firstReading, []⟩ crossedOpen).map Sys.db = some
      ⟨⟨5, some 3, some 6, none⟩, [⟨none, 2, none, none⟩, ⟨some 2, 3, some 11, some 20⟩],
        [⟨20, none, some 6, none, .closed, some 1⟩, ⟨21, none, some 6, none, .running, some 1⟩,
          ⟨22, none, some 6, some 3, .draft, none⟩]⟩ := by decide +kernel
  have hstray : (run (script twoReadings) ⟨firstReading, []⟩ strayVote).map Sys.db = some
      ⟨⟨5, some 3, some 6, none⟩, [⟨none, 2, none, none⟩, ⟨some 2, 3, some 11, some 22⟩],
        [⟨20, none, some 6, none, .draft, none⟩, ⟨21, none, some 6, none, .draft, none⟩,
          ⟨22, none, some 6, some 3, .closed, some 1⟩]⟩ := by decide +kernel
  obtain ⟨s₁, hs₁, hdb₁⟩ := Option.map_eq_some_iff.mp hfirst
  obtain ⟨s₂, hs₂, hdb₂⟩ := Option.map_eq_some_iff.mp hsecond
  obtain ⟨s₃, hs₃, hdb₃⟩ := Option.map_eq_some_iff.mp hcrossed
  obtain ⟨s₄, hs₄, hdb₄⟩ := Option.map_eq_some_iff.mp hstray
  refine ⟨⟨s₁, hs₁, ?_⟩, ⟨s₂, hs₂, ?_⟩, ⟨s₃, hs₃, ?_⟩, ⟨s₄, hs₄, ?_⟩⟩
  · rw [hdb₁]
    exact ⟨rfl, by decide, hstale _ rfl (by decide)⟩
  · rw [hdb₂]
    refine ⟨by decide, fun hsettled => ?_⟩
    obtain ⟨v, hv, hid, -, hopened, -⟩ := hsettled.fired 2 _ rfl 21 rfl
    have : ∀ v ∈ [(⟨20, none, some 6, none, .closed, some 1⟩ : Vote), ⟨21, none, some 6, none, .closed, some 1⟩,
      ⟨22, none, some 6, some 3, .draft, none⟩], v.id = 21 → v.openedIn ≠ some 2 := by decide
    exact this v hv hid hopened
  · rw [hdb₃]
    exact ⟨rfl, by decide, hstale _ rfl (by decide)⟩
  · rw [hdb₄]
    refine ⟨by decide, fun hsettled => ?_⟩
    obtain ⟨v, hv, hid, -, -, hsource⟩ := hsettled.fired 1 _ rfl 22 rfl
    have : ∀ v ∈ [(⟨20, none, some 6, none, .draft, none⟩ : Vote), ⟨21, none, some 6, none, .draft, none⟩,
      ⟨22, none, some 6, some 3, .closed, some 1⟩], v.id = 22 → v.opensState = some 3 := by decide
    have := hsource 3 (this v hv hid)
    cases this

end Runs

end Status
