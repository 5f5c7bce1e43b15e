import StupaWorkflow.VotingStore

/-!
Each operation keeps the agreement of the vote store: one lemma for the program of each
request, and then the laws of the ballots, of the status and of the stored result over
whole runs.
-/
namespace Voting
open Py ReadCommitted List Option

theorem insert_keeps {r : Request} {v : ℕ} {row : Vote} {l : Loc Db Key} {d : Db} (hl : l.pend = id)
    (hdraft : row.status = .draft) (hres : NoResult row) :
    wp contract r (insert v row) (fun _ _ _ => True) l d := by
  obtain ⟨pend, held⟩ := l
  cases hl
  rw [insert, wp_do, wp_lockRow]
  intro e _ hinv
  simp only [wp_do, wp_require, wp_update, wp_publish]
  intro hfree f hrely hinv'
  have same : Same v e f := hrely v (by simp)
  have hnone : f.votes v = none := same.row.trans (by simpa using hfree)
  have hempty : f.ballots v = [] := (hinv' v).missing hnone
  have hnew : (Db.insertVote v row f).votes v = some row := by simp [Db.insertVote]
  have hcommit : contract.inv (Db.insertVote v row f) ∧
      contract.guar r (.vote v :: held) f (Db.insertVote v row f) := by
    refine commit_one (v := v) (by simp) hinv' ?_ ?_ ?_
    · exact fun u hu => ⟨by simp [Db.insertVote, hu], rfl, rfl⟩
    · refine ⟨(hinv' v).count, (hinv' v).nodup, fun _ => hempty, fun _ _ _ => hempty, ?_, ?_, ?_⟩
      all_goals
        intro row' hrow'
        rw [hnew] at hrow'
        cases hrow'
      · intro b hb
        rw [show (Db.insertVote v row f).ballots v = [] from hempty] at hb
        cases hb
      · intro hclosed
        rw [hdraft] at hclosed
        cases hclosed
      · exact fun _ => hres
    · refine ⟨?_, ?_, .inl ⟨rfl, rfl⟩⟩
      · intro old hold
        rw [hnone] at hold
        cases hold
      · intro _ row' hrow'
        rw [hnew] at hrow'
        cases hrow'
        exact hdraft
  exact ⟨hcommit.1, hcommit.2, trivial⟩

theorem create_keeps (v : ℕ) (payload : VoteCreate) (application meeting agendaItem : Option ℕ)
    (plannedOk : Bool) :
    Keeps contract (.create v payload application meeting agendaItem plannedOk)
      (createInternal v payload application meeting agendaItem plannedOk) := by
  intro d _
  have hdone : ∀ l : Loc Db Key, l.pend = id → ∀ e : Db,
      wp contract (.create v payload application meeting agendaItem plannedOk)
        (do checkProposal application payload.proposal
            insert v (payload.row application meeting agendaItem) : P Unit) (fun _ _ _ => True) l e := by
    intro l hl e
    rw [wp_do]
    exact wp_checkProposal fun f _ => insert_keeps hl rfl ⟨rfl, rfl, rfl⟩
  cases meeting with
  | none => exact hdone _ rfl d
  | some m =>
    rw [createInternal, wp_do]
    exact wp_lockLiveMeeting fun e _ _ => hdone _ rfl e

theorem updateDraft_keeps (v : ℕ) (payload : VoteCreate) (meeting : ℕ) :
    Keeps contract (.updateDraft v payload meeting) (updateDraft v payload meeting) := by
  intro d _
  rw [updateDraft, wp_do]
  apply wp_getVote
  intro e _ hinv row hrow
  simp only [wp_do, wp_require, decide_eq_true_eq]
  intro _ hdraft
  apply wp_checkProposal
  intro f hrely
  have same : Same v e f := hrely v (by simp [Loc.fresh])
  have hempty : f.ballots v = [] := same.ballots.trans ((hinv v).draft row hrow hdraft)
  have hnores := (hinv v).unclosed row hrow (by simp [hdraft])
  refine wp_updateRow (by simp) (same.row.trans hrow) ⟨⟨?_, ?_⟩, ?_, ?_, ?_⟩
  · exact .stay _
  · intro hclosed; simp [hdraft] at hclosed
  · intro hne; exact absurd hempty hne
  · intro hclosed; simp [hdraft] at hclosed
  · exact fun _ => hnores

theorem openDraft_keeps {r : Request} (v : ℕ) (now : Time) (eligibleCount : Option ℕ) (held : List Key)
    (d : Db) : wp contract r (openDraft v now eligibleCount) (fun _ _ _ => True) ⟨id, held⟩ d := by
  rw [openDraft, wp_do]
  apply wp_getVote
  intro f _ hinv row hrow
  simp only [wp_do, wp_require, wp_query, wp_ofExcept, decide_eq_true_eq]
  intro hdraft g hrely _ _ _ _
  have same : Same v f g := hrely v (by simp)
  have hnores := (hinv v).unclosed row hrow (by simp [hdraft])
  refine wp_updateRow (by simp) (same.row.trans hrow) ⟨⟨?_, ?_⟩, ?_, ?_, ?_⟩
  · exact hdraft ▸ .opens
  · intro hclosed; simp [hdraft] at hclosed
  · exact fun _ => rfl
  · intro hclosed; cases hclosed
  · exact fun _ => hnores

theorem openVote_keeps (v : ℕ) (now : Time) (eligibleCount : Option ℕ) :
    Keeps contract (.openVote v now eligibleCount) (openVote v now eligibleCount) := by
  intro d _
  rw [openVote, wp_do, wp_query]
  intro e _ _
  cases hm : ((Loc.fresh : Loc Db Key).pend e).votes v |>.bind (·.meetingId) with
  | none => exact openDraft_keeps _ _ _ _ _
  | some m =>
    rw [wp_do]
    exact wp_lockLiveMeeting fun f _ _ => openDraft_keeps _ _ _ _ _

theorem castSecret_keeps {r : Request} {v : ℕ} {voter ballot : Text} {now : Time} {held : List Key}
    {d : Db} {row : Vote} (hr : r.CastsAt v now) (hv : Key.vote v ∈ held) (hrow : d.votes v = some row)
    (hopen : row.status = .open) (hwindow : inWindow row now) (haccepts : Accepts row.config ballot) :
    wp contract r (castSecret v voter ballot) (fun _ _ _ => True) ⟨id, held⟩ d := by
  rw [castSecret, wp_do, wp_lockRow]
  intro e hrely _
  have same := hrely v hv
  simp only [wp_do, wp_require, wp_update, wp_publish]
  intro hfresh f hrely' hinv'
  have same' : Same v e f := hrely' v (mem_cons_of_mem _ hv)
  have hrow' : f.votes v = some row := same'.row.trans (same.row.trans hrow)
  have hnew : voter ∉ f.markers v := by
    rw [same'.markers]
    simpa using hfresh
  have hballots : (Db.insertBallot v ballot (Db.insertMarker v voter f)).ballots v = f.ballots v ++ [ballot] := by
    simp [Db.insertBallot, Db.insertMarker]
  have hmarkers : (Db.insertBallot v ballot (Db.insertMarker v voter f)).markers v = f.markers v ++ [voter] := by
    simp [Db.insertBallot, Db.insertMarker]
  have hcommit : contract.inv (Db.insertBallot v ballot (Db.insertMarker v voter f)) ∧
      contract.guar r (.marker v voter :: held) f (Db.insertBallot v ballot (Db.insertMarker v voter f)) := by
    refine commit_one (v := v) (mem_cons_of_mem _ hv) hinv' ?_ ?_ ?_
    · exact fun u hu => ⟨rfl, by simp [Db.insertBallot, Db.insertMarker, hu],
        by simp [Db.insertBallot, Db.insertMarker, hu]⟩
    · refine ⟨?_, ?_, ?_, ?_, ?_, ?_, ?_⟩
      · rw [hballots, hmarkers, length_append, length_append, (hinv' v).count]
        rfl
      · rw [hmarkers]
        exact nodup_append.mpr ⟨(hinv' v).nodup, by simp, by
          rintro a ha b hb rfl
          exact hnew (mem_singleton.mp hb ▸ ha)⟩
      · intro hnone
        change f.votes v = none at hnone
        rw [hrow'] at hnone
        cases hnone
      all_goals
        intro row' hr'
        change f.votes v = some row' at hr'
        rw [hrow'] at hr'
        cases hr'
      · intro hdraft
        simp [hopen] at hdraft
      · intro b hb
        rw [hballots] at hb
        rcases mem_append.mp hb with old | last
        · exact (hinv' v).accepted row hrow' b old
        · exact mem_singleton.mp last ▸ haccepts
      · intro hclosed
        simp [hopen] at hclosed
      · exact (hinv' v).unclosed row hrow'
    · refine ⟨?_, ?_, .inr ⟨row, voter, ballot, now, hr, hrow', hopen, hwindow, haccepts, hnew, hballots, hmarkers⟩⟩
      · intro old hold
        exact ⟨old, hold, ⟨.stay _, fun _ => .inl (.refl old)⟩, fun _ => rfl⟩
      · intro hnone
        rw [hrow'] at hnone
        cases hnone
  exact ⟨hcommit.1, hcommit.2, trivial⟩

theorem cast_keeps (v : ℕ) (capped : Bool) (voter : Except Problem Text) (choice : Choice) (now : Time) :
    Keeps contract (.cast v capped voter choice now) (cast v capped voter choice now) := by
  intro d _
  rw [cast, wp_do]
  apply wp_getVote
  intro e _ _ row hrow
  simp only [wp_do, wp_require, wp_ofExcept, decide_eq_true_eq]
  intro hopen hwindow _ sub _ stored hstored
  exact castSecret_keeps (.inl ⟨capped, voter, choice, rfl⟩) (by simp) hrow hopen hwindow ⟨choice, hstored⟩

theorem castGuest_keeps (v guest : ℕ) (choice : Choice) (now : Time) :
    Keeps contract (.castGuest v guest choice now) (castGuest v guest choice now) := by
  intro d _
  rw [castGuest, wp_do]
  apply wp_getVote
  intro e _ _ row hrow
  simp only [wp_do, wp_require, wp_ofExcept, decide_eq_true_eq]
  intro hopen hwindow _ stored hstored
  exact castSecret_keeps (.inr ⟨guest, choice, rfl⟩) (by simp) hrow hopen hwindow ⟨choice, hstored⟩

theorem fixAttendance_eligible (c : CloseInput) (markers : List Text) (row : Vote) :
    (fixAttendance c markers row).eligibleCount = row.eligibleCount ∨ row.config.guestsVote = true := by
  unfold fixAttendance
  cases row.meetingId with
  | none => exact .inl rfl
  | some m =>
    by_cases h : row.config.guestsVote = true
    · exact .inr h
    · exact .inl (by simp [h])

theorem fixAttendance_rest (c : CloseInput) (markers : List Text) (row : Vote) :
    (fixAttendance c markers row).config = row.config ∧ SameResult row (fixAttendance c markers row) := by
  unfold fixAttendance
  cases row.meetingId <;> exact ⟨rfl, rfl, rfl, rfl⟩

theorem closedRow_config (c : CloseInput) (choices markers : List Text) (row : Vote) :
    (closedRow c choices markers row).config = row.config := by
  unfold closedRow
  cases hc : row.config <;> simpa [hc] using (fixAttendance_rest c markers row).1

theorem closedRow_status (c : CloseInput) (choices markers : List Text) (row : Vote) :
    (closedRow c choices markers row).status = .closed := by
  unfold closedRow
  cases row.config <;> rfl

/-- A close stores the tally of the ballots, in whatever order it read them. The
attendance of a vote with guests changes the eligible count, but such a vote has
no quorum. -/
theorem closedRow_tallied {c : CloseInput} {choices ballots markers : List Text} {row : Vote}
    (hp : choices.Perm ballots) (hnores : NoResult row) :
    Tallied (closedRow c choices markers row) ballots := by
  refine Tallied.perm ?_ hp.symm
  obtain ⟨hfixed, hres, helec, hpoll⟩ := fixAttendance_rest c markers row
  have heligible := fixAttendance_eligible c markers row
  have hconf := closedRow_config c choices markers row
  unfold Tallied
  cases hc : row.config with
  | motion config =>
    rw [hconf, hc]
    rw [hc] at hfixed heligible
    simp only [closedRow, hc]
    refine ⟨?_, helec.trans hnores.2.1, hpoll.trans hnores.2.2⟩
    rw [result_missed]
    rcases heligible with same | guests
    · rw [same]
    · rw [result_eligible (config.guests_no_quorum guests)]
  | election config =>
    rw [hconf, hc]
    rw [hc] at hfixed heligible
    simp only [closedRow, hc]
    refine ⟨.inl ?_, hpoll.trans hnores.2.2⟩
    have htally : tallyElection choices config ((fixAttendance c markers row).eligibleCount.getD 0) =
        tallyElection choices config (row.eligibleCount.getD 0) := by
      rcases heligible with same | guests
      · rw [same]
      · exact tallyElection_eligible (config.guests_no_quorum guests) _ _ _
    rw [htally]
    exact ⟨rfl, rfl⟩
  | poll config =>
    rw [hconf, hc]
    simp only [closedRow, hc, true_and, and_true]
    exact helec.trans hnores.2.1

theorem close_keeps (v : ℕ) (c : CloseInput) : Keeps contract (.close v c) (close v c) := by
  intro d _
  rw [close, wp_do]
  apply wp_getVote
  intro e _ hinv row hrow
  simp only [wp_do, wp_require, wp_query, wp_ofExcept, decide_eq_true_eq]
  intro hopen f hrely _ _ _ g hrely' _
  have same : Same v e f := hrely v (by simp)
  have same' : Same v f g := hrely' v (by simp)
  have hnores := (hinv v).unclosed row hrow (by simp [hopen])
  have hp : (c.order.apply (f.ballots v)).Perm (g.ballots v) := by
    rw [same'.ballots]
    exact c.order.perm _
  refine wp_updateRow (by simp) (same'.row.trans (same.row.trans hrow)) ⟨⟨?_, ?_⟩, ?_, ?_, ?_⟩
  · rw [closedRow_status, hopen]
    exact .closes
  · intro hclosed; simp [hopen] at hclosed
  · exact fun _ => closedRow_config ..
  · exact fun _ => closedRow_tallied hp hnores
  · exact fun hne => absurd (closedRow_status ..) hne

theorem patchPoll_keeps (v : ℕ) (payload : PollPatch) (now : Time) :
    Keeps contract (.patchPoll v payload now) (patchPoll v payload now) := by
  intro d _
  rw [patchPoll, wp_do]
  apply wp_getVote
  intro e _ hinv row hrow
  cases hc : row.config with
  | motion c => exact trivial
  | election c => exact trivial
  | poll c =>
    simp only [wp_do, wp_require, wp_query, wp_ofExcept, decide_eq_true_eq]
    intro hstatus f hrely _ hempty question _ config _ _ _
    have same : Same v e f := hrely v (by simp)
    have hballots : f.ballots v = [] := length_eq_zero_iff.mp (Nat.eq_zero_of_add_eq_zero hempty).1
    have hne : row.status ≠ .closed := by
      intro hclosed
      simp [hclosed] at hstatus
    have hnores := (hinv v).unclosed row hrow hne
    refine wp_updateRow (by simp) (same.row.trans hrow) ⟨⟨?_, ?_⟩, ?_, ?_, ?_⟩
    · exact .stay _
    · intro hclosed; exact absurd hclosed hne
    · intro hsome; exact absurd hballots hsome
    · intro hclosed; exact absurd hclosed hne
    · exact fun _ => hnores

theorem ElectionTallied.no_runoff {row : Vote} {ballots : List Text} {c : ElectionConfig} {eligible : ℕ}
    (h : ElectionTallied row (tallyElection ballots c eligible)) {stored : ElectionResultOut}
    (hs : row.electionResult = some stored) : stored.runoff = none := by
  have hnone : (resultOf (tallyElection ballots c eligible)).runoff = none := by
    simp [resultOf, tallyElection_no_runoff]
  rcases h with ⟨_, hres⟩ | ⟨drawn, now, sub, name, _, _, _, _, _, hres⟩
  · rw [hres] at hs
    cases hs
    exact hnone
  · rw [hres] at hs
    cases hs
    exact hnone

theorem VoteInv.no_runoff {d : Db} {v : ℕ} (h : VoteInv d v) {row : Vote} (hrow : d.votes v = some row)
    {stored : ElectionResultOut} (hs : row.electionResult = some stored) : stored.runoff = none := by
  by_cases hclosed : row.status = .closed
  · have htallied := h.closed row hrow hclosed
    unfold Tallied at htallied
    cases hc : row.config with
    | motion c => simp [hc, hs] at htallied
    | election c => rw [hc] at htallied; exact htallied.1.no_runoff hs
    | poll c => simp [hc, hs] at htallied
  · have := (h.unclosed row hrow hclosed).2.1
    rw [hs] at this
    cases this

theorem VoteInv.lot_of_tie {d : Db} {v : ℕ} (h : VoteInv d v) {row : Vote} (hrow : d.votes v = some row)
    (hclosed : row.status = .closed) {stored : ElectionResultOut} {lot : LotOut}
    (hs : row.electionResult = some stored) (hlot : stored.lot = some lot) (hdrawn : lot.drawn = none) :
    ∃ c, row.config = .election c ∧ (tallyElection (d.ballots v) c (row.eligibleCount.getD 0)).result = .tie ∧
      stored = resultOf (tallyElection (d.ballots v) c (row.eligibleCount.getD 0)) ∧ row.pollResult = none := by
  have htallied := h.closed row hrow hclosed
  unfold Tallied at htallied
  cases hc : row.config with
  | motion c => simp [hc, hs] at htallied
  | poll c => simp [hc, hs] at htallied
  | election c =>
    rw [hc] at htallied
    obtain ⟨⟨_, hres⟩ | ⟨drawn, now, sub, name, _, _, _, _, _, hres⟩, hpoll⟩ := htallied
    · rw [hres] at hs
      cases hs
      refine ⟨c, rfl, ?_, rfl, hpoll⟩
      by_contra hne
      simp [resultOf, hne] at hlot
    · rw [hres] at hs
      cases hs
      cases hlot
      cases hdrawn

theorem resultOf_lot {o : ElectionOutcome} {lot : LotOut} (htie : o.result = .tie)
    (hlot : (resultOf o).lot = some lot) : lot = ⟨o.tied, o.openSeats, none, none, none, none⟩ := by
  simpa [resultOf, htie] using hlot.symm

theorem drawnRow_tallied {c : ElectionConfig} {o : ElectionOutcome} {drawn : List Text} {now : Time}
    {sub name : Text} {row : Vote} {ballots : List Text} {lot : LotOut}
    (ho : o = tallyElection ballots c (row.eligibleCount.getD 0)) (hc : row.config = .election c)
    (htie : o.result = .tie) (hlot : (resultOf o).lot = some lot) (hpoll : row.pollResult = none)
    (hlen : drawn.length = o.openSeats) (hnodup : drawn.Nodup) (hsub : drawn ⊆ o.tied) :
    Tallied (drawnRow (resultOf o) lot drawn now sub name row) ballots := by
  unfold Tallied
  simp only [drawnRow, hc, hpoll, and_true]
  rw [← ho, resultOf_lot htie hlot]
  exact .inr ⟨drawn, now, sub, name, htie, hlen, hnodup, hsub, rfl, rfl⟩

theorem drawLot_keeps (v : ℕ) (choose : List Text → Text) (now : Time) (sub name : Text) :
    Keeps contract (.drawLot v choose now sub name) (drawLotOf v choose now sub name) := by
  intro d _
  rw [drawLotOf, wp_do]
  apply wp_getVote
  intro e _ hinv row hrow
  simp only [wp_do, wp_require, wp_ofOption, Bool.and_eq_true, decide_eq_true_eq, isNone_iff_eq_none]
  rintro ⟨_, hclosed⟩ stored hs lot hlot hpending drawn hdraw
  obtain ⟨c, hc, htie, hstored, hpoll⟩ := (hinv v).lot_of_tie hrow hclosed hs hlot hpending
  subst hstored
  obtain ⟨htied, henough⟩ := tallyElection_tie htie
  have hshape := resultOf_lot htie hlot
  have hpool : lot.among.Nodup := by rw [hshape]; exact htied
  have hsize : lot.seats ≤ lot.among.length := by rw [hshape]; exact henough
  obtain ⟨hlen, hnodup, hsub⟩ := drawLot_fills hpool hsize hdraw
  refine wp_updateRow (by simp) hrow ⟨⟨?_, ?_⟩, ?_, ?_, ?_⟩
  · exact .stay _
  · intro _
    refine .inr ⟨⟨choose, now, sub, name, rfl⟩, ⟨_, lot, hs, hlot, hpending⟩, ?_, _, lot, drawn, now, sub, name, hs, hlot, hlen, hnodup, hsub, rfl⟩
    rintro ⟨stored', lot', hs', hlot', hnone⟩
    cases hs'
    cases hlot'
    cases hnone
  · exact fun _ => rfl
  · intro _
    exact drawnRow_tallied rfl hc htie hlot hpoll (by rw [hlen, hshape]) hnodup (by rw [hshape] at hsub; exact hsub)
  · exact fun hne => absurd hclosed hne

/-- A transaction that has cancelled these locked votes and written nothing else. -/
structure Cancelling (now : Time) (gone : List ℕ) (l : Loc Db Key) (d : Db) : Prop where
  votes : ∀ e v, (l.pend e).votes v = if v ∈ gone then (e.votes v).map (cancelledRow now) else e.votes v
  ballots : ∀ e, (l.pend e).ballots = e.ballots
  markers : ∀ e, (l.pend e).markers = e.markers
  held : ∀ v ∈ gone, Key.vote v ∈ l.held
  alive : ∀ v ∈ gone, ∃ row, d.votes v = some row ∧ StatusMove row.status .cancelled ∧ row.status ≠ .closed

theorem Cancelling.stable {now : Time} {gone : List ℕ} {l : Loc Db Key} {d e : Db}
    (h : Cancelling now gone l d) (hrely : contract.rely l.held d e) : Cancelling now gone l e := by
  refine ⟨h.votes, h.ballots, h.markers, h.held, ?_⟩
  intro v hv
  rw [(hrely v (h.held v hv)).row]
  exact h.alive v hv

theorem Cancelling.add {now : Time} {gone : List ℕ} {l : Loc Db Key} {d : Db} {v : ℕ} {row : Vote}
    (h : Cancelling now gone l d) (hv : Key.vote v ∈ l.held) (hrow : d.votes v = some row)
    (hmove : StatusMove row.status .cancelled) (hopen : row.status ≠ .closed) :
    Cancelling now (v :: gone) ⟨Db.updateVote v (cancelledRow now) ∘ l.pend, l.held⟩ d := by
  refine ⟨?_, h.ballots, h.markers, ?_, ?_⟩
  · intro e u
    have hu := h.votes e u
    by_cases huv : u = v
    · subst huv
      by_cases hg : u ∈ gone
      · simp only [Function.comp_apply, Db.updateVote, Function.update_self, hu, hg, if_true, Option.map_map,
          mem_cons_self]
        rfl
      · simp [Db.updateVote, hu, hg]
    · simp [Db.updateVote, huv, hu]
  · simpa using ⟨hv, h.held⟩
  · simpa using ⟨⟨row, hrow, hmove, hopen⟩, h.alive⟩

theorem Cancelling.commit {r : Request} {now : Time} {gone : List ℕ} {l : Loc Db Key} {d : Db}
    (h : Cancelling now gone l d) (hd : Inv d) :
    contract.inv (l.pend d) ∧ contract.guar r l.held d (l.pend d) := by
  have hkept : ∀ v, v ∉ gone → Same v d (l.pend d) := by
    intro v hv
    exact ⟨by rw [h.votes, if_neg hv], by rw [h.ballots], by rw [h.markers]⟩
  have hgone : ∀ v ∈ gone, ∀ row, d.votes v = some row → (l.pend d).votes v = some (cancelledRow now row) := by
    intro v hv row hrow
    rw [h.votes, if_pos hv, hrow]
    rfl
  have hsame : ∀ v ∈ gone, Same v (Db.updateVote v (cancelledRow now) d) (l.pend d) := by
    intro v hv
    obtain ⟨row, hrow, _⟩ := h.alive v hv
    exact ⟨by rw [hgone v hv row hrow, updateVote_row hrow], by rw [h.ballots]; rfl, by rw [h.markers]; rfl⟩
  have hupdate : ∀ v ∈ gone, VoteInv (Db.updateVote v (cancelledRow now) d) v ∧
      Move r v d (Db.updateVote v (cancelledRow now) d) := by
    intro v hv
    obtain ⟨row, hrow, hmove, hopen⟩ := h.alive v hv
    have ok : UpdateOk r v row (cancelledRow now row) (d.ballots v) :=
      ⟨⟨hmove, fun hc => absurd hc hopen⟩, fun _ => rfl, (nomatch ·),
        fun _ => (hd v).unclosed row hrow hopen⟩
    obtain ⟨hinv, _, hmoves⟩ := update_commit (r := r) hd (mem_singleton_self _) hrow ok
    exact ⟨hinv v, hmoves v⟩
  refine ⟨?_, ?_, ?_⟩
  · intro v
    by_cases hv : v ∈ gone
    · exact (hupdate v hv).1.of_same (hsame v hv)
    · exact (hd v).of_same (hkept v hv)
  · intro v hv
    exact hkept v fun hg => hv (h.held v hg)
  · intro v
    by_cases hv : v ∈ gone
    · obtain ⟨hrow, hnew, hballots⟩ := (hupdate v hv).2
      have same := hsame v hv
      refine ⟨?_, ?_, .inl ⟨by rw [h.ballots], by rw [h.markers]⟩⟩
      · intro row hr
        obtain ⟨row', hr', hmove⟩ := hrow row hr
        exact ⟨row', same.row.trans hr', hmove⟩
      · intro hnone row' hr'
        exact hnew hnone row' (same.row.symm.trans hr')
    · exact (hkept v hv).move

/-- The parent never holds a runoff of today's tally, so its link is not touched. -/
theorem wp_releaseRunoffLink {r : Request} {l : Loc Db Key} {d : Db} {v : ℕ} {vote : Vote} {Q : Unit → Loc Db Key → Db → Prop}
    (hview : ∀ e, Inv e → ∀ u row, (l.pend e).votes u = some row → ∀ stored, row.electionResult = some stored →
      stored.runoff = none)
    (hQ : ∀ held e, contract.rely l.held d e → (∀ k ∈ l.held, k ∈ held) → Q () ⟨l.pend, held⟩ e) :
    wp contract r (releaseRunoffLink v vote) Q l d := by
  unfold releaseRunoffLink
  split
  · next c parent _ _ =>
    rw [wp_do, wp_lockRow]
    intro e hrely hinv
    cases hparent : (l.pend e).votes parent with
    | none => exact hQ _ e hrely fun _ hk => hk
    | some row =>
      have hnone := hview e hinv parent row hparent
      have hdone := hQ (.vote parent :: l.held) e hrely fun k hk => mem_cons_of_mem _ hk
      cases hres : row.electionResult with
      | none => simpa [hparent, hres] using hdone
      | some stored => simpa [hparent, hres, hnone stored hres] using hdone
  · exact hQ _ d (contract.refl _ _) fun _ hk => hk

theorem Cancelling.no_runoff {now : Time} {gone : List ℕ} {l : Loc Db Key} {d : Db} (h : Cancelling now gone l d) {e : Db}
    (hinv : Inv e) {u : ℕ} {row : Vote} (hrow : (l.pend e).votes u = some row) {stored : ElectionResultOut}
    (hstored : row.electionResult = some stored) : stored.runoff = none := by
  rw [h.votes] at hrow
  split at hrow
  · obtain ⟨old, hold, rfl⟩ := map_eq_some_iff.mp hrow
    exact (hinv u).no_runoff hold hstored
  · exact (hinv u).no_runoff hrow hstored

theorem wp_markCancelled {r : Request} {now : Time} {gone : List ℕ} {l : Loc Db Key} {d : Db} {v : ℕ}
    {row vote : Vote} {Q : Unit → Loc Db Key → Db → Prop} (h : Cancelling now gone l d)
    (hv : Key.vote v ∈ l.held) (hrow : d.votes v = some row) (hmove : StatusMove row.status .cancelled)
    (hopen : row.status ≠ .closed)
    (hQ : ∀ l' e, contract.rely l.held d e → (∀ k ∈ l.held, k ∈ l'.held) → Cancelling now (v :: gone) l' e →
      Q () l' e) : wp contract r (markCancelled v vote now) Q l d := by
  have hadd := h.add hv hrow hmove hopen
  rw [markCancelled, wp_do, wp_update]
  apply wp_releaseRunoffLink fun e hinv u row hrow stored hstored => hadd.no_runoff hinv hrow hstored
  intro held e hrely hsub
  refine hQ _ e hrely hsub ?_
  have hstable := hadd.stable hrely
  exact ⟨hstable.votes, hstable.ballots, hstable.markers, fun u hu => hsub _ (hstable.held u hu), hstable.alive⟩

theorem Cancelling.none (now : Time) (held : List Key) (d : Db) : Cancelling now [] ⟨id, held⟩ d :=
  ⟨by simp, fun _ => rfl, fun _ => rfl, by simp, by simp⟩

theorem cancel_keeps (v : ℕ) (now : Time) : Keeps contract (.cancel v now) (cancel v now) := by
  intro d _
  rw [cancel, wp_do]
  apply wp_getVote
  intro e _ _ row hrow
  simp only [wp_do, wp_require, decide_eq_true_eq]
  intro hopen
  apply wp_markCancelled (.none now _ e) (by simp) hrow (hopen ▸ .cancels) (by simp [hopen])
  intro l' f _ _ hc
  rw [wp_publish]
  intro g hrely hinv
  have hcommit := (hc.stable hrely).commit (r := .cancel v now) hinv
  exact ⟨hcommit.1, hcommit.2, trivial⟩

def Locked (cond : Vote → Bool) (held : List Key) (d : Db) (rows : List (ℕ × Vote)) : Prop :=
  ∀ p ∈ rows, Key.vote p.1 ∈ held ∧ d.votes p.1 = some p.2 ∧ cond p.2

theorem Locked.stable {cond : Vote → Bool} {held held' : List Key} {d e : Db} {rows : List (ℕ × Vote)}
    (h : Locked cond held d rows) (hrely : contract.rely held d e) (hsub : ∀ k ∈ held, k ∈ held') :
    Locked cond held' e rows := by
  intro p hp
  obtain ⟨hk, hrow, hc⟩ := h p hp
  exact ⟨hsub _ hk, (hrely _ hk).row.trans hrow, hc⟩

theorem Locked.filter {cond : Vote → Bool} {held : List Key} {d : Db} {rows : List (ℕ × Vote)}
    (h : Locked cond held d rows) (p : ℕ × Vote → Bool) : Locked cond held d (rows.filter p) :=
  fun q hq => h q (mem_filter.mp hq).1

theorem wp_lockRows {r : Request} {cond : Vote → Bool} (vs : List ℕ) {held : List Key} {d : Db}
    {Q : List (ℕ × Vote) → Loc Db Key → Db → Prop}
    (h : ∀ rows held' e, contract.rely held d e → (∀ k ∈ held, k ∈ held') → Locked cond held' e rows →
      Q rows ⟨id, held'⟩ e) : wp contract r (lockRows cond vs) Q ⟨id, held⟩ d := by
  induction vs generalizing held d Q with
  | nil => exact h [] held d (contract.refl _ _) (fun _ hk => hk) (by simp [Locked])
  | cons v vs ih =>
    rw [lockRows, wp_do, wp_lockRow]
    intro e hrely _
    cases hrow : (e.votes v).filter cond with
    | none =>
      simp only [id_eq, hrow, map_none, wp_do, wp_return]
      apply ih
      intro rows held' f hrely' hsub hlocked
      exact h rows held' f (contract.trans hrely hrely') hsub hlocked
    | some row =>
      simp only [id_eq, hrow, map_some, wp_do, wp_return]
      obtain ⟨hv, hcond⟩ := filter_eq_some_iff.mp hrow
      apply ih
      intro rows held' f hrely' hsub hlocked
      have hold : contract.rely held e f := fun u hu => hrely' u (mem_cons_of_mem _ hu)
      refine h _ held' f (contract.trans hrely hold) (fun k hk => hsub k (mem_cons_of_mem _ hk)) ?_
      intro p hp
      rcases mem_cons.mp hp with rfl | hp
      · exact ⟨hsub _ (mem_cons_self ..), (hrely' v (mem_cons_self ..)).row.trans hv, hcond⟩
      · exact hlocked p hp

theorem wp_cancelAll {r : Request} {now : Time} {cond : Vote → Bool} {held : List Key} {d : Db}
    {rows : List (ℕ × Vote)} (hlocked : Locked cond held d rows)
    (hcond : ∀ row, cond row → StatusMove row.status .cancelled ∧ row.status ≠ .closed) :
    wp contract r (do Prog.forEach rows (fun p => markCancelled p.1 p.2 now); Prog.publish : P Unit)
      (fun _ _ _ => True) ⟨id, held⟩ d := by
  rw [wp_do]
  refine wp_mono ?_ (wp_forEach _ (fun rest l e => Locked cond l.held e rest ∧ ∃ gone, Cancelling now gone l e)
    ?_ rows ⟨hlocked, [], .none now held d⟩)
  · rintro _ l e ⟨_, gone, hc⟩
    rw [wp_publish]
    intro f hrely hinv
    have hcommit := (hc.stable hrely).commit (r := r) hinv
    exact ⟨hcommit.1, hcommit.2, trivial⟩
  · rintro ⟨v, row⟩ rest l e ⟨hlocked, gone, hc⟩
    obtain ⟨hv, hrow, hrc⟩ := hlocked (v, row) (mem_cons_self ..)
    obtain ⟨hmove, hopen⟩ := hcond row hrc
    apply wp_markCancelled hc hv hrow hmove hopen
    intro l' f hrely hsub hc'
    refine ⟨?_, _, hc'⟩
    exact Locked.stable (fun p hp => hlocked p (mem_cons_of_mem _ hp)) hrely hsub

theorem cancelForApplication_keeps (a : ℕ) (now : Time) (left entered : Option ℕ) (isVote : Bool) :
    Keeps contract (.cancelForApplication a now left entered isVote)
      (cancelForApplication a now left entered isVote) := by
  intro d _
  rw [cancelForApplication, wp_do, wp_query]
  intro e _ _
  rw [wp_do]
  apply wp_lockRows
  intro rows held f _ _ hlocked
  refine wp_cancelAll (hlocked.filter _) ?_
  intro row hc
  simp only [Bool.and_eq_true, Bool.or_eq_true, decide_eq_true_eq] at hc
  rcases hc.2 with h | h
  · exact ⟨h ▸ .cancels, by simp [h]⟩
  · exact ⟨h ▸ .drop, by simp [h]⟩

theorem cancelDraftsForMeeting_keeps (m : ℕ) (now : Time) :
    Keeps contract (.cancelDraftsForMeeting m now) (cancelDraftsForMeeting m now) := by
  intro d _
  rw [cancelDraftsForMeeting, wp_do, wp_query]
  intro e _ _
  rw [wp_do]
  apply wp_lockRows
  intro rows held f _ _ hlocked
  apply wp_cancelAll hlocked
  intro row hc
  simp only [Bool.and_eq_true, decide_eq_true_eq] at hc
  exact ⟨hc.2 ▸ .drop, by simp [hc.2]⟩

theorem script_keeps (r : Request) : Keeps contract r (script r) := by
  cases r with
  | create v payload a m item planned => exact create_keeps v payload a m item planned
  | updateDraft v payload m => exact updateDraft_keeps v payload m
  | openVote v now n => exact openVote_keeps v now n
  | cast v capped voter choice now => exact cast_keeps v capped voter choice now
  | castGuest v guest choice now => exact castGuest_keeps v guest choice now
  | close v c => exact close_keeps v c
  | cancel v now => exact cancel_keeps v now
  | cancelForApplication a now left entered isVote => exact cancelForApplication_keeps a now left entered isVote
  | cancelDraftsForMeeting m now => exact cancelDraftsForMeeting_keeps m now
  | drawLot v choose now sub name => exact drawLot_keeps v choose now sub name
  | patchPoll v payload now => exact patchPoll_keeps v payload now

theorem inv_empty (meetings : ℕ → Option Meeting) (applications : ℕ → Option Application) :
    Inv (Db.empty meetings applications) := by
  intro v
  constructor <;> simp [Db.empty]

section Laws

variable {meetings : ℕ → Option Meeting} {applications : ℕ → Option Application}
variable {s s' : Sys Request Db Key Problem}
variable {es : List (Event Request)}

theorem step_move (h : Reachable script (Db.empty meetings applications) s) {ev : Event Request}
    (he : exec script s ev = some s') (v : ℕ) :
    Same v s.db s'.db ∨ ∃ (i : ℕ) (t : Tx Request Db Key Problem), s.live[i]? = some t ∧ Move t.req v s.db s'.db := by
  have hsound := run_sound script_keeps (C := contract) (inv_empty meetings applications) h
  rcases (exec_sound script_keeps hsound he).2 with same | ⟨i, t, hi, hguar⟩
  · rw [same]
    exact .inl (.refl v _)
  · exact .inr ⟨i, t, hi, hguar.2 v⟩

/-- A motion without a quorum. -/
def plainMotion : VoteConfig where
  options := [yesKey, noKey, abstainKey]
  majorityRule := .simple
  quorum := none
  abstainCountsQuorum := true
  secret := true
  tieBreak := .rejected
  guestsVote := false
  min_options := motion_options
  unique_options := motion_options_nodup
  guests_no_quorum := no_guests

def plainPayload : VoteCreate :=
  ⟨.motion plainMotion, 7, none, none, 1, some 3, none, none, none, none⟩

/-- A motion from its create to its close by hand: two members cast while the
transaction of a guest is still in flight. -/
def motionRun : List (Event Request) :=
  [.start (.create 0 plainPayload none none none false), .step 0, .step 0, .step 0,
   .start (.openVote 0 10 none), .step 1, .step 1, .step 1, .step 1, .step 1,
   .start (.cast 0 false (.ok (text "a")) (.option yesKey) 20), .start (.castGuest 0 4 (.option noKey) 21),
   .start (.cast 0 false (.ok (text "b")) (.option noKey) 22),
   .step 2, .step 2, .step 2, .step 2, .step 2, .step 4, .step 4, .step 4, .step 4, .step 4,
   .start (.close 0 ⟨none, 30, ⟨List.reverse, reverse_perm⟩, 0, [], none⟩),
   .step 5, .step 5, .step 5, .step 5, .step 5]

/-- The stored result of a closed vote is the tally of exactly its ballots, it
changes afterwards only by the one draw of a pending lot, and the status moves
only forward. -/
theorem close_tally_agreement {es : List (Event Request)}
    (h : run script ⟨Db.empty meetings applications, []⟩ es = some s) (v : ℕ) :
    (∀ row, s.db.votes v = some row → row.status = .closed →
      ∀ ballots, ballots.Perm (s.db.ballots v) → Tallied row ballots) ∧
    (∀ ev s', exec script s ev = some s' →
      (∀ row, s.db.votes v = some row → ∃ row', s'.db.votes v = some row' ∧
        StatusMove row.status row'.status ∧
        (row.status = .closed → SameResult row row' ∨
          ((∃ (i : ℕ) (t : Tx Request Db Key Problem), s.live[i]? = some t ∧ t.req.Draws v) ∧
            LotPending row ∧ ¬ LotPending row' ∧ LotFilled row row'))) ∧
      (s.db.votes v = none → ∀ row', s'.db.votes v = some row' → row'.status = .draft)) := by
  have hinv := (run_sound script_keeps (C := contract) (inv_empty meetings applications) ⟨es, h⟩).inv v
  refine ⟨fun row hrow hclosed ballots hp => (hinv.closed row hrow hclosed).perm hp, ?_⟩
  intro ev s' he
  rcases step_move ⟨es, h⟩ he v with same | ⟨i, t, hi, hmove⟩
  · refine ⟨?_, ?_⟩
    · intro row hrow
      exact ⟨row, same.row.trans hrow, .stay _, fun _ => .inl (.refl row)⟩
    · intro hnone row' hrow'
      rw [same.row, hnone] at hrow'
      cases hrow'
  · refine ⟨?_, hmove.new⟩
    intro row hrow
    obtain ⟨row', hrow', hmv, _⟩ := hmove.row row hrow
    refine ⟨row', hrow', hmv.status, fun hclosed => ?_⟩
    rcases hmv.result hclosed with same | ⟨hdraws, rest⟩
    · exact .inl same
    · exact .inr ⟨⟨i, t, hi, hdraws⟩, rest⟩

theorem close_tally_agreement_motionRun :
    ∃ s row, run script ⟨Db.empty (fun _ => none) (fun _ => none), []⟩ motionRun = some s ∧
      s.db.votes 0 = some row ∧ row.status = .closed ∧ row.result = some .rejected ∧
      Tallied row [noKey, yesKey] := by
  have hrun : (run script ⟨Db.empty (fun _ => none) (fun _ => none), []⟩ motionRun).map
      (fun s => (s.db.ballots 0, (s.db.votes 0).map fun row => (row.status, row.result))) =
        some ([yesKey, noKey], some (.closed, some .rejected)) := by decide +kernel
  obtain ⟨s, hs, hstate⟩ := map_eq_some_iff.mp hrun
  obtain ⟨hballots, hvote⟩ := Prod.mk.injEq .. ▸ hstate
  obtain ⟨row, hrow, hcols⟩ := map_eq_some_iff.mp hvote
  obtain ⟨hclosed, hresult⟩ := Prod.mk.injEq .. ▸ hcols
  refine ⟨s, row, hs, hrow, hclosed, hresult, (close_tally_agreement hs 0).1 row hrow hclosed _ ?_⟩
  rw [hballots]
  decide

end Laws

end Voting
