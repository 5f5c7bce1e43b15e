import StupaWorkflow.VotingModel

/-!
The invariant of the vote store over every interleaving of its operations. A
transaction relies on the rows of the votes it has locked; the ballots and the
markers of a vote are written only under the lock of its row.
-/
namespace Voting
open Py ReadCommitted

def Accepts (config : Config) (ballot : Text) : Prop := ∃ choice, storedChoice config choice = .ok ballot

def LotPending (row : Vote) : Prop :=
  ∃ stored lot, row.electionResult = some stored ∧ stored.lot = some lot ∧ lot.drawn = none

def LotFilled (row row' : Vote) : Prop :=
  ∃ stored lot drawn now sub name, row.electionResult = some stored ∧ stored.lot = some lot ∧
    drawn.length = lot.seats ∧ drawn.Nodup ∧ drawn ⊆ lot.among ∧
    row' = drawnRow stored lot drawn now sub name row

def SameResult (row row' : Vote) : Prop :=
  row'.result = row.result ∧ row'.electionResult = row.electionResult ∧ row'.pollResult = row.pollResult

def NoResult (row : Vote) : Prop :=
  row.result = none ∧ row.electionResult = none ∧ row.pollResult = none

/-- The result columns of an election: the tally, with the draw of its lot added
once the lot is drawn. -/
def ElectionTallied (row : Vote) (o : ElectionOutcome) : Prop :=
  (row.result = some o.result ∧ row.electionResult = some (resultOf o)) ∨
    ∃ drawn now sub name, o.result = .tie ∧ drawn.length = o.openSeats ∧ drawn.Nodup ∧ drawn ⊆ o.tied ∧
      row.result = some .elected ∧
      row.electionResult = some { resultOf o with
        elected := o.elected ++ drawn
        lot := some ⟨o.tied, o.openSeats, some drawn, some now, some sub, some name⟩ }

/-- The stored result is the tally of these ballots with the stored eligible count. -/
def Tallied (row : Vote) (ballots : List Text) : Prop :=
  match row.config with
  | .motion c =>
    row.result = some (result c (tally c.options ballots) (row.eligibleCount.getD 0)).result ∧
      row.electionResult = none ∧ row.pollResult = none
  | .election c =>
    ElectionTallied row (tallyElection ballots c (row.eligibleCount.getD 0)) ∧ row.pollResult = none
  | .poll c => row.result = none ∧ row.electionResult = none ∧ row.pollResult = some (tallyPoll ballots c)

theorem Tallied.perm {row : Vote} {a b : List Text} (h : Tallied row a) (hp : b.Perm a) : Tallied row b := by
  unfold Tallied at h ⊢
  cases hc : row.config with
  | motion c => simpa only [hc, tally_perm _ hp] using h
  | election c => simpa only [hc, tallyElection_perm _ _ hp] using h
  | poll c => simpa only [hc, tallyPoll_perm _ hp] using h

inductive StatusMove : VoteStatus → VoteStatus → Prop
  | stay (s : VoteStatus) : StatusMove s s
  | opens : StatusMove .draft .open
  | drop : StatusMove .draft .cancelled
  | closes : StatusMove .open .closed
  | cancels : StatusMove .open .cancelled

structure VoteInv (d : Db) (v : ℕ) : Prop where
  count : (d.ballots v).length = (d.markers v).length
  nodup : (d.markers v).Nodup
  missing : d.votes v = none → d.ballots v = []
  draft : ∀ row, d.votes v = some row → row.status = .draft → d.ballots v = []
  accepted : ∀ row, d.votes v = some row → ∀ b ∈ d.ballots v, Accepts row.config b
  closed : ∀ row, d.votes v = some row → row.status = .closed → Tallied row (d.ballots v)
  unclosed : ∀ row, d.votes v = some row → row.status ≠ .closed → NoResult row

def Inv (d : Db) : Prop := ∀ v, VoteInv d v

structure Same (v : ℕ) (d e : Db) : Prop where
  row : e.votes v = d.votes v
  ballots : e.ballots v = d.ballots v
  markers : e.markers v = d.markers v

theorem Same.refl (v : ℕ) (d : Db) : Same v d d := ⟨rfl, rfl, rfl⟩

theorem Same.trans {v : ℕ} {d e f : Db} (h : Same v d e) (k : Same v e f) : Same v d f :=
  ⟨k.row.trans h.row, k.ballots.trans h.ballots, k.markers.trans h.markers⟩

theorem VoteInv.of_same {v : ℕ} {d e : Db} (h : VoteInv d v) (s : Same v d e) : VoteInv e v := by
  obtain ⟨hrow, hballots, hmarkers⟩ := s
  constructor
  · rw [hballots, hmarkers]; exact h.count
  · rw [hmarkers]; exact h.nodup
  · rw [hrow, hballots]; exact h.missing
  · rw [hrow, hballots]; exact h.draft
  · rw [hrow, hballots]; exact h.accepted
  · rw [hrow, hballots]; exact h.closed
  · rw [hrow]; exact h.unclosed

def Request.CastsAt (r : Request) (v : ℕ) (now : Time) : Prop :=
  (∃ capped voter choice, r = .cast v capped voter choice now) ∨ ∃ guest choice, r = .castGuest v guest choice now

def Inserted (r : Request) (v : ℕ) (d e : Db) : Prop :=
  ∃ row voter ballot now, r.CastsAt v now ∧ d.votes v = some row ∧ row.status = .open ∧
    inWindow row now ∧ Accepts row.config ballot ∧ voter ∉ d.markers v ∧
    e.ballots v = d.ballots v ++ [ballot] ∧ e.markers v = d.markers v ++ [voter]

def Request.Draws (r : Request) (v : ℕ) : Prop := ∃ choose now sub name, r = .drawLot v choose now sub name

/-- What a commit may do to the row of a vote. The result of a closed vote
changes only when its pending lot is drawn, and then no lot is pending. -/
structure RowMove (r : Request) (v : ℕ) (row row' : Vote) : Prop where
  status : StatusMove row.status row'.status
  result : row.status = .closed → SameResult row row' ∨
    (r.Draws v ∧ LotPending row ∧ ¬ LotPending row' ∧ LotFilled row row')

structure Move (r : Request) (v : ℕ) (d e : Db) : Prop where
  row : ∀ row, d.votes v = some row → ∃ row', e.votes v = some row' ∧ RowMove r v row row' ∧
    (d.ballots v ≠ [] → row'.config = row.config)
  new : d.votes v = none → ∀ row', e.votes v = some row' → row'.status = .draft
  ballots : (e.ballots v = d.ballots v ∧ e.markers v = d.markers v) ∨ Inserted r v d e

theorem SameResult.refl (row : Vote) : SameResult row row := ⟨rfl, rfl, rfl⟩

theorem Same.move {r : Request} {v : ℕ} {d e : Db} (s : Same v d e) : Move r v d e := by
  refine ⟨?_, ?_, .inl ⟨s.ballots, s.markers⟩⟩
  · intro row hrow
    exact ⟨row, s.row.trans hrow, ⟨.stay _, fun _ => .inl (.refl row)⟩, fun _ => rfl⟩
  · intro hnone row' hrow'
    rw [s.row, hnone] at hrow'
    cases hrow'

/-- The agreement of the operations: the lock of a vote row guards the row, its
ballots and its markers. -/
def contract : Contract Request Db Key where
  inv := Inv
  rely held d e := ∀ v, Key.vote v ∈ held → Same v d e
  guar r held d e := (∀ v, Key.vote v ∉ held → Same v d e) ∧ ∀ v, Move r v d e
  refl _ d v _ := .refl v d
  trans h k v hv := (h v hv).trans (k v hv)
  compat _ g free v hv := g.1 v (free.not_mem hv)

theorem commit_one {r : Request} {v : ℕ} {held : List Key} {d e : Db} (hv : Key.vote v ∈ held)
    (hd : Inv d) (hother : ∀ u, u ≠ v → Same u d e) (hinv : VoteInv e v) (hmove : Move r v d e) :
    contract.inv e ∧ contract.guar r held d e := by
  refine ⟨?_, ?_, ?_⟩
  · intro u
    by_cases h : u = v
    · subst h; exact hinv
    · exact (hd u).of_same (hother u h)
  · intro u hu
    exact hother u fun h => hu (h ▸ hv)
  · intro u
    by_cases h : u = v
    · subst h; exact hmove
    · exact (hother u h).move

structure UpdateOk (r : Request) (v : ℕ) (row row' : Vote) (ballots : List Text) : Prop where
  move : RowMove r v row row'
  config : ballots ≠ [] → row'.config = row.config
  closed : row'.status = .closed → Tallied row' ballots
  unclosed : row'.status ≠ .closed → NoResult row'

theorem StatusMove.to_draft {s : VoteStatus} (h : StatusMove s .draft) : s = .draft := by
  cases h; rfl

theorem updateVote_same {v u : ℕ} (f : Vote → Vote) (d : Db) (h : u ≠ v) :
    Same u d (Db.updateVote v f d) := ⟨by simp [Db.updateVote, h], rfl, rfl⟩

theorem updateVote_row {v : ℕ} {f : Vote → Vote} {d : Db} {row : Vote} (h : d.votes v = some row) :
    (Db.updateVote v f d).votes v = some (f row) := by simp [Db.updateVote, h]

theorem VoteInv.update {r : Request} {v : ℕ} {f : Vote → Vote} {d : Db} {row : Vote} (h : VoteInv d v)
    (hrow : d.votes v = some row) (ok : UpdateOk r v row (f row) (d.ballots v)) :
    VoteInv (Db.updateVote v f d) v := by
  have hnew := updateVote_row (f := f) hrow
  refine ⟨h.count, h.nodup, ?_, ?_, ?_, ?_, ?_⟩
  · intro hnone
    rw [hnew] at hnone
    cases hnone
  all_goals
    intro row' hrow'
    rw [hnew] at hrow'
    cases hrow'
  · intro hdraft
    exact h.draft row hrow (hdraft ▸ ok.move.status).to_draft
  · intro b hb
    rw [ok.config (List.ne_nil_of_mem hb)]
    exact h.accepted row hrow b hb
  · exact ok.closed
  · exact ok.unclosed

theorem update_commit {r : Request} {v : ℕ} {f : Vote → Vote} {held : List Key} {d : Db} {row : Vote}
    (hd : Inv d) (hv : Key.vote v ∈ held) (hrow : d.votes v = some row)
    (ok : UpdateOk r v row (f row) (d.ballots v)) :
    contract.inv (Db.updateVote v f d) ∧ contract.guar r held d (Db.updateVote v f d) := by
  refine commit_one hv hd (fun u h => updateVote_same f d h) ((hd v).update hrow ok) ?_
  refine ⟨?_, ?_, .inl ⟨rfl, rfl⟩⟩
  · intro old hold
    rw [hrow] at hold
    cases hold
    exact ⟨f row, updateVote_row hrow, ok.move, ok.config⟩
  · intro hnone
    rw [hrow] at hnone
    cases hnone

section Programs

variable {r : Request} {l : Loc Db Key} {d : Db}
variable {Q : Unit → Loc Db Key → Db → Prop}

theorem wp_getVote {v : ℕ} {Q : Vote → Loc Db Key → Db → Prop}
    (h : ∀ e, contract.rely l.held d e → Inv e → ∀ row, (l.pend e).votes v = some row →
      Q row ⟨l.pend, .vote v :: l.held⟩ e) : wp contract r (getVote v) Q l d := by
  rw [getVote, wp_do, wp_lockRow]
  intro e hrely hinv
  cases hrow : (l.pend e).votes v with
  | none => simp
  | some row => simpa [hrow] using h e hrely hinv row hrow

theorem wp_lockLiveMeeting {m : ℕ} {item : Option ℕ} {planned : Bool}
    (h : ∀ e, contract.rely l.held d e → Inv e → Q () ⟨l.pend, .meeting m :: l.held⟩ e) :
    wp contract r (lockLiveMeeting m item planned) Q l d := by
  rw [lockLiveMeeting, wp_do, wp_lockRow]
  intro e hrely hinv
  cases hm : (l.pend e).meetings m with
  | none => simp
  | some meeting =>
    simp only [Option.map_some, wp_do, wp_ofOption, wp_require]
    intro _ _ _ _ _
    exact h e hrely hinv

theorem wp_checkProposal {a : Option ℕ} {p : Option Proposal} (h : ∀ e, contract.rely l.held d e → Q () l e) :
    wp contract r (checkProposal a p) Q l d := by
  cases a with
  | none =>
    simp only [checkProposal, wp_require]
    exact fun _ => h d (contract.refl _ _)
  | some a =>
    simp only [checkProposal, wp_do, wp_query]
    intro e hrely _
    simp only [wp_ofOption, wp_ofExcept]
    exact fun _ _ _ _ => h e hrely

/-- The last statements of an operation that rewrites the row it locked at `d`. -/
theorem wp_updateRow {v : ℕ} {f : Vote → Vote} {held : List Key} {row : Vote}
    (hv : Key.vote v ∈ held) (hrow : d.votes v = some row) (ok : UpdateOk r v row (f row) (d.ballots v)) :
    wp contract r (do Prog.update (Db.updateVote v f); Prog.publish : P Unit)
      (fun _ _ _ => True) ⟨id, held⟩ d := by
  rw [wp_do, wp_update, wp_publish]
  intro e hrely hinv
  have same := hrely v hv
  have hcommit := update_commit (r := r) (f := f) hinv hv (same.row.trans hrow) (same.ballots ▸ ok)
  exact ⟨hcommit.1, hcommit.2, trivial⟩

end Programs

end Voting
