import StupaWorkflow.StatusModel
import StupaWorkflow.TransactionWrites

/-!
The Gremium that a vote state takes from the cost center.
-/
namespace Status.Snapshot
open ReadCommitted List
open Prog hiding bind pure

inductive Problem where
  | status (p : Status.Problem)
  | applicationNotFound
  | budgetNotFound
  | budgetLockedByVote
  | fiscalYearClosed
  | fiscalYear
  /-- The worker leaves the application as it is. -/
  | skipped
  deriving DecidableEq

/-- `PUT` of the cost center by hand: `none` clears it. -/
structure AssignBudget where
  budget : Option Uuid
  /-- `_require_open_fiscal_year` accepts the year that the application leaves. -/
  yearOpen : Bool
  /-- The node exists, and its fiscal year resolves. -/
  resolves : Except Problem Unit

/-- The action `assignBudget`, `assignBudgetFromMap` or `assignBudgetFromField` with the node that it found. -/
structure FlowAssign where
  node : Uuid
  known : Bool
  fromField : Bool
  yearOpen : Bool

inductive Request where
  | status (r : Status.Request)
  | assignBudget (a : AssignBudget)
  | flowAssign (a : FlowAssign)

variable (G : Graph) (deciding : Uuid → Option Uuid)

section Scripts

/-- `resolve_vote_gremium`: the cost center of the application that was read decides where the state
asks for it. -/
def resolving (a : Application) (answers : Answers) : Answers :=
  { answers with
    gremium := fun s => if gremiumFromBudget (G.state s) then a.budget.bind deciding else answers.gremium s }

def inBudgetVoteState (a : Application) : Bool := a.voteGremium.isSome && gremiumFromBudget (a.state.bind G.state)

def fillSnapshot (a : Application) : Application :=
  if a.voteGremium.isNone && gremiumFromBudget (a.state.bind G.state) then
    { a with voteGremium := a.budget.bind deciding }
  else a

def assign (budget : Option Uuid) (d : Db) : Db :=
  { d with app := fillSnapshot G deciding { d.app with budget := budget } }

abbrev P := Prog Db Key Problem

def fire (id : Uuid) (answers : Answers) : Prog Db Key Status.Problem Unit := do
  let d ← query
  let t ← ofOption (G.transition id) .notFound
  stageFire G d.app t true (resolving G deciding d.app answers) none
  publish

def autoAdvance (answers : Answers) : Prog Db Key Status.Problem Unit := do
  let d ← query
  let t ← ofOption (autoTransition G d.app (resolving G deciding d.app answers)) .refused
  stageFire G d.app t false (resolving G deciding d.app answers) none
  publish

def forceStatus (target : Uuid) (answers : Answers) : Prog Db Key Status.Problem Unit := do
  let d ← query
  require answers.allowed .refused
  let source ← ofOption d.app.state .noCurrentState
  let s ← ofOption ((G.state target).filter (·.flowVersion = d.app.flowVersion)) .notFound
  require (target ≠ source) .alreadyInState
  let gremium ← ofExcept (entrySnapshot (resolving G deciding d.app answers) d.app source (some s))
  writeMove .concurrentStateChange d.app (some s) ⟨source, target, gremium, none, none⟩
  cancelForApplication G source target
  publish

def revertStatus (source target : Uuid) (answers : Answers) : Prog Db Key Status.Problem Unit := do
  let d ← query
  require answers.allowed .refused
  require (d.app.state = some target) .staleRevert
  let restored ← ofOption (G.state source) .notFound
  let gremium ← ofExcept (entrySnapshot (resolving G deciding d.app answers) d.app target (some restored))
  writeMove .staleRevert d.app (some restored) ⟨target, source, gremium, none, none⟩
  cancelForApplication G target source
  publish

def tryStage (c : Close) : Prog Db Key Status.Problem Unit := do
  let d ← query
  let t ← ofOption (branchTransition G d.app (if c.passed then .pass else .fail)) .notFound
  stageFire G d.app t false (resolving G deciding d.app c.answers) (some c.vote)

def stageBranch (c : Close) (v : Vote) : Prog Db Key Status.Problem Unit := do
  let d ← query
  if voteGremiumMismatch G d v then .pure () else (tryStage G deciding c).catchWith fun _ => .pure ()

def closeVote (c : Close) : Prog Db Key Status.Problem Unit := do
  let v ← getVoteForUpdate c.vote
  require (v.status = .running) .voteNotOpen
  require c.closable .quorumNotMet
  update (Db.mark [c.vote] .closed)
  stageBranch G deciding c v
  publish

def statusScript : Status.Request → Prog Db Key Status.Problem Unit
  | .fire transition answers => fire G deciding transition answers
  | .advance answers => autoAdvance G deciding answers
  | .force target answers => forceStatus G deciding target answers
  | .revert source target answers => revertStatus G deciding source target answers
  | .openVote vote live => openVote G vote live
  | .closeVote c => closeVote G deciding c
  | .cancelVote vote => cancelVote vote

def assignBudget (a : AssignBudget) : P Unit := do
  let d ← lockRow fun _ => some .application
  require (!inBudgetVoteState G d.app) .budgetLockedByVote
  require a.yearOpen .fiscalYearClosed
  ofExcept a.resolves
  update (assign G deciding a.budget)
  publish

/-- `_assign_node` behind the checks of its caller. -/
def flowAssign (a : FlowAssign) : P Unit := do
  let seen ← query
  require a.known .skipped
  require (!(a.fromField && seen.app.budget.any (· ≠ a.node))) .skipped
  let d ← lockRow fun _ => some .application
  require (!inBudgetVoteState G d.app) .skipped
  require a.yearOpen .skipped
  require (d.app.budget ≠ some a.node) .skipped
  update (assign G deciding (some a.node))
  publish

def script : Request → P Unit
  | .status r => (statusScript G deciding r).mapErr .status
  | .assignBudget a => assignBudget G deciding a
  | .flowAssign a => flowAssign G deciding a

end Scripts

section Law

/-- The snapshot belongs to a vote state, and it is what the cost center says where the state asks for it. -/
structure Agrees (a : Application) : Prop where
  outside : ¬ (a.state.bind G.state).any (·.vote) → a.voteGremium = none
  decided : gremiumFromBudget (a.state.bind G.state) → ∀ g ∈ a.voteGremium, a.budget.bind deciding = some g

variable {G deciding}

/-- A new application meets the law. -/
theorem created_agrees (version : Uuid) (initial : State) (hstate : G.state initial.id = some initial) (answers : Answers) :
    Agrees G deciding ⟨version, some initial.id,
      resolveVoteGremium (resolving G deciding ⟨version, none, none, none⟩ answers) (some initial), none⟩ := by
  refine ⟨fun hplain => ?_, fun hbudget g hg => ?_⟩
  · simp only [Option.bind_some, hstate, Option.any_some, Bool.not_eq_true] at hplain
    simp [resolveVoteGremium, hplain]
  · simp only [Option.bind_some, hstate] at hbudget
    simp [resolveVoteGremium, resolving, hstate, hbudget] at hg

theorem found_id {id : Uuid} {s : State} (h : G.state id = some s) : s.id = id := by
  rw [Graph.state] at h
  simpa using find?_some h

theorem entrySnapshot_cases {answers : Answers} {read : Application} {source : Uuid} {target : Option State}
    {gremium : Option Uuid} (h : entrySnapshot answers read source target = .ok gremium) :
    (∃ s, target = some s ∧ s.vote ∧ s.id = source ∧ gremium = read.voteGremium) ∨
    gremium = resolveVoteGremium answers target := by
  unfold entrySnapshot at h
  split at h
  next hself =>
    obtain ⟨s, rfl, hstays⟩ := (Option.any_eq_true _ _).mp hself
    rw [Bool.and_eq_true, beq_iff_eq] at hstays
    exact .inl ⟨s, rfl, hstays.1, hstays.2, (Except.ok.inj h).symm⟩
  next =>
    unfold snapshotForEntry at h
    split at h
    · cases h
    · exact .inr (Except.ok.inj h).symm

theorem entry_agrees {read now : Application} {source target : Uuid} {answers : Answers} {gremium : Option Uuid}
    (hread : Agrees G deciding read) (hstate : read.state = some source)
    (hgremium : entrySnapshot (resolving G deciding read answers) read source (G.state target) = .ok gremium)
    (hunchanged : unchanged read source (G.state target) now) :
    Agrees G deciding { now with state := some target, voteGremium := gremium } := by
  rw [unchanged, Bool.and_eq_true, Bool.or_eq_true, Bool.not_eq_true', beq_iff_eq, beq_iff_eq] at hunchanged
  obtain ⟨-, hpinned⟩ := hunchanged
  rcases entrySnapshot_cases hgremium with ⟨s, hs, hvote, hid, rfl⟩ | rfl
  · -- the state that it stays in is the one that was read
    have hfound : s.id = target := found_id hs
    have hsame : read.state = some target := by rw [hstate, ← hid, hfound]
    refine ⟨fun hplain => absurd hvote (by simpa [hs] using hplain), fun hbudget g hg => ?_⟩
    have hpinned := hpinned.resolve_left (by simpa using hbudget)
    have hdecided := hread.decided (by simpa [hsame] using hbudget) g hg
    rwa [← hpinned] at hdecided
  · refine ⟨fun hplain => ?_, fun hbudget g hg => ?_⟩
    · cases hs : G.state target with
      | none => rfl
      | some s =>
        have hvote : s.vote = false := by simpa [hs] using hplain
        simp [resolveVoteGremium, hvote]
    · have hbudget : gremiumFromBudget (G.state target) := hbudget
      have hpinned := hpinned.resolve_left (by simpa using hbudget)
      obtain ⟨s, hs, hvote⟩ := (Option.any_eq_true _ _).mp hbudget
      have hfound : s.id = target := found_id hs
      have hvote : s.vote = true := (Bool.and_eq_true_iff.mp hvote).1
      have hresolved : resolveVoteGremium (resolving G deciding read answers) (G.state target) = read.budget.bind deciding := by
        simp [resolveVoteGremium, hs, hvote, resolving, hfound ▸ hbudget]
      rw [hresolved] at hg
      rwa [← hpinned] at hg

theorem assign_agrees {a : Application} (h : Agrees G deciding a) (hfree : inBudgetVoteState G a = false) (budget : Option Uuid) :
    Agrees G deciding (fillSnapshot G deciding { a with budget := budget }) := by
  rw [inBudgetVoteState, Bool.and_eq_false_iff] at hfree
  unfold fillSnapshot
  split
  next hfill =>
    rw [Bool.and_eq_true] at hfill
    obtain ⟨-, hbudget⟩ := hfill
    refine ⟨fun hplain => absurd ?_ hplain, fun _ g hg => hg⟩
    obtain ⟨s, hs, hvote⟩ := (Option.any_eq_true _ _).mp hbudget
    rw [hs]
    exact (Bool.and_eq_true_iff.mp hvote).1
  next hkeep =>
    refine ⟨h.outside, fun hbudget g hg => ?_⟩
    -- a state that asks for the cost center has no snapshot here
    rcases hfree with hnone | hfixed
    · have hg : a.voteGremium = some g := hg
      simp [hg] at hnone
    · exact absurd hbudget (by simpa using hfixed)

end Law

section Contract

variable {G deciding}

def Pinned (a b : Application) : Prop := inBudgetVoteState G a → b.state = a.state → b.budget = a.budget

variable (G deciding)

def contract : Contract Request Db Key where
  inv d := Agrees G deciding d.app
  rely held d e := .application ∈ held → e.app = d.app
  guar _ held d e := Pinned (G := G) d.app e.app ∧ (e.app = d.app ∨ .application ∈ held)
  refl _ _ _ := rfl
  trans h h' hk := (h' hk).trans (h hk)
  compat _ h hapart hk := h.2.resolve_right fun hheld => hapart.not_mem hk hheld

variable {G deciding} {r : Request} {l : Loc Db Key} {d : Db}
variable {read : Application}

def Neutral (w : Db → Db) : Prop := ∀ d, (w d).app = d.app

theorem neutral_mayCommit (h : Neutral l.pend) : MayCommit (contract G deciding) r l d := by
  intro e _ hinv
  have happ : (l.pend e).app = e.app := h e
  refine ⟨?_, ?_, .inl happ⟩
  · show Agrees G deciding (l.pend e).app
    exact happ ▸ hinv
  · rw [happ]
    exact fun _ _ => rfl

theorem mayCommit_write {w : Db → Db} {l : Loc Db Key} {d : Db} (hw : Neutral w)
    (h : MayCommit (contract G deciding) r l d) : MayCommit (contract G deciding) r ⟨w ∘ l.pend, l.held⟩ d := by
  intro e hrely hinv
  obtain ⟨hagrees, hpinned, hheld⟩ := h e hrely hinv
  have happ : ((w ∘ l.pend) e).app = (l.pend e).app := hw (l.pend e)
  refine ⟨?_, ?_, ?_⟩
  · show Agrees G deciding ((w ∘ l.pend) e).app
    exact happ ▸ hagrees
  · rwa [happ]
  · rwa [happ]

theorem mayCommit_lock {k : Key} {l : Loc Db Key} {d : Db} (h : MayCommit (contract G deciding) r l d) :
    MayCommit (contract G deciding) r ⟨l.pend, k :: l.held⟩ d := by
  intro e hrely hinv
  obtain ⟨hagrees, hpinned, hheld⟩ := h e (fun hk => hrely (mem_cons_of_mem k hk)) hinv
  exact ⟨hagrees, hpinned, hheld.imp id (mem_cons_of_mem k)⟩

theorem wpOr_move {q : Status.Problem} {s : Option State} {m : Move} (hpend : Neutral l.pend)
    (hmove : ∀ now, unchanged read m.source s now →
      Agrees G deciding { now with state := some m.target, voteGremium := m.gremium }) :
    wpOr (contract G deciding) r (writeMove q read s m)
      (fun _ l d => MayCommit (contract G deciding) r l d) (fun _ l d => MayCommit (contract G deciding) r l d) l d := by
  rw [writeMove, wpOr_do, wpOr_lockRow]
  intro e _ _
  cases hu : unchanged read m.source s (l.pend e).app with
  | false => simpa [hu] using neutral_mayCommit hpend
  | true =>
    simp only [if_true, wpOr_do, wpOr_require, wpOr_update]
    refine ⟨fun _ => ?_, fun h => Bool.noConfusion h⟩
    intro f hrely hinv
    have happ : f.app = e.app := hrely mem_cons_self
    have hmoved := hmove (l.pend f).app (by rw [hpend f, happ, ← hpend e, hu])
    refine ⟨hmoved, fun _ _ => ?_, .inr mem_cons_self⟩
    show (l.pend f).app.budget = f.app.budget
    rw [hpend f]

theorem cancelForApplication_writes (left entered : Uuid) :
    (cancelForApplication G left entered).Writes (fun _ => True) Neutral (fun _ => True) fun _ => False := by
  simp only [cancelForApplication, writes_do, writes_query, writes_update]
  refine fun d _ => writes_collect (fun rows => ⟨fun _ => rfl, trivial⟩) (fun _ id => ?_) _ []
  simp only [lockPending, writes_do, writes_lockRow, writes_return, implies_true]

theorem wpOr_cancel {left entered : Uuid} (h : MayCommit (contract G deciding) r l d) :
    wpOr (contract G deciding) r (cancelForApplication G left entered)
      (fun _ l d => MayCommit (contract G deciding) r l d) (fun _ l d => MayCommit (contract G deciding) r l d) l d :=
  wpOr_mono (fun _ _ _ h => h.2) (fun _ _ _ h => h)
    (wpOr_mayCommit mayCommit_write mayCommit_lock (cancelForApplication_writes left entered) h)

theorem wpOr_stageFire {t : Transition} {manual : Bool} {answers : Answers} {vote : Option Uuid} (hread : Agrees G deciding read)
    (hpend : Neutral l.pend) : wpOr (contract G deciding) r (stageFire G read t manual (resolving G deciding read answers) vote)
      (fun _ l d => MayCommit (contract G deciding) r l d) (fun _ l d => MayCommit (contract G deciding) r l d) l d := by
  have hquiet : MayCommit (contract G deciding) r l d := neutral_mayCommit hpend
  simp only [stageFire, wpOr_do, wpOr_require, wpOr_ofExcept]
  refine ⟨fun _ => ⟨fun hstate => ⟨fun _ => ⟨fun _ => ⟨fun _ => ⟨fun gremium hgremium => ?_, fun _ _ => hquiet⟩,
    fun _ => hquiet⟩, fun _ => hquiet⟩, fun _ => hquiet⟩, fun _ => hquiet⟩, fun _ => hquiet⟩
  have hmove := wpOr_move (r := r) (l := l) (d := d) (q := .concurrentStateChange)
    (m := ⟨t.source, t.target, gremium, some t.id, vote⟩) hpend
    fun now hu => entry_agrees hread (of_decide_eq_true hstate) hgremium hu
  refine wpOr_mono (fun _ l d h => ?_) (fun _ _ _ h => h) hmove
  unfold cancelUnlessBranch
  split
  · exact h
  · exact wpOr_cancel h

theorem wp_publishes {p : Prog Db Key Status.Problem Unit} {E : Status.Problem → Loc Db Key → Db → Prop}
    (h : wpOr (contract G deciding) r p (fun _ l d => MayCommit (contract G deciding) r l d) E l d) :
    wp (contract G deciding) r p
      (fun _ l d => wp (contract G deciding) r (publish : Prog Db Key Status.Problem Unit) (fun _ _ _ => True) l d) l d :=
  wp_mono (fun _ _ _ h => h.publish) (wp_of_wpOr h)

theorem forced_publishes {source target : Uuid} {answers : Answers} {gremium : Option Uuid} {s : State} {problem : Status.Problem}
    (hread : Agrees G deciding read) (hstate : read.state = some source) (hs : G.state target = some s)
    (hgremium : entrySnapshot (resolving G deciding read answers) read source (some s) = .ok gremium) :
    wp (contract G deciding) r (writeMove problem read (some s) ⟨source, target, gremium, none, none⟩)
      (fun _ l d => wp (contract G deciding) r (cancelForApplication G source target)
        (fun _ l d => wp (contract G deciding) r (publish : Prog Db Key Status.Problem Unit) (fun _ _ _ => True) l d) l d)
      .fresh d := by
  have hmove := wpOr_move (r := r) (l := .fresh) (d := d) (q := problem) (s := some s)
    (m := ⟨source, target, gremium, none, none⟩) (fun _ => rfl)
    fun now hu => entry_agrees hread hstate (hs ▸ hgremium) (hs ▸ hu)
  exact wp_mono (fun _ l d h => wp_publishes (wpOr_cancel h)) (wp_of_wpOr hmove)

end Contract

section Requests

variable {G deciding}
variable {r : Request}

theorem fire_keeps (id : Uuid) (answers : Answers) : Keeps (contract G deciding) r (fire G deciding id answers) := by
  intro d _
  simp only [fire, wp_do, wp_query, wp_ofOption]
  intro e _ hinv t _
  exact wp_publishes (wpOr_stageFire hinv fun _ => rfl)

theorem autoAdvance_keeps (answers : Answers) : Keeps (contract G deciding) r (autoAdvance G deciding answers) := by
  intro d _
  simp only [autoAdvance, wp_do, wp_query, wp_ofOption]
  intro e _ hinv t _
  exact wp_publishes (wpOr_stageFire hinv fun _ => rfl)

theorem forceStatus_keeps (target : Uuid) (answers : Answers) :
    Keeps (contract G deciding) r (forceStatus G deciding target answers) := by
  intro d _
  simp only [forceStatus, wp_do, wp_query, wp_require, wp_ofOption, wp_ofExcept]
  intro e _ hinv _ source hsource s hs _ gremium hgremium
  exact forced_publishes hinv hsource (Option.filter_eq_some_iff.mp hs).1 hgremium

theorem revertStatus_keeps (source target : Uuid) (answers : Answers) :
    Keeps (contract G deciding) r (revertStatus G deciding source target answers) := by
  intro d _
  simp only [revertStatus, wp_do, wp_query, wp_require, wp_ofOption, wp_ofExcept]
  intro e _ hinv _ hstate s hs gremium hgremium
  exact forced_publishes hinv (of_decide_eq_true hstate) hs hgremium

theorem neutral_keeps {p : Prog Db Key Status.Problem Unit} (hp : p.Writes (fun _ => True) Neutral (fun _ => True) fun _ => True) :
    Keeps (contract G deciding) r p := by
  intro d _
  refine wp_mono (fun _ _ _ _ => trivial) (wp_of_writes (A := fun _ _ => True) (fun {w u} hw hu d => (hw (u d)).trans (hu d))
    (fun _ _ _ => trivial) (fun _ _ _ => trivial) (fun _ => trivial) (fun {a w held d} _ hw _ hinv => ?_) hp (fun _ => rfl) trivial)
  have hcommit : MayCommit (contract G deciding) r ⟨w, held⟩ d := neutral_mayCommit hw
  exact hcommit d (fun _ => rfl) hinv

theorem lockLiveMeeting_writes {V : Db → Prop} {S : (Db → Db) → Prop} (meeting : Option Uuid) (live : Bool) :
    (lockLiveMeeting meeting live).Writes V S (fun _ => True) fun _ => False := by
  cases meeting with
  | none => trivial
  | some m =>
    rw [lockLiveMeeting, writes_bind, writes_lockRow]
    exact fun _ _ => (writes_require live _).mpr fun _ => trivial

theorem openVote_keeps (id : Uuid) (live : Bool) : Keeps (contract G deciding) r (openVote G id live) := by
  refine neutral_keeps ?_
  simp only [openVote, writes_do, writes_query]
  intro d _
  refine writes_mono (fun _ _ => ?_) (fun _ h => h.elim) (lockLiveMeeting_writes _ live)
  simp only [getVoteForUpdate, writes_do, writes_lockRow, writes_ofOption, writes_require, writes_update,
    writes_publish]
  exact fun _ _ _ _ _ _ _ _ => ⟨fun _ => rfl, trivial⟩

theorem cancelVote_keeps (id : Uuid) : Keeps (contract G deciding) r (cancelVote id) := by
  refine neutral_keeps ?_
  simp only [cancelVote, getVoteForUpdate, writes_do, writes_lockRow, writes_ofOption, writes_require, writes_update, writes_publish]
  exact fun _ _ _ _ _ => ⟨fun _ => rfl, trivial⟩

theorem stageBranch_publishes {l : Loc Db Key} {d : Db} {c : Close} {v : Vote} (hpend : Neutral l.pend) :
    wp (contract G deciding) r (stageBranch G deciding c v)
      (fun _ l d => wp (contract G deciding) r (publish : Prog Db Key Status.Problem Unit) (fun _ _ _ => True) l d) l d := by
  refine wp_mono (fun _ _ _ (h : MayCommit (contract G deciding) r _ _) => h.publish) ?_
  rw [stageBranch, wp_do, wp_query]
  intro e _ _
  have hquiet {e : Db} : MayCommit (contract G deciding) r l e := neutral_mayCommit hpend
  split
  · exact hquiet
  · simp only [wp_catchWith, tryStage, wpOr_do, wpOr_query, wpOr_ofOption]
    intro f _ hinv
    refine ⟨fun t _ => ?_, fun _ => hquiet⟩
    have happ : (l.pend f).app = f.app := hpend f
    exact wpOr_stageFire (happ ▸ hinv) hpend

theorem closeVote_keeps (c : Close) : Keeps (contract G deciding) r (closeVote G deciding c) := by
  intro d _
  simp only [closeVote, getVoteForUpdate, wp_do, wp_lockRow, wp_ofOption, wp_require, wp_update]
  intro e _ _
  split
  · exact fun v _ _ _ => stageBranch_publishes fun _ => rfl
  · exact fun v _ _ _ => stageBranch_publishes fun _ => rfl

theorem assign_publishes {d : Db} {held : List Key} (budget : Option Uuid) (hheld : .application ∈ held)
    (hfree : inBudgetVoteState G d.app = false) :
    wp (contract G deciding) r (publish : P Unit) (fun _ _ _ => True) ⟨assign G deciding budget, held⟩ d := by
  refine MayCommit.publish fun e hrely hinv => ?_
  have happ : e.app = d.app := hrely hheld
  rw [← happ] at hfree
  exact ⟨assign_agrees hinv hfree budget, fun hlocked => absurd hlocked (by simp [hfree]), .inr hheld⟩

theorem assignBudget_keeps (a : AssignBudget) : Keeps (contract G deciding) (.assignBudget a) (assignBudget G deciding a) := by
  intro d _
  simp only [assignBudget, wp_do, wp_lockRow, wp_require, wp_ofExcept, wp_update]
  intro e _ _ hfree _ _ _
  exact assign_publishes a.budget mem_cons_self ((Bool.not_eq_true' _).mp hfree)

theorem flowAssign_keeps (a : FlowAssign) : Keeps (contract G deciding) (.flowAssign a) (flowAssign G deciding a) := by
  intro d _
  simp only [flowAssign, wp_do, wp_query, wp_lockRow, wp_require, wp_update]
  intro _ _ _ _ _ e _ _ hfree _ _
  exact assign_publishes (some a.node) mem_cons_self ((Bool.not_eq_true' _).mp hfree)

theorem statusScript_keeps (r : Request) (q : Status.Request) : Keeps (contract G deciding) r (statusScript G deciding q) := by
  cases q with
  | fire id answers => exact fire_keeps id answers
  | advance answers => exact autoAdvance_keeps answers
  | force target answers => exact forceStatus_keeps target answers
  | revert source target answers => exact revertStatus_keeps source target answers
  | openVote id live => exact openVote_keeps id live
  | closeVote c => exact closeVote_keeps c
  | cancelVote id => exact cancelVote_keeps id

theorem script_keeps (r : Request) : Keeps (contract G deciding) r (script G deciding r) := by
  cases r with
  | status q => exact fun d hinv => (wp_mapErr _ _ _).mpr (statusScript_keeps (.status q) q d hinv)
  | assignBudget a => exact assignBudget_keeps a
  | flowAssign a => exact flowAssign_keeps a

/-- Along every interleaving the snapshot is what the cost center says, no other state has one, and the
cost center of a decided vote stays. -/
theorem snapshot_agrees {d : Db} (h : Agrees G deciding d.app) {es : List (Event Request)} {s : Sys Request Db Key Problem}
    (hrun : run (script G deciding) ⟨d, []⟩ es = some s) :
    Agrees G deciding s.db.app ∧
    ∀ c ∈ commits (script G deciding) ⟨d, []⟩ es, Pinned (G := G) c.before.app c.after.app := by
  have hstart : Sound (contract G deciding) (⟨d, []⟩ : Sys Request Db Key Problem) := sound_start h
  refine ⟨(run_sound script_keeps h ⟨es, hrun⟩).inv, fun c hc => ?_⟩
  obtain ⟨-, held, hpinned, -⟩ := commits_guar script_keeps hstart es c hc
  exact hpinned

def budgetFlow : Graph where
  states := [⟨1, 5, false, false⟩, ⟨2, 5, true, true⟩, ⟨4, 5, false, false⟩]
  transitions := [⟨11, 5, 1, 2, none, false⟩, ⟨12, 5, 2, 4, some .pass, false⟩]
  branches := by decide

def twoCenters (budget : Uuid) : Option Uuid := if budget = 7 then some 6 else if budget = 8 then some 9 else none

/-- The cost center changes between the read and the UPDATE of the first fire. The second fire enters the
vote, and an action of the flow comes too late. -/
def crossedAssign : List (Event Request) :=
  let answers : Answers := ⟨fun _ => true, fun _ => none, true⟩
  let steps (i n : ℕ) : List (Event Request) := List.replicate n (.step i)
  .start (.status (.fire 11 answers)) :: steps 0 1 ++ .start (.assignBudget ⟨some 8, true, .ok ()⟩) :: steps 1 3 ++
    steps 0 2 ++ .start (.status (.fire 11 answers)) :: steps 2 6 ++ .start (.flowAssign ⟨7, true, false, true⟩) :: steps 3 3

theorem crossedAssign_agrees :
    ∃ s, run (script budgetFlow twoCenters) ⟨⟨⟨5, some 1, none, some 7⟩, [], []⟩, []⟩ crossedAssign = some s ∧
      s.db.app = ⟨5, some 2, some 9, some 8⟩ ∧ Agrees budgetFlow twoCenters s.db.app := by
  have hrun : (run (script budgetFlow twoCenters) ⟨⟨⟨5, some 1, none, some 7⟩, [], []⟩, []⟩ crossedAssign).map
      (fun s => s.db.app) = some ⟨5, some 2, some 9, some 8⟩ := by decide +kernel
  obtain ⟨s, hs, happ⟩ := Option.map_eq_some_iff.mp hrun
  have hstart : Agrees budgetFlow twoCenters ⟨5, some 1, none, some 7⟩ := ⟨fun _ => rfl, nofun⟩
  exact ⟨s, hs, happ, (snapshot_agrees hstart hs).1⟩

end Requests

end Status.Snapshot
