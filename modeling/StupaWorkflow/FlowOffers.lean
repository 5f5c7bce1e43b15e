import Mathlib.Data.List.Sort
import StupaWorkflow.FlowGraphs

/-!
The transitions that the engine lists for an actor and the ones that it fires.
-/
namespace Flow
open Py List
open Config (FlowRows StateRow TransitionRow FlowGraph)
open Guards (Members Builtins GuardContext Raised member evalGuard)

abbrev Uuid := ℕ

structure StateRef where
  version : ℕ
  key : Text
  deriving DecidableEq

structure TransitionRef where
  version : ℕ
  position : ℕ
  deriving DecidableEq

structure Transition where
  ref : TransitionRef
  row : TransitionRow

def Transition.source (t : Transition) : StateRef := ⟨t.ref.version, t.row.fromState⟩

def Transition.target (t : Transition) : StateRef := ⟨t.ref.version, t.row.toState⟩

structure Application where
  version : ℕ
  state : Option StateRef
  budget : Option Uuid
  voteGremium : Option Uuid
  createdBy : Option Text
  deriving DecidableEq

structure Principal where
  sub : Text
  roles : List Text

/-- The committed rows that the engine reads. `facts` is the part of the guard context that comes from the
application; the other three answer for the Gremien of a sub, of a cost center and of a `gremiumId`. -/
structure World where
  versions : ℕ → FlowRows
  app : Application
  facts : GuardContext
  committees : Text → List Text
  deciding : Uuid → Option Uuid
  gremium : Text → Option Uuid

inductive FireProblem where
  | notFound (message : Text)
  | forbidden (message : Text)
  | conflict (message code : Text)
  | raised (r : Raised)
  deriving DecidableEq

variable (B : Builtins) (W : World)

section Rows

def World.state (ref : StateRef) : Option StateRow := (W.versions ref.version).states.find? fun s => s.key = ref.key

def World.transitions (version : ℕ) : List Transition :=
  (W.versions version).transitions.mapIdx fun i row => ⟨⟨version, i⟩, row⟩

def World.transition (ref : TransitionRef) : Option Transition :=
  ((W.versions ref.version).transitions[ref.position]?).map fun row => ⟨ref, row⟩

def World.outgoing : List Transition :=
  ((W.transitions W.app.version).filter fun t => some t.source = W.app.state).insertionSort fun s t => s.row.order ≤ t.row.order

end Rows

section Contexts

def withActor (ctx : GuardContext) (roles committees : List Text) (isApplicant : Bool) : GuardContext :=
  if ctx.manual then { ctx with roles := roles, actorCommittees := committees, actorIsApplicant := isApplicant }
  else { ctx with roles := [], actorCommittees := [], actorIsApplicant := false }

def World.buildContext (p : Principal) (manual asApplicant : Bool) : GuardContext :=
  withActor { W.facts with manual := manual } p.roles (if manual then W.committees p.sub else [])
    (asApplicant || W.app.createdBy = some p.sub)

def applicant : Principal := ⟨text "applicant", []⟩

mutual

/-- An `actorIsApplicant` gate stands somewhere in the tree. -/
def guardRequiresApplicant : Json → Bool
  | .obj [(op, value)] =>
    match Guards.Operator.ofKey op with
    | some (.leaf leaf) => leaf = .actorIsApplicant
    | some _ =>
      match value with
      | .arr items => anyRequiresApplicant items
      | child => guardRequiresApplicant child
    | none => false
  | _ => false

def anyRequiresApplicant : List Json → Bool
  | [] => false
  | g :: gs => guardRequiresApplicant g || anyRequiresApplicant gs

end

end Contexts

section Gremium

def configOf (s : StateRow) : Members :=
  match s.config with
  | .obj members => members
  | _ => []

def gremiumFromBudget (s : Option StateRow) : Bool :=
  s.any fun s => s.kind = text "vote" && sourceIsBudget (configOf s)

def fixedGremiumRef (s : StateRow) : Option Text :=
  match member (configOf s) "gremiumId" with
  | .str ref => if ref.isEmpty then none else some ref
  | _ => none

def World.resolveVoteGremium (s : Option StateRow) (budget : Option Uuid) : Option Uuid :=
  s.bind fun s =>
    if s.kind ≠ text "vote" then none
    else if gremiumFromBudget (some s) then budget.bind W.deciding
    else (fixedGremiumRef s).bind W.gremium

def World.enterable (target : Option StateRow) : Bool :=
  !gremiumFromBudget target || (W.resolveVoteGremium target W.app.budget).isSome

def noVoteGremium : FireProblem :=
  .conflict (text "The cost center has no deciding Gremium. Assign a cost center with a deciding Gremium first.")
    (text "no_vote_gremium")

def World.snapshotForEntry (target : Option StateRow) : Except FireProblem (Option Uuid) := do
  raiseUnless (W.enterable target) noVoteGremium
  return W.resolveVoteGremium target W.app.budget

def isVote (s : Option StateRow) : Bool := s.any (·.kind = text "vote")

def World.entrySnapshot (source target : StateRef) : Except FireProblem (Option Uuid) :=
  if isVote (W.state target) && target = source then .ok W.app.voteGremium else W.snapshotForEntry (W.state target)

end Gremium

section Listing

def isManual (t : TransitionRow) : Bool := !t.automatic && t.branch.all (·.isEmpty)

def holdsFor (ctx : GuardContext) (candidate : TransitionRow → Bool) (t : TransitionRow) : Except Raised Bool :=
  if candidate t then evalGuard B ctx t.guard else .ok false

def visible (ctx : GuardContext) (candidate : TransitionRow → Bool) : List Transition → Except Raised (List Transition)
  | [] => .ok []
  | t :: ts => do
      let holds ← holdsFor B ctx candidate t.row
      let rest ← visible ctx candidate ts
      return if holds then t :: rest else rest

/-- `_transitions_out`. -/
def World.enterableOnly (ts : List Transition) : List Transition := ts.filter fun t => W.enterable (W.state t.target)

def World.listed (ctx : GuardContext) (candidate : TransitionRow → Bool) : Except Raised (List Transition) :=
  if W.app.state.isNone then .ok [] else (visible B ctx candidate W.outgoing).map W.enterableOnly

def World.availableTransitions (p : Principal) : Except Raised (List Transition) :=
  W.listed B (W.buildContext p true false) isManual

def opensToApplicant (t : TransitionRow) : Bool := isManual t && guardRequiresApplicant t.guard

def World.availableApplicantTransitions : Except Raised (List Transition) :=
  W.listed B (W.buildContext applicant true true) opensToApplicant

end Listing

section Firing

def World.loadTransition (ref : TransitionRef) : Except FireProblem Transition :=
  match W.transition ref with
  | some t => .ok t
  | none => .error (.notFound (text "transition not found"))

def checkGuard (ctx : GuardContext) (guard : Json) : Except FireProblem Unit :=
  match evalGuard B ctx guard with
  | .ok true => .ok ()
  | .ok false => .error (.conflict (text "Transition guard not satisfied.") (text "guard_failed"))
  | .error r => .error (.raised r)

/-- `stage_fire` without a decision, a meeting and a concurrent change. -/
def World.stageFire (ref : TransitionRef) (p : Principal) (manual asApplicant : Bool) : Except FireProblem Application := do
  let t ← W.loadTransition ref
  raiseUnless (t.ref.version = W.app.version) (.notFound (text "transition does not belong to this application's flow"))
  raiseUnless (some t.source = W.app.state)
    (.conflict (text "Transition is not available from the current state.") (text "transition_not_available"))
  raiseUnless (!(manual && t.row.branch.isSome))
    (.conflict (text "Branch transitions are fired by the vote outcome, not manually.") (text "branch_transition_manual"))
  raiseUnless (!(manual && t.row.automatic))
    (.conflict (text "Automatic transitions are fired by the system, not manually.") (text "automatic_transition_manual"))
  checkGuard B (W.buildContext p manual asApplicant) t.row.guard
  let snapshot ← W.entrySnapshot t.source t.target
  return { W.app with state := some t.target, voteGremium := snapshot }

def World.fireAsApplicant (ref : TransitionRef) : Except FireProblem Application := do
  let t ← W.loadTransition ref
  raiseUnless (!t.row.automatic && guardRequiresApplicant t.row.guard)
    (.forbidden (text "transition is not open to the applicant"))
  W.stageFire B ref applicant true true

end Firing

section Agreement

variable {B W}
variable {t : Transition} {ctx : GuardContext} {candidate : TransitionRow → Bool} {ts : List Transition}

def World.Accepted (B : Builtins) (W : World) : Prop :=
  ∃ g : FlowGraph, validateFlowGraph B g = .ok () ∧ W.versions W.app.version = g.rows

def Offers (ts : Except Raised (List Transition)) (ref : TransitionRef) : Prop := ∃ l, ts = .ok l ∧ ∃ t ∈ l, t.ref = ref

def Fires (x : Except FireProblem Application) : Prop := ∃ app, x = .ok app

def World.Evaluates (B : Builtins) (W : World) (ctx : GuardContext) (candidate : TransitionRow → Bool) : Prop :=
  ∀ t ∈ W.outgoing, candidate t.row → ∃ b, evalGuard B ctx t.row.guard = .ok b

def World.Passes (B : Builtins) (W : World) (ctx : GuardContext) (candidate : TransitionRow → Bool) (t : Transition) : Prop :=
  candidate t.row ∧ evalGuard B ctx t.row.guard = .ok true ∧ W.enterable (W.state t.target)

theorem mem_transitions {version : ℕ} : t ∈ W.transitions version ↔ W.transition t.ref = some t ∧ t.ref.version = version := by
  rcases t with ⟨⟨v, i⟩, row⟩
  simp only [World.transitions, World.transition, mem_mapIdx, Option.map_eq_some_iff, Transition.mk.injEq,
    TransitionRef.mk.injEq, getElem?_eq_some_iff, true_and]
  constructor
  · rintro ⟨j, hj, ⟨rfl, rfl⟩, hrow⟩
    exact ⟨⟨row, ⟨hj, hrow⟩, rfl⟩, rfl⟩
  · rintro ⟨⟨_, ⟨hi, hrow⟩, rfl⟩, rfl⟩
    exact ⟨i, hi, ⟨rfl, rfl⟩, hrow⟩

theorem mem_outgoing :
    t ∈ W.outgoing ↔ W.transition t.ref = some t ∧ t.ref.version = W.app.version ∧ some t.source = W.app.state := by
  simp only [World.outgoing, mem_insertionSort, mem_filter, mem_transitions, decide_eq_true_eq, and_assoc]

theorem visible_ok (h : ∀ t ∈ ts, candidate t.row → ∃ b, evalGuard B ctx t.row.guard = .ok b) :
    ∃ l, visible B ctx candidate ts = .ok l ∧
      ∀ t, t ∈ l ↔ t ∈ ts ∧ candidate t.row ∧ evalGuard B ctx t.row.guard = .ok true := by
  induction ts with
  | nil => exact ⟨[], rfl, by simp⟩
  | cons t ts ih =>
    obtain ⟨l, hl, hmem⟩ := ih fun u hu => h u (mem_cons_of_mem t hu)
    cases hc : candidate t.row with
    | false =>
      refine ⟨l, by simp [visible, holdsFor, hc, hl, bind, Except.bind, pure, Except.pure], fun u => ?_⟩
      rw [hmem, mem_cons]
      constructor
      · rintro ⟨hu, hrest⟩
        exact ⟨.inr hu, hrest⟩
      · rintro ⟨rfl | hu, hcu, hrest⟩
        · simp [hc] at hcu
        · exact ⟨hu, hcu, hrest⟩
    | true =>
      obtain ⟨b, hb⟩ := h t mem_cons_self hc
      refine ⟨if b then t :: l else l, by simp [visible, holdsFor, hc, hb, hl, bind, Except.bind, pure, Except.pure], fun u => ?_⟩
      cases b with
      | false =>
        simp only [Bool.false_eq_true, if_false, hmem, mem_cons]
        constructor
        · rintro ⟨hu, hrest⟩
          exact ⟨.inr hu, hrest⟩
        · rintro ⟨rfl | hu, hcu, hrest⟩
          · simp [hb] at hrest
          · exact ⟨hu, hcu, hrest⟩
      | true =>
        simp only [if_true, mem_cons, hmem]
        constructor
        · rintro (rfl | ⟨hu, hrest⟩)
          · exact ⟨.inl rfl, hc, hb⟩
          · exact ⟨.inr hu, hrest⟩
        · rintro ⟨rfl | hu, hrest⟩
          · exact .inl rfl
          · exact .inr ⟨hu, hrest⟩

theorem visible_raises (ht : t ∈ ts) (hc : candidate t.row) (hraises : ∀ b, evalGuard B ctx t.row.guard ≠ .ok b)
    (l : List Transition) : visible B ctx candidate ts ≠ .ok l := by
  intro hok
  induction ts generalizing l with
  | nil => cases ht
  | cons u us ih =>
    rw [visible] at hok
    obtain ⟨b, hb, hok⟩ := bind_ok.mp hok
    obtain ⟨rest, hrest, _⟩ := bind_ok.mp hok
    rcases mem_cons.mp ht with rfl | hmem
    · rw [holdsFor, if_pos hc] at hb
      exact hraises b hb
    · exact ih hmem rest hrest

theorem mem_enterableOnly : t ∈ W.enterableOnly ts ↔ t ∈ ts ∧ W.enterable (W.state t.target) := by
  rw [World.enterableOnly, mem_filter]

theorem offers_of_evaluates (h : W.Evaluates B ctx candidate) (ref : TransitionRef) :
    Offers (W.listed B ctx candidate) ref ↔ ∃ t ∈ W.outgoing, t.ref = ref ∧ W.Passes B ctx candidate t := by
  obtain ⟨l, hl, hmem⟩ := visible_ok h
  cases hstate : W.app.state with
  | none =>
    have hnone : ∀ t ∈ W.outgoing, False := fun t ht => by
      obtain ⟨_, _, hsource⟩ := mem_outgoing.mp ht
      rw [hstate] at hsource
      cases hsource
    constructor
    · rintro ⟨ts, hts, t, ht, _⟩
      rw [World.listed, hstate] at hts
      cases hts
      cases ht
    · rintro ⟨t, ht, _⟩
      exact (hnone t ht).elim
  | some at_ =>
    have hlisted : W.listed B ctx candidate = .ok (W.enterableOnly l) := by
      rw [World.listed, hstate, hl]
      rfl
    constructor
    · rintro ⟨ts, hts, t, ht, href⟩
      cases hlisted.symm.trans hts
      obtain ⟨htl, henter⟩ := mem_enterableOnly.mp ht
      obtain ⟨hout, hc, heval⟩ := (hmem t).mp htl
      exact ⟨t, hout, href, hc, heval, henter⟩
    · rintro ⟨t, hout, href, hc, heval, henter⟩
      exact ⟨_, hlisted, t, mem_enterableOnly.mpr ⟨(hmem t).mpr ⟨hout, hc, heval⟩, henter⟩, href⟩

theorem offers_nothing (h : ¬ W.Evaluates B ctx candidate) (ref : TransitionRef) : ¬ Offers (W.listed B ctx candidate) ref := by
  rintro ⟨ts, hts, _⟩
  simp only [World.Evaluates, not_forall, not_exists] at h
  obtain ⟨t, ht, hc, hraises⟩ := h
  obtain ⟨_, _, hsource⟩ := mem_outgoing.mp ht
  rw [World.listed, ← hsource] at hts
  cases hl : visible B ctx candidate W.outgoing with
  | ok l => exact visible_raises ht hc hraises l hl
  | error r =>
    rw [hl] at hts
    cases hts

theorem offers_agree_iff :
    (∀ ref, Offers (W.listed B ctx candidate) ref ↔ ∃ t ∈ W.outgoing, t.ref = ref ∧ W.Passes B ctx candidate t) ↔
      W.Evaluates B ctx candidate ∨ ∀ t ∈ W.outgoing, ¬ W.Passes B ctx candidate t := by
  constructor
  · intro h
    by_cases heval : W.Evaluates B ctx candidate
    · exact .inl heval
    · exact .inr fun t ht hpasses => offers_nothing heval t.ref ((h t.ref).mpr ⟨t, ht, rfl, hpasses⟩)
  · rintro (heval | hnone) ref
    · exact offers_of_evaluates heval ref
    · by_cases heval : W.Evaluates B ctx candidate
      · exact offers_of_evaluates heval ref
      · exact iff_of_false (offers_nothing heval ref) fun ⟨t, ht, _, hpasses⟩ => hnone t ht hpasses

theorem checkGuard_ok {guard : Json} : checkGuard B ctx guard = .ok () ↔ evalGuard B ctx guard = .ok true := by
  rw [checkGuard]
  cases evalGuard B ctx guard with
  | ok b => cases b <;> simp
  | error r => simp

theorem World.Accepted.noLoop (h : W.Accepted B) (ht : t ∈ W.outgoing) : t.target ≠ t.source := by
  obtain ⟨g, hg, hrows⟩ := h
  obtain ⟨hload, hversion, _⟩ := mem_outgoing.mp ht
  obtain ⟨row, hrow, heq⟩ := Option.map_eq_some_iff.mp hload
  rw [hversion, hrows] at hrow
  obtain ⟨def_, hdef, rfl⟩ : ∃ d ∈ g.transitions, d.row t.ref.position = row := by
    rw [FlowGraph.rows, getElem?_mapIdx] at hrow
    obtain ⟨d, hd, hrow⟩ := Option.map_eq_some_iff.mp hrow
    exact ⟨d, mem_of_getElem? hd, hrow⟩
  intro hloop
  rw [← heq] at hloop
  exact (wired_of_accepted hg).noLoop def_ hdef (StateRef.mk.inj hloop).2.symm

/-- A stored branch is `pass` or `fail`, so it is never empty. -/
theorem World.Accepted.branch (h : W.Accepted B) (ht : t ∈ W.outgoing) : t.row.branch.all (·.isEmpty) = !t.row.branch.isSome := by
  obtain ⟨g, _, hrows⟩ := h
  obtain ⟨hload, hversion, _⟩ := mem_outgoing.mp ht
  obtain ⟨row, hrow, heq⟩ := Option.map_eq_some_iff.mp hload
  rw [hversion, hrows, FlowGraph.rows, getElem?_mapIdx] at hrow
  obtain ⟨d, _, rfl⟩ := Option.map_eq_some_iff.mp hrow
  rw [← heq]
  simp only [Config.TransitionDef.row]
  rcases d.branch with _ | _ | _ <;> rfl

theorem entrySnapshot_ok (h : W.Accepted B) (ht : t ∈ W.outgoing) :
    (∃ snapshot, W.entrySnapshot t.source t.target = .ok snapshot) ↔ W.enterable (W.state t.target) := by
  rw [World.entrySnapshot, decide_eq_false (h.noLoop ht), Bool.and_false, if_neg Bool.false_ne_true]
  constructor
  · rintro ⟨snapshot, hok⟩
    obtain ⟨_, henter, _⟩ := bind_ok.mp hok
    exact raiseUnless_ok.mp henter
  · intro henter
    exact ⟨_, bind_ok.mpr ⟨(), raiseUnless_ok.mpr henter, rfl⟩⟩

theorem loadTransition_ok {ref : TransitionRef} : W.loadTransition ref = .ok t ↔ W.transition ref = some t := by
  rw [World.loadTransition]
  cases W.transition ref <;> simp

theorem ref_of_transition {ref : TransitionRef} (h : W.transition ref = some t) : t.ref = ref := by
  obtain ⟨_, _, rfl⟩ := Option.map_eq_some_iff.mp h
  rfl

theorem fires_iff (h : W.Accepted B) (ref : TransitionRef) (p : Principal) (asApplicant : Bool) :
    Fires (W.stageFire B ref p true asApplicant) ↔
      ∃ t ∈ W.outgoing, t.ref = ref ∧ W.Passes B (W.buildContext p true asApplicant) isManual t := by
  constructor
  · rintro ⟨app, hfire⟩
    obtain ⟨t, hload, hfire⟩ := bind_ok.mp hfire
    obtain ⟨_, hversion, hfire⟩ := bind_ok.mp hfire
    obtain ⟨_, hsource, hfire⟩ := bind_ok.mp hfire
    obtain ⟨_, hbranch, hfire⟩ := bind_ok.mp hfire
    obtain ⟨_, hautomatic, hfire⟩ := bind_ok.mp hfire
    obtain ⟨_, hguard, hfire⟩ := bind_ok.mp hfire
    obtain ⟨snapshot, hsnapshot, _⟩ := bind_ok.mp hfire
    have hload := loadTransition_ok.mp hload
    have href := ref_of_transition hload
    have hout : t ∈ W.outgoing := mem_outgoing.mpr ⟨by rw [href, hload], by simpa using hversion, by simpa using hsource⟩
    refine ⟨t, hout, href, ?_, checkGuard_ok.mp hguard, (entrySnapshot_ok h hout).mp ⟨snapshot, hsnapshot⟩⟩
    rw [isManual, h.branch hout]
    simpa using And.intro (raiseUnless_ok.mp hautomatic) (raiseUnless_ok.mp hbranch)
  · rintro ⟨t, hout, rfl, hmanual, hguard, henter⟩
    obtain ⟨hload, hversion, hsource⟩ := mem_outgoing.mp hout
    obtain ⟨snapshot, hsnapshot⟩ := (entrySnapshot_ok h hout).mpr henter
    rw [isManual, h.branch hout] at hmanual
    obtain ⟨hautomatic, hbranch⟩ := Bool.and_eq_true_iff.mp hmanual
    refine ⟨_, bind_ok.mpr ⟨t, loadTransition_ok.mpr hload, bind_ok.mpr ⟨(), raiseUnless_ok.mpr ?_,
      bind_ok.mpr ⟨(), raiseUnless_ok.mpr ?_, bind_ok.mpr ⟨(), raiseUnless_ok.mpr ?_,
      bind_ok.mpr ⟨(), raiseUnless_ok.mpr ?_, bind_ok.mpr ⟨(), checkGuard_ok.mpr hguard,
      bind_ok.mpr ⟨snapshot, hsnapshot, rfl⟩⟩⟩⟩⟩⟩⟩⟩
    · exact decide_eq_true hversion
    · exact decide_eq_true hsource
    · simpa using hbranch
    · simpa using hautomatic

/-- The gate of `fire_as_applicant` and the checks of `stage_fire` together are the filter of the applicant's list. -/
theorem fires_as_applicant_iff (h : W.Accepted B) (ref : TransitionRef) :
    Fires (W.fireAsApplicant B ref) ↔
      ∃ t ∈ W.outgoing, t.ref = ref ∧ W.Passes B (W.buildContext applicant true true) opensToApplicant t := by
  constructor
  · rintro ⟨app, hfire⟩
    obtain ⟨t, hload, hfire⟩ := bind_ok.mp hfire
    obtain ⟨_, hgate, hfire⟩ := bind_ok.mp hfire
    obtain ⟨u, hout, href, hmanual, hpasses⟩ := (fires_iff h ref applicant true).mp ⟨app, hfire⟩
    have hsame : W.transition ref = some u := by rw [← href, (mem_outgoing.mp hout).1]
    obtain rfl : t = u := Option.some.inj ((loadTransition_ok.mp hload).symm.trans hsame)
    obtain ⟨_, hopen⟩ := Bool.and_eq_true_iff.mp (raiseUnless_ok.mp hgate)
    exact ⟨t, hout, href, Bool.and_eq_true_iff.mpr ⟨hmanual, hopen⟩, hpasses⟩
  · rintro ⟨t, hout, rfl, hcandidate, hpasses⟩
    obtain ⟨hmanual, hopen⟩ := Bool.and_eq_true_iff.mp hcandidate
    obtain ⟨app, hfire⟩ := (fires_iff h t.ref applicant true).mpr ⟨t, hout, rfl, hmanual, hpasses⟩
    have hautomatic := (Bool.and_eq_true_iff.mp hmanual).1
    exact ⟨app, bind_ok.mpr ⟨t, loadTransition_ok.mpr (mem_outgoing.mp hout).1,
      bind_ok.mpr ⟨(), raiseUnless_ok.mpr (Bool.and_eq_true_iff.mpr ⟨hautomatic, hopen⟩), hfire⟩⟩⟩

/-- Each list offers what fires, if and only if every guard that it reads evaluates or nothing passes. -/
theorem offered_iff_fireable (h : W.Accepted B) (p : Principal) :
    ((∀ ref, Offers (W.availableTransitions B p) ref ↔ Fires (W.stageFire B ref p true false)) ∧
      ∀ ref, Offers (W.availableApplicantTransitions B) ref ↔ Fires (W.fireAsApplicant B ref)) ↔
      (W.Evaluates B (W.buildContext p true false) isManual ∨
        ∀ t ∈ W.outgoing, ¬ W.Passes B (W.buildContext p true false) isManual t) ∧
      (W.Evaluates B (W.buildContext applicant true true) opensToApplicant ∨
        ∀ t ∈ W.outgoing, ¬ W.Passes B (W.buildContext applicant true true) opensToApplicant t) := by
  refine and_congr ?_ ?_
  · rw [← offers_agree_iff]
    exact forall_congr' fun ref => by rw [fires_iff h ref p false]; rfl
  · rw [← offers_agree_iff]
    exact forall_congr' fun ref => by rw [fires_as_applicant_iff h ref]; rfl

end Agreement

section Limit

def plainBuiltins : Builtins := ⟨id, fun _ => false, fun _ => none⟩

def normalState (key : String) (isInitial : Bool) : Config.StateDef where
  key := text key
  label := []
  color := none
  editAllowed := false
  isInitial := isInitial
  isTerminal := false
  kind := .normal
  config := []

def manualTo (target : String) (guard : Option Members) : Config.TransitionDef where
  source := text "draft"
  target := text target
  label := none
  color := none
  guard := guard
  actions := []
  order := none
  automatic := false
  branch := none
  requiresAction := true

def amountAtMost (limit : String) : Members :=
  [(text "compare", .obj [(text "field", .str (text "amount")), (text "op", .str (text "<=")), (text "value", .str (text limit))])]

def limitGraph (limit : String) : FlowGraph where
  states := [normalState "draft" true, normalState "sent" false, normalState "accepted" false]
  transitions := [manualTo "sent" none, manualTo "accepted" (some (amountAtMost limit))]
  layout := none

def limitWorld (limit : String) : World where
  versions := fun _ => (limitGraph limit).rows
  app := ⟨1, some ⟨1, text "draft"⟩, none, none, none⟩
  facts := { fieldValues := [(text "amount", .int 100)], fieldTypes := [(text "amount", text "currency")] }
  committees := fun _ => []
  deciding := fun _ => none
  gremium := fun _ => none

def manager : Principal := ⟨text "manager", []⟩

theorem limitWorld_accepted : (limitWorld "500").Accepted plainBuiltins := ⟨limitGraph "500", by decide +kernel, rfl⟩

theorem limitWorld_evaluates {ctx : GuardContext} {candidate : TransitionRow → Bool}
    (hamount : ∃ b, evalGuard plainBuiltins ctx (.obj (amountAtMost "500")) = .ok b) :
    (limitWorld "500").Evaluates plainBuiltins ctx candidate := by
  have hout : (limitWorld "500").outgoing = (limitWorld "500").transitions 1 := rfl
  intro t ht _
  rw [hout] at ht
  simp only [World.transitions, limitWorld, limitGraph, FlowGraph.rows, mapIdx_cons, mapIdx_nil, mem_cons,
    not_mem_nil, or_false] at ht
  rcases ht with rfl | rfl
  · exact ⟨true, rfl⟩
  · exact hamount

theorem limitWorld_offers :
    (∀ ref, Offers ((limitWorld "500").availableTransitions plainBuiltins manager) ref ↔
      Fires ((limitWorld "500").stageFire plainBuiltins ref manager true false)) ∧
    ∀ ref, Offers ((limitWorld "500").availableApplicantTransitions plainBuiltins) ref ↔
      Fires ((limitWorld "500").fireAsApplicant plainBuiltins ref) :=
  (offered_iff_fireable limitWorld_accepted manager).mpr
    ⟨.inl (limitWorld_evaluates ⟨true, by decide +kernel⟩), .inl (limitWorld_evaluates ⟨true, by decide +kernel⟩)⟩

/-- Sending off the draft works, but the limit NaN raises, so that it is not offered. -/
theorem nanLimit_hides :
    ∃ (B : Builtins) (W : World) (p : Principal) (ref : TransitionRef), W.Accepted B ∧
      Fires (W.stageFire B ref p true false) ∧ ¬ Offers (W.availableTransitions B p) ref := by
  refine ⟨plainBuiltins, limitWorld "NaN", manager, ⟨1, 0⟩, ⟨limitGraph "NaN", by decide +kernel, rfl⟩, ?_, ?_⟩
  · exact ⟨⟨1, some ⟨1, text "sent"⟩, none, none, none⟩, by decide +kernel⟩
  · rintro ⟨l, hl, _⟩
    have hraise : (limitWorld "NaN").availableTransitions plainBuiltins manager = .error .invalidOperation := rfl
    rw [hraise] at hl
    cases hl

end Limit

end Flow
