import Mathlib.Data.List.Dedup
import StupaWorkflow.FlowOffers
import StupaWorkflow.Raises

/-!
What the save gate of a flow raises. A broken rule is a `FlowValidationError`; a name that has no
hash, or a value that the text of the error cannot show, raises something else.
-/
namespace Guards
open Py Raises List
open JsonLogic (displays)

section Conditions

def Caught (r : Raised) : Prop := ∃ e, r = .guard e

def isName : Json → Bool
  | .arr _ | .obj _ => false
  | v => displays v

def CompareSafe : Json → Prop
  | .obj members => (∃ fld, compareField members = .ok fld) → isName (member members "op") = true
  | _ => True

def ChildrenSafe (value : Json) : Prop := ∀ c, (children value).find? (fun c => !isObject c) = some c → displays c = true

mutual

def GuardSafe (allowActorOps : Bool) : Json → Prop
  | .obj [(op, value)] =>
    match Operator.ofKey op with
    | some (.leaf leaf) => leaf = .compare → CompareSafe value
    | some combinator =>
      ChildrenSafe value ∧ (checkChildren op value = .ok () → checkCount op combinator value = .ok () →
        match value with
        | .arr items => AllSafe allowActorOps items
        | child => GuardSafe allowActorOps child)
    | none => True
  | _ => True

def AllSafe (allowActorOps : Bool) : List Json → Prop
  | [] => True
  | g :: gs => GuardSafe allowActorOps g ∧ (validateGuard allowActorOps g = .ok () → AllSafe allowActorOps gs)

end

end Conditions

section Exactness

variable {ε α : Type} {P : ε → Prop} {ok : Bool} {e : ε} {f : Unit → Except ε α} {op : Text} {value : Json} {allow : Bool}

theorem raisesOnly_raiseUnless (he : P e) : RaisesOnly P (raiseUnless ok e) := by
  unfold raiseUnless
  split
  · exact .ok ()
  · exact raisesOnly_error.mpr he

theorem raisesOnly_check (he : P e) : RaisesOnly P (raiseUnless ok e >>= f) ↔ (ok = true → RaisesOnly P (f ())) := by
  rw [raisesOnly_bind, and_iff_right (raisesOnly_raiseUnless he)]
  exact ⟨fun h hok => h () (raiseUnless_ok.mpr hok), fun h _ hok => h (raiseUnless_ok.mp hok)⟩

theorem raisesOnly_seq {x : Except ε Unit} {y : Except ε α} :
    RaisesOnly P (x >>= fun _ => y) ↔ RaisesOnly P x ∧ (x = .ok () → RaisesOnly P y) := by
  rw [raisesOnly_bind]
  exact and_congr_right fun _ => ⟨fun h hx => h () hx, fun h _ hx => h hx⟩

theorem caught_guard (e : GuardError) : Caught (.guard e) := ⟨e, rfl⟩

theorem showing_caught {e : GuardError} : RaisesOnly Caught (.error (showing value e) : Except Raised α) ↔ displays value = true := by
  rw [raisesOnly_error, showing]
  split
  · next hshown => exact ⟨fun _ => hshown, fun _ => caught_guard e⟩
  · next hshown => simp [Caught, hshown]

theorem compareField_caught (members : Members) : RaisesOnly Caught (compareField members) := by
  unfold compareField
  split
  · split
    · exact raisesOnly_error.mpr (caught_guard _)
    · exact .ok _
  · exact raisesOnly_error.mpr (caught_guard _)

theorem compareOp_safe {members : Members} :
    RaisesOnly Caught (validateCompareOp members) ↔ isName (member members "op") = true := by
  unfold validateCompareOp
  cases member members "op" with
  | str s =>
    refine iff_of_true ?_ rfl
    change RaisesOnly Caught (((CompareOp.ofText s).map .ok).getD (.error (.guard .unknownCompareOp)))
    cases CompareOp.ofText s with
    | none => exact raisesOnly_error.mpr (caught_guard _)
    | some op => exact .ok op
  | arr items => simp [raisesOnly_error, Caught, isName]
  | obj members => simp [raisesOnly_error, Caught, isName]
  | null => exact showing_caught
  | bool b => exact showing_caught
  | int z => exact showing_caught
  | float literal => exact showing_caught

theorem compare_safe : RaisesOnly Caught (validateCompare value) ↔ CompareSafe value := by
  cases value with
  | obj members =>
    rw [validateCompare, CompareSafe, raisesOnly_bind, and_iff_right (compareField_caught members), forall_exists_index]
    apply forall_congr'
    intro fld
    apply imp_congr_right
    intro _
    rw [raisesOnly_bind, compareOp_safe]
    exact and_iff_left fun _ _ => raisesOnly_raiseUnless (caught_guard _)
  | _ => exact iff_of_true (raisesOnly_error.mpr (caught_guard _)) trivial

theorem leaf_safe {leaf : Leaf} : RaisesOnly Caught (validateLeaf allow leaf value) ↔ (leaf = .compare → CompareSafe value) := by
  rw [validateLeaf, raisesOnly_check (caught_guard _), raisesOnly_check (caught_guard _), raisesOnly_check (caught_guard _)]
  by_cases hcompare : leaf = .compare
  · subst hcompare
    simp [Leaf.isActorGate, Leaf.takesString, Leaf.takesBool, compare_safe]
  · rw [if_neg hcompare]
    exact iff_of_true (fun _ _ _ => .ok ()) fun h => absurd h hcompare

theorem children_safe : RaisesOnly Caught (checkChildren op value) ↔ ChildrenSafe value := by
  rw [checkChildren, ChildrenSafe]
  cases (children value).find? fun c => !isObject c with
  | none =>
    refine iff_of_true (.ok ()) fun c h => ?_
    cases h
  | some c =>
    rw [showing_caught]
    exact ⟨fun hshown _ h => Option.some.inj h ▸ hshown, fun h => h c rfl⟩

theorem checkCount_caught (op : Text) (operator : Operator) (value : Json) :
    RaisesOnly Caught (checkCount op operator value) :=
  (raisesOnly_check (caught_guard _)).mpr fun _ => raisesOnly_raiseUnless (caught_guard _)

theorem combinator_safe {operator : Operator} {parts : Except Raised Unit} {Safe : Prop} (h : RaisesOnly Caught parts ↔ Safe) :
    RaisesOnly Caught (do
        checkChildren op value
        checkCount op operator value
        parts) ↔
      ChildrenSafe value ∧ (checkChildren op value = .ok () → checkCount op operator value = .ok () → Safe) := by
  rw [raisesOnly_seq, children_safe]
  apply and_congr_right
  intro _
  apply imp_congr_right
  intro _
  rw [raisesOnly_seq, and_iff_right (checkCount_caught op operator value), h]

theorem single_safe
    (h : RaisesOnly Caught (match value with | .arr items => validateAll allow items | child => validateGuard allow child) ↔
      (match value with | .arr items => AllSafe allow items | child => GuardSafe allow child)) :
    RaisesOnly Caught (validateGuard allow (.obj [(op, value)])) ↔ GuardSafe allow (.obj [(op, value)]) := by
  rw [validateGuard.eq_def, GuardSafe.eq_def]
  simp only
  cases Operator.ofKey op with
  | none => exact iff_of_true (raisesOnly_error.mpr (caught_guard _)) trivial
  | some operator =>
    cases operator with
    | leaf leaf => exact leaf_safe
    | _ => exact combinator_safe h

mutual

theorem guard_safe (allow : Bool) : (g : Json) → (RaisesOnly Caught (validateGuard allow g) ↔ GuardSafe allow g)
  | .obj [(_, .arr items)] => single_safe (all_safe allow items)
  | .obj [(_, .obj members)] => single_safe (guard_safe allow (.obj members))
  | .obj [(_, .null)] => single_safe (guard_safe allow .null)
  | .obj [(_, .bool b)] => single_safe (guard_safe allow (.bool b))
  | .obj [(_, .int z)] => single_safe (guard_safe allow (.int z))
  | .obj [(_, .float literal)] => single_safe (guard_safe allow (.float literal))
  | .obj [(_, .str s)] => single_safe (guard_safe allow (.str s))
  | .obj (m :: n :: members) => by
    rw [validateGuard, GuardSafe]
    · exact iff_of_true (raisesOnly_error.mpr (caught_guard _)) trivial
    · intro _ _ h
      cases h
  | .obj [] => iff_of_true (.ok ()) trivial
  | .null | .bool _ | .int _ | .float _ | .str _ | .arr _ => iff_of_true (.ok ()) trivial

theorem all_safe (allow : Bool) : (gs : List Json) → (RaisesOnly Caught (validateAll allow gs) ↔ AllSafe allow gs)
  | [] => iff_of_true (.ok ()) trivial
  | g :: gs => by
    rw [validateAll, AllSafe, raisesOnly_seq, guard_safe allow g, all_safe allow gs]

end

end Exactness

end Guards

namespace Flow
open Py Raises List
open Config (StateDef TransitionDef FlowGraph StateKind TransitionBranch)
open Guards (Members Builtins GuardError Raised member truthy isName GuardSafe raisesOnly_raiseUnless raisesOnly_check raisesOnly_seq)
open JsonLogic (displays)

section Conditions

variable (B : Builtins)

def ActionRaised.Caught (r : ActionRaised) : Prop := ∃ e, r = .invalid e

/-- A `FlowValidationError`. -/
def Problem.Reported (p : Problem) : Prop := ∃ e, p = .invalid e

def named {κ : Type} (ofKey : Text → Option κ) : Json → Option κ
  | .str s => ofKey s
  | _ => none

def RecipientSafe : Json → Prop
  | .obj r => isName (member r "kind") = true
  | _ => True

def RecipientsSafe : Json → Prop
  | .arr rs => ∀ r, Raises.Reached (validateRecipient B) rs r → RecipientSafe r
  | _ => True

def ActionSafe (action : Members) : Prop :=
  isName (member action "type") = true ∧ (typeOf action = some .notify → RecipientsSafe B (member action "recipients"))

def TransitionSafe (g : FlowGraph) (t : TransitionDef) : Prop :=
  t.source ∈ g.states.map StateDef.key → t.target ∈ g.states.map StateDef.key → t.source ≠ t.target →
    GuardSafe (!t.automatic) (guardJson t.guard) ∧
      (Guards.validateGuard (!t.automatic) (guardJson t.guard) = .ok () →
        ∀ action, Raises.Reached (checkAction B g t.target) t.actions action → ActionSafe B action)

def Headed (g : FlowGraph) : Prop :=
  g.states ≠ [] ∧ (g.states.map StateDef.key).Nodup ∧ (g.states.filter (·.isInitial)).length = 1

def GraphSafe (g : FlowGraph) : Prop := Headed g → ∀ t, Raises.Reached (checkTransition B g) g.transitions t → TransitionSafe B g t

end Conditions

section Exactness

variable {B : Builtins} {α : Type} {action : Members} {g : FlowGraph}
variable {x : Except Raised Unit}

theorem caught_invalid (e : ActionError) : ActionRaised.Caught (.invalid e) := ⟨e, rfl⟩

theorem reported_invalid (e : Invalid) : Problem.Reported (.invalid e) := ⟨e, rfl⟩

theorem named_safe {κ : Type} (ofKey : Text → Option κ) (e : ActionError) (rest : κ → Except ActionRaised Unit) {v : Json}
    {f : Option Text → Except ActionRaised Unit} (hnone : ∀ name, name.bind ofKey = none → f name = .error (showing v e))
    (hsome : ∀ name k, name.bind ofKey = some k → f name = rest k) :
    RaisesOnly ActionRaised.Caught (hashed v >>= f) ↔
      isName v = true ∧ ∀ k, named ofKey v = some k → RaisesOnly ActionRaised.Caught (rest k) := by
  have hshown : RaisesOnly ActionRaised.Caught (.error (showing v e) : Except ActionRaised Unit) ↔ displays v = true := by
    rw [raisesOnly_error, showing]
    split
    · next h => exact iff_of_true (caught_invalid e) h
    · next h => simp [ActionRaised.Caught, h]
  have hunknown {name : Option Text} (hbind : name.bind ofKey = none) (hnamed : named ofKey v = none) :
      RaisesOnly ActionRaised.Caught (f name) ↔
        displays v = true ∧ ∀ k, named ofKey v = some k → RaisesOnly ActionRaised.Caught (rest k) := by
    rw [hnone name hbind, hshown, hnamed]
    simp
  cases v with
  | arr items => simp [hashed, isName, raisesOnly_bind, raisesOnly_error, ActionRaised.Caught]
  | obj members => simp [hashed, isName, raisesOnly_bind, raisesOnly_error, ActionRaised.Caught]
  | str s =>
    change RaisesOnly ActionRaised.Caught (f (some s)) ↔ _
    cases hkey : ofKey s with
    | none => exact hunknown hkey hkey
    | some k =>
      rw [hsome (some s) k hkey]
      simp [isName, named, displays, hkey]
  | null => exact hunknown rfl rfl
  | bool b => exact hunknown rfl rfl
  | int z => exact hunknown rfl rfl
  | float literal => exact hunknown rfl rfl

theorem recipient_safe {r : Json} : RaisesOnly ActionRaised.Caught (validateRecipient B r) ↔ RecipientSafe r := by
  cases r with
  | obj r =>
    rw [validateRecipient, RecipientSafe, named_safe RecipientKind.ofKey .recipientKind fun kind =>
      raiseUnless (if kind.takesRef then truthy B (member r "ref") else isNull (member r "ref"))
        (.invalid (.recipientRef kind))]
    · exact and_iff_left fun kind _ => raisesOnly_raiseUnless (caught_invalid _)
    · intro name hname
      simp only [hname]
    · intro name kind hname
      simp only [hname]
  | _ => exact iff_of_true (raisesOnly_error.mpr (caught_invalid _)) trivial

theorem recipients_safe {v : Json} : RaisesOnly ActionRaised.Caught (validateRecipients B v) ↔ RecipientsSafe B v := by
  unfold validateRecipients
  split
  · next r rs =>
      rw [raisesOnly_forM]
      exact forall_congr' fun r => imp_congr_right fun _ => recipient_safe
  · next hrest =>
      refine iff_of_true (raisesOnly_error.mpr (caught_invalid _)) ?_
      unfold RecipientsSafe
      split
      · next rs =>
          cases rs with
          | nil =>
            intro _ h
            cases h
          | cons r rs => exact absurd rfl (hrest r rs)
      · trivial

theorem validateBudgetMap_caught (action : Members) : RaisesOnly ActionRaised.Caught (validateBudgetMap action) := by
  refine (raisesOnly_check (caught_invalid _)).mpr fun _ => ?_
  split
  · exact raisesOnly_raiseUnless (caught_invalid _)
  · exact raisesOnly_error.mpr (caught_invalid _)

theorem typed_safe {type : ActionType} :
    RaisesOnly ActionRaised.Caught (validateTyped B action type) ↔
      (type = .notify → RecipientsSafe B (member action "recipients")) := by
  cases type with
  | notify => exact recipients_safe.trans ⟨fun h _ => h, fun h => h rfl⟩
  | assignBudgetFromMap => exact iff_of_true (validateBudgetMap_caught action) (by simp)
  | _ => exact iff_of_true (raisesOnly_raiseUnless (caught_invalid _)) (by simp)

theorem action_safe : RaisesOnly ActionRaised.Caught (validateAction B action) ↔ ActionSafe B action := by
  have hshape : typeOf action = named ActionType.ofKey (member action "type") := rfl
  rw [validateAction, raisesOnly_check (caught_invalid _), ActionSafe, hshape,
    named_safe ActionType.ofKey .unknownType (validateTyped B action)]
  · cases hnull : isNull (member action "type") with
    | true =>
      have hvalue : member action "type" = .null := by
        cases htype : member action "type" with
        | null => rfl
        | _ => simp [isNull, htype] at hnull
      simp [hvalue, isName, displays, named]
    | false =>
      simp only [Bool.not_false, forall_const]
      apply and_congr_right
      intro _
      constructor
      · exact fun h hnotify => typed_safe.mp (h _ hnotify) rfl
      · intro h type htype
        exact typed_safe.mpr fun hnotify => h (hnotify ▸ htype)
  · intro name hname
    simp only [hname]
  · intro name type hname
    simp only [hname]

theorem ofGuard_reported : RaisesOnly Problem.Reported (ofGuard x) ↔ RaisesOnly Guards.Caught x := by
  cases x with
  | ok u => exact iff_of_true (.ok ()) (.ok u)
  | error r =>
    rw [raisesOnly_error]
    cases r with
    | guard e => exact iff_of_true (raisesOnly_error.mpr (reported_invalid _)) (Guards.caught_guard e)
    | _ => simp [ofGuard, raisesOnly_error, Problem.Reported, Guards.Caught]

theorem ofAction_reported {x : Except ActionRaised Unit} :
    RaisesOnly Problem.Reported (ofAction x) ↔ RaisesOnly ActionRaised.Caught x := by
  cases x with
  | ok u => exact iff_of_true (.ok ()) (.ok u)
  | error r =>
    rw [raisesOnly_error]
    cases r with
    | invalid e => exact iff_of_true (raisesOnly_error.mpr (reported_invalid _)) (caught_invalid e)
    | _ => simp [ofAction, raisesOnly_error, Problem.Reported, ActionRaised.Caught]

theorem checkAction_safe {target : Text} :
    RaisesOnly Problem.Reported (checkAction B g target action) ↔ ActionSafe B action := by
  rw [checkAction, raisesOnly_seq, ofAction_reported, action_safe]
  refine and_iff_left fun _ => ?_
  refine (raisesOnly_check (reported_invalid _)).mpr fun _ => (raisesOnly_check (reported_invalid _)).mpr fun _ => ?_
  exact (raisesOnly_check (reported_invalid _)).mpr fun _ => raisesOnly_raiseUnless (reported_invalid _)

theorem ofGuard_ok : ofGuard x = .ok () ↔ x = .ok () := by
  cases x with
  | ok u => exact iff_of_true rfl rfl
  | error r => cases r <;> simp [ofGuard]

theorem checkTransition_safe {t : TransitionDef} :
    RaisesOnly Problem.Reported (checkTransition B g t) ↔ TransitionSafe B g t := by
  rw [checkTransition, raisesOnly_check (reported_invalid _), raisesOnly_check (reported_invalid _),
    raisesOnly_check (reported_invalid _), raisesOnly_seq, ofGuard_reported, Guards.guard_safe, ofGuard_ok, raisesOnly_forM,
    TransitionSafe]
  simp only [contains_iff_mem, decide_eq_true_eq, checkAction_safe]

theorem validateVoteGremium_reported (s : StateDef) : RaisesOnly Problem.Reported (validateVoteGremium s) := by
  refine (raisesOnly_check (reported_invalid _)).mpr fun _ => ?_
  split
  · exact (raisesOnly_check (reported_invalid _)).mpr fun _ => raisesOnly_raiseUnless (reported_invalid _)
  · exact raisesOnly_raiseUnless (reported_invalid _)

theorem validateState_reported (g : FlowGraph) (s : StateDef) : RaisesOnly Problem.Reported (validateState g s) := by
  unfold validateState
  split
  · refine raisesOnly_seq.mpr ⟨validateVoteGremium_reported s, fun _ => ?_⟩
    exact (raisesOnly_check (reported_invalid _)).mpr fun _ => raisesOnly_raiseUnless (reported_invalid _)
  · exact raisesOnly_raiseUnless (reported_invalid _)

theorem headed_iff : Headed g ↔
    (!(g.states.map StateDef.key).isEmpty) = true ∧ decide (g.states.map StateDef.key).Nodup = true ∧
      (!((g.states.filter (·.isInitial)).map StateDef.key).isEmpty) = true ∧
      decide (((g.states.filter (·.isInitial)).map StateDef.key).length ≤ 1) = true := by
  have hone : (g.states.filter (·.isInitial)).length = 1 ↔
      g.states.filter (·.isInitial) ≠ [] ∧ (g.states.filter (·.isInitial)).length ≤ 1 := by
    rw [← length_pos_iff]
    omega
  rw [Headed, hone]
  simp

/-- The save gate raises nothing but a `FlowValidationError` exactly for the safe graphs. -/
theorem validateFlowGraph_reported : RaisesOnly Problem.Reported (validateFlowGraph B g) ↔ GraphSafe B g := by
  rw [validateFlowGraph, raisesOnly_check (reported_invalid _), raisesOnly_check (reported_invalid _),
    raisesOnly_check (reported_invalid _), raisesOnly_check (reported_invalid _), raisesOnly_seq, raisesOnly_forM,
    GraphSafe, headed_iff]
  have hrest : RaisesOnly Problem.Reported (do
      g.states.forM (validateState g)
      let missing := (g.states.map StateDef.key).filter
        (!(reachable g (((g.states.filter (·.isInitial)).map StateDef.key).headD [])).contains ·)
      raiseUnless missing.isEmpty (.invalid (.unreachable missing))
      raiseUnless (automaticCycle g).isNone (.invalid (.automaticCycle ((automaticCycle g).getD [])))) := by
    refine raisesOnly_seq.mpr ⟨raisesOnly_forM.mpr fun s _ => validateState_reported g s, fun _ => ?_⟩
    exact (raisesOnly_check (reported_invalid _)).mpr fun _ => raisesOnly_raiseUnless (reported_invalid _)
  rw [and_iff_left fun _ => hrest]
  simp only [checkTransition_safe, and_imp]

end Exactness

section Reach

variable {g : FlowGraph} {initial : Text} {frontier seen : List Text}

def Leads (g : FlowGraph) (a b : Text) : Prop := ∃ t ∈ g.transitions, t.source = a ∧ t.target = b

abbrev Reaches (g : FlowGraph) : Text → Text → Prop := Relation.ReflTransGen (Leads g)

theorem mem_targets {a b : Text} : b ∈ (outgoingDefs g a).map TransitionDef.target ↔ Leads g a b := by
  simp only [outgoingDefs, mem_map, mem_filter, decide_eq_true_eq, Leads, and_assoc]

theorem layer_reached (h : ∀ k ∈ frontier ++ seen, Reaches g initial k) :
    ∀ k ∈ (layer g frontier seen).1 ++ (layer g frontier seen).2, Reaches g initial k := by
  unfold layer
  split
  · exact h
  · intro k hk
    rcases mem_append.mp hk with hfollowing | hvisited
    · obtain ⟨a, ha, hout⟩ := mem_flatMap.mp (mem_dedup.mp (mem_filter.mp hfollowing).1)
      exact .tail (h a (mem_append_left _ ha)) (mem_targets.mp hout)
    · rcases mem_append.mp hvisited with hseen | hfrontier
      · exact h k (mem_append_right _ hseen)
      · exact h k (mem_append_left _ hfrontier)

theorem layers_reached {α : Type} (steps : List α) (h : ∀ k ∈ frontier ++ seen, Reaches g initial k) :
    ∀ k ∈ (steps.foldl (fun l _ => layer g l.1 l.2) (frontier, seen)).1 ++
      (steps.foldl (fun l _ => layer g l.1 l.2) (frontier, seen)).2, Reaches g initial k := by
  induction steps generalizing frontier seen with
  | nil => exact h
  | cons s steps ih => exact ih (layer_reached h)

theorem reachable_sound {k : Text} (hk : k ∈ reachable g initial) : Reaches g initial k := by
  have hstart : ∀ k ∈ [initial] ++ [], Reaches g initial k := by
    intro k hk
    rw [append_nil, mem_singleton] at hk
    exact hk ▸ .refl
  exact layers_reached g.states hstart k (mem_append.mpr (mem_append.mp hk).symm)

def Connected (g : FlowGraph) : Prop :=
  ∃ i ∈ g.states, i.isInitial = true ∧ ∀ s ∈ g.states, Reaches g i.key s.key

theorem connected_of_accepted {B : Builtins} (h : validateFlowGraph B g = .ok ()) : Connected g := by
  obtain ⟨_, _, h⟩ := bind_ok.mp h
  obtain ⟨_, _, h⟩ := bind_ok.mp h
  obtain ⟨_, hinitial, h⟩ := bind_ok.mp h
  obtain ⟨_, _, h⟩ := bind_ok.mp h
  obtain ⟨_, _, h⟩ := bind_ok.mp h
  obtain ⟨_, _, h⟩ := bind_ok.mp h
  obtain ⟨_, hmissing, _⟩ := bind_ok.mp h
  cases hfilter : g.states.filter (·.isInitial) with
  | nil => simp [hfilter] at hinitial
  | cons i rest =>
    have hi : i ∈ g.states.filter (·.isInitial) := hfilter ▸ mem_cons_self
    refine ⟨i, (mem_filter.mp hi).1, (mem_filter.mp hi).2, fun s hs => reachable_sound ?_⟩
    simp only [raiseUnless_ok, List.isEmpty_iff, List.filter_eq_nil_iff, hfilter] at hmissing
    simpa using hmissing s.key (List.mem_map_of_mem hs)

end Reach

section Claim

/-- The gate accepts the graph or reports what it refuses, and what it accepts is connected. -/
def Settles (B : Builtins) (g : FlowGraph) : Prop :=
  (validateFlowGraph B g = .ok () ∨ ∃ e, validateFlowGraph B g = .error (.invalid e)) ∧
    (validateFlowGraph B g = .ok () → Connected g)

/-- The gate fails cleanly exactly where every name that it comes to has a hash and can be shown. -/
theorem gate_settles (B : Builtins) (g : FlowGraph) : Settles B g ↔ GraphSafe B g := by
  rw [← validateFlowGraph_reported, Settles, and_iff_left connected_of_accepted]
  cases hresult : validateFlowGraph B g with
  | ok u => exact iff_of_true (.inl rfl) (.ok u)
  | error p =>
    rw [raisesOnly_error, Problem.Reported]
    simp

def listTyped : FlowGraph where
  states := [normalState "draft" true, normalState "sent" false]
  transitions := [{ manualTo "sent" none with actions := [[(text "type", .arr [])]] }]
  layout := none

/-- The set of the types hashes the list. -/
theorem listTyped_raises : ¬ Settles plainBuiltins listTyped := by
  have hraises : validateFlowGraph plainBuiltins listTyped = .error (.raised .typeError) := by decide +kernel
  rintro ⟨haccepted | ⟨e, hreported⟩, _⟩
  · rw [hraises] at haccepted
    cases haccepted
  · rw [hraises] at hreported
    cases hreported

end Claim

end Flow
