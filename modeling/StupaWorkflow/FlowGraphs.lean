import StupaWorkflow.ConfigModel
import StupaWorkflow.GuardModel

/-!
The save gate of a flow: the actions of its transitions, the Gremium of its vote states, and the
shape of its graph. A rule that is broken is a `FlowValidationError`; a guard or an action can
make Python raise something else.
-/
namespace Flow
open Py
open Config (StateDef TransitionDef FlowGraph StateKind TransitionBranch)
open Guards (Members Builtins GuardError Raised member truthy isFilledString)
open JsonLogic (displays)

section Actions

inductive ActionType where
  | webhook | notify | addToNextSession | assignBudget | assignBudgetFromField | assignBudgetFromApplicantGremium
  | assignBudgetFromMap
  deriving DecidableEq

def ActionType.key : ActionType → Text
  | .webhook => text "webhook"
  | .notify => text "notify"
  | .addToNextSession => text "addToNextSession"
  | .assignBudget => text "assignBudget"
  | .assignBudgetFromField => text "assignBudgetFromField"
  | .assignBudgetFromApplicantGremium => text "assignBudgetFromApplicantGremium"
  | .assignBudgetFromMap => text "assignBudgetFromMap"

def ActionType.all : List ActionType :=
  [.webhook, .notify, .addToNextSession, .assignBudget, .assignBudgetFromField, .assignBudgetFromApplicantGremium,
   .assignBudgetFromMap]

def ActionType.ofKey (key : Text) : Option ActionType := ActionType.all.find? fun t => t.key = key

/-- `ASSIGN_BUDGET_ACTION_TYPES`. -/
def ActionType.assigns : ActionType → Bool
  | .assignBudget | .assignBudgetFromField | .assignBudgetFromApplicantGremium | .assignBudgetFromMap => true
  | _ => false

inductive RecipientKind where
  | gremium | role | applicant | email | voteGremium | budgetGremium
  deriving DecidableEq

def RecipientKind.key : RecipientKind → Text
  | .gremium => text "gremium"
  | .role => text "role"
  | .applicant => text "applicant"
  | .email => text "email"
  | .voteGremium => text "voteGremium"
  | .budgetGremium => text "budgetGremium"

def RecipientKind.all : List RecipientKind := [.gremium, .role, .applicant, .email, .voteGremium, .budgetGremium]

def RecipientKind.ofKey (key : Text) : Option RecipientKind := RecipientKind.all.find? fun k => k.key = key

def RecipientKind.takesRef : RecipientKind → Bool
  | .gremium | .role | .email => true
  | .applicant | .voteGremium | .budgetGremium => false

inductive ActionError where
  | missingType
  | unknownType
  | stringField (type : ActionType) (field : Text)
  | recipients
  | recipientObject
  | recipientKind
  | recipientRef (kind : RecipientKind)
  | mapField
  | mapObject
  | mapEntry
  deriving DecidableEq

/-- What a check of an action raises: a `GuardError`, the `TypeError` of a container without a hash, or
the `ValueError` of a text that cannot show the value. -/
inductive ActionRaised where
  | invalid (e : ActionError)
  | typeError
  | valueError
  deriving DecidableEq

variable (B : Builtins)

def hashed : Json → Except ActionRaised (Option Text)
  | .str s => .ok (some s)
  | .arr _ | .obj _ => .error .typeError
  | _ => .ok none

def showing (value : Json) (e : ActionError) : ActionRaised := if displays value then .invalid e else .valueError

def isNull : Json → Bool
  | .null => true
  | _ => false

def validateRecipient : Json → Except ActionRaised Unit
  | .obj r => do
      let name ← hashed (member r "kind")
      match name.bind RecipientKind.ofKey with
      | none => .error (showing (member r "kind") .recipientKind)
      | some kind =>
        raiseUnless (if kind.takesRef then truthy B (member r "ref") else isNull (member r "ref"))
          (.invalid (.recipientRef kind))
  | _ => .error (.invalid .recipientObject)

def validateRecipients : Json → Except ActionRaised Unit
  | .arr (r :: rs) => (r :: rs).forM (validateRecipient B)
  | _ => .error (.invalid .recipients)

def validateBudgetMap (action : Members) : Except ActionRaised Unit := do
  raiseUnless (isFilledString (member action "field")) (.invalid .mapField)
  match member action "map" with
  | .obj (m :: ms) => raiseUnless ((m :: ms).all fun m => !m.1.isEmpty && isFilledString m.2) (.invalid .mapEntry)
  | _ => .error (.invalid .mapObject)

def validateField (action : Members) (type : ActionType) (required : Bool) (field : String) : Except ActionRaised Unit :=
  raiseUnless ((!required && (action.lookup (text field)).isNone) || isFilledString (member action field))
    (.invalid (.stringField type (text field)))

def validateTyped (action : Members) (type : ActionType) : Except ActionRaised Unit :=
  match type with
  | .notify => validateRecipients B (member action "recipients")
  | .assignBudgetFromMap => validateBudgetMap action
  | .addToNextSession => validateField action type false "gremiumId"
  | .assignBudgetFromApplicantGremium => validateField action type false "parentId"
  | .webhook => validateField action type true "webhookId"
  | .assignBudget => validateField action type true "budgetId"
  | .assignBudgetFromField => validateField action type true "field"

def validateAction (action : Members) : Except ActionRaised Unit := do
  raiseUnless (!isNull (member action "type")) (.invalid .missingType)
  let name ← hashed (member action "type")
  match name.bind ActionType.ofKey with
  | none => .error (showing (member action "type") .unknownType)
  | some type => validateTyped B action type

/-- `action.get("type")`, read as a known type. -/
def typeOf (action : Members) : Option ActionType :=
  match member action "type" with
  | .str s => ActionType.ofKey s
  | _ => none

end Actions

section States

def sourceIsBudget (config : Members) : Bool :=
  match config.lookup (text "gremiumSource") with
  | some (.str s) => s = text "budget"
  | _ => false

def isBudgetVote (s : StateDef) : Bool := s.kind = .vote && sourceIsBudget s.config

def kindOf (g : FlowGraph) (key : Text) : Option StateKind := (g.states.find? fun s => s.key = key).map StateDef.kind

def isBudgetVoteKey (g : FlowGraph) (key : Text) : Bool := g.states.any fun s => s.key = key && isBudgetVote s

def outgoingDefs (g : FlowGraph) (key : Text) : List TransitionDef := g.transitions.filter fun t => t.source = key

end States

inductive Invalid where
  | noStates
  | duplicateKeys
  | noInitial
  | multipleInitial (keys : List Text)
  | unknownFrom (key : Text)
  | unknownTo (key : Text)
  | selfLoop (key : Text)
  | guard (e : GuardError)
  | action (e : ActionError)
  | agendaTarget
  | assignTarget (type : ActionType)
  | agendaGremium
  | notifyTarget
  | gremiumTwice (key : Text)
  | gremiumSource (key : Text)
  | gremiumInitial (key : Text)
  | gremiumMissing (key : Text)
  | branches (key : Text)
  | automaticExit (key : Text)
  | branchOutside (key : Text)
  | unreachable (keys : List Text)
  | automaticCycle (cycle : List Text)
  deriving DecidableEq

inductive Problem where
  /-- `FlowValidationError`. -/
  | invalid (e : Invalid)
  | raised (r : Raised)
  deriving DecidableEq

section Validation

variable (B : Builtins)

/-- Only a `GuardError` becomes a `FlowValidationError`. -/
def ofGuard : Except Raised Unit → Except Problem Unit
  | .ok () => .ok ()
  | .error (.guard e) => .error (.invalid (.guard e))
  | .error r => .error (.raised r)

def ofAction : Except ActionRaised Unit → Except Problem Unit
  | .ok () => .ok ()
  | .error (.invalid e) => .error (.invalid (.action e))
  | .error .typeError => .error (.raised .typeError)
  | .error .valueError => .error (.raised .valueError)

/-- A recipient of the kind `voteGremium`. -/
def namesVoteGremium : Json → Bool
  | .obj r => match member r "kind" with
    | .str s => s = text "voteGremium"
    | _ => false
  | _ => false

def recipientsOf (action : Members) : List Json :=
  match member action "recipients" with
  | .arr rs => rs
  | _ => []

def checkAction (g : FlowGraph) (target : Text) (action : Members) : Except Problem Unit := do
  ofAction (validateAction B action)
  let type := typeOf action
  let intoVote := kindOf g target = some .vote
  let intoBudgetVote := isBudgetVoteKey g target
  raiseUnless (type ≠ some .addToNextSession || intoVote) (.invalid .agendaTarget)
  raiseUnless (!(type.any ActionType.assigns && intoBudgetVote)) (.invalid (.assignTarget (type.getD .assignBudget)))
  raiseUnless (!(type = some .addToNextSession && (action.lookup (text "gremiumId")).isSome && intoBudgetVote))
    (.invalid .agendaGremium)
  raiseUnless (!(type = some .notify && !intoVote && (recipientsOf action).any namesVoteGremium)) (.invalid .notifyTarget)

def guardJson (guard : Option Members) : Json := (guard.map Json.obj).getD .null

def checkTransition (g : FlowGraph) (t : TransitionDef) : Except Problem Unit := do
  let keys := g.states.map StateDef.key
  raiseUnless (keys.contains t.source) (.invalid (.unknownFrom t.source))
  raiseUnless (keys.contains t.target) (.invalid (.unknownTo t.target))
  raiseUnless (t.source ≠ t.target) (.invalid (.selfLoop t.source))
  ofGuard (Guards.validateGuard (!t.automatic) (guardJson t.guard))
  t.actions.forM (checkAction B g t.target)

def validateVoteGremium (s : StateDef) : Except Problem Unit := do
  let hasId := (s.config.lookup (text "gremiumId")).isSome
  let hasSource := (s.config.lookup (text "gremiumSource")).isSome
  raiseUnless (!(hasId && hasSource)) (.invalid (.gremiumTwice s.key))
  if hasSource then do
    raiseUnless (sourceIsBudget s.config) (.invalid (.gremiumSource s.key))
    raiseUnless (!s.isInitial) (.invalid (.gremiumInitial s.key))
  else raiseUnless (isFilledString (member s.config "gremiumId")) (.invalid (.gremiumMissing s.key))

/-- `sorted(branches)`: `fail` comes before `pass`. -/
def sortedBranches (out : List TransitionDef) : List TransitionBranch :=
  List.replicate (out.countP (·.branch = some .fail)) .fail ++ List.replicate (out.countP (·.branch = some .pass)) .pass

def validateState (g : FlowGraph) (s : StateDef) : Except Problem Unit := do
  let out := outgoingDefs g s.key
  match s.kind with
  | .vote => do
      validateVoteGremium s
      raiseUnless (sortedBranches out = [.fail, .pass]) (.invalid (.branches s.key))
      raiseUnless (out.all fun t => !(t.automatic && t.branch.isNone)) (.invalid (.automaticExit s.key))
  | .normal => raiseUnless (sortedBranches out = []) (.invalid (.branchOutside s.key))

/-- One layer of the breadth-first search: the frontier and the states seen before it. -/
def layer (g : FlowGraph) (frontier seen : List Text) : List Text × List Text :=
  let visited := seen ++ frontier
  let following := (frontier.flatMap fun k => (outgoingDefs g k).map TransitionDef.target).dedup.filter (!visited.contains ·)
  if frontier.isEmpty then (frontier, seen) else (following, visited)

def reachable (g : FlowGraph) (initial : Text) : List Text :=
  let last := g.states.foldl (fun l _ => layer g l.1 l.2) ([initial], [])
  last.2 ++ last.1

abbrev CycleSearch := Option (List Text) × List Text

/-- `_first_cycle`: the first cycle and the finished nodes. A trail has each node at most once, so the
number of nodes bounds the depth. -/
def firstCycle (adjacency : Text → List Text) : ℕ → List Text → List Text → List Text → CycleSearch
  | 0, _, _, done => (none, done)
  | depth + 1, nodes, trail, done =>
    nodes.foldl (fun found node =>
      if found.1.isSome then found
      else if node ∈ trail then (some (trail.drop (trail.idxOf node) ++ [node]), found.2)
      else if node ∈ found.2 then found
      else
        let inner := firstCycle adjacency depth (adjacency node) (trail ++ [node]) found.2
        (inner.1, inner.2 ++ [node])) (none, done)

def automaticTargets (g : FlowGraph) (key : Text) : List Text :=
  ((outgoingDefs g key).filter (·.automatic)).map TransitionDef.target

def automaticCycle (g : FlowGraph) : Option (List Text) :=
  (firstCycle (automaticTargets g) (g.states.length + 1) (g.states.map StateDef.key) [] []).1

def validateFlowGraph (g : FlowGraph) : Except Problem Unit := do
  let keys := g.states.map StateDef.key
  raiseUnless (!keys.isEmpty) (.invalid .noStates)
  raiseUnless (decide keys.Nodup) (.invalid .duplicateKeys)
  let initials := (g.states.filter (·.isInitial)).map StateDef.key
  raiseUnless (!initials.isEmpty) (.invalid .noInitial)
  raiseUnless (initials.length ≤ 1) (.invalid (.multipleInitial initials))
  g.transitions.forM (checkTransition B g)
  g.states.forM (validateState g)
  let missing := keys.filter (!(reachable g (initials.headD [])).contains ·)
  raiseUnless missing.isEmpty (.invalid (.unreachable missing))
  raiseUnless (automaticCycle g).isNone (.invalid (.automaticCycle ((automaticCycle g).getD [])))

/-- What a graph that the gate accepts is like, as far as its transitions go. -/
structure Wired (g : FlowGraph) : Prop where
  keys : (g.states.map StateDef.key).Nodup
  source : ∀ t ∈ g.transitions, t.source ∈ g.states.map StateDef.key
  target : ∀ t ∈ g.transitions, t.target ∈ g.states.map StateDef.key
  noLoop : ∀ t ∈ g.transitions, t.source ≠ t.target

variable {B}

theorem wired_of_accepted {g : FlowGraph} (h : validateFlowGraph B g = .ok ()) : Wired g := by
  obtain ⟨_, _, h⟩ := bind_ok.mp h
  obtain ⟨_, hnodup, h⟩ := bind_ok.mp h
  obtain ⟨_, _, h⟩ := bind_ok.mp h
  obtain ⟨_, _, h⟩ := bind_ok.mp h
  obtain ⟨_, hchecks, _⟩ := bind_ok.mp h
  have hcheck {t : TransitionDef} (ht : t ∈ g.transitions) :
      t.source ∈ g.states.map StateDef.key ∧ t.target ∈ g.states.map StateDef.key ∧ t.source ≠ t.target := by
    obtain ⟨_, hsource, hrest⟩ := bind_ok.mp (forM_ok hchecks t ht)
    obtain ⟨_, htarget, hrest⟩ := bind_ok.mp hrest
    obtain ⟨_, hloop, _⟩ := bind_ok.mp hrest
    exact ⟨by simpa using hsource, by simpa using htarget, by simpa using hloop⟩
  exact ⟨by simpa using hnodup, fun t ht => (hcheck ht).1, fun t ht => (hcheck ht).2.1, fun t ht => (hcheck ht).2.2⟩

end Validation

end Flow
