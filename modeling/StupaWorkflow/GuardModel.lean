import StupaWorkflow.Json
import StupaWorkflow.PyCalendar
import StupaWorkflow.PyDecimal

/-!
The guards of the transitions: the JSON trees that `validate_guard` accepts when a flow version is
saved, and their evaluation in the context of an application.
-/
namespace Guards
open Py
open JsonLogic (displays)

abbrev Members := List (Text × Json)

inductive Leaf where
  | applicantRoleIs | applicantCommitteeIs | applicationTypeIs | attachmentPresent | budgetIs | budgetFitsApplication
  | hasField | compare | budgetHasDecisionGremium | roleIs | isInCommittee | actorIsApplicant | isInVoteGremium
  deriving DecidableEq

def Leaf.key : Leaf → Text
  | .applicantRoleIs => text "applicantRoleIs"
  | .applicantCommitteeIs => text "applicantCommitteeIs"
  | .applicationTypeIs => text "applicationTypeIs"
  | .attachmentPresent => text "attachmentPresent"
  | .budgetIs => text "budgetIs"
  | .budgetFitsApplication => text "budgetFitsApplication"
  | .hasField => text "hasField"
  | .compare => text "compare"
  | .budgetHasDecisionGremium => text "budgetHasDecisionGremium"
  | .roleIs => text "roleIs"
  | .isInCommittee => text "isInCommittee"
  | .actorIsApplicant => text "actorIsApplicant"
  | .isInVoteGremium => text "isInVoteGremium"

def Leaf.all : List Leaf :=
  [.applicantRoleIs, .applicantCommitteeIs, .applicationTypeIs, .attachmentPresent, .budgetIs, .budgetFitsApplication,
   .hasField, .compare, .budgetHasDecisionGremium, .roleIs, .isInCommittee, .actorIsApplicant, .isInVoteGremium]

inductive Operator where
  | and | or | not
  | leaf (op : Leaf)
  deriving DecidableEq

def Operator.ofKey (key : Text) : Option Operator :=
  if key = text "and" then some .and
  else if key = text "or" then some .or
  else if key = text "not" then some .not
  else (Leaf.all.find? fun op => op.key = key).map .leaf

/-- `GUARD_ACTOR_OPERATORS`. -/
def Leaf.isActorGate : Leaf → Bool
  | .roleIs | .isInCommittee | .actorIsApplicant | .isInVoteGremium => true
  | _ => false

/-- `_STRING_VALUE_OPERATORS`. -/
def Leaf.takesString : Leaf → Bool
  | .roleIs | .isInCommittee | .applicantRoleIs | .applicantCommitteeIs | .applicationTypeIs | .budgetIs | .hasField => true
  | _ => false

/-- `_BOOL_VALUE_OPERATORS`. -/
def Leaf.takesBool : Leaf → Bool
  | .budgetFitsApplication | .actorIsApplicant | .attachmentPresent | .isInVoteGremium | .budgetHasDecisionGremium => true
  | _ => false

inductive CompareOp where
  | eq | ne | lt | le | gt | ge | isIn
  deriving DecidableEq

def CompareOp.ofText (s : Text) : Option CompareOp :=
  [(text "==", CompareOp.eq), (text "!=", .ne), (text "<", .lt), (text "<=", .le), (text ">", .gt), (text ">=", .ge),
    (text "in", .isIn)].lookup s

inductive ValueType where
  | number | date | bool | text
  deriving DecidableEq

def ValueType.ofName (name : Text) : ValueType :=
  if name = Py.text "number" || name = Py.text "currency" then .number
  else if name = Py.text "date" then .date
  else if name = Py.text "bool" then .bool
  else .text

def opsForType : ValueType → List CompareOp
  | .number | .date => [.eq, .ne, .lt, .le, .gt, .ge]
  | .bool => [.eq]
  | .text => [.eq, .ne, .isIn]

inductive GuardError where
  | operators (ops : List Text)
  | unknownOperator (op : Text)
  | child (op : Text)
  | oneChild
  | noChild (op : Text)
  | actorGate (op : Leaf)
  | stringValue (op : Leaf)
  | boolValue (op : Leaf)
  | compareObject
  | compareField
  | compareOp
  | unknownCompareOp
  | inList
  deriving DecidableEq

/-- What Python raises; only the first is a `GuardError`. -/
inductive Raised where
  | guard (e : GuardError)
  | typeError
  | valueError
  | invalidOperation
  deriving DecidableEq

structure GuardContext where
  manual : Bool := true
  actorIsApplicant : Bool := false
  roles : List Text := []
  actorCommittees : List Text := []
  applicantRoles : List Text := []
  applicantCommittees : List Text := []
  budgetId : Option Text := none
  budgetFits : Bool := false
  applicationTypeKey : Option Text := none
  hasAttachment : Bool := false
  fieldValues : Members := []
  fieldTypes : List (Text × Text) := []
  voteGremiumId : Option Text := none
  budgetHasDecisionGremium : Bool := false

/-- The built-in conversions that need the float format of the interpreter or the
display of containers. A display fails on an integer past the digit limit. -/
structure Builtins where
  floatText : Text → Text
  floatIsZero : Text → Bool
  display : Json → Option Text

section Values

variable (B : Builtins)

/-- `str(value)`; `none` is the `ValueError` of an integer with too many digits. -/
def strOf : Json → Option Text
  | .null => some (text "None")
  | .bool b => some (if b then text "True" else text "False")
  | .int z => if (decimal z.natAbs).length ≤ maxIntDigits then some (intText z) else none
  | .float literal => some (B.floatText literal)
  | .str s => some s
  | v => B.display v

def strOrRaise (v : Json) : Except Raised Text := ((strOf B v).map .ok).getD (.error .valueError)

/-- `bool(value)`. -/
def truthy : Json → Bool
  | .null => false
  | .bool b => b
  | .int z => z ≠ 0
  | .float literal => !B.floatIsZero literal
  | .str s => !s.isEmpty
  | .arr items => !items.isEmpty
  | .obj members => !members.isEmpty

def toDecimal : Json → Option Decimal
  | .null | .bool _ => none
  | v => (strOf B v).bind Decimal.ofText

def isoDate (value : Text) : Option ℕ := ofIsoFormat (value.take 10)

def toDate : Json → Option ℕ
  | .str s => isoDate s
  | _ => none

def toBool : Json → Bool
  | .bool b => b
  | .str s => [text "true", text "1", text "yes", text "on", text "ja"].contains (asciiLower (strip s))
  | v => truthy B v

end Values

section Compare

variable (B : Builtins)

/-- The truth of an operator at an order; `in` is none of the ordered ones. -/
def CompareOp.holds : CompareOp → Ordering → Bool
  | .eq, o => o = .eq
  | .ne, o => o ≠ .eq
  | .lt, o => o = .lt
  | .le, o => o ≠ .gt
  | .gt, o => o = .gt
  | .ge, o => o ≠ .lt
  | .isIn, _ => false

def CompareOp.isOrdering : CompareOp → Bool
  | .lt | .le | .gt | .ge => true
  | _ => false

def applyDecimal (op : CompareOp) (left right : Decimal) : Except Raised Bool :=
  match left.order right with
  | some o => .ok (op.holds o)
  | none =>
    if op ≠ .isIn && (op.isOrdering || left.isSnan || right.isSnan) then .error .invalidOperation else .ok (op = .ne)

/-- A side that did not convert gives False. -/
def compareDecimals (op : CompareOp) : Option Decimal → Option Decimal → Except Raised Bool
  | some left, some right => applyDecimal op left right
  | _, _ => .ok false

def compareDates (op : CompareOp) : Option ℕ → Option ℕ → Bool
  | some left, some right => op.holds (compare left right)
  | _, _ => false

def compareText (op : CompareOp) (left : Text) (operand : Json) : Except Raised Bool :=
  match op with
  | .eq => (strOrRaise B operand).map (left = ·)
  | .ne => (strOrRaise B operand).map (left ≠ ·)
  | .isIn =>
    match operand with
    | .arr items => (items.mapM (strOrRaise B)).map fun texts => texts.contains left
    | _ => .ok false
  | _ => .ok false

def compareAs (type : ValueType) (op : CompareOp) (left operand : Json) : Except Raised Bool :=
  match type with
  | .number => compareDecimals op (toDecimal B left) (toDecimal B operand)
  | .date => .ok (compareDates op (toDate left) (toDate operand))
  | .bool => .ok (toBool B left = toBool B operand)
  | .text => do
      let shown ← strOrRaise B left
      compareText B op shown operand

def GuardContext.typeOf (ctx : GuardContext) (fld : Text) : ValueType :=
  ValueType.ofName ((ctx.fieldTypes.lookup fld).getD (text "text"))

/-- The value of a field that is there and not empty. -/
def GuardContext.filled (ctx : GuardContext) (fld : Text) : Option Json :=
  (ctx.fieldValues.lookup fld).filter fun v =>
    match v with
    | .null => false
    | .str s => !s.isEmpty
    | _ => true

/-- A key of an object that is not there reads as `None`. -/
def member (members : Members) (key : String) : Json := (members.lookup (text key)).getD .null

def compareField (members : Members) : Except Raised Text :=
  match member members "field" with
  | .str fld => if fld.isEmpty then .error (.guard .compareField) else .ok fld
  | _ => .error (.guard .compareField)

def compareOp (members : Members) : Except Raised Text :=
  match member members "op" with
  | .str op => .ok op
  | _ => .error (.guard .compareOp)

def sides (ctx : GuardContext) (fld op : Text) : Option (ValueType × CompareOp × Json) :=
  ((CompareOp.ofText op).filter fun op => (opsForType (ctx.typeOf fld)).contains op).bind fun op =>
    (ctx.filled fld).map fun left => (ctx.typeOf fld, op, left)

def evalCompare (ctx : GuardContext) : Json → Except Raised Bool
  | .obj members => do
      let fld ← compareField members
      let op ← compareOp members
      match sides ctx fld op with
      | some (type, op, left) => compareAs B type op left (member members "value")
      | none => return false
  | _ => .error (.guard .compareObject)

end Compare

section Evaluation

variable (B : Builtins)

/-- `value in names`; a container has no hash. -/
def isMember (names : List Text) : Json → Except Raised Bool
  | .str s => .ok (names.contains s)
  | .arr _ | .obj _ => .error .typeError
  | _ => .ok false

def hasField (ctx : GuardContext) (value : Json) : Except Raised Bool := do
  let fld ← strOrRaise B value
  return match ctx.fieldValues.lookup fld with
    | none | some .null | some (.str []) | some (.arr []) => false
    | some _ => true

/-- `str(value)` is the text that is there. -/
def isText (value : Json) : Option Text → Except Raised Bool
  | none => .ok false
  | some s => (strOrRaise B value).map (· = s)

/-- `_LEAF_EVALUATORS`. -/
def evalLeaf (ctx : GuardContext) (op : Leaf) (value : Json) : Except Raised Bool :=
  match op with
  | .roleIs => isMember ctx.roles value
  | .isInCommittee => (strOrRaise B value).map fun s => ctx.actorCommittees.contains s
  | .actorIsApplicant => .ok (ctx.actorIsApplicant = truthy B value)
  | .applicantRoleIs => isMember ctx.applicantRoles value
  | .applicantCommitteeIs => (strOrRaise B value).map fun s => ctx.applicantCommittees.contains s
  | .applicationTypeIs => isText B value ctx.applicationTypeKey
  | .budgetIs => isText B value ctx.budgetId
  | .budgetFitsApplication => .ok (ctx.budgetFits = truthy B value)
  | .attachmentPresent => .ok (ctx.hasAttachment = truthy B value)
  | .isInVoteGremium => .ok ((ctx.voteGremiumId.any fun g => ctx.actorCommittees.contains g) = truthy B value)
  | .budgetHasDecisionGremium => .ok (ctx.budgetHasDecisionGremium = truthy B value)
  | .hasField => hasField B ctx value
  | .compare => evalCompare B ctx value

def isObject : Json → Bool
  | .obj _ => true
  | _ => false

/-- `_children`: a value that is no list is the only child. -/
def children : Json → List Json
  | .arr items => items
  | child => [child]

def showing (value : Json) (e : GuardError) : Raised := if displays value then .guard e else .valueError

def checkChildren (op : Text) (value : Json) : Except Raised Unit :=
  match (children value).find? fun c => !isObject c with
  | none => .ok ()
  | some invalid => .error (showing invalid (.child op))

mutual

def evalGuard (ctx : GuardContext) : Json → Except Raised Bool
  | .obj [(op, value)] =>
    match Operator.ofKey op with
    | some .and => do
        checkChildren op value
        match value with
        | .arr items => evalAll ctx items
        | child => evalGuard ctx child
    | some .or => do
        checkChildren op value
        match value with
        | .arr items => evalAny ctx items
        | child => evalGuard ctx child
    | some .not => do
        checkChildren op value
        match value with
        | .arr [child] => (evalGuard ctx child).map (! ·)
        | .arr _ => .error (.guard .oneChild)
        | child => (evalGuard ctx child).map (! ·)
    | some (.leaf leaf) => evalLeaf B ctx leaf value
    | none => .error (.guard (.unknownOperator op))
  | .obj (m :: n :: members) => .error (.guard (.operators ((m :: n :: members).map Prod.fst)))
  | _ => .ok true

def evalAll (ctx : GuardContext) : List Json → Except Raised Bool
  | [] => .ok true
  | g :: gs => do
      let b ← evalGuard ctx g
      if b then evalAll ctx gs else .ok false

def evalAny (ctx : GuardContext) : List Json → Except Raised Bool
  | [] => .ok false
  | g :: gs => do
      let b ← evalGuard ctx g
      if b then .ok true else evalAny ctx gs

end

end Evaluation

section Validation

/-- The operator of a comparison is a known one; a container has no hash. -/
def validateCompareOp (members : Members) : Except Raised CompareOp :=
  match member members "op" with
  | .str op => ((CompareOp.ofText op).map .ok).getD (.error (.guard .unknownCompareOp))
  | .arr _ | .obj _ => .error .typeError
  | op => .error (showing op .unknownCompareOp)

def isList : Json → Bool
  | .arr _ => true
  | _ => false

def validateCompare : Json → Except Raised Unit
  | .obj members => do
      let _ ← compareField members
      let op ← validateCompareOp members
      raiseUnless (op ≠ .isIn || isList (member members "value")) (.guard .inList)
  | _ => .error (.guard .compareObject)

def isFilledString : Json → Bool
  | .str s => !s.isEmpty
  | _ => false

def isBool : Json → Bool
  | .bool _ => true
  | _ => false

def validateLeaf (allowActorOps : Bool) (op : Leaf) (value : Json) : Except Raised Unit := do
  raiseUnless (allowActorOps || !op.isActorGate) (.guard (.actorGate op))
  raiseUnless (!op.takesString || isFilledString value) (.guard (.stringValue op))
  raiseUnless (!op.takesBool || isBool value) (.guard (.boolValue op))
  if op = .compare then validateCompare value else .ok ()

def checkCount (op : Text) (operator : Operator) (value : Json) : Except Raised Unit := do
  raiseUnless (operator ≠ .not || (children value).length = 1) (.guard .oneChild)
  raiseUnless (operator = .not || !(children value).isEmpty) (.guard (.noChild op))

mutual

def validateGuard (allowActorOps : Bool) : Json → Except Raised Unit
  | .obj [(op, value)] =>
    match Operator.ofKey op with
    | some (.leaf leaf) => validateLeaf allowActorOps leaf value
    | some combinator => do
        checkChildren op value
        checkCount op combinator value
        match value with
        | .arr items => validateAll allowActorOps items
        | child => validateGuard allowActorOps child
    | none => .error (.guard (.unknownOperator op))
  | .obj (m :: n :: members) => .error (.guard (.operators ((m :: n :: members).map Prod.fst)))
  | _ => .ok ()

def validateAll (allowActorOps : Bool) : List Json → Except Raised Unit
  | [] => .ok ()
  | g :: gs => do
      validateGuard allowActorOps g
      validateAll allowActorOps gs

end

end Validation

end Guards
