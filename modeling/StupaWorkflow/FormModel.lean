import Mathlib.Data.List.Sort
import StupaWorkflow.DecimalContext
import StupaWorkflow.JsonLogicModel
import StupaWorkflow.UuidText

/-!
The form engine: the fields of a form, the save gate of a definition, the validation of the
answers and the values that an application takes from them.
-/
namespace Forms
open Py
open JsonLogic (Members)

inductive FieldType where
  | text | textarea | number | currency | date | select | multiselect | gremiumSelect | budgetSelect | email | iban
  | daterange | checkbox | file | table | markdown | computed | positions | funding | sectionMark
  deriving DecidableEq

/-- The constraints of a field. A bound is the decimal that the stored float prints, and
a size comes from JSON, whose integers Python prints. -/
structure FieldValidation where
  min : Option Decimal
  max : Option Decimal
  minLen : Option ℕ
  maxLen : Option ℕ
  pattern : Option Text
  maxRows : Option ℕ
  minOffers : Option ℕ
  minPositions : Option ℕ
  maxPositions : Option ℕ
  maxOffers : Option ℕ
  allowNoOffers : Option Bool
  sizes_print : ∀ size ∈ [minLen, maxLen, minOffers, minPositions], ∀ n ∈ size, (decimal n).length ≤ maxIntDigits

structure FormFieldDef where
  key : Text
  type : FieldType
  required : Bool
  validation : Option FieldValidation
  options : List Text
  visibleIf : Option Json
  compute : Option Json
  isPromoted : Bool
  promoteTarget : Option Text

inductive Msg where
  | required
  | computeFailed (e : JsonLogic.LogicError)
  | notString | tooShort (least : ℕ) | tooLong (most : ℕ) | brokenPattern | noMatch
  | notNumber | notFinite | belowMinimum | aboveMaximum | negative | aboveTotal (total : FiniteDecimal)
  | notDateString | notDate
  | notOption | notList | notOptions
  | notReference | notUuid
  | notEmail | notIban
  | notRange | notRangeStrings | notRangeDates | rangeOrder
  | notBoolean | notAttachment
  | notRows | tooManyRows (most : ℕ) | notRowObject (row : ℕ)
  | notPositions | tooFewPositions (least : ℕ) | tooManyPositions (most : ℕ)
  | notObject | positionLabel | optOutForbidden | optOutReason | notOffers
  | tooFewOffers (least : ℕ) | tooManyOffers (most : ℕ) | onePreferred
  | offerLabel | offerNumber | offerNegative
  | unknownType
  deriving DecidableEq

structure FieldError where
  field : Text
  msg : Msg
  deriving DecidableEq

/-- An exception that the validation does not turn into a field error. -/
inductive Escape where
  | typeError
  | valueError
  | overflowError
  | invalidOperation
  | overflow
  deriving DecidableEq

/-- What `validate_answers` raises. -/
inductive Raised where
  | answers (errors : List FieldError)
  | escape (e : Escape)
  deriving DecidableEq

/-- `re.fullmatch` of a pattern of an administrator, as far as the engine waits for it. -/
inductive Match where
  | yes
  | no
  | timeout
  | broken
  deriving DecidableEq

/-- The interpreter: floats, the letters of Unicode and regular expressions. -/
structure Interpreter extends JsonLogic.Floats where
  upperChar : ℕ → Text
  isAlpha : ℕ → Bool
  isNumeric : ℕ → Bool
  fullMatch : Text → Text → Match
  compiles : Text → Bool

section Values

variable (I : Interpreter)

/-- The value of a key, `None` without one. -/
def get (data : Members) (key : Text) : Json := (data.lookup key).getD .null

/-- `{**first, **second}`. -/
def update (first second : Members) : Members := second.foldl (fun acc m => Json.setMember m.1 m.2 acc) first

def isPresent : Json → Bool
  | .null => false
  | .str s => !s.isEmpty
  | .arr items => !items.isEmpty
  | .obj members => !members.isEmpty
  | _ => true

/-- An evaluation whose `JsonLogicError` is caught. -/
def handled : Except JsonLogic.Raised Json → Except Escape (Except JsonLogic.LogicError Json)
  | .ok v => .ok (.ok v)
  | .error (.logic e) => .ok (.error e)
  | .error .typeError => .error .typeError
  | .error .valueError => .error .valueError
  | .error .overflowError => .error .overflowError

def isNumeral : Json → Bool
  | .int _ | .float _ | .str _ => true
  | _ => false

/-- The finite `Decimal(str(value))`; the text of a list or an object is no number. -/
def finiteDecimal (value : Json) : Option FiniteDecimal :=
  if isNumeral value then (Guards.toDecimal I.toBuiltins value).bind FiniteDecimal.ofDecimal else none

end Values

section Checks

variable (I : Interpreter)

def err (key : Text) (msg : Msg) : List FieldError := [⟨key, msg⟩]

def errIf (condition : Bool) (key : Text) (msg : Msg) : List FieldError := if condition then err key msg else []

def patternMaxInput : ℕ := 4096

def patternErrors (key pattern value : Text) : List FieldError :=
  if patternMaxInput < value.length then err key .noMatch
  else
    match I.fullMatch pattern value with
    | .yes => []
    | .no => err key .noMatch
    | .timeout | .broken => err key .brokenPattern

def validateText (f : FormFieldDef) : Json → List FieldError
  | .str s =>
    match f.validation with
    | none => []
    | some v =>
      errIf (v.minLen.any fun n => s.length < n) f.key (.tooShort (v.minLen.getD 0)) ++
        errIf (v.maxLen.any fun n => n < s.length) f.key (.tooLong (v.maxLen.getD 0)) ++
        (match v.pattern with
          | none => []
          | some pattern => patternErrors I f.key pattern s)
  | _ => err f.key .notString

/-- `num < bound` or `bound < num`; a NaN has no order. -/
def below (a b : Decimal) : Except Escape Bool :=
  match a.order b with
  | some o => .ok (o = .lt)
  | none => .error .invalidOperation

def boundErrors (bound : Option Decimal) (breaks : Decimal → Except Escape Bool) (key : Text) (msg : Msg) :
    Except Escape (List FieldError) :=
  match bound with
  | none => .ok []
  | some b => (breaks b).map fun broken => errIf broken key msg

def validateNumber (f : FormFieldDef) (value : Json) : Except Escape (List FieldError) :=
  if !isNumeral value then .ok (err f.key .notNumber)
  else
    match Guards.toDecimal I.toBuiltins value with
    | none => .ok (err f.key .notNumber)
    | some (.finite c e) =>
      match f.validation with
      | none => .ok []
      | some v => do
          let low ← boundErrors v.min (fun b => below (.finite c e) b) f.key .belowMinimum
          let high ← boundErrors v.max (fun b => below b (.finite c e)) f.key .aboveMaximum
          return low ++ high
    | some _ => .ok (err f.key .notFinite)

def validateFunding (f : FormFieldDef) (value : Json) : Except Escape (List FieldError) := do
  let errors ← validateNumber I f value
  return if errors.isEmpty then errIf ((finiteDecimal I value).any FiniteDecimal.isNegative) f.key .negative else errors

def validateDate (f : FormFieldDef) : Json → List FieldError
  | .str s => errIf (ofIsoFormat s).isNone f.key .notDate
  | _ => err f.key .notDateString

def isOption (f : FormFieldDef) : Json → Bool
  | .str s => f.options.contains s
  | _ => false

def validateSelect (f : FormFieldDef) (value : Json) : List FieldError := errIf (!isOption f value) f.key .notOption

def validateMultiselect (f : FormFieldDef) : Json → Except Escape (List FieldError)
  | .arr items =>
    let invalid := items.filter fun v => !isOption f v
    if JsonLogic.displaysItems invalid then .ok (errIf (!invalid.isEmpty) f.key .notOptions) else .error .valueError
  | _ => .ok (err f.key .notList)

def validateUuidRef (f : FormFieldDef) : Json → List FieldError
  | .str [] => err f.key .notReference
  | .str s => errIf (StorageKeys.Uuid.ofText s).isNone f.key .notUuid
  | _ => err f.key .notReference

/-- `^[^@\s]+@[^@\s]+\.[^@\s]+$`, where `$` also stands before a last line break. -/
def emailMatches (s : Text) : Bool :=
  let body := if s.getLast? = some 10 then s.dropLast else s
  match splitOn 64 body with
  | [name, domain] =>
    !name.isEmpty && name.all (fun c => !isSpace c) && domain.all (fun c => !isSpace c) && domain.tail.dropLast.contains 46
  | _ => false

def validateEmail (f : FormFieldDef) : Json → List FieldError
  | .str s => errIf (!emailMatches s) f.key .notEmail
  | _ => err f.key .notEmail

def isAlnum (c : ℕ) : Bool := I.isAlpha c || I.isNumeric c || isDigitText [c]

/-- `int(ch, 36)` of one character; `none` is the `ValueError`. -/
def base36 (c : ℕ) : Option ℕ :=
  if 65 ≤ c && c ≤ 90 then some (c - 55) else if 97 ≤ c && c ≤ 122 then some (c - 87) else decimalValue c

def ibanText (s : Text) : Text := (s.filter (· ≠ 32)).flatMap I.upperChar

def ibanShape (s : Text) : Bool :=
  15 ≤ s.length && s.length ≤ 34 && s.all (isAlnum I) && (s.take 2).all I.isAlpha && isDigitText ((s.drop 2).take 2)

def ibanMod97Ok (iban : Text) : Except Escape Bool :=
  let s := ibanText I iban
  if !ibanShape I s then .ok false
  else
    match (s.drop 4 ++ s.take 4).mapM base36 with
    | none => .error .valueError
    | some values => .ok (digitsValue (values.flatMap decimal) % 97 = 1)

def validateIban (f : FormFieldDef) : Json → Except Escape (List FieldError)
  | .str s => (ibanMod97Ok I s).map fun ok => errIf (!ok) f.key .notIban
  | _ => .ok (err f.key .notIban)

def validateDaterange (f : FormFieldDef) : Json → List FieldError
  | .obj members =>
    match get members (text "from"), get members (text "to") with
    | .str rawFrom, .str rawTo =>
      match ofIsoFormat rawFrom, ofIsoFormat rawTo with
      | some dFrom, some dTo => errIf (dTo < dFrom) f.key .rangeOrder
      | _, _ => err f.key .notRangeDates
    | _, _ => err f.key .notRangeStrings
  | _ => err f.key .notRange

def validateCheckbox (f : FormFieldDef) : Json → List FieldError
  | .bool _ => []
  | _ => err f.key .notBoolean

def isString : Json → Bool
  | .str _ => true
  | _ => false

def validateFile (f : FormFieldDef) : Json → List FieldError
  | .str _ => []
  | .arr items => errIf (!items.all isString) f.key .notAttachment
  | _ => err f.key .notAttachment

def defaultMaxRows : ℕ := 1000

def isObject : Json → Bool
  | .obj _ => true
  | _ => false

def validateTable (f : FormFieldDef) : Json → List FieldError
  | .arr rows =>
    let maxRows := min ((f.validation.bind (·.maxRows)).getD defaultMaxRows) defaultMaxRows
    errIf (maxRows < rows.length) f.key (.tooManyRows maxRows) ++
      rows.zipIdx.flatMap fun (row, i) => errIf (!isObject row) f.key (.notRowObject i)
  | _ => err f.key .notRows

end Checks

section Positions

variable (I : Interpreter)

def defaultMinOffers : ℕ := 3
def defaultMinPositions : ℕ := 1
def defaultMaxPositions : ℕ := 200
def defaultMaxOffers : ℕ := 50

structure PositionRules where
  minOffers : ℕ
  allowNoOffers : Bool
  minPositions : ℕ
  maxPositions : ℕ
  maxOffers : ℕ
  deriving DecidableEq

def orDefault (size : Option ℕ) (default : ℕ) : ℕ :=
  match size with
  | none | some 0 => default
  | some n => n

def positionRules (v : Option FieldValidation) : PositionRules where
  minOffers := orDefault (v.bind (·.minOffers)) defaultMinOffers
  allowNoOffers := (v.bind (·.allowNoOffers)).getD true
  minPositions := orDefault (v.bind (·.minPositions)) defaultMinPositions
  maxPositions := min ((v.bind (·.maxPositions)).getD defaultMaxPositions) defaultMaxPositions
  maxOffers := min ((v.bind (·.maxOffers)).getD defaultMaxOffers) defaultMaxOffers

def isTrue : Json → Bool
  | .bool true => true
  | _ => false

def isFilled : Json → Bool
  | .str s => !(strip s).isEmpty
  | _ => false

def offerValue (offer : Members) : Option FiniteDecimal := finiteDecimal I (get offer (text "value"))

def isPreferred : Json → Bool
  | .obj members => isTrue (get members (text "preferred"))
  | _ => false

def offerErrors (place : Text) : Json → List FieldError
  | .obj offer =>
    errIf (!isFilled (get offer (text "label"))) place .offerLabel ++
      (match offerValue I offer with
        | none => err place .offerNumber
        | some num => errIf num.isNegative place .offerNegative)
  | _ => err place .notObject

/-- `f"{place}[{i}]"`. -/
def indexed (place : Text) (i : ℕ) : Text := place ++ text "[" ++ decimal i ++ text "]"

def offersErrors (place : Text) (offers : List Json) (rules : PositionRules) (noOffers : Bool) : List FieldError :=
  let required := if noOffers then 1 else rules.minOffers
  errIf (offers.length < required) place (.tooFewOffers required) ++
    errIf (rules.maxOffers < offers.length) place (.tooManyOffers rules.maxOffers) ++
    (offers.zipIdx.flatMap fun (offer, j) => offerErrors I (indexed (place ++ text ".offers") j) offer) ++
    errIf (!offers.isEmpty && offers.countP isPreferred ≠ 1) place .onePreferred

def positionErrors (place : Text) (rules : PositionRules) : Json → List FieldError
  | .obj pos =>
    let noOffers := isTrue (get pos (text "noOffers"))
    errIf (!isFilled (get pos (text "label"))) place .positionLabel ++
      errIf (noOffers && !rules.allowNoOffers) place .optOutForbidden ++
      errIf (noOffers && !isFilled (get pos (text "noOffersReason"))) place .optOutReason ++
      (match get pos (text "offers") with
        | .arr offers => offersErrors I place offers rules noOffers
        | _ => err place .notOffers)
  | _ => err place .notObject

def validatePositions (f : FormFieldDef) : Json → List FieldError
  | .arr positions =>
    let rules := positionRules f.validation
    errIf (positions.length < rules.minPositions) f.key (.tooFewPositions rules.minPositions) ++
      errIf (rules.maxPositions < positions.length) f.key (.tooManyPositions rules.maxPositions) ++
      positions.zipIdx.flatMap fun (pos, i) => positionErrors I (indexed f.key i) rules pos
  | _ => err f.key .notPositions

/-- `for offer in value or []`: a number that is not 0 cannot be iterated over. -/
def iterate : Json → Except Escape (List Json)
  | .arr items => .ok items
  | .str s => .ok (s.map fun c => .str [c])
  | .obj members => .ok (members.map fun m => .str m.1)
  | v => if JsonLogic.truthy I.toFloats v then .error .typeError else .ok []

/-- `_preferred_value`: the value of the first preferred offer, if it is valid. -/
def preferredValue (pos : Members) : Except Escape (Option FiniteDecimal) := do
  let offers ← iterate I (get pos (text "offers"))
  return match offers.find? isPreferred with
    | some (.obj offer) => offerValue I offer
    | _ => none

/-- `sum(amounts, start)`. -/
def sumFrom : FiniteDecimal → List FiniteDecimal → Except Escape FiniteDecimal
  | total, [] => .ok total
  | total, d :: ds =>
    match total.add d with
    | none => .error .overflow
    | some next => sumFrom next ds

def objects (items : List Json) : List Members :=
  items.filterMap fun
    | .obj members => some members
    | _ => none

def positionsTotal : Json → Except Escape (Option FiniteDecimal)
  | .arr positions => do
      let preferred ← (objects positions).mapM (preferredValue I)
      match preferred.filterMap id with
      | [] => return none
      | found => (sumFrom .zero found).map some
  | _ => .ok none

end Positions

section Answers

variable (I : Interpreter)

def valueErrors (f : FormFieldDef) (value : Json) : Except Escape (List FieldError) :=
  match f.type with
  | .text | .textarea | .markdown => .ok (validateText I f value)
  | .number | .currency => validateNumber I f value
  | .funding => validateFunding I f value
  | .date => .ok (validateDate f value)
  | .select => .ok (validateSelect f value)
  | .multiselect => validateMultiselect f value
  | .gremiumSelect | .budgetSelect => .ok (validateUuidRef f value)
  | .email => .ok (validateEmail f value)
  | .iban => validateIban I f value
  | .daterange => .ok (validateDaterange f value)
  | .checkbox => .ok (validateCheckbox f value)
  | .file => .ok (validateFile f value)
  | .table => .ok (validateTable f value)
  | .positions => .ok (validatePositions I f value)
  | .computed | .sectionMark => .ok (err f.key .unknownType)

/-- The values of the computed fields so far and the errors of their expressions. -/
structure Computed where
  values : Members
  errors : List FieldError

def computeStep (ctx : Members) (state : Computed) (key : Text) (expr : Json) : Except Escape Computed := do
  match ← handled (JsonLogic.evalJsonlogic I.toFloats expr (update ctx state.values)) with
  | .ok value => return { state with values := Json.setMember key value state.values }
  | .error e => return { state with errors := state.errors ++ err key (.computeFailed e) }

def computedPairs (fields : List FormFieldDef) : List (Text × Json) :=
  fields.filterMap fun f => if f.type = .computed then f.compute.map (f.key, ·) else none

def computeAll (fields : List FormFieldDef) (ctx : Members) : Except Escape Computed :=
  (computedPairs fields).foldlM (fun state pair => computeStep I ctx state pair.1 pair.2) ⟨[], []⟩

def isVisible (f : FormFieldDef) (ctx : Members) : Except Escape Bool :=
  match f.visibleIf with
  | none => .ok true
  | some expr => do
      match ← handled (JsonLogic.evalJsonlogic I.toFloats expr ctx) with
      | .ok value => return JsonLogic.truthy I.toFloats value
      | .error _ => return true

def FormFieldDef.isAnswer (f : FormFieldDef) : Bool := f.type ≠ .computed && f.type ≠ .sectionMark

def visibleFields (ctx : Members) : List FormFieldDef → Except Escape (List FormFieldDef)
  | [] => .ok []
  | f :: fs => do
      let shown ← isVisible I f ctx
      let rest ← visibleFields ctx fs
      return if shown then f :: rest else rest

def answerErrors (f : FormFieldDef) (value : Json) : Except Escape (List FieldError) :=
  if isPresent value then valueErrors I f value else .ok (errIf f.required f.key .required)

/-- `total or Decimal(0)`. -/
def orZero : Option FiniteDecimal → FiniteDecimal
  | none => .zero
  | some d => if d.coefficient = 0 then .zero else d

def costTotal : FiniteDecimal → List Json → Except Escape FiniteDecimal
  | total, [] => .ok total
  | total, value :: values => do
      let amount ← positionsTotal I value
      let next ← sumFrom total [orZero amount]
      costTotal next values

/-- A value that is no number has an error of its own, so it does not get to the comparison. -/
def checkFundingTotal (f : FormFieldDef) (value : Json) (total : FiniteDecimal) (errors : List FieldError) :
    Except Escape (List FieldError) :=
  if errors.any fun e => e.field = f.key then .ok []
  else
    match Guards.toDecimal I.toBuiltins value with
    | none => .error .invalidOperation
    | some d => (below (.finite total.coefficient total.exponent) d).map fun above => errIf above f.key (.aboveTotal total)

def filledOf (type : FieldType) (data : Members) (fields : List FormFieldDef) : List FormFieldDef :=
  (fields.filter fun f => isPresent (get data f.key)).filter (·.type = type)

def fundingErrors (data : Members) (checked : List FormFieldDef) (total : FiniteDecimal) (errors : List FieldError) :
    Except Escape (List FieldError) :=
  match (filledOf .funding data checked).getLast? with
  | none => .ok []
  | some f => checkFundingTotal I f (get data f.key) total errors

/-- What the checks of the answers give: the answers with the computed values, and the errors. -/
def checkAnswers (fields : List FormFieldDef) (data context : Members) : Except Escape (Members × List FieldError) := do
  let computed ← computeAll I fields (update context data)
  let result := update data computed.values
  let checked ← visibleFields I (update context result) (fields.filter (·.isAnswer))
  let fieldErrors ← checked.mapM fun f => answerErrors I f (get data f.key)
  let collected := computed.errors ++ fieldErrors.flatten
  let total ← costTotal I .zero ((filledOf .positions data checked).map fun f => get data f.key)
  let fundings ← fundingErrors I data checked total collected
  return (result, collected ++ fundings)

def validateAnswers (fields : List FormFieldDef) (data context : Members) : Except Raised Members :=
  match checkAnswers I fields data context with
  | .error e => .error (.escape e)
  | .ok (result, []) => .ok result
  | .ok (_, errors) => .error (.answers errors)

end Answers

section Definition

variable (I : Interpreter)

inductive DefinitionError where
  | duplicateKeys (keys : List Text)
  | manyFundings (keys : List Text)
  | fundingAlone (key : Text)
  | promotedType (key : Text)
  | expression (key : Text) (e : JsonLogic.LogicError)
  | brokenPattern (key : Text)
  deriving DecidableEq

/-- `_NUMERIC_TYPES`. -/
def FieldType.isNumeric : FieldType → Bool
  | .number | .currency => true
  | _ => false

def validateField (f : FormFieldDef) : Except DefinitionError Unit := do
  if f.isPromoted && !f.type.isNumeric then throw (.promotedType f.key)
  for expr in [f.visibleIf, f.compute].reduceOption do
    match JsonLogic.validateJsonlogic expr with
    | .ok () => pure ()
    | .error e => throw (.expression f.key e)
  match f.validation.bind (·.pattern) with
  | some pattern => if !I.compiles pattern then throw (.brokenPattern f.key)
  | none => pure ()

def validateDefinition (fields : List FormFieldDef) : Except DefinitionError Unit := do
  let keys := fields.map (·.key)
  let duplicates := ((keys.filter fun key => 1 < keys.count key).eraseDups).insertionSort (· ≤ ·)
  if duplicates ≠ [] then throw (.duplicateKeys duplicates)
  let fundings := (fields.filter (·.type = .funding)).map (·.key)
  if 1 < fundings.length then throw (.manyFundings fundings)
  if fundings ≠ [] ∧ ¬ ∃ f ∈ fields, f.type = .positions then throw (.fundingAlone (fundings.headD []))
  fields.forM (validateField I)

end Definition

section Promotion

variable (I : Interpreter)

/-- A promoted value: a number, or what a flagged field of another type holds. -/
inductive Promoted where
  | amount (d : FiniteDecimal)
  | raw (value : Json)

abbrev PromotedValues := List (Text × Promoted)

/-- `{**out, key: value}`. -/
def PromotedValues.set (out : PromotedValues) (key : Text) (value : Promoted) : PromotedValues :=
  match out with
  | [] => [(key, value)]
  | m :: rest => if m.1 = key then (key, value) :: rest else m :: PromotedValues.set rest key value

def amountKey : Text := text "amount"

/-- `value + total`. -/
def Promoted.add : Promoted → FiniteDecimal → Except Escape Promoted
  | .amount d, total => (sumFrom d [total]).map .amount
  | .raw (.int z), total => (sumFrom ⟨z, 0⟩ [total]).map .amount
  | .raw (.bool b), total => (sumFrom ⟨JsonLogic.intOfBool b, 0⟩ [total]).map .amount
  | .raw _, _ => .error .typeError

def promoteFlagged (out : PromotedValues) (f : FormFieldDef) (value : Json) : PromotedValues :=
  match f.promoteTarget, value with
  | _, .null => out
  | some (c :: target), value =>
    if !f.isPromoted then out
    else if f.type.isNumeric then
      match finiteDecimal I value with
      | none => out
      | some d => out.set (c :: target) (.amount d)
    else out.set (c :: target) (.raw value)
  | _, _ => out

def promote (data : Members) (out : PromotedValues) (f : FormFieldDef) : Except Escape PromotedValues :=
  match f.type with
  | .funding => .ok out
  | .positions => do
      match ← positionsTotal I (get data f.key) with
      | none => return out
      | some total => do
          let amount ← ((out.lookup amountKey).getD (.amount .zero)).add total
          return out.set amountKey amount
  | _ => .ok (promoteFlagged I out f (get data f.key))

def extractPromoted (fields : List FormFieldDef) (data : Members) : Except Escape PromotedValues := do
  let promoted ← fields.foldlM (promote I data) []
  match ((fields.filter (·.type = .funding)).map fun f => finiteDecimal I (get data f.key)).getLast? with
  | some (some funding) => return promoted.set amountKey (.amount funding)
  | _ => return promoted

/-- The `amount` that an application takes from its answers. -/
def promotedAmount (fields : List FormFieldDef) (data : Members) : Except Escape (Option Promoted) :=
  (extractPromoted I fields data).map fun promoted => promoted.lookup amountKey

end Promotion

section Ascii

/-- ASCII letters, floats that are small whole numbers and patterns without operators. -/
def asciiInterpreter : Interpreter :=
  { JsonLogic.wholeFloats with
    upperChar := fun c => if 97 ≤ c && c ≤ 122 then [c - 32] else [c]
    isAlpha := fun c => (65 ≤ c && c ≤ 90) || (97 ≤ c && c ≤ 122)
    isNumeric := fun c => isDigit c
    fullMatch := fun pattern value => if pattern = value then .yes else .no
    compiles := fun _ => true }

end Ascii

end Forms
