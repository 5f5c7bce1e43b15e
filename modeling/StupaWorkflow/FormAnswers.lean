import StupaWorkflow.FormModel
import StupaWorkflow.JsonLogicFailures

/-!
The walk of the answer checks, stage by stage. Where no stage raises, the computed values,
the visible fields and the cost total are functions of the answers.
-/
namespace Forms
open Py Raises List
open JsonLogic (Members Caught)

section View

variable (I : Interpreter)

def computedValue (ctx values : Members) (pair : Text × Json) : Members :=
  match JsonLogic.evalJsonlogic I.toFloats pair.2 (update ctx values) with
  | .ok value => Json.setMember pair.1 value values
  | .error _ => values

def computedValues (fields : List FormFieldDef) (ctx : Members) : Members :=
  (computedPairs fields).foldl (computedValue I ctx) []

/-- `data` plus the values of the computed fields. -/
def withComputed (fields : List FormFieldDef) (data context : Members) : Members :=
  update data (computedValues I fields (update context data))

/-- `eval_ctx`. -/
def evalContext (fields : List FormFieldDef) (data context : Members) : Members :=
  update context (withComputed I fields data context)

/-- A field without an expression is shown, and so is one whose expression fails. -/
def shown (ctx : Members) (f : FormFieldDef) : Bool :=
  match f.visibleIf with
  | none => true
  | some expr =>
    match JsonLogic.evalJsonlogic I.toFloats expr ctx with
    | .ok value => JsonLogic.truthy I.toFloats value
    | .error _ => true

def shownFields (fields : List FormFieldDef) (data context : Members) : List FormFieldDef :=
  (fields.filter (·.isAnswer)).filter (shown I (evalContext I fields data context))

def shownCosts (fields : List FormFieldDef) (data context : Members) : List Json :=
  (filledOf .positions data (shownFields I fields data context)).map fun f => get data f.key

end View

section Stages

variable {I : Interpreter} {fields : List FormFieldDef} {data context : Members}
variable {x : Except JsonLogic.Raised Json} {ctx : Members}

theorem handled_returns : (∃ r, handled x = .ok r) ↔ RaisesOnly Caught x := by
  cases x with
  | ok v => exact ⟨fun _ => .ok v, fun _ => ⟨.ok v, rfl⟩⟩
  | error raised =>
    rw [raisesOnly_error]
    cases raised with
    | logic e => exact ⟨fun _ => ⟨e, rfl⟩, fun _ => ⟨.error e, rfl⟩⟩
    | _ =>
      constructor
      · rintro ⟨_, h⟩
        cases h
      · rintro ⟨_, h⟩
        cases h

theorem handled_ok {value : Json} (h : handled x = .ok (.ok value)) : x = .ok value := by
  cases x with
  | ok v =>
    cases h
    rfl
  | error raised => cases raised <;> cases h

theorem handled_error {e : JsonLogic.LogicError} (h : handled x = .ok (.error e)) : x = .error (.logic e) := by
  cases x with
  | ok v => cases h
  | error raised =>
    cases raised with
    | logic e' =>
      cases h
      rfl
    | _ => cases h

theorem computeStep_values {state next : Computed} {pair : Text × Json} (h : computeStep I ctx state pair.1 pair.2 = .ok next) :
    next.values = computedValue I ctx state.values pair := by
  rw [computeStep, bind_ok] at h
  obtain ⟨result, hresult, hnext⟩ := h
  rw [computedValue]
  cases result with
  | ok value =>
    cases hnext
    rw [handled_ok hresult]
  | error e =>
    cases hnext
    rw [handled_error hresult]

theorem computePairs_values {pairs : List (Text × Json)} {state next : Computed}
    (h : pairs.foldlM (fun state pair => computeStep I ctx state pair.1 pair.2) state = .ok next) :
    next.values = pairs.foldl (computedValue I ctx) state.values := by
  induction pairs generalizing state with
  | nil =>
    cases h
    rfl
  | cons pair pairs ih =>
    rw [foldlM_cons, bind_ok] at h
    obtain ⟨middle, hmiddle, hrest⟩ := h
    rw [ih hrest, computeStep_values hmiddle]
    rfl

theorem computeAll_values {computed : Computed} (h : computeAll I fields ctx = .ok computed) :
    computed.values = computedValues I fields ctx :=
  computePairs_values h

theorem isVisible_ok {f : FormFieldDef} {visible : Bool} (h : isVisible I f ctx = .ok visible) : visible = shown I ctx f := by
  rw [isVisible] at h
  rw [shown]
  cases hexpr : f.visibleIf with
  | none =>
    rw [hexpr] at h
    cases h
    rfl
  | some expr =>
    rw [hexpr] at h
    obtain ⟨result, hresult, hvisible⟩ := bind_ok.mp h
    cases result with
    | ok value =>
      cases hvisible
      simp only [handled_ok hresult]
    | error e =>
      cases hvisible
      simp only [handled_error hresult]

theorem visibleFields_ok {checked : List FormFieldDef} (h : visibleFields I ctx fields = .ok checked) :
    checked = fields.filter (shown I ctx) := by
  induction fields generalizing checked with
  | nil =>
    cases h
    rfl
  | cons f fields ih =>
    rw [visibleFields, bind_ok] at h
    obtain ⟨visible, hvisible, h⟩ := h
    obtain ⟨rest, hrest, h⟩ := bind_ok.mp h
    cases h
    rw [filter_cons, ← isVisible_ok hvisible, ih hrest]

end Stages

section Walk

variable (I : Interpreter) (fields : List FormFieldDef) (data context : Members)

structure Walk (computed : Computed) (fieldErrors : List (List FieldError)) (total : FiniteDecimal)
    (fundings : List FieldError) : Prop where
  computes : computeAll I fields (update context data) = .ok computed
  visible : visibleFields I (evalContext I fields data context) (fields.filter (·.isAnswer)) =
    .ok (shownFields I fields data context)
  values : (shownFields I fields data context).mapM (fun f => answerErrors I f (get data f.key)) = .ok fieldErrors
  costs : costTotal I .zero (shownCosts I fields data context) = .ok total
  funding : fundingErrors I data (shownFields I fields data context) total (computed.errors ++ fieldErrors.flatten) =
    .ok fundings

variable {I fields data context}

theorem checkAnswers_ok {r : Members × List FieldError} :
    checkAnswers I fields data context = .ok r ↔ ∃ computed fieldErrors total fundings,
      Walk I fields data context computed fieldErrors total fundings ∧
        r = (withComputed I fields data context, computed.errors ++ fieldErrors.flatten ++ fundings) := by
  rw [checkAnswers, bind_ok]
  constructor
  · rintro ⟨computed, hcomputed, h⟩
    obtain ⟨checked, hchecked, h⟩ := bind_ok.mp h
    obtain ⟨fieldErrors, hvalues, h⟩ := bind_ok.mp h
    obtain ⟨total, htotal, h⟩ := bind_ok.mp h
    obtain ⟨fundings, hfunding, h⟩ := bind_ok.mp h
    cases h
    rw [computeAll_values hcomputed] at hchecked ⊢
    have hshown : checked = shownFields I fields data context := visibleFields_ok hchecked
    subst hshown
    exact ⟨computed, fieldErrors, total, fundings, ⟨hcomputed, hchecked, hvalues, htotal, hfunding⟩, rfl⟩
  · rintro ⟨computed, fieldErrors, total, fundings, hwalk, rfl⟩
    refine ⟨computed, hwalk.computes, ?_⟩
    rw [computeAll_values hwalk.computes]
    refine bind_ok.mpr ⟨_, hwalk.visible, bind_ok.mpr ⟨fieldErrors, hwalk.values, ?_⟩⟩
    exact bind_ok.mpr ⟨total, hwalk.costs, bind_ok.mpr ⟨fundings, hwalk.funding, rfl⟩⟩

/-- Accepted answers have a walk without errors. -/
theorem validateAnswers_ok {result : Members} :
    validateAnswers I fields data context = .ok result ↔ ∃ computed fieldErrors total,
      Walk I fields data context computed fieldErrors total [] ∧ computed.errors = [] ∧ fieldErrors.flatten = [] ∧
        result = withComputed I fields data context := by
  rw [validateAnswers]
  constructor
  · intro h
    split at h
    · cases h
    · next result' hcheck =>
        cases h
        obtain ⟨computed, fieldErrors, total, fundings, hwalk, hr⟩ := checkAnswers_ok.mp hcheck
        obtain ⟨hresult, herrors⟩ := Prod.mk.inj hr
        obtain ⟨hcollected, hfunding⟩ := append_eq_nil_iff.mp herrors.symm
        obtain ⟨hcomputed, hfields⟩ := append_eq_nil_iff.mp hcollected
        subst hfunding
        exact ⟨computed, fieldErrors, total, hwalk, hcomputed, hfields, hresult⟩
    · cases h
  · rintro ⟨computed, fieldErrors, total, hwalk, hcomputed, hfields, rfl⟩
    rw [checkAnswers_ok.mpr ⟨computed, fieldErrors, total, [], hwalk, rfl⟩, hcomputed, hfields]
    rfl

end Walk

end Forms
