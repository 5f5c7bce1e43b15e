import StupaWorkflow.JsonLogicModel
import StupaWorkflow.Raises

/-!
The validator and the evaluator of JsonLogic agree.
-/
namespace JsonLogic
open Py Raises

/-- The expressions with at most so many operators inside one another. A literal is
anything but an object, and the argument of `var` is no expression. -/
inductive Expression : ℕ → Json → Prop
  | literal {left : ℕ} {v : Json} (h : ∀ members, v ≠ .obj members) : Expression left v
  | var {left : ℕ} (path : Json) : Expression (left + 1) (.obj [(varKey, path)])
  | operation {left : ℕ} {key : Text} {op : Operator} {raw : Json} (hop : Operator.ofKey key = some op)
      (hargs : ∀ arg ∈ asArgs raw, Expression left arg) : Expression (left + 1) (.obj [(key, raw)])

def LogicError.isStructural : LogicError → Bool
  | .tooDeep | .oneOperator _ | .unknownOperator _ => true
  | _ => false

def Raised.isStructural : Raised → Bool
  | .logic e => e.isStructural
  | _ => false

section Walk

variable {left : ℕ} {expr : Json}

attribute [local simp] evalWith validateWith num

theorem ofKey_varKey : Operator.ofKey varKey = none := by decide

theorem ne_varKey {key : Text} {op : Operator} (h : Operator.ofKey key = some op) : key ≠ varKey := by
  rintro rfl
  rw [ofKey_varKey] at h
  cases h

theorem isOperator_iff {key : Text} : isOperator key = true ↔ key = varKey ∨ ∃ op, Operator.ofKey key = some op := by
  rw [isOperator, Bool.or_eq_true, Option.isSome_iff_exists, decide_eq_true_eq]
  exact or_comm

theorem validateWith_iff : validateWith left expr = .ok () ↔ Expression left expr := by
  induction left generalizing expr with
  | zero =>
    cases expr with
    | obj members =>
      constructor
      · exact fun h => nomatch h
      · rintro (h | _ | _)
        exact absurd rfl (h members)
    | _ =>
      refine ⟨fun _ => .literal ?_, fun _ => rfl⟩
      intro members h
      cases h
  | succ left ih =>
    cases expr with
    | obj members =>
      constructor
      · intro h
        match members, h with
        | [(key, raw)], h =>
          rw [validateWith] at h
          split_ifs at h with hop hvar
          · rw [hvar]
            exact .var raw
          · have hkey := isOperator_iff.mp (by simpa using hop)
            obtain ⟨op, hop⟩ := hkey.resolve_left hvar
            exact .operation hop fun arg harg => ih.mp (forM_ok h arg harg)
      · intro h
        cases h with
        | literal h => exact absurd rfl (h members)
        | var path => rfl
        | operation hop hargs =>
          rw [validateWith, isOperator_iff.mpr (.inr ⟨_, hop⟩), if_neg (by decide), if_neg (ne_varKey hop)]
          exact ok_forM fun arg harg => ih.mpr (hargs arg harg)
    | _ =>
      refine ⟨fun _ => .literal ?_, fun _ => rfl⟩
      intro members h
      cases h

end Walk

section Evaluation

variable {F : Floats} {ctx : Members} {left : ℕ} {expr : Json}

/-- The errors of an operator are not about the shape of the expression. -/
def Unstructured (x : Raised) : Prop := x.isStructural = false

theorem num_raises (v : Json) : RaisesOnly Unstructured (num F v) := by
  cases v with
  | int z =>
    rw [num]
    split
    · exact raisesOnly_error.mpr rfl
    · exact .ok _
  | float t => exact .ok t
  | _ =>
    rw [num]
    · split
      · exact raisesOnly_error.mpr rfl
      · exact raisesOnly_error.mpr rfl
    all_goals
      intro _ h
      cases h

theorem compare_raises (op : Operator) (holds : Text → Text → Bool) (args : List Json) :
    RaisesOnly Unstructured (compare F op holds args) := by
  unfold compare
  split
  · exact raisesOnly_bind.mpr ⟨num_raises _, fun _ _ => raisesOnly_bind.mpr ⟨num_raises _, fun _ _ => .ok _⟩⟩
  · exact raisesOnly_error.mpr rfl

theorem evaluator_raises (op : Operator) (args : List Json) : RaisesOnly Unstructured (evaluator F op args) := by
  unfold evaluator
  split
  · exact .ok _
  · exact .ok _
  · exact compare_raises _ _ _
  · exact compare_raises _ _ _
  · exact compare_raises _ _ _
  · exact compare_raises _ _ _
  · exact .ok _
  · exact .ok _
  · exact .ok _
  · rw [evalAdd]
    split
    · exact raisesOnly_error.mpr rfl
    · exact raisesOnly_map.mpr (raisesOnly_mapM.mpr fun v _ => num_raises v)
  · unfold evalSubtract
    split
    · exact raisesOnly_bind.mpr ⟨num_raises _, fun _ _ => .ok _⟩
    · exact raisesOnly_bind.mpr ⟨num_raises _, fun _ _ => raisesOnly_bind.mpr ⟨num_raises _, fun _ _ => .ok _⟩⟩
    · exact raisesOnly_error.mpr rfl
  · rw [evalMultiply]
    split
    · exact raisesOnly_error.mpr rfl
    · exact raisesOnly_map.mpr (raisesOnly_mapM.mpr fun v _ => num_raises v)
  · unfold evalDivide
    split
    · refine raisesOnly_bind.mpr ⟨num_raises _, fun _ _ => ?_⟩
      split
      · exact raisesOnly_error.mpr rfl
      · exact raisesOnly_bind.mpr ⟨num_raises _, fun _ _ => .ok _⟩
    · exact raisesOnly_error.mpr rfl
  · unfold evalIn
    split
    · exact .ok _
    · exact .ok _
    · exact raisesOnly_error.mpr rfl
    · exact raisesOnly_error.mpr rfl
    · exact raisesOnly_error.mpr rfl
  · exact raisesOnly_error.mpr rfl

theorem step_raises (current : Option Json) (part : Text) : RaisesOnly Unstructured (step current part) := by
  unfold step
  split
  · exact .ok _
  · split
    · split
      · exact .ok _
      · exact raisesOnly_error.mpr rfl
    · exact .ok _
  · exact .ok _

theorem foldlM_step_raises (parts : List Text) (current : Option Json) :
    RaisesOnly Unstructured (parts.foldlM step current) := by
  induction parts generalizing current with
  | nil => exact .ok current
  | cons part parts ih =>
    rw [List.foldlM_cons]
    exact raisesOnly_bind.mpr ⟨step_raises current part, fun next _ => ih next⟩

theorem resolveVar_raises (path : Json) (ctx : Members) : RaisesOnly Unstructured (resolveVar path ctx) := by
  unfold resolveVar
  split
  · exact .ok _
  · split
    · exact .ok _
    · exact raisesOnly_bind.mpr ⟨foldlM_step_raises _ _, fun _ _ => .ok _⟩
  · exact raisesOnly_error.mpr rfl

theorem evalWith_raises (h : Expression left expr) : RaisesOnly Unstructured (evalWith F ctx left expr) := by
  induction h with
  | @literal left v h =>
    cases v with
    | obj members => exact absurd rfl (h members)
    | _ => cases left <;> exact .ok _
  | var path =>
    rw [evalWith, if_pos rfl]
    exact resolveVar_raises path ctx
  | operation hop hargs ih =>
    rw [evalWith, if_neg (ne_varKey hop), hop]
    refine raisesOnly_bind.mpr ⟨raisesOnly_mapM.mpr fun arg harg => ih arg harg.mem, fun args _ => ?_⟩
    exact evaluator_raises _ args

/-- Anything else fails in every context: no operand is skipped. -/
theorem evalWith_error (h : ¬ Expression left expr) : ∃ x, evalWith F ctx left expr = .error x := by
  induction left generalizing expr with
  | zero =>
    cases expr with
    | obj members => exact ⟨.logic .tooDeep, rfl⟩
    | _ =>
      refine absurd (.literal ?_) h
      intro members h'
      cases h'
  | succ left ih =>
    cases expr with
    | obj members =>
      match members, h with
      | [], h => exact ⟨.logic (.oneOperator []), rfl⟩
      | _ :: _ :: _, h => exact ⟨.logic (.oneOperator _), rfl⟩
      | [(key, raw)], h =>
        rw [evalWith]
        split
        · next hvar => exact absurd (hvar ▸ .var raw) h
        · cases hop : Operator.ofKey key with
          | none => exact ⟨.logic (.unknownOperator key), rfl⟩
          | some op =>
            have hbad : ∃ arg ∈ asArgs raw, ¬ Expression left arg := by
              by_contra hall
              push Not at hall
              exact h (.operation hop hall)
            obtain ⟨arg, harg, hexpr⟩ := hbad
            obtain ⟨x, hx⟩ := ih hexpr
            obtain ⟨x', hx'⟩ := mapM_raises harg hx
            exact ⟨x', by rw [hx']; rfl⟩
    | _ =>
      refine absurd (.literal ?_) h
      intro members h'
      cases h'

end Evaluation

/-- The save-time gate and the evaluation agree on every expression in every context. -/
theorem validator_agrees (F : Floats) (expr : Json) (ctx : Members) :
    (validateJsonlogic expr = .ok () → ∀ x, evalJsonlogic F expr ctx = .error x → x.isStructural = false) ∧
      ∀ e, validateJsonlogic expr = .error e → ∃ x, evalJsonlogic F expr ctx = .error x := by
  constructor
  · exact fun h => evalWith_raises (validateWith_iff.mp h)
  · intro e he
    apply evalWith_error
    intro h
    rw [validateJsonlogic, validateWith_iff.mpr h] at he
    cases he

/-- `{"not": {"var": "x"}}` is accepted, and `{"and": [false, {"xor": 1}]}` raises although its first operand is false. -/
theorem validator_agrees_operators :
    (∀ x, evalJsonlogic wholeFloats (.obj [(text "not", .obj [(varKey, .str (text "x"))])]) [] = .error x →
        x.isStructural = false) ∧
      ∃ x, evalJsonlogic wholeFloats (.obj [(text "and", .arr [.bool false, .obj [(text "xor", .int 1)]])]) [] = .error x :=
  ⟨(validator_agrees wholeFloats _ []).1 rfl, (validator_agrees wholeFloats _ []).2 (.unknownOperator (text "xor")) rfl⟩

end JsonLogic
