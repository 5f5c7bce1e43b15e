import StupaWorkflow.JsonLogicModel
import StupaWorkflow.Raises

/-!
What the callers of the evaluator do not catch. They expect a `JsonLogicError`; an operand can
make Python raise something else.
-/
namespace JsonLogic
open Py Raises
open List hiding splitOn

def Caught (x : Raised) : Prop := ∃ e, x = .logic e

section Guard

variable (F : Floats)

def NumSafe : Json → Prop
  | .int z => overflows z = false
  | .float _ => True
  | v => displays v = true

def isNumber : Json → Bool
  | .int _ | .float _ => true
  | _ => false

/-- No operand behind one that is no number is looked at. -/
def NumsSafe : List Json → Prop
  | [] => True
  | v :: vs => NumSafe v ∧ (isNumber v = true → NumsSafe vs)

def NonZero (v : Json) : Prop := ∃ x, num F v = .ok x ∧ F.floatIsZero x = false

/-- A text is searched for texts only. -/
def OperandsSafe (op : Operator) (args : List Json) : Prop :=
  match op with
  | .gt | .ge | .lt | .le => args.length = 2 → NumsSafe args
  | .add | .multiply => NumsSafe args
  | .subtract => args.length = 1 ∨ args.length = 2 → NumsSafe args
  | .divide => ∀ a b, args = [a, b] → NumSafe b ∧ (NonZero F b → NumSafe a)
  | .isIn => ∀ needle haystack, args = [needle, .str haystack] → ∃ s, needle = .str s
  | _ => True

def StepSafe (current : Option Json) (part : Text) : Prop :=
  ∀ items, current = some (.arr items) → isDigitText part = true → (intOfDigits part).isSome = true

def PathSafe (current : Option Json) : List Text → Prop
  | [] => True
  | part :: parts => StepSafe current part ∧ ∀ next, step current part = .ok next → PathSafe next parts

def VarSafe (path : Json) (ctx : Members) : Prop :=
  match varSpec path with
  | (.str target, _) => target ≠ [] → PathSafe (some (.obj ctx)) (splitOn 46 target)
  | _ => True

/-- The operands that the evaluation comes to are safe, and so is the operator on their values. -/
def SafeWith (ctx : Members) : ℕ → Json → Prop
  | left + 1, .obj [(key, raw)] =>
    if key = varKey then VarSafe raw ctx
    else
      match Operator.ofKey key with
      | none => True
      | some op =>
        (∀ arg, Reached (evalWith F ctx left) (asArgs raw) arg → SafeWith ctx left arg) ∧
          ∀ args, (asArgs raw).mapM (evalWith F ctx left) = .ok args → OperandsSafe F op args
  | _, _ => True

def Safe (expr : Json) (ctx : Members) : Prop := SafeWith F ctx maxDepth expr

end Guard

section Operators

variable {F : Floats} {v : Json} {args : List Json} {op : Operator}

theorem caught_logic (e : LogicError) : Caught (.logic e) := ⟨e, rfl⟩

theorem raisesOnly_logic {α : Type} (e : LogicError) : RaisesOnly Caught (.error (.logic e) : Except Raised α) :=
  raisesOnly_error.mpr (caught_logic e)

theorem num_safe : RaisesOnly Caught (num F v) ↔ NumSafe v := by
  cases v with
  | int z =>
    rw [num, NumSafe]
    split
    · next hover => simp [raisesOnly_error, Caught, hover]
    · next hover => exact ⟨fun _ => by simpa using hover, fun _ => .ok _⟩
  | float t => exact ⟨fun _ => trivial, fun _ => .ok t⟩
  | _ =>
    rw [num, NumSafe]
    · split
      · next hshown => exact ⟨fun _ => hshown, fun _ => raisesOnly_logic _⟩
      · next hshown => simp [raisesOnly_error, Caught, hshown]
    all_goals
      intro _ h
      cases h

/-- `_num` gives a double for a safe number and for nothing else. -/
theorem num_ok_iff (hsafe : NumSafe v) : (∃ x, num F v = .ok x) ↔ isNumber v = true := by
  cases v with
  | int z =>
    have hfits : overflows z = false := hsafe
    rw [num, hfits]
    exact ⟨fun _ => rfl, fun _ => ⟨F.ofInt z, rfl⟩⟩
  | float t => exact ⟨fun _ => rfl, fun _ => ⟨t, rfl⟩⟩
  | _ =>
    rw [num]
    · split
      all_goals
        constructor
        · rintro ⟨_, h⟩
          cases h
        · intro h
          cases h
    all_goals
      intro _ h
      cases h

theorem nums_safe : RaisesOnly Caught (args.mapM (num F)) ↔ NumsSafe args := by
  induction args with
  | nil => exact ⟨fun _ => trivial, fun _ => .ok []⟩
  | cons v args ih =>
    rw [mapM_cons, raisesOnly_bind, num_safe, NumsSafe]
    apply and_congr_right
    intro hsafe
    rw [← num_ok_iff hsafe]
    constructor
    · rintro h ⟨x, hx⟩
      exact ih.mp (raisesOnly_bind.mp (h x hx)).1
    · intro h x hx
      exact raisesOnly_bind.mpr ⟨ih.mpr (h ⟨x, hx⟩), fun _ _ => .ok _⟩

theorem pair_safe {a b : Json} {f : Text → Text → Json} :
    RaisesOnly Caught (do return f (← num F a) (← num F b)) ↔ NumsSafe [a, b] := by
  rw [← nums_safe (F := F), mapM_cons, raisesOnly_bind, raisesOnly_bind]
  apply and_congr_right
  intro _
  apply forall₂_congr
  intro x _
  rw [raisesOnly_bind, raisesOnly_bind, mapM_cons, raisesOnly_bind]
  exact ⟨fun h => ⟨⟨h.1, fun _ _ => .ok _⟩, fun _ _ => .ok _⟩, fun h => ⟨h.1.1, fun _ _ => .ok _⟩⟩

theorem compare_safe {holds : Text → Text → Bool} :
    RaisesOnly Caught (compare F op holds args) ↔ (args.length = 2 → NumsSafe args) := by
  unfold compare
  split
  · exact pair_safe.trans ⟨fun h _ => h, fun h => h rfl⟩
  · next hshape =>
      constructor
      · intro _ hlength
        obtain ⟨a, b, hargs⟩ := length_eq_two.mp hlength
        exact absurd hargs (hshape a b)
      · exact fun _ => raisesOnly_logic _

theorem add_safe : RaisesOnly Caught (evalAdd F args) ↔ NumsSafe args := by
  rw [evalAdd]
  split
  · next hargs => exact ⟨fun _ => hargs ▸ trivial, fun _ => raisesOnly_logic _⟩
  · exact raisesOnly_map.trans nums_safe

theorem multiply_safe : RaisesOnly Caught (evalMultiply F args) ↔ NumsSafe args := by
  rw [evalMultiply]
  split
  · next hargs => exact ⟨fun _ => hargs ▸ trivial, fun _ => raisesOnly_logic _⟩
  · exact raisesOnly_map.trans nums_safe

theorem subtract_safe :
    RaisesOnly Caught (evalSubtract F args) ↔ (args.length = 1 ∨ args.length = 2 → NumsSafe args) := by
  unfold evalSubtract
  split
  · next a =>
      rw [raisesOnly_bind, num_safe]
      exact ⟨fun h _ => ⟨h.1, fun _ => trivial⟩, fun h => ⟨(h (.inl rfl)).1, fun _ _ => .ok _⟩⟩
  · exact pair_safe.trans ⟨fun h _ => h, fun h => h (.inr rfl)⟩
  · next hone htwo =>
      constructor
      · rintro _ (hlength | hlength)
        · obtain ⟨a, hargs⟩ := length_eq_one_iff.mp hlength
          exact absurd hargs (hone a)
        · obtain ⟨a, b, hargs⟩ := length_eq_two.mp hlength
          exact absurd hargs (htwo a b)
      · exact fun _ => raisesOnly_logic _

theorem divide_safe :
    RaisesOnly Caught (evalDivide F args) ↔ ∀ a b, args = [a, b] → NumSafe b ∧ (NonZero F b → NumSafe a) := by
  unfold evalDivide
  split
  · next a b =>
      rw [raisesOnly_bind, num_safe]
      constructor
      · rintro ⟨hb, hquotient⟩ _ _ ⟨⟩
        refine ⟨hb, ?_⟩
        rintro ⟨divisor, hdivisor, hzero⟩
        have hrest := hquotient divisor hdivisor
        rw [hzero] at hrest
        exact num_safe.mp (raisesOnly_bind.mp hrest).1
      · intro h
        refine ⟨(h a b rfl).1, fun divisor hdivisor => ?_⟩
        cases hzero : F.floatIsZero divisor with
        | true => exact raisesOnly_logic _
        | false =>
          have ha := (h a b rfl).2 ⟨divisor, hdivisor, hzero⟩
          exact raisesOnly_bind.mpr ⟨num_safe.mpr ha, fun _ _ => .ok _⟩
  · next hshape => exact ⟨fun _ a b hargs => absurd hargs (hshape a b), fun _ => raisesOnly_logic _⟩

theorem in_safe :
    RaisesOnly Caught (evalIn F args) ↔ ∀ needle haystack, args = [needle, .str haystack] → ∃ s, needle = .str s := by
  unfold evalIn
  split
  · exact ⟨fun _ _ _ hargs => (nomatch hargs), fun _ => .ok _⟩
  · next needle _ =>
      constructor
      · rintro _ _ _ ⟨⟩
        exact ⟨needle, rfl⟩
      · exact fun _ => .ok _
  · next needle haystack hneedle =>
      constructor
      · intro h
        obtain ⟨e, he⟩ := raisesOnly_error.mp h
        cases he
      · intro h
        obtain ⟨s, hs⟩ := h needle haystack rfl
        exact absurd hs (hneedle s)
  · next htext =>
      constructor
      · rintro _ _ haystack ⟨⟩
        exact (htext haystack rfl).elim
      · exact fun _ => raisesOnly_logic _
  · next hshape => exact ⟨fun _ a b hargs => absurd hargs (hshape a (.str b)), fun _ => raisesOnly_logic _⟩

theorem evaluator_safe : RaisesOnly Caught (evaluator F op args) ↔ OperandsSafe F op args := by
  cases op with
  | gt | ge | lt | le => exact compare_safe
  | add => exact add_safe
  | subtract => exact subtract_safe
  | multiply => exact multiply_safe
  | divide => exact divide_safe
  | isIn => exact in_safe
  | and | or => exact ⟨fun _ => trivial, fun _ => .ok _⟩
  | eq | ne =>
    refine ⟨fun _ => trivial, fun _ => ?_⟩
    match args with
    | [a, b] => exact .ok _
    | [] | [_] | _ :: _ :: _ :: _ => exact raisesOnly_logic _
  | not =>
    refine ⟨fun _ => trivial, fun _ => ?_⟩
    match args with
    | [a] => exact .ok _
    | [] | _ :: _ :: _ => exact raisesOnly_logic _

end Operators

section Evaluation

variable {F : Floats} {ctx : Members} {left : ℕ} {expr : Json}

theorem step_safe {current : Option Json} {part : Text} : RaisesOnly Caught (step current part) ↔ StepSafe current part := by
  unfold step
  split
  · exact ⟨fun _ _ h => (nomatch h), fun _ => .ok _⟩
  · next items =>
      split
      · next hdigits =>
          split
          · next i hi => exact ⟨fun _ _ _ _ => by rw [hi]; rfl, fun _ => .ok _⟩
          · next hi =>
              constructor
              · intro h
                obtain ⟨e, he⟩ := raisesOnly_error.mp h
                cases he
              · intro h
                have hnumber := h items rfl hdigits
                rw [hi] at hnumber
                cases hnumber
      · next hdigits => exact ⟨fun _ _ _ h => absurd h hdigits, fun _ => .ok _⟩
  · next hitems => exact ⟨fun _ items h => (hitems items h).elim, fun _ => .ok _⟩

theorem path_safe {parts : List Text} {current : Option Json} :
    RaisesOnly Caught (parts.foldlM step current) ↔ PathSafe current parts := by
  induction parts generalizing current with
  | nil => exact ⟨fun _ => trivial, fun _ => .ok current⟩
  | cons part parts ih =>
    rw [foldlM_cons, raisesOnly_bind, PathSafe, step_safe]
    apply and_congr_right
    intro _
    exact forall₂_congr fun next _ => ih

theorem var_safe {path : Json} : RaisesOnly Caught (resolveVar path ctx) ↔ VarSafe path ctx := by
  unfold resolveVar VarSafe
  split
  · next hspec => exact ⟨fun _ => by rw [hspec]; trivial, fun _ => .ok _⟩
  · next target fallback hspec =>
      rw [hspec]
      split
      · next hempty => exact ⟨fun _ hne => absurd hempty hne, fun _ => .ok _⟩
      · next hne =>
          rw [raisesOnly_bind, path_safe]
          exact ⟨fun h _ => h.1, fun h => ⟨h hne, fun _ _ => .ok _⟩⟩
  · next hnull htext =>
      refine ⟨fun _ => ?_, fun _ => raisesOnly_logic _⟩
      split
      · next target fallback hspec => exact (htext target fallback hspec).elim
      · trivial

/-- An evaluation raises a `JsonLogicError` or nothing, exactly at the safe expressions. -/
theorem evalWith_safe : RaisesOnly Caught (evalWith F ctx left expr) ↔ SafeWith F ctx left expr := by
  induction left generalizing expr with
  | zero =>
    cases expr with
    | obj members => exact ⟨fun _ => trivial, fun _ => raisesOnly_logic _⟩
    | _ => exact ⟨fun _ => trivial, fun _ => .ok _⟩
  | succ left ih =>
    cases expr with
    | obj members =>
      match members with
      | [(key, raw)] =>
        rw [evalWith, SafeWith]
        split
        · exact var_safe
        · cases Operator.ofKey key with
          | none => exact ⟨fun _ => trivial, fun _ => raisesOnly_logic _⟩
          | some op =>
            apply raisesOnly_bind.trans
            apply and_congr
            · exact raisesOnly_mapM.trans (forall₂_congr fun arg _ => ih)
            · exact forall₂_congr fun args _ => evaluator_safe
      | [] | _ :: _ :: _ => exact ⟨fun _ => trivial, fun _ => raisesOnly_logic _⟩
    | _ => exact ⟨fun _ => trivial, fun _ => .ok _⟩

theorem evalJsonlogic_safe : RaisesOnly Caught (evalJsonlogic F expr ctx) ↔ Safe F expr ctx := evalWith_safe

/-- The evaluation ends with a value or with a `JsonLogicError`. -/
def Settles (F : Floats) (expr : Json) (ctx : Members) : Prop :=
  (∃ value, evalJsonlogic F expr ctx = .ok value) ∨ ∃ e, evalJsonlogic F expr ctx = .error (.logic e)

theorem settles_iff : Settles F expr ctx ↔ RaisesOnly Caught (evalJsonlogic F expr ctx) := by
  rw [Settles]
  cases evalJsonlogic F expr ctx with
  | ok value => exact ⟨fun _ => .ok value, fun _ => .inl ⟨value, rfl⟩⟩
  | error x =>
    rw [raisesOnly_error]
    constructor
    · rintro (⟨_, h⟩ | ⟨e, h⟩)
      · cases h
      · exact ⟨e, Except.error.inj h⟩
    · rintro ⟨e, rfl⟩
      exact .inr ⟨e, rfl⟩

/-- What an operator is applied to decides whether the evaluation settles. -/
theorem evaluation_settles (F : Floats) (expr : Json) (ctx : Members) : Settles F expr ctx ↔ Safe F expr ctx :=
  settles_iff.trans evalJsonlogic_safe

/-- A number is searched for in a text. -/
theorem number_in_text_raises :
    ¬ Settles wholeFloats (.obj [(text "in", .arr [.int 1, .str (text "a1")])]) [] := by
  have hraises : evalJsonlogic wholeFloats (.obj [(text "in", .arr [.int 1, .str (text "a1")])]) [] = .error .typeError := rfl
  rintro (⟨_, h⟩ | ⟨_, h⟩)
  · rw [hraises] at h
    cases h
  · rw [hraises] at h
    cases h

end Evaluation

end JsonLogic
