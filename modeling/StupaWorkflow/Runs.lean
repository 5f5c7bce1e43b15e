import Mathlib.Data.Option.Basic

/-!
Runs of a machine that takes one operation after the other. An operation that is not possible in a
state has no successor.
-/
namespace Runs

variable {Op State : Type*} {step : Op → State → Option State}

def run (step : Op → State → Option State) : State → List Op → Option State
  | s, [] => some s
  | s, op :: ops => (step op s).bind fun s' => run step s' ops

def Guarded (guard : Op → State → Prop) (step : Op → State → Option State) : State → List Op → Prop
  | _, [] => True
  | s, op :: ops => guard op s ∧ ∀ s' ∈ step op s, Guarded guard step s' ops

instance decidableGuarded (guard : Op → State → Prop) [∀ op s, Decidable (guard op s)]
    (step : Op → State → Option State) : (s : State) → (ops : List Op) → Decidable (Guarded guard step s ops)
  | _, [] => isTrue trivial
  | s, op :: ops =>
    haveI : ∀ s', Decidable (Guarded guard step s' ops) := fun s' => decidableGuarded guard step s' ops
    inferInstanceAs (Decidable (guard op s ∧ ∀ s' ∈ step op s, Guarded guard step s' ops))

theorem guarded_run {guard : Op → State → Prop} {J : State → Prop}
    (hstep : ∀ {op s s'}, J s → guard op s → step op s = some s' → J s') {s s' : State} {ops : List Op} (hJ : J s)
    (hguard : Guarded guard step s ops) (hrun : run step s ops = some s') : J s' := by
  induction ops generalizing s with
  | nil =>
    cases hrun
    exact hJ
  | cons op ops ih =>
    obtain ⟨s₁, hs₁, hrest⟩ := Option.bind_eq_some_iff.mp hrun
    exact ih (hstep hJ hguard.1 hs₁) (hguard.2 s₁ hs₁) hrest

theorem run_keeps {J : State → Prop} (hstep : ∀ {op s s'}, J s → step op s = some s' → J s') {s s' : State}
    {ops : List Op} (hJ : J s) (hrun : run step s ops = some s') : J s' := by
  induction ops generalizing s with
  | nil =>
    cases hrun
    exact hJ
  | cons op ops ih =>
    obtain ⟨s₁, hs₁, hrest⟩ := Option.bind_eq_some_iff.mp hrun
    exact ih (hstep hJ hs₁) hrest

end Runs
