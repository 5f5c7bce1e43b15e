import Mathlib.Data.List.Basic

/-!
Formulas over atoms that may have no value. A conjunction is evaluated from left to right up
to the first false part, a disjunction up to the first true one, so that atoms further right
need no value.
-/
namespace ShortCircuit

inductive Formula (α : Type) where
  | atom (a : α)
  | all (fs : List (Formula α))
  | any (fs : List (Formula α))
  | not (f : Formula α)

variable {α ε : Type}

mutual

def eval (p : α → Except ε Bool) : Formula α → Except ε Bool
  | .atom a => p a
  | .all fs => evalAll p fs
  | .any fs => evalAny p fs
  | .not f => (eval p f).map (! ·)

def evalAll (p : α → Except ε Bool) : List (Formula α) → Except ε Bool
  | [] => .ok true
  | f :: fs => do
      let b ← eval p f
      if b then evalAll p fs else .ok false

def evalAny (p : α → Except ε Bool) : List (Formula α) → Except ε Bool
  | [] => .ok false
  | f :: fs => do
      let b ← eval p f
      if b then .ok true else evalAny p fs

end

mutual

def holds (v : α → Bool) : Formula α → Bool
  | .atom a => v a
  | .all fs => holdsAll v fs
  | .any fs => holdsAny v fs
  | .not f => !holds v f

def holdsAll (v : α → Bool) : List (Formula α) → Bool
  | [] => true
  | f :: fs => holds v f && holdsAll v fs

def holdsAny (v : α → Bool) : List (Formula α) → Bool
  | [] => false
  | f :: fs => holds v f || holdsAny v fs

end

inductive Reaches (v : α → Bool) : Formula α → α → Prop
  | atom {a : α} : Reaches v (.atom a) a
  | allHere {f : Formula α} {fs : List (Formula α)} {a : α} : Reaches v f a → Reaches v (.all (f :: fs)) a
  | allNext {f : Formula α} {fs : List (Formula α)} {a : α} :
      holds v f = true → Reaches v (.all fs) a → Reaches v (.all (f :: fs)) a
  | anyHere {f : Formula α} {fs : List (Formula α)} {a : α} : Reaches v f a → Reaches v (.any (f :: fs)) a
  | anyNext {f : Formula α} {fs : List (Formula α)} {a : α} :
      holds v f = false → Reaches v (.any fs) a → Reaches v (.any (f :: fs)) a
  | not {f : Formula α} {a : α} : Reaches v f a → Reaches v (.not f) a

mutual

def Forall (P : α → Prop) : Formula α → Prop
  | .atom a => P a
  | .all fs => ForallList P fs
  | .any fs => ForallList P fs
  | .not f => Forall P f

def ForallList (P : α → Prop) : List (Formula α) → Prop
  | [] => True
  | f :: fs => Forall P f ∧ ForallList P fs

end

theorem Reaches.of_forall {v : α → Bool} {P : α → Prop} {f : Formula α} {a : α} (h : Reaches v f a) (hall : Forall P f) :
    P a := by
  induction h with
  | atom => exact hall
  | allHere _ ih => exact ih hall.1
  | allNext _ _ ih => exact ih hall.2
  | anyHere _ ih => exact ih hall.1
  | anyNext _ _ ih => exact ih hall.2
  | not _ ih => exact ih hall

/-- The value of an atom, false where it has none. -/
def truth (p : α → Except ε Bool) (a : α) : Bool :=
  match p a with
  | .ok b => b
  | .error _ => false

theorem truth_ok {p : α → Except ε Bool} {a : α} {b : Bool} (h : p a = .ok b) : truth p a = b := by
  rw [truth, h]

def Determined (p : α → Except ε Bool) (f : Formula α) : Prop := ∀ a, Reaches (truth p) f a → ∃ b, p a = .ok b

section Determined

variable {p : α → Except ε Bool} {f : Formula α} {fs : List (Formula α)} {a : α}

theorem determined_atom : Determined p (.atom a) ↔ ∃ b, p a = .ok b := by
  constructor
  · intro h
    exact h a .atom
  · intro h b hb
    cases hb
    exact h

theorem determined_not : Determined p (.not f) ↔ Determined p f := by
  constructor
  · intro h a ha
    exact h a (.not ha)
  · intro h a ha
    cases ha with
    | not ha => exact h a ha

theorem determined_all_nil : Determined p (.all []) := by
  intro a ha
  cases ha

theorem determined_any_nil : Determined p (.any []) := by
  intro a ha
  cases ha

theorem determined_all_cons : Determined p (.all (f :: fs)) ↔
    Determined p f ∧ (holds (truth p) f = true → Determined p (.all fs)) := by
  constructor
  · intro h
    exact ⟨fun a ha => h a (.allHere ha), fun hf a ha => h a (.allNext hf ha)⟩
  · rintro ⟨hhere, hnext⟩ a ha
    cases ha with
    | allHere ha => exact hhere a ha
    | allNext hf ha => exact hnext hf a ha

theorem determined_any_cons : Determined p (.any (f :: fs)) ↔
    Determined p f ∧ (holds (truth p) f = false → Determined p (.any fs)) := by
  constructor
  · intro h
    exact ⟨fun a ha => h a (.anyHere ha), fun hf a ha => h a (.anyNext hf ha)⟩
  · rintro ⟨hhere, hnext⟩ a ha
    cases ha with
    | anyHere ha => exact hhere a ha
    | anyNext hf ha => exact hnext hf a ha

end Determined

mutual

/-- An evaluation returns exactly where the atoms that it reaches have values, and then
it returns the truth of the formula. -/
theorem eval_ok_iff (p : α → Except ε Bool) {b : Bool} :
    (f : Formula α) → (eval p f = .ok b ↔ Determined p f ∧ holds (truth p) f = b)
  | .atom a => by
    rw [eval, holds, determined_atom]
    constructor
    · intro h
      exact ⟨⟨b, h⟩, truth_ok h⟩
    · rintro ⟨⟨c, hc⟩, rfl⟩
      rw [hc, truth_ok hc]
  | .all fs => by
    rw [eval, holds]
    exact evalAll_ok_iff p fs
  | .any fs => by
    rw [eval, holds]
    exact evalAny_ok_iff p fs
  | .not f => by
    rw [eval, holds, determined_not]
    cases h : eval p f with
    | error e =>
      refine iff_of_false (by simp [Except.map]) fun ⟨hd, _⟩ => ?_
      have hok := (eval_ok_iff p f).mpr ⟨hd, rfl⟩
      rw [h] at hok
      cases hok
    | ok c =>
      obtain ⟨hd, rfl⟩ := (eval_ok_iff p f).mp h
      simp [Except.map, hd]

theorem evalAll_ok_iff (p : α → Except ε Bool) {b : Bool} :
    (fs : List (Formula α)) → (evalAll p fs = .ok b ↔ Determined p (.all fs) ∧ holdsAll (truth p) fs = b)
  | [] => by simp [evalAll, holdsAll, determined_all_nil]
  | f :: fs => by
    rw [evalAll, holdsAll, determined_all_cons]
    cases h : eval p f with
    | error e =>
      refine iff_of_false (by simp [bind, Except.bind]) fun ⟨⟨hd, _⟩, _⟩ => ?_
      have hok := (eval_ok_iff p f).mpr ⟨hd, rfl⟩
      rw [h] at hok
      cases hok
    | ok c =>
      obtain ⟨hd, hc⟩ := (eval_ok_iff p f).mp h
      cases c with
      | true => simpa [bind, Except.bind, hd, hc] using evalAll_ok_iff p fs
      | false => simp [bind, Except.bind, hd, hc]

theorem evalAny_ok_iff (p : α → Except ε Bool) {b : Bool} :
    (fs : List (Formula α)) → (evalAny p fs = .ok b ↔ Determined p (.any fs) ∧ holdsAny (truth p) fs = b)
  | [] => by simp [evalAny, holdsAny, determined_any_nil]
  | f :: fs => by
    rw [evalAny, holdsAny, determined_any_cons]
    cases h : eval p f with
    | error e =>
      refine iff_of_false (by simp [bind, Except.bind]) fun ⟨⟨hd, _⟩, _⟩ => ?_
      have hok := (eval_ok_iff p f).mpr ⟨hd, rfl⟩
      rw [h] at hok
      cases hok
    | ok c =>
      obtain ⟨hd, hc⟩ := (eval_ok_iff p f).mp h
      cases c with
      | true => simp [bind, Except.bind, hd, hc]
      | false => simpa [bind, Except.bind, hd, hc] using evalAny_ok_iff p fs

end

theorem eval_returns_iff (p : α → Except ε Bool) (f : Formula α) : (∃ b, eval p f = .ok b) ↔ Determined p f := by
  constructor
  · rintro ⟨b, h⟩
    exact ((eval_ok_iff p f).mp h).1
  · intro h
    exact ⟨_, (eval_ok_iff p f).mpr ⟨h, rfl⟩⟩

end ShortCircuit
