import Mathlib.Logic.Relation

/-!
Forwarding pointers. A node points to at most one other node, and a reader that
follows one pointer must arrive where a reader that follows all of them does.
-/
namespace Pointers

variable {Node : Type*} {into : Node → Option Node}

def Points (into : Node → Option Node) (p q : Node) : Prop := into p = some q

/-- Every pointer leads to a node without one. -/
def Flat (into : Node → Option Node) : Prop := ∀ p q, into p = some q → into q = none

def Ends (into : Node → Option Node) (p q : Node) : Prop := Relation.ReflTransGen (Points into) p q ∧ into q = none

def once (into : Node → Option Node) (p : Node) : Node := (into p).getD p

theorem Flat.ne (h : Flat into) {p q : Node} (hp : into p = some q) : p ≠ q := by
  rintro rfl
  have := h p p hp
  rw [hp] at this
  cases this

theorem Flat.ends_iff (h : Flat into) (p q : Node) : Ends into p q ↔ q = once into p := by
  rw [once]
  cases hp : into p with
  | none =>
    constructor
    · rintro ⟨hpath, _⟩
      rcases hpath.cases_head with rfl | ⟨c, hc, _⟩
      · rfl
      · rw [Points, hp] at hc
        cases hc
    · rintro rfl
      exact ⟨.refl, hp⟩
  | some t =>
    have ht := h p t hp
    constructor
    · rintro ⟨hpath, hq⟩
      rcases hpath.cases_head with rfl | ⟨c, hc, hrest⟩
      · rw [hp] at hq
        cases hq
      · rw [Points, hp, Option.some.injEq] at hc
        subst hc
        rcases hrest.cases_head with rfl | ⟨c, hc, _⟩
        · rfl
        · rw [Points, ht] at hc
          cases hc
    · rintro rfl
      exact ⟨.single hp, ht⟩

variable [DecidableEq Node]

def redirect (into : Node → Option Node) (s t p : Node) : Option Node :=
  if p = s ∨ into p = some s then some t else into p

theorem Flat.redirect (h : Flat into) {s t : Node} (hne : s ≠ t) (ht : into t = none) :
    Flat (redirect into s t) := by
  intro p q hpq
  have hend : Pointers.redirect into s t t = none := by
    rw [Pointers.redirect, if_neg (by simp [Ne.symm hne, ht]), ht]
  rw [Pointers.redirect] at hpq
  split at hpq
  next => exact Option.some.inj hpq ▸ hend
  next hother =>
    have hq := h p q hpq
    have hqs : q ≠ s := by
      rintro rfl
      exact hother (.inr hpq)
    rw [Pointers.redirect, if_neg (by simp [hqs, hq]), hq]

end Pointers
