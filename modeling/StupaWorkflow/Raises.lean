import Mathlib.Tactic.Push

/-!
What computations that can fail do fail with. The kinds of the errors of a sequence are
those of its parts, and a loop over a list raises what the first item raises that it
cannot get past.
-/
namespace Raises
open List

variable {α β ε : Type}

def RaisesOnly (P : ε → Prop) (x : Except ε α) : Prop := ∀ e, x = .error e → P e

section Sequence

variable {P : ε → Prop} {x : Except ε α} {f : α → Except ε β}

theorem RaisesOnly.ok (a : α) : RaisesOnly P (.ok a : Except ε α) := fun _ h => nomatch h

theorem raisesOnly_error {e : ε} : RaisesOnly P (.error e : Except ε α) ↔ P e := by
  constructor
  · exact fun h => h e rfl
  · intro h e' he
    cases he
    exact h

theorem raisesOnly_bind : RaisesOnly P (x >>= f) ↔ RaisesOnly P x ∧ ∀ a, x = .ok a → RaisesOnly P (f a) := by
  cases x with
  | error e =>
    constructor
    · exact fun h => ⟨raisesOnly_error.mpr (h e rfl), fun _ ha => nomatch ha⟩
    · exact fun h => raisesOnly_error.mpr (h.1 e rfl)
  | ok a =>
    constructor
    · intro h
      refine ⟨.ok a, fun a' ha => ?_⟩
      cases ha
      exact h
    · exact fun h => h.2 a rfl

theorem raisesOnly_map {f : α → β} : RaisesOnly P (x.map f) ↔ RaisesOnly P x := by
  cases x with
  | error e => exact raisesOnly_error.trans raisesOnly_error.symm
  | ok a => exact ⟨fun _ => .ok a, fun _ => .ok (f a)⟩

theorem map_returns {f : α → β} : (∃ b, x.map f = .ok b) ↔ ∃ a, x = .ok a := by
  cases x with
  | error e => exact ⟨fun ⟨_, h⟩ => (nomatch h), fun ⟨_, h⟩ => (nomatch h)⟩
  | ok a => exact ⟨fun _ => ⟨a, rfl⟩, fun _ => ⟨f a, rfl⟩⟩

theorem bind_returns (hf : ∀ a, ∃ b, f a = .ok b) : (∃ b, x >>= f = .ok b) ↔ ∃ a, x = .ok a := by
  cases x with
  | error e => exact ⟨fun ⟨_, h⟩ => (nomatch h), fun ⟨_, h⟩ => (nomatch h)⟩
  | ok a => exact ⟨fun _ => ⟨a, rfl⟩, fun _ => hf a⟩

end Sequence

section Loop

variable {P : ε → Prop} {f : α → Except ε β} {xs : List α}

/-- The items of a list that a loop comes to: none before them raises. -/
inductive Reached (f : α → Except ε β) : List α → α → Prop
  | here (x : α) (xs : List α) : Reached f (x :: xs) x
  | behind {x : α} {y : β} {xs : List α} {x' : α} (hx : f x = .ok y) (h : Reached f xs x') : Reached f (x :: xs) x'

theorem Reached.mem {x : α} (h : Reached f xs x) : x ∈ xs := by
  induction h with
  | here => exact mem_cons_self
  | behind _ _ ih => exact mem_cons_of_mem _ ih

theorem raisesOnly_mapM : RaisesOnly P (xs.mapM f) ↔ ∀ x, Reached f xs x → RaisesOnly P (f x) := by
  induction xs with
  | nil => exact ⟨fun _ _ h => (nomatch h), fun _ => .ok []⟩
  | cons x xs ih =>
    rw [mapM_cons, raisesOnly_bind]
    constructor
    · intro h x' hreached
      cases hreached with
      | here => exact h.1
      | behind hx hrest => exact ih.mp (raisesOnly_bind.mp (h.2 _ hx)).1 x' hrest
    · intro h
      refine ⟨h x (.here x xs), fun y hy => raisesOnly_bind.mpr ⟨?_, fun _ _ => .ok _⟩⟩
      exact ih.mpr fun x' hrest => h x' (.behind hy hrest)

theorem raisesOnly_forM {f : α → Except ε PUnit} : RaisesOnly P (xs.forM f) ↔ ∀ x, Reached f xs x → RaisesOnly P (f x) := by
  induction xs with
  | nil =>
    refine ⟨fun _ _ h => ?_, fun _ => .ok _⟩
    cases h
  | cons x xs ih =>
    change RaisesOnly P (f x >>= fun _ => xs.forM f) ↔ _
    rw [raisesOnly_bind]
    constructor
    · intro h x' hreached
      cases hreached with
      | here => exact h.1
      | behind hx hrest => exact ih.mp (h.2 _ hx) x' hrest
    · intro h
      exact ⟨h x (.here x xs), fun y hy => ih.mpr fun x' hrest => h x' (.behind hy hrest)⟩

theorem mapM_raises {x : α} {e : ε} (hmem : x ∈ xs) (hx : f x = .error e) : ∃ e', xs.mapM f = .error e' := by
  induction xs with
  | nil => cases hmem
  | cons first xs ih =>
    rw [mapM_cons]
    cases hfirst : f first with
    | error e' => exact ⟨e', rfl⟩
    | ok y =>
      have hrest : x ∈ xs := by
        rcases mem_cons.mp hmem with rfl | hrest
        · rw [hx] at hfirst
          cases hfirst
        · exact hrest
      obtain ⟨e', he'⟩ := ih hrest
      exact ⟨e', by rw [he']; rfl⟩

theorem mapM_ok {ys : List β} (h : xs.mapM f = .ok ys) : ∀ x ∈ xs, ∃ y ∈ ys, f x = .ok y := by
  induction xs generalizing ys with
  | nil => exact fun _ hmem => nomatch hmem
  | cons first xs ih =>
    rw [mapM_cons] at h
    cases hfirst : f first with
    | error e =>
      rw [hfirst] at h
      cases h
    | ok y =>
      cases hrest : xs.mapM f with
      | error e =>
        rw [hfirst, hrest] at h
        cases h
      | ok rest =>
        rw [hfirst, hrest] at h
        cases h
        refine forall_mem_cons.mpr ⟨⟨y, mem_cons_self, hfirst⟩, fun x hmem => ?_⟩
        obtain ⟨y', hy', hx⟩ := ih hrest x hmem
        exact ⟨y', mem_cons_of_mem _ hy', hx⟩

theorem mapM_forall {ys : List β} (h : xs.mapM f = .ok ys) {P : β → Prop} :
    (∀ y ∈ ys, P y) ↔ ∀ x ∈ xs, ∀ y, f x = .ok y → P y := by
  induction xs generalizing ys with
  | nil =>
    cases h
    simp
  | cons first xs ih =>
    rw [mapM_cons] at h
    cases hfirst : f first with
    | error e =>
      rw [hfirst] at h
      cases h
    | ok y =>
      cases hrest : xs.mapM f with
      | error e =>
        rw [hfirst, hrest] at h
        cases h
      | ok rest =>
        rw [hfirst, hrest] at h
        cases h
        rw [forall_mem_cons, forall_mem_cons, ih hrest, hfirst]
        simp

theorem mapM_returns : (∃ ys, xs.mapM f = .ok ys) ↔ ∀ x ∈ xs, ∃ y, f x = .ok y := by
  constructor
  · rintro ⟨ys, h⟩ x hmem
    obtain ⟨y, _, hx⟩ := mapM_ok h x hmem
    exact ⟨y, hx⟩
  · induction xs with
    | nil => exact fun _ => ⟨[], rfl⟩
    | cons first xs ih =>
      intro h
      obtain ⟨⟨y, hfirst⟩, hrest⟩ := forall_mem_cons.mp h
      obtain ⟨ys, hys⟩ := ih hrest
      exact ⟨y :: ys, by rw [mapM_cons, hfirst, hys]; rfl⟩

end Loop

end Raises
