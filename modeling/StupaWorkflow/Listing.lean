import Mathlib.Logic.Function.Basic

/-!
A catalogue names at most one stored object for each of its entries, and an object belongs to one
entry. The catalogue is exact when it names the stored objects and no others.
-/
namespace Listing

variable {Id Key : Type*} [DecidableEq Id]

def Exact (names : Id → Option Key) (stored : Key → Prop) : Prop := ∀ k, stored k ↔ ∃ i, names i = some k

def Owned (owner : Key → Id → Prop) (names : Id → Option Key) : Prop := ∀ i k, names i = some k → owner k i

variable {owner : Key → Id → Prop} {names other : Id → Option Key} {stored : Key → Prop}

theorem Exact.add (h : Exact names stored) {i : Id} (hi : names i = none) (k : Key) :
    Exact (Function.update names i (some k)) fun j => j = k ∨ stored j := by
  intro j
  constructor
  · rintro (rfl | hj)
    · exact ⟨i, Function.update_self ..⟩
    · obtain ⟨x, hx⟩ := (h j).mp hj
      refine ⟨x, ?_⟩
      rw [Function.update_of_ne (by rintro rfl; simp [hi] at hx), hx]
  · rintro ⟨x, hx⟩
    by_cases hxi : x = i
    · subst hxi
      rw [Function.update_self, Option.some_inj] at hx
      exact .inl hx.symm
    · rw [Function.update_of_ne hxi] at hx
      exact .inr ((h j).mpr ⟨x, hx⟩)

omit [DecidableEq Id] in
theorem Exact.drop (hone : ∀ k i j, owner k i → owner k j → i = j) (howned : Owned owner names) (h : Exact names stored)
    (gone : Id → Prop) [DecidablePred gone] (removed : Key → Prop) (hremoved : ∀ k, removed k → ∃ i, gone i ∧ owner k i)
    (hgone : ∀ i k, gone i → names i = some k → removed k) :
    Exact (fun i => if gone i then none else names i) fun k => ¬ removed k ∧ stored k := by
  intro k
  constructor
  · rintro ⟨hk, hstored⟩
    obtain ⟨i, hi⟩ := (h k).mp hstored
    have hkeep : ¬ gone i := fun hg => hk (hgone i k hg hi)
    exact ⟨i, by simpa only [if_neg hkeep] using hi⟩
  · rintro ⟨i, hi⟩
    by_cases hg : gone i
    · simp [hg] at hi
    · simp only [if_neg hg] at hi
      refine ⟨fun hr => ?_, (h k).mpr ⟨i, hi⟩⟩
      obtain ⟨j, hj, hown⟩ := hremoved k hr
      exact hg (hone k i j (howned i k hi) hown ▸ hj)

omit [DecidableEq Id] in
theorem exact_override_iff (hone : ∀ k i j, owner k i → owner k j → i = j) (howned : Owned owner names)
    (hother : Owned owner other) (h : Exact names stored) (known : Id → Prop) [DecidablePred known] :
    Exact (fun i => if known i then other i else names i) stored ↔ ∀ i, known i → other i = names i := by
  constructor
  · intro hexact i hi
    cases hoi : other i with
    | some k =>
      obtain ⟨j, hj⟩ := (h k).mp ((hexact k).mpr ⟨i, by simpa [hi] using hoi⟩)
      rw [← hj, hone k j i (howned j k hj) (hother i k hoi)]
    | none =>
      cases hni : names i with
      | none => rfl
      | some k =>
        -- the object is still stored, and only its owner could name it
        obtain ⟨j, hj⟩ := (hexact k).mp ((h k).mpr ⟨i, hni⟩)
        have hij : j = i := by
          by_cases hknown : known j
          · exact hone k j i (hother j k (by simpa [hknown] using hj)) (howned i k hni)
          · exact hone k j i (howned j k (by simpa [hknown] using hj)) (howned i k hni)
        subst hij
        simp [hi, hoi] at hj
  · intro hagree
    have hsame : (fun i => if known i then other i else names i) = names := by
      funext i
      by_cases hi : known i
      · rw [if_pos hi, hagree i hi]
      · rw [if_neg hi]
    rw [hsame]
    exact h

end Listing
