import Mathlib.Data.List.Nodup

/-!
A keyed object store: a finite map from keys to objects with put and remove of
one key. The entries carry the proof that no key occurs twice.
-/

structure ObjectStore (Key Obj : Type*) where
  entries : List (Key × Obj)
  nodup : (entries.map Prod.fst).Nodup

namespace ObjectStore
open List

variable {Key Obj : Type*} [DecidableEq Key]
variable {s : ObjectStore Key Obj}

def empty : ObjectStore Key Obj := ⟨[], nodup_nil⟩

def get (s : ObjectStore Key Obj) (k : Key) : Option Obj := (s.entries.find? (·.1 = k)).map (·.2)

def keys (s : ObjectStore Key Obj) : List Key := s.entries.map (·.1)

def remove (s : ObjectStore Key Obj) (k : Key) : ObjectStore Key Obj where
  entries := s.entries.filter (·.1 ≠ k)
  nodup := s.nodup.sublist (filter_sublist.map _)

def put (s : ObjectStore Key Obj) (k : Key) (v : Obj) : ObjectStore Key Obj where
  entries := (k, v) :: (s.remove k).entries
  nodup := by
    refine nodup_cons.mpr ⟨fun hmem => ?_, (s.remove k).nodup⟩
    obtain ⟨e, he, heq⟩ := mem_map.mp hmem
    exact of_decide_eq_true (mem_filter.mp he).2 heq

@[simp] theorem get_empty (k : Key) : (empty : ObjectStore Key Obj).get k = none := rfl

theorem get_eq_some {k : Key} {v : Obj} : s.get k = some v ↔ (k, v) ∈ s.entries := by
  unfold get
  constructor
  · intro h
    obtain ⟨⟨k', v'⟩, hfind, rfl⟩ := Option.map_eq_some_iff.mp h
    have hk := find?_some hfind
    rw [decide_eq_true_eq] at hk
    exact hk ▸ mem_of_find?_eq_some hfind
  · intro h
    cases hfind : s.entries.find? (·.1 = k) with
    | none =>
      have := find?_eq_none.mp hfind _ h
      simp at this
    | some e =>
      have hk := find?_some hfind
      rw [decide_eq_true_eq] at hk
      rw [inj_on_of_nodup_map s.nodup (mem_of_find?_eq_some hfind) h hk]
      rfl

theorem mem_keys {k : Key} : k ∈ s.keys ↔ (s.get k).isSome := by
  rw [Option.isSome_iff_exists]
  simp only [get_eq_some, keys, mem_map]
  constructor
  · rintro ⟨⟨k', v⟩, hmem, rfl⟩
    exact ⟨v, hmem⟩
  · rintro ⟨v, hmem⟩
    exact ⟨(k, v), hmem, rfl⟩

@[simp] theorem get_remove (s : ObjectStore Key Obj) (k j : Key) :
    (s.remove k).get j = if j = k then none else s.get j := by
  apply Option.ext
  intro v
  simp only [get_eq_some, remove, mem_filter, decide_eq_true_eq]
  split
  · next h => simp [h]
  · next h => simp [get_eq_some, h]

@[simp] theorem get_put (s : ObjectStore Key Obj) (k j : Key) (v : Obj) :
    (s.put k v).get j = if j = k then some v else s.get j := by
  split
  · next h =>
      subst h
      exact get_eq_some.mpr mem_cons_self
  · next h =>
      have hrest := get_remove s k j
      rw [if_neg h] at hrest
      rw [← hrest, get, put, find?_cons_of_neg (by simpa using Ne.symm h)]
      rfl

theorem get_foldl_put (s : ObjectStore Key Obj) (es : List (Key × Obj)) (h : (es.map Prod.fst).Nodup) (j : Key) :
    (es.foldl (fun s e => s.put e.1 e.2) s).get j = ((es.find? (·.1 = j)).map (·.2)).or (s.get j) := by
  induction es generalizing s with
  | nil => rfl
  | cons e es ih =>
    simp only [map_cons, nodup_cons] at h
    rw [foldl_cons, ih _ h.2, get_put, find?_cons]
    by_cases hj : e.1 = j
    · have hnone : es.find? (·.1 = j) = none := by
        refine find?_eq_none.mpr fun e' he' heq => h.1 ?_
        rw [decide_eq_true_eq] at heq
        exact hj ▸ heq ▸ mem_map_of_mem he'
      simp [hj, hnone]
    · simp [hj, Ne.symm hj]

theorem get_foldl_remove (s : ObjectStore Key Obj) (ks : List Key) (fails : Key → Bool) (j : Key) :
    (ks.foldl (fun s k => if fails k then s else s.remove k) s).get j =
      if j ∈ ks ∧ fails j = false then none else s.get j := by
  induction ks generalizing s with
  | nil => simp
  | cons k ks ih =>
    rw [foldl_cons, ih]
    by_cases hk : fails k = true
    · rw [if_pos hk]
      by_cases hj : j = k
      · subst hj
        simp [hk]
      · simp [hj]
    · rw [if_neg hk, get_remove]
      by_cases hj : j = k
      · subst hj
        simp [hk]
      · simp [hj]

end ObjectStore
