import Mathlib.Data.List.Nodup

/-!
Tables of rows with named fields, and the statements that count, delete and update rows. A column
is a field of a table.
-/
namespace Columns
open List

variable {T F V : Type*}

abbrev Row (F V : Type*) := F → V

abbrev Database (T F V : Type*) := T → List (Row F V)

structure Column (T F : Type*) where
  table : T
  field : F
  deriving DecidableEq

section Statements

variable [DecidableEq T] [DecidableEq F] [DecidableEq V]

def count (d : Database T F V) (t : T) (p : Row F V → Bool) : ℕ := (d t).countP p

def delete (d : Database T F V) (t : T) (p : Row F V → Bool) : Database T F V :=
  Function.update d t ((d t).filter fun r => !p r)

def change (d : Database T F V) (t : T) (p : Row F V → Bool) (f : Row F V → Row F V) : Database T F V :=
  Function.update d t ((d t).map fun r => if p r then f r else r)

def Column.holds (c : Column T F) (v : V) (r : Row F V) : Bool := r c.field = v

def Column.set (c : Column T F) (v : V) (r : Row F V) : Row F V := Function.update r c.field v

def rewrite (c : Column T F) (old new : V) (d : Database T F V) : Database T F V :=
  change d c.table (c.holds old) (c.set new)

def rewriteAll (old new : V) (cs : List (Column T F)) (d : Database T F V) : Database T F V :=
  cs.foldl (fun d c => rewrite c old new d) d

def Absent (c : Column T F) (v : V) (d : Database T F V) : Prop := ∀ r ∈ d c.table, r c.field ≠ v

def swap (old new v : V) : V := if v = old then new else v

def swapRow (old new : V) (cs : List (Column T F)) (t : T) (r : Row F V) : Row F V :=
  fun f => if ⟨t, f⟩ ∈ cs then swap old new (r f) else r f

end Statements

section Swap

variable [DecidableEq V] {old new a b : V}

@[simp] theorem swap_old : swap old new old = new := if_pos rfl

theorem swap_ne (h : old ≠ new) : swap old new a ≠ old := by
  rw [swap]
  split
  · exact h.symm
  · assumption

theorem swap_idem : swap old new (swap old new a) = swap old new a := by
  unfold swap
  split_ifs <;> simp_all

theorem swap_eq (h : swap old new a = swap old new b) : a = b ∨ (a = old ∧ b = new) ∨ (a = new ∧ b = old) := by
  unfold swap at h
  split_ifs at h with ha hb hb
  · exact .inl (ha.trans hb.symm)
  · exact .inr (.inl ⟨ha, h.symm⟩)
  · exact .inr (.inr ⟨h, hb⟩)
  · exact .inl h

theorem nodup_swap {α K : Type*} {key : α → K} {value : α → V} {xs : List α}
    (hnodup : (xs.map fun x => (key x, value x)).Nodup)
    (hapart : ∀ x ∈ xs, ∀ y ∈ xs, key x = key y → ¬ (value x = old ∧ value y = new)) :
    (xs.map fun x => (key x, swap old new (value x))).Nodup := by
  have hmap : (xs.map fun x => (key x, swap old new (value x))) =
      (xs.map fun x => (key x, value x)).map fun p => (p.1, swap old new p.2) := by
    rw [map_map]
    rfl
  rw [hmap]
  refine hnodup.map_on ?_
  rintro p hp q hq heq
  obtain ⟨x, hx, rfl⟩ := mem_map.mp hp
  obtain ⟨y, hy, rfl⟩ := mem_map.mp hq
  obtain ⟨hkey, hvalue⟩ := Prod.mk.inj heq
  rcases swap_eq hvalue with heq | hboth | hboth
  · exact Prod.ext hkey heq
  · exact absurd hboth (hapart x hx y hy hkey)
  · exact absurd ⟨hboth.2, hboth.1⟩ (hapart y hy x hx hkey.symm)

end Swap

section Tables

variable {d : Database T F V} {t u : T} {p : Row F V → Bool} {f : Row F V → Row F V}

theorem count_congr {d' : Database T F V} (h : d t = d' t) : count d t p = count d' t p := by
  rw [count, count, h]

theorem count_split (q : Row F V → Bool) :
    count d t p = (count d t fun r => p r && !q r) + count d t fun r => p r && q r := by
  rw [count, count, count]
  induction d t with
  | nil => rfl
  | cons r rows ih =>
    rw [countP_cons, countP_cons, countP_cons, ih]
    cases p r <;> cases q r <;> simp <;> omega

theorem count_filter {d' : Database T F V} {q p' : Row F V → Bool} (h : d' t = (d t).filter q)
    (hsame : ∀ r ∈ d t, (q r && p r) = p' r) : count d' t p = count d t p' := by
  rw [count, count, h, countP_filter]
  refine countP_congr fun r hr => ?_
  rw [← hsame r hr, Bool.and_comm]

variable [DecidableEq T]

@[simp] theorem delete_self : delete d t p t = (d t).filter fun r => !p r := Function.update_self ..

@[simp] theorem change_self : change d t p f t = (d t).map fun r => if p r then f r else r := Function.update_self ..

theorem delete_other (h : u ≠ t) : delete d t p u = d u := Function.update_of_ne h ..

theorem change_other (h : u ≠ t) : change d t p f u = d u := Function.update_of_ne h ..

theorem count_delete (q : Row F V → Bool) :
    count d t q = count (delete d t p) t q + count d t fun r => q r && p r := by
  have hkept : count (delete d t p) t q = count d t fun r => q r && !p r :=
    count_filter delete_self fun r _ => Bool.and_comm ..
  rw [count_split p, hkept]

end Tables

section Rewrites

variable [DecidableEq T] [DecidableEq F] [DecidableEq V] {d : Database T F V} {c c' : Column T F} {cs : List (Column T F)} {old new v : V} {t : T}

theorem swapRow_cons (r : Row F V) :
    swapRow old new cs t (swapRow old new [c] t r) = swapRow old new (c :: cs) t r := by
  funext f
  simp only [swapRow, mem_cons, not_mem_nil, or_false]
  by_cases hc : (⟨t, f⟩ : Column T F) = c <;> by_cases hcs : (⟨t, f⟩ : Column T F) ∈ cs <;>
    simp [hc, hcs, swap_idem]

theorem swapRow_nil (r : Row F V) : swapRow old new ([] : List (Column T F)) t r = r := by
  funext f
  simp [swapRow]

theorem rewrite_table : rewrite c old new d t = (d t).map (swapRow old new [c] t) := by
  by_cases ht : t = c.table
  · subst ht
    rw [rewrite, change_self]
    refine map_congr_left fun r _ => ?_
    funext f
    by_cases hf : f = c.field
    · subst hf
      by_cases hv : r c.field = old <;> simp [swapRow, swap, Column.holds, Column.set, hv]
    · have hne : (⟨c.table, f⟩ : Column T F) ≠ c := fun heq => hf (congrArg Column.field heq)
      by_cases hv : r c.field = old <;> simp [swapRow, Column.holds, Column.set, hv, hf, hne]
  · rw [rewrite, change_other ht]
    conv_lhs => rw [← map_id (d t)]
    refine map_congr_left fun r _ => ?_
    funext f
    have hne : (⟨t, f⟩ : Column T F) ≠ c := fun heq => ht (congrArg Column.table heq)
    simp [swapRow, hne]

theorem rewriteAll_table : rewriteAll old new cs d t = (d t).map (swapRow old new cs t) := by
  induction cs generalizing d with
  | nil => simp [rewriteAll, swapRow_nil, map_id'']
  | cons c cs ih =>
    rw [rewriteAll, foldl_cons]
    refine ih.trans ?_
    rw [rewrite_table, map_map]
    exact map_congr_left fun r _ => swapRow_cons r

theorem rewriteAll_other (h : t ∉ cs.map Column.table) : rewriteAll old new cs d t = d t := by
  rw [rewriteAll_table]
  conv_rhs => rw [← map_id (d t)]
  refine map_congr_left fun r _ => funext fun f => ?_
  rw [swapRow, if_neg fun hmem => h (mem_map_of_mem (f := Column.table) hmem), id_eq]

theorem count_rewriteAll (h : c ∉ cs) :
    count (rewriteAll old new cs d) c.table (c.holds v) = count d c.table (c.holds v) := by
  rw [count, count, rewriteAll_table, countP_map]
  refine countP_congr fun r _ => ?_
  simp [Column.holds, swapRow, h]

theorem absent_rewriteAll (hne : old ≠ new) (h : c ∈ cs) : Absent c old (rewriteAll old new cs d) := by
  intro r hr
  rw [rewriteAll_table] at hr
  obtain ⟨x, _, rfl⟩ := mem_map.mp hr
  rw [swapRow, if_pos h]
  exact swap_ne hne

end Rewrites

section Absence

variable {d : Database T F V} {c : Column T F} {t : T} {v : V} {p : Row F V → Bool} {f : Row F V → Row F V}

theorem Absent.congr {d' : Database T F V} (h : Absent c v d) (heq : d' c.table = d c.table) : Absent c v d' := by
  intro r hr
  exact h r (heq ▸ hr)

variable [DecidableEq T]

theorem Absent.delete (h : Absent c v d) : Absent c v (delete d t p) := by
  by_cases ht : c.table = t
  · subst ht
    intro r hr
    rw [delete_self] at hr
    exact h r (mem_filter.mp hr).1
  · exact h.congr (delete_other ht)

theorem Absent.change (h : Absent c v d) (hf : c.table = t → ∀ r, f r c.field = r c.field ∨ f r c.field ≠ v) :
    Absent c v (change d t p f) := by
  by_cases ht : c.table = t
  · subst ht
    intro r hr
    rw [change_self] at hr
    obtain ⟨x, hx, rfl⟩ := mem_map.mp hr
    split
    · rcases hf rfl x with hsame | hne
      · exact hsame ▸ h x hx
      · exact hne
    · exact h x hx
  · exact h.congr (change_other ht)

variable [DecidableEq V]

theorem absent_change (hf : ∀ r, f r c.field ≠ v) : Absent c v (Columns.change d c.table (c.holds v) f) := by
  intro r hr
  rw [change_self] at hr
  obtain ⟨x, _, rfl⟩ := mem_map.mp hr
  split
  · exact hf x
  next h => simpa [Column.holds] using h

variable [DecidableEq F]

theorem Absent.rewriteAll (h : Absent c v d) {old new : V} (hv : new ≠ v) (cs : List (Column T F)) :
    Absent c v (rewriteAll old new cs d) := by
  intro r hr
  rw [rewriteAll_table] at hr
  obtain ⟨x, hx, rfl⟩ := mem_map.mp hr
  unfold swapRow swap
  split_ifs
  · exact hv
  · exact h x hx
  · exact h x hx

end Absence

end Columns
