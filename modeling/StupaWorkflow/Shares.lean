import Mathlib.Algebra.Order.BigOperators.Group.List
import Mathlib.Data.List.Nodup

/-!
Amounts that a tree hands down: the children of a node never hold more than the
node itself. The tree is a table whose rows name their parent, the amounts are a
function of the node.
-/
namespace Shares
open List

variable {Row Node V : Type*} [DecidableEq Node]

def heldBy (key : Row → Node) (parent : Row → Option Node) (rows : List Row) (p : Row → Bool) (f : Node → V) [AddMonoid V]
    (q : Node) : V :=
  ((rows.filter fun r => parent r = some q && p r).map fun r => f (key r)).sum

def held (key : Row → Node) (parent : Row → Option Node) (rows : List Row) (f : Node → V) [AddMonoid V] (q : Node) : V :=
  heldBy key parent rows (fun _ => true) f q

def Within (key : Row → Node) (parent : Row → Option Node) (rows : List Row) (f : Node → V) [AddMonoid V] [LE V] : Prop :=
  ∀ r ∈ rows, held key parent rows f (key r) ≤ f (key r)

variable {key : Row → Node} {parent : Row → Option Node} {rows : List Row} {f g : Node → V}

section Sums

variable [AddCommMonoid V]
variable {q : Node}

theorem heldBy_congr {p : Row → Bool} (h : ∀ r ∈ rows, parent r = some q → p r = true → f (key r) = g (key r)) :
    heldBy key parent rows p f q = heldBy key parent rows p g q := by
  rw [heldBy, heldBy]
  congr 1
  refine map_congr_left fun r hr => ?_
  obtain ⟨hr, hcond⟩ := mem_filter.mp hr
  simp only [Bool.and_eq_true, decide_eq_true_eq] at hcond
  exact h r hr hcond.1 hcond.2

theorem held_congr (h : ∀ r ∈ rows, parent r = some q → f (key r) = g (key r)) :
    held key parent rows f q = held key parent rows g q :=
  heldBy_congr fun r hr hp _ => h r hr hp

theorem held_split (hnodup : (rows.map key).Nodup) {r : Row} (hr : r ∈ rows) (hq : parent r = some q) :
    held key parent rows f q = f (key r) + heldBy key parent rows (fun x => key x ≠ key r) f q := by
  induction rows with
  | nil => cases hr
  | cons x rows ih =>
    obtain ⟨hx, hnodup⟩ := nodup_cons.mp (map_cons ▸ hnodup)
    rcases mem_cons.mp hr with rfl | hr
    · have hothers : heldBy key parent (r :: rows) (fun x => key x ≠ key r) f q = held key parent rows f q := by
        rw [heldBy, held, heldBy]
        congr 2
        rw [filter_cons_of_neg (by simp)]
        refine filter_congr fun y hy => ?_
        have hne : key y ≠ key r := fun heq => hx (heq ▸ mem_map_of_mem hy)
        simp [hne]
      rw [hothers, held, heldBy, filter_cons_of_pos (by simp [hq]), map_cons, sum_cons]
      rfl
    · have hne : key x ≠ key r := fun heq => hx (heq ▸ mem_map_of_mem hr)
      have ih := ih hnodup hr
      rw [held, heldBy, heldBy]
      by_cases hp : parent x = some q
      · rw [filter_cons_of_pos (by simp [hp]), filter_cons_of_pos (by simp [hp, hne]), map_cons,
          map_cons, sum_cons, sum_cons]
        show f (key x) + held key parent rows f q = f (key r) + (f (key x) + heldBy key parent rows _ f q)
        rw [ih, add_left_comm]
      · rw [filter_cons_of_neg (by simp [hp]), filter_cons_of_neg (by simp [hp])]
        exact ih

theorem held_leaf (h : ∀ r ∈ rows, parent r ≠ some q) : held key parent rows f q = 0 := by
  rw [held, heldBy, filter_eq_nil_iff.mpr, map_nil, sum_nil]
  intro r hr
  simp [h r hr]

theorem held_append_leaf {r : Row} (hr : f (key r) = 0) (q : Node) :
    held key parent (rows ++ [r]) f q = held key parent rows f q := by
  rw [held, heldBy, held, heldBy, filter_append, map_append, sum_append]
  by_cases hp : parent r = some q <;> simp [hp, hr]

end Sums

section Within

variable [AddCommGroup V] [PartialOrder V]

theorem Within.update (h : Within key parent rows f) (hnodup : (rows.map key).Nodup) {r : Row} (hr : r ∈ rows)
    (hself : parent r ≠ some (key r)) {v : V}
    (hup : ∀ q, parent r = some q → v + heldBy key parent rows (fun x => key x ≠ key r) f q ≤ f q)
    (hdown : held key parent rows f (key r) ≤ v) : Within key parent rows (Function.update f (key r) v) := by
  intro x hx
  have hothers : ∀ y ∈ rows, key y ≠ key r → Function.update f (key r) v (key y) = f (key y) :=
    fun y _ hne => Function.update_of_ne hne _ _
  by_cases hxr : key x = key r
  · rw [hxr, Function.update_self]
    refine le_trans (le_of_eq (held_congr fun y hy hp => hothers y hy fun heq => ?_)) hdown
    rw [inj_on_of_nodup_map hnodup hy hr heq] at hp
    exact hself hp
  · rw [Function.update_of_ne hxr]
    by_cases hp : parent r = some (key x)
    · rw [held_split hnodup hr hp, Function.update_self]
      refine le_trans (le_of_eq ?_) (hup _ hp)
      congr 1
      exact heldBy_congr fun y hy _ hne => hothers y hy (by simpa using hne)
    · refine le_trans (le_of_eq (held_congr fun y hy hpy => hothers y hy fun heq => ?_)) (h x hx)
      rw [inj_on_of_nodup_map hnodup hy hr heq] at hpy
      exact hp hpy

theorem Within.congr (h : Within key parent rows f) (hfg : ∀ r ∈ rows, f (key r) = g (key r)) : Within key parent rows g := by
  intro r hr
  rw [← hfg r hr, ← held_congr fun x hx _ => hfg x hx]
  exact h r hr

theorem within_zero (hzero : ∀ r ∈ rows, f (key r) = 0) : Within key parent rows f := by
  have hall : Within key parent rows (fun _ => (0 : V)) := by
    intro r _
    simp [held, heldBy]
  exact hall.congr fun r hr => (hzero r hr).symm

theorem Within.insert (h : Within key parent rows f) {r : Row} (hr : f (key r) = 0)
    (hleaf : ∀ x ∈ rows ++ [r], parent x ≠ some (key r)) : Within key parent (rows ++ [r]) f := by
  intro x hx
  rw [held_append_leaf hr]
  rcases mem_append.mp hx with hx | hx
  · exact h x hx
  · rw [mem_singleton.mp hx, hr]
    exact (held_leaf fun y hy => hleaf y (mem_append_left _ hy)).le

variable [IsOrderedAddMonoid V]

theorem Within.lower (h : Within key parent rows f) (hnodup : (rows.map key).Nodup) {r : Row} (hr : r ∈ rows)
    (hself : parent r ≠ some (key r)) (hparent : ∀ q, parent r = some q → ∃ x ∈ rows, key x = q) {v : V}
    (hle : v ≤ f (key r)) (hdown : held key parent rows f (key r) ≤ v) :
    Within key parent rows (Function.update f (key r) v) := by
  refine h.update hnodup hr hself (fun q hq => ?_) hdown
  obtain ⟨x, hx, rfl⟩ := hparent q hq
  have hheld := h x hx
  rw [held_split hnodup hr hq] at hheld
  exact le_trans (add_le_add_left hle _) hheld

theorem Within.filter (h : Within key parent rows f) {p : Row → Bool} (hnonneg : ∀ k, 0 ≤ f k) :
    Within key parent (rows.filter p) f := by
  intro r hr
  refine le_trans (List.Sublist.sum_le_sum ((filter_sublist.filter _).map _) fun v hv => ?_) (h r (mem_of_mem_filter hr))
  obtain ⟨x, _, rfl⟩ := mem_map.mp hv
  exact hnonneg _

end Within

end Shares
