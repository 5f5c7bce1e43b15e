import Mathlib.Algebra.BigOperators.Group.List.Basic
import Mathlib.Data.List.Perm.Subperm
import StupaWorkflow.PathTree

/-!
The forest of rows with a link to their parent: it is grown from the roots to a bounded depth, and
a cut keeps the outermost subtrees whose label matches.
-/
namespace PathTree
open List

inductive Rose (α : Type*) where
  | node (label : α) (children : List (Rose α))

namespace Rose
open List

variable {α β γ : Type*}

mutual

def labels : Rose α → List α
  | .node a ts => a :: labelsAll ts

def labelsAll : List (Rose α) → List α
  | [] => []
  | t :: ts => t.labels ++ labelsAll ts

end

mutual

def outermost (p : α → Bool) : Rose α → List (Rose α)
  | .node a ts => if p a then [.node a ts] else outermostAll p ts

def outermostAll (p : α → Bool) : List (Rose α) → List (Rose α)
  | [] => []
  | t :: ts => t.outermost p ++ outermostAll p ts

end

def root : Rose α → α
  | .node a _ => a

mutual

def Everywhere (R : α → List α → Prop) : Rose α → Prop
  | .node a ts => R a (ts.map root) ∧ EverywhereAll R ts

def EverywhereAll (R : α → List α → Prop) : List (Rose α) → Prop
  | [] => True
  | t :: ts => t.Everywhere R ∧ EverywhereAll R ts

end

/-- Grow a tree from `a` to a depth. -/
def grow (children : α → List α) (label : α → β) : ℕ → α → Rose β
  | 0, a => .node (label a) []
  | depth + 1, a => .node (label a) ((children a).map (grow children label depth))

theorem labelsAll_eq (ts : List (Rose α)) : labelsAll ts = ts.flatMap labels := by
  induction ts with
  | nil => rfl
  | cons t ts ih => rw [labelsAll, ih, flatMap_cons]

theorem outermostAll_eq (p : α → Bool) (ts : List (Rose α)) : outermostAll p ts = ts.flatMap (outermost p) := by
  induction ts with
  | nil => rfl
  | cons t ts ih => rw [outermostAll, ih, flatMap_cons]

theorem everywhereAll_iff {R : α → List α → Prop} {ts : List (Rose α)} : EverywhereAll R ts ↔ ∀ t ∈ ts, t.Everywhere R := by
  induction ts with
  | nil => simp [EverywhereAll]
  | cons t ts ih => rw [EverywhereAll, ih, forall_mem_cons]

@[simp] theorem labels_node (a : α) (ts : List (Rose α)) : (node a ts).labels = a :: ts.flatMap labels := by
  rw [labels, labelsAll_eq]

theorem outermost_node (p : α → Bool) (a : α) (ts : List (Rose α)) :
    (node a ts).outermost p = if p a then [node a ts] else ts.flatMap (outermost p) := by
  rw [outermost, outermostAll_eq]

mutual

theorem outermost_sublist (p : α → Bool) : ∀ t : Rose α, ((t.outermost p).flatMap labels).Sublist t.labels
  | .node a ts => by
    rw [outermost, labels]
    split
    · simp [labelsAll_eq]
    · exact (outermostAll_sublist p ts).cons a

theorem outermostAll_sublist (p : α → Bool) :
    ∀ ts : List (Rose α), ((outermostAll p ts).flatMap labels).Sublist (labelsAll ts)
  | [] => by simp [outermostAll]
  | t :: ts => by
    rw [outermostAll, labelsAll, flatMap_append]
    exact (outermost_sublist p t).append (outermostAll_sublist p ts)

end

section Grow

variable {children : α → List α} {f : α → β}

theorem labels_grow (depth : ℕ) (a : α) :
    (grow children f depth a).labels = ((grow children id depth a).labels).map f := by
  induction depth generalizing a with
  | zero => simp [grow]
  | succ depth ih => simp [grow, flatMap_map, map_flatMap, ih]

theorem root_grow (depth : ℕ) (a : α) : (grow children f depth a).root = f a := by
  cases depth <;> rfl

theorem outermost_grow (p : β → Bool) (depth : ℕ) (a : α) :
    ((grow children f depth a).outermost p).flatMap labels =
      (((grow children id depth a).outermost (p ∘ f)).flatMap labels).map f := by
  induction depth generalizing a with
  | zero => cases hp : p (f a) <;> simp [grow, outermost_node, hp]
  | succ depth ih =>
    cases hp : p (f a) with
    | true =>
      simp only [grow, outermost_node, hp, if_true, Function.comp_apply, id, flatMap_cons, flatMap_nil,
        append_nil, labels_node, flatMap_map, map_cons, map_flatMap]
      simp [labels_grow (f := f)]
    | false =>
      simp only [grow, outermost_node, hp, Bool.false_eq_true, if_false, Function.comp_apply, id, flatMap_map,
        flatMap_assoc, map_flatMap, ih]

end Grow

end Rose

section Rows

variable {Row Id Sym : Type*} {id : Row → Id} {parent : Row → Option Id} {key path : Row → List Sym} {sep : Sym}
  {rows : List Row}

theorem Keyed.perm {rows' : List Row} (h : Keyed id parent key path sep rows) (hperm : rows'.Perm rows) :
    Keyed id parent key path sep rows' where
  ids := (hperm.map id).nodup_iff.mpr h.ids
  plain r hr := h.plain r (hperm.mem_iff.mp hr)
  top r hr := h.top r (hperm.mem_iff.mp hr)
  below r hr p hp := by
    obtain ⟨q, hq, hqp, hpath⟩ := h.below r (hperm.mem_iff.mp hr) p hp
    exact ⟨q, hperm.mem_iff.mpr hq, hqp, hpath⟩
  siblings r hr s hs := h.siblings r (hperm.mem_iff.mp hr) s (hperm.mem_iff.mp hs)

theorem Keyed.child_unique (h : Keyed id parent key path sep rows) {a b c : Id} (ha : Child id parent rows a c)
    (hb : Child id parent rows b c) : a = b := by
  obtain ⟨r, hr, rfl, hp⟩ := ha
  obtain ⟨r', hr', hid, hp'⟩ := hb
  rw [h.unique hr' hr hid, hp, Option.some.injEq] at hp'
  exact hp'

/-- Below two siblings no row is the same. -/
theorem Keyed.same_branch (h : Keyed id parent key path sep rows) {c c' : Row} {s : Id} (hc : c ∈ rows) (hc' : c' ∈ rows)
    (hp : parent c = parent c') (hreach : Relation.ReflTransGen (Child id parent rows) (id c) s)
    (hreach' : Relation.ReflTransGen (Child id parent rows) (id c') s) : c = c' := by
  have habove : ∀ {a b : Row}, a ∈ rows → b ∈ rows → parent a = parent b →
      Relation.ReflTransGen (Child id parent rows) (id a) (id b) → a = b := by
    intro a b ha hb hab hreach
    rcases Relation.ReflTransGen.cases_tail hreach with heq | ⟨q, hq, hchild⟩
    · exact (h.unique hb ha heq).symm
    · obtain ⟨b', hb', hid, hbp⟩ := hchild
      rw [h.unique hb' hb hid, ← hab] at hbp
      exact absurd (Relation.TransGen.tail' hq ⟨a, ha, rfl, hbp⟩) (h.acyclic ha)
  have hunique : Relator.RightUnique (Function.swap (Child id parent rows)) := fun _ _ _ ha hb => h.child_unique ha hb
  rcases Relation.ReflTransGen.total_of_right_unique hunique (Relation.reflTransGen_swap.mpr hreach)
    (Relation.reflTransGen_swap.mpr hreach') with hab | hba
  · exact (habove hc' hc hp.symm (Relation.reflTransGen_swap.mp hab)).symm
  · exact habove hc hc' hp (Relation.reflTransGen_swap.mp hba)

section Depth

variable [DecidableEq Sym]

theorem Keyed.depth_child (h : Keyed id parent key path sep rows) {r c : Row} (hr : r ∈ rows) (hc : c ∈ rows)
    (hp : parent c = some (id r)) : (path c).count sep = (path r).count sep + 1 := by
  obtain ⟨q, hq, hqr, hpath⟩ := h.below c hc _ hp
  rw [hpath, h.unique hq hr hqr, count_append, count_cons_self, count_eq_zero_of_not_mem (h.plain c hc)]

theorem Keyed.depth_lt (h : Keyed id parent key path sep rows) : ∀ r ∈ rows, (path r).count sep < rows.length := by
  -- the rows of the chain above, each with a path no longer than the one of the row
  have hchain : ∀ r ∈ rows, ∃ chain : List Row, chain.Nodup ∧ (∀ c ∈ chain, c ∈ rows ∧ (path c).length ≤ (path r).length) ∧
      chain.length = (path r).count sep + 1 := by
    refine h.induction ?_ ?_
    · intro r hr hp
      refine ⟨[r], nodup_singleton r, ?_, ?_⟩
      · intro c hc
        rw [mem_singleton.mp hc]
        exact ⟨hr, le_rfl⟩
      · rw [h.top r hr hp, count_eq_zero_of_not_mem (h.plain r hr), length_singleton]
    · rintro r hr q hq hp hpath ⟨chain, hnodup, hmem, hlen⟩
      have hlonger : (path q).length < (path r).length := by
        rw [hpath, length_append, length_cons]
        omega
      refine ⟨r :: chain, nodup_cons.mpr ⟨?_, hnodup⟩, ?_, ?_⟩
      · intro hr'
        exact absurd (hmem r hr').2 (not_le.mpr hlonger)
      · intro c hc
        rcases mem_cons.mp hc with rfl | hc
        · exact ⟨hr, le_rfl⟩
        · exact ⟨(hmem c hc).1, (hmem c hc).2.trans hlonger.le⟩
      · rw [length_cons, hlen, h.depth_child hq hr hp]
  intro r hr
  obtain ⟨chain, hnodup, hmem, hlen⟩ := hchain r hr
  have hle := (subperm_of_subset hnodup fun c hc => (hmem c hc).1).length_le
  omega

theorem Keyed.downward (h : Keyed id parent key path sep rows) {P : Row → Prop}
    (hstep : ∀ r ∈ rows, (∀ c ∈ rows, parent c = some (id r) → P c) → P r) : ∀ r ∈ rows, P r := by
  intro r hr
  generalize hn : rows.length - (path r).count sep = n
  induction n using Nat.strong_induction_on generalizing r with
  | _ n ih =>
    refine hstep r hr fun c hc hp => ih _ ?_ c hc rfl
    have hdepth := h.depth_child hr hc hp
    have hlt := h.depth_lt r hr
    omega

section Tree

variable {β : Type*} [DecidableEq Id] {label : Row → β}

def offspring (id : Row → Id) (parent : Row → Option Id) (rows : List Row) (r : Row) : List Row :=
  rows.filter fun c => parent c = some (id r)

def treeAt (id : Row → Id) (parent : Row → Option Id) (rows : List Row) (label : Row → β) (r : Row) : Rose β :=
  Rose.grow (offspring id parent rows) label rows.length r

theorem mem_offspring {r c : Row} : c ∈ offspring id parent rows r ↔ c ∈ rows ∧ parent c = some (id r) := by
  simp [offspring]

theorem Keyed.grow_succ (h : Keyed id parent key path sep rows) (k : ℕ) : ∀ r ∈ rows,
    rows.length ≤ k + (path r).count sep + 1 →
      Rose.grow (offspring id parent rows) label (k + 1) r = Rose.grow (offspring id parent rows) label k r := by
  induction k with
  | zero =>
    intro r hr hle
    have hnone : offspring id parent rows r = [] := by
      rw [eq_nil_iff_forall_not_mem]
      intro c hc
      obtain ⟨hc, hp⟩ := mem_offspring.mp hc
      have hdepth := h.depth_child hr hc hp
      have hlt := h.depth_lt c hc
      omega
    rw [Rose.grow, Rose.grow, hnone, map_nil]
  | succ k ih =>
    intro r hr hle
    have hchildren : (offspring id parent rows r).map (Rose.grow (offspring id parent rows) label (k + 1)) =
        (offspring id parent rows r).map (Rose.grow (offspring id parent rows) label k) := by
      refine map_congr_left fun c hc => ?_
      obtain ⟨hc, hp⟩ := mem_offspring.mp hc
      have hdepth := h.depth_child hr hc hp
      exact ih c hc (by omega)
    rw [Rose.grow, hchildren]
    rfl

theorem Keyed.treeAt_eq (h : Keyed id parent key path sep rows) {r : Row} (hr : r ∈ rows) :
    treeAt id parent rows label r = .node (label r) ((offspring id parent rows r).map (treeAt id parent rows label)) := by
  rw [treeAt, ← h.grow_succ rows.length r hr (by omega), Rose.grow]
  rfl

theorem labels_treeAt (r : Row) :
    (treeAt id parent rows label r).labels = ((treeAt id parent rows (fun r => r) r).labels).map label :=
  Rose.labels_grow rows.length r

theorem Keyed.mem_treeAt (h : Keyed id parent key path sep rows) {s : Row} : ∀ r ∈ rows,
    (s ∈ (treeAt id parent rows (fun r => r) r).labels ↔
      s ∈ rows ∧ Relation.ReflTransGen (Child id parent rows) (id r) (id s)) := by
  refine h.downward fun r hr ih => ?_
  rw [h.treeAt_eq hr, Rose.labels_node, mem_cons, flatMap_map, mem_flatMap]
  constructor
  · rintro (rfl | ⟨c, hc, hs⟩)
    · exact ⟨hr, .refl⟩
    · obtain ⟨hc, hp⟩ := mem_offspring.mp hc
      obtain ⟨hs, hreach⟩ := (ih c hc hp).mp hs
      exact ⟨hs, hreach.head ⟨c, hc, rfl, hp⟩⟩
  · rintro ⟨hs, hreach⟩
    rcases Relation.ReflTransGen.cases_head hreach with heq | ⟨_, ⟨c, hc, rfl, hp⟩, hreach⟩
    · exact .inl (h.unique hs hr heq.symm)
    · exact .inr ⟨c, mem_offspring.mpr ⟨hc, hp⟩, (ih c hc hp).mpr ⟨hs, hreach⟩⟩

theorem Keyed.everywhere_treeAt (h : Keyed id parent key path sep rows) {R : β → List β → Prop}
    (hR : ∀ r ∈ rows, R (label r) ((offspring id parent rows r).map label)) :
    ∀ r ∈ rows, (treeAt id parent rows label r).Everywhere R := by
  refine h.downward fun r hr ih => ?_
  have hroots : ((offspring id parent rows r).map (treeAt id parent rows label)).map Rose.root =
      (offspring id parent rows r).map label := by
    rw [map_map]
    exact map_congr_left fun c _ => Rose.root_grow rows.length c
  rw [h.treeAt_eq hr, Rose.Everywhere, hroots, Rose.everywhereAll_iff]
  refine ⟨hR r hr, fun t ht => ?_⟩
  obtain ⟨c, hc, rfl⟩ := mem_map.mp ht
  obtain ⟨hc, hp⟩ := mem_offspring.mp hc
  exact ih c hc hp

omit [DecidableEq Sym] in
theorem Keyed.share_split (h : Keyed id parent key path sep rows) {M : Type*} [AddCommMonoid M] {covers : Row → Row → Bool}
    (hcovers : ∀ r ∈ rows, ∀ b ∈ rows, covers r b = true ↔ Relation.ReflTransGen (Child id parent rows) (id r) (id b))
    {r b : Row} (hr : r ∈ rows) (hb : b ∈ rows) (a : M) :
    (if covers r b then a else 0) =
      (if id b = id r then a else 0) + ((offspring id parent rows r).map fun c => if covers c b then a else 0).sum := by
  classical
  have hbelow : ∀ c ∈ offspring id parent rows r, covers c b = true →
      Relation.TransGen (Child id parent rows) (id r) (id b) := by
    intro c hc hcover
    obtain ⟨hc, hp⟩ := mem_offspring.mp hc
    exact .head' ⟨c, hc, rfl, hp⟩ ((hcovers c hc b hb).mp hcover)
  by_cases hself : id b = id r
  · have hnone : ((offspring id parent rows r).map fun c => if covers c b then a else 0).sum = 0 := by
      refine sum_eq_zero fun x hx => ?_
      obtain ⟨c, hc, rfl⟩ := mem_map.mp hx
      refine if_neg fun hcover => h.acyclic hr ?_
      have habove := hbelow c hc hcover
      rwa [hself] at habove
    rw [if_pos hself, hnone, add_zero, if_pos]
    rw [hcovers r hr b hb, hself]
  · rw [if_neg hself, zero_add]
    by_cases hcover : covers r b = true
    · rcases Relation.ReflTransGen.cases_head ((hcovers r hr b hb).mp hcover) with heq | ⟨_, ⟨c, hc, rfl, hp⟩, hreach⟩
      · exact absurd heq.symm hself
      · have hmem : c ∈ offspring id parent rows r := mem_offspring.mpr ⟨hc, hp⟩
        have hnodup : (offspring id parent rows r).Nodup := (List.Nodup.of_map id h.ids).filter _
        have hother : ∀ c', c' ≠ c → c' ∈ offspring id parent rows r → (if covers c' b then a else 0) = 0 := by
          intro c' hne hc'
          obtain ⟨hc', hp'⟩ := mem_offspring.mp hc'
          exact if_neg fun hcover' => hne (h.same_branch hc' hc (hp'.trans hp.symm) ((hcovers c' hc' b hb).mp hcover') hreach)
        rw [sum_map_eq_nsmul_single c _ hother, count_eq_one_of_mem hnodup hmem, one_nsmul, if_pos hcover,
          if_pos ((hcovers c hc b hb).mpr hreach)]
    · rw [if_neg hcover]
      refine (sum_eq_zero fun x hx => ?_).symm
      obtain ⟨c, hc, rfl⟩ := mem_map.mp hx
      exact if_neg fun hbranch => hcover ((hcovers r hr b hb).mpr (hbelow c hc hbranch).to_reflTransGen)

theorem Keyed.branches_nodup (h : Keyed id parent key path sep rows) {branches : List Row} {p : Option Id}
    (hnodup : branches.Nodup) (hmem : ∀ c ∈ branches, c ∈ rows ∧ parent c = p)
    (heach : ∀ c ∈ branches, (treeAt id parent rows (fun r => r) c).labels.Nodup) :
    (branches.flatMap fun c => (treeAt id parent rows (fun r => r) c).labels).Nodup := by
  refine nodup_flatMap.mpr ⟨heach, hnodup.imp_of_mem fun {c c'} hc hc' hne => ?_⟩
  intro s hs hs'
  obtain ⟨hc, hp⟩ := hmem c hc
  obtain ⟨hc', hp'⟩ := hmem c' hc'
  have hreach := ((h.mem_treeAt c hc).mp hs).2
  exact hne (h.same_branch hc hc' (hp.trans hp'.symm) hreach ((h.mem_treeAt c' hc').mp hs').2)

theorem Keyed.treeAt_nodup (h : Keyed id parent key path sep rows) : ∀ r ∈ rows,
    (treeAt id parent rows (fun r => r) r).labels.Nodup := by
  refine h.downward fun r hr ih => ?_
  rw [h.treeAt_eq hr, Rose.labels_node, flatMap_map, nodup_cons]
  constructor
  · intro hself
    obtain ⟨c, hc, hself⟩ := mem_flatMap.mp hself
    obtain ⟨hc, hp⟩ := mem_offspring.mp hc
    exact h.acyclic hr (.head' ⟨c, hc, rfl, hp⟩ ((h.mem_treeAt c hc).mp hself).2)
  · refine h.branches_nodup ((List.Nodup.of_map id h.ids).filter _) (fun c hc => mem_offspring.mp hc) fun c hc => ?_
    obtain ⟨hc, hp⟩ := mem_offspring.mp hc
    exact ih c hc hp

theorem Keyed.mem_outermost (h : Keyed id parent key path sep rows) {p : Row → Bool} {s : Row} : ∀ r ∈ rows,
    (s ∈ ((treeAt id parent rows (fun r => r) r).outermost p).flatMap Rose.labels ↔
      s ∈ rows ∧ ∃ c ∈ rows, p c = true ∧ Relation.ReflTransGen (Child id parent rows) (id r) (id c) ∧
        Relation.ReflTransGen (Child id parent rows) (id c) (id s)) := by
  refine h.downward fun r hr ih => ?_
  cases hpr : p r with
  | true =>
    have hwhole := h.mem_treeAt (s := s) r hr
    rw [h.treeAt_eq hr] at hwhole ⊢
    rw [Rose.outermost_node, hpr, if_pos rfl, flatMap_cons, flatMap_nil, append_nil, hwhole]
    constructor
    · rintro ⟨hs, hreach⟩
      exact ⟨hs, r, hr, hpr, .refl, hreach⟩
    · rintro ⟨hs, c, _, _, hrc, hcs⟩
      exact ⟨hs, hrc.trans hcs⟩
  | false =>
    rw [h.treeAt_eq hr, Rose.outermost_node, hpr, if_neg Bool.false_ne_true, flatMap_map, flatMap_assoc,
      mem_flatMap]
    constructor
    · rintro ⟨c, hc, hs⟩
      obtain ⟨hc, hp⟩ := mem_offspring.mp hc
      obtain ⟨hs, m, hm, hpm, hcm, hms⟩ := (ih c hc hp).mp hs
      exact ⟨hs, m, hm, hpm, hcm.head ⟨c, hc, rfl, hp⟩, hms⟩
    · rintro ⟨hs, m, hm, hpm, hrm, hms⟩
      rcases Relation.ReflTransGen.cases_head hrm with heq | ⟨_, ⟨c, hc, rfl, hp⟩, hcm⟩
      · rw [h.unique hr hm heq, hpm] at hpr
        cases hpr
      · exact ⟨c, mem_offspring.mpr ⟨hc, hp⟩, (ih c hc hp).mpr ⟨hs, m, hm, hpm, hcm, hms⟩⟩

end Tree

end Depth

end Rows

end PathTree
