import StupaWorkflow.BudgetFits
import StupaWorkflow.Ranking

/-!
The figures of the budget tree. A row counts at the cost centre of its path and at every one above
it, found by the prefix of the path; the result is the recursive sum over the tree.
-/
namespace BudgetTree
open Py hiding Date
open List
open Budget (Uuid)
open Allocation (asAmount)
open PathTree (Rose Keyed offspring treeAt)

section Recursion

variable {nodes : List Node} {rows : List LeafRow} {n b : Node} {y : Uuid}

def ownAmount (rows : List LeafRow) (path : Text) (year : Uuid) : ℚ :=
  ((rows.filter fun row => row.1 = year && row.2.1 = path).map fun row => asAmount row.2.2).sum

theorem covers_iff (h : Keyed Node.id Node.parentId Node.key Node.pathKey 45 nodes) : ∀ a ∈ nodes, ∀ b ∈ nodes,
    isSelfOrDescendantPath a.pathKey b.pathKey = true ↔
      Relation.ReflTransGen (PathTree.Child Node.id Node.parentId nodes) a.id b.id := by
  intro a ha b hb
  rw [isSelfOrDescendantPath, isDescendantPath, Bool.or_eq_true, decide_eq_true_eq, isPrefixOf_iff_prefix, eq_comm,
    h.self_or_prefix_iff ha hb]

theorem rolledUp_cons (row : LeafRow) (rows : List LeafRow) (path : Text) :
    rolledUp (row :: rows) path y =
      (if isSelfOrDescendantPath path row.2.1 then (if row.1 = y then asAmount row.2.2 else 0) else 0) +
        rolledUp rows path y := by
  rw [rolledUp, rolledUp, filter_cons]
  by_cases hyear : row.1 = y <;> cases isSelfOrDescendantPath path row.2.1 <;> simp [hyear]

theorem ownAmount_cons (row : LeafRow) (rows : List LeafRow) (path : Text) :
    ownAmount (row :: rows) path y =
      (if row.2.1 = path then (if row.1 = y then asAmount row.2.2 else 0) else 0) + ownAmount rows path y := by
  rw [ownAmount, ownAmount, filter_cons]
  by_cases hyear : row.1 = y <;> by_cases hpath : row.2.1 = path <;> simp [hyear, hpath]

theorem rolledUp_split (h : Keyed Node.id Node.parentId Node.key Node.pathKey 45 nodes)
    (hrows : ∀ row ∈ rows, ∃ b ∈ nodes, b.pathKey = row.2.1) (hn : n ∈ nodes) :
    rolledUp rows n.pathKey y = ownAmount rows n.pathKey y +
      ((offspring Node.id Node.parentId nodes n).map fun c => rolledUp rows c.pathKey y).sum := by
  induction rows with
  | nil => simp [rolledUp, ownAmount]
  | cons row rows ih =>
    obtain ⟨⟨b, hb, hpath⟩, hrest⟩ := forall_mem_cons.mp hrows
    have hsplit := h.share_split (covers_iff h) hn hb (if row.1 = y then asAmount row.2.2 else 0)
    have hown : b.id = n.id ↔ row.2.1 = n.pathKey := by
      rw [← hpath]
      exact ⟨fun hid => congrArg Node.pathKey (h.unique hb hn hid), fun heq => congrArg Node.id (h.path_inj b hb n hn heq)⟩
    simp only [hpath, hown] at hsplit
    simp only [rolledUp_cons, ownAmount_cons, sum_map_add]
    rw [ih hrest, hsplit]
    ring

end Recursion

section Forest

variable {nodes : List Node} {f : Figures} {n : Node} {y : Uuid}

def NodeView.figure (v : NodeView) (figure : AllocationView → ℚ) (year : Uuid) : ℚ :=
  (v.byFiscalYear.find? fun a => a.fiscalYearId = year).elim 0 figure

def Adds (figure : AllocationView → ℚ) (rows : List LeafRow) (v : NodeView) (children : List NodeView) : Prop :=
  ∀ year, v.figure figure year = ownAmount rows v.pathKey year + (children.map fun c => c.figure figure year).sum

structure Consistent (f : Figures) (v : NodeView) (children : List NodeView) : Prop where
  below : ∀ c ∈ children, c.parentId = some v.id
  years : (v.byFiscalYear.map AllocationView.fiscalYearId).Nodup
  bound : Adds AllocationView.bound f.boundRows v children
  requested : Adds AllocationView.requested f.requestedRows v children
  expended : Adds AllocationView.expended f.expendedRows v children
  income : Adds AllocationView.income f.incomeRows v children
  available : ∀ year, v.figure AllocationView.available year = v.figure AllocationView.allocated year -
    v.figure AllocationView.bound year - v.figure AllocationView.expended year + v.figure AllocationView.income year

/-- Each node stands in the forest once, a root at the top and every other node below its parent, and the figures of
each one are consistent. -/
structure RollsUp (nodes : List Node) (f : Figures) (forest : List (Rose NodeView)) : Prop where
  once : ((forest.flatMap Rose.labels).map fun v => (v.id, v.parentId, v.pathKey)).Perm
    (nodes.map fun n => (n.id, n.parentId, n.pathKey))
  roots : ∀ t ∈ forest, t.root.parentId = none
  consistent : ∀ t ∈ forest, t.Everywhere (Consistent f)

theorem figure_nodeView {tables : Tables} {figure : AllocationView → ℚ} (hempty : figure (emptyView y) = 0) :
    (nodeView nodes tables n).figure figure y = figure (tables.view n.id y) :=
  viewsForNode_figure tables n.id y hempty

theorem adds_rollup (h : Keyed Node.id Node.parentId Node.key Node.pathKey 45 nodes) {rows : List LeafRow} {tables : Tables}
    {figure : AllocationView → ℚ} (hempty : ∀ year, figure (emptyView year) = 0)
    (hfigure : ∀ k year, figure (tables.view k year) = (rollupByFy (nodes.map fun n => (n.id, n.pathKey)) rows).at k year)
    (hrows : ∀ row ∈ rows, ∃ b ∈ nodes, b.pathKey = row.2.1) (hn : n ∈ nodes) :
    Adds figure rows (nodeView nodes tables n) ((offspring Node.id Node.parentId nodes n).map (nodeView nodes tables)) := by
  have hrolled : ∀ {m year}, m ∈ nodes → (nodeView nodes tables m).figure figure year = rolledUp rows m.pathKey year := by
    intro m year hm
    rw [figure_nodeView (hempty year), hfigure, rollupByFy_at h.ids hm]
  intro year
  have hchildren : ((offspring Node.id Node.parentId nodes n).map (nodeView nodes tables)).map (fun c => c.figure figure year) =
      (offspring Node.id Node.parentId nodes n).map fun c => rolledUp rows c.pathKey year := by
    rw [map_map]
    exact map_congr_left fun c hc => hrolled (PathTree.mem_offspring.mp hc).1
  rw [hrolled hn, hchildren, rolledUp_split h hrows hn]
  rfl

theorem nodup_years (t : Tables) (k : Uuid) : ((t.viewsForNode k).map AllocationView.fiscalYearId).Nodup := by
  have hyears : (t.viewsForNode k).map AllocationView.fiscalYearId = (t.years k).insertionSort (· ≤ ·) := by
    rw [Tables.viewsForNode, map_map]
    exact map_id _
  rw [hyears]
  exact (perm_insertionSort _ _).nodup_iff.mpr (Ranking.nodup_eraseDups _)

theorem consistent_node (h : Keyed Node.id Node.parentId Node.key Node.pathKey 45 nodes)
    (hrows : ∀ row ∈ f.boundRows ++ f.requestedRows ++ f.expendedRows ++ f.incomeRows, ∃ b ∈ nodes, b.pathKey = row.2.1)
    (hn : n ∈ nodes) :
    Consistent f (nodeView nodes (f.tables nodes) n)
      ((offspring Node.id Node.parentId nodes n).map (nodeView nodes (f.tables nodes))) where
  below := by
    intro c hc
    obtain ⟨m, hm, rfl⟩ := mem_map.mp hc
    exact (PathTree.mem_offspring.mp hm).2
  years := nodup_years (f.tables nodes) n.id
  bound := adds_rollup h (fun _ => rfl) (fun _ _ => rfl) (fun row hrow => hrows row (by simp [hrow])) hn
  requested := adds_rollup h (fun _ => rfl) (fun _ _ => rfl) (fun row hrow => hrows row (by simp [hrow])) hn
  expended := adds_rollup h (fun _ => rfl) (fun _ _ => rfl) (fun row hrow => hrows row (by simp [hrow])) hn
  income := adds_rollup h (fun _ => rfl) (fun _ _ => rfl) (fun row hrow => hrows row (by simp [hrow])) hn
  available := by
    intro year
    rw [figure_nodeView rfl, figure_nodeView rfl, figure_nodeView rfl, figure_nodeView rfl, figure_nodeView rfl]
    rfl

/-- The forest over rows of its own nodes shows each node once, with figures that add up along the tree. -/
theorem buildForest_rollsUp (h : Keyed Node.id Node.parentId Node.key Node.pathKey 45 nodes)
    (hrows : ∀ row ∈ f.boundRows ++ f.requestedRows ++ f.expendedRows ++ f.incomeRows, ∃ b ∈ nodes, b.pathKey = row.2.1) :
    RollsUp nodes f (buildForest nodes f) where
  once := by
    have hperm : (forestNodes nodes).Perm nodes := by
      rw [perm_ext_iff_of_nodup (forestNodes_nodup h) (List.Nodup.of_map Node.id h.ids)]
      exact fun n => mem_forestNodes h
    rw [labels_buildForest, map_map]
    exact hperm.map fun n => (n.id, n.parentId, n.pathKey)
  roots := by
    intro t ht
    obtain ⟨r, hr, rfl⟩ := mem_map.mp ht
    have hroot : r.parentId = none := of_decide_eq_true (mem_filter.mp (mem_filter.mp hr).1).2
    rw [treeAt, Rose.root_grow]
    exact hroot
  consistent := by
    intro t ht
    obtain ⟨r, hr, rfl⟩ := mem_map.mp ht
    exact h.everywhere_treeAt (fun n hn => consistent_node h hrows hn) r (mem_of_mem_filter (mem_of_mem_filter hr))

/-- Two cost centres of which one has a path that starts with the path of the other, and one below the shorter. -/
def numberedCentres : List (Env × Request) :=
  [centre "VS", centre "1" (some 0), centre "10" (some 0), centre "4" (some 1)].map fun r => (desk, r)

def numberedFigures : Figures where
  allocations := [(0, 7, some 100)]
  boundRows := [(7, text "VS-1", some 10), (7, text "VS-1-4", some 5), (7, text "VS-10", some 3)]
  expendedRows := [(8, text "VS-10", some 2)]

theorem buildForest_rollsUp_numbered : ∃ d, Runs.run step emptyDb numberedCentres = some d ∧
    RollsUp d.nodes numberedFigures (buildForest d.nodes numberedFigures) := by
  have hrun : (Runs.run step emptyDb numberedCentres).map (fun d => d.nodes.map Node.pathKey) =
      some [text "VS", text "VS-1", text "VS-10", text "VS-1-4"] := by decide +kernel
  obtain ⟨d, hd, hpaths⟩ := Option.map_eq_some_iff.mp hrun
  refine ⟨d, hd, buildForest_rollsUp (run_treed hd).keyed fun row hrow => ?_⟩
  have hknown : row.2.1 ∈ d.nodes.map Node.pathKey := by
    rw [hpaths]
    revert row
    decide
  exact mem_map.mp hknown

end Forest

end BudgetTree
