import StupaWorkflow.BudgetForest

/-!
Who sees which cost centre. A member of some Gremien sees a node when one of them views the node
or a node above it.
-/
namespace BudgetTree
open Py hiding Date
open List
open Budget (Uuid Problem)
open Allocation (isValidKey)
open PathTree (Rose Keyed Child treeAt)

section Reachable

variable {env : Env} {d d' : Db}

theorem createNode_valid {payload : BudgetNodeCreate} (h : ∀ n ∈ d.nodes, isValidKey n.key = true)
    (hop : createNode env payload d = .ok d') : ∀ n ∈ d'.nodes, isValidKey n.key = true := by
  obtain ⟨_, node, _, hkey, _, _, _, _, rfl⟩ := createNode_ok hop
  intro n hn
  rcases mem_append.mp hn with hn | hn
  · exact h n hn
  · rw [mem_singleton.mp hn]
    exact hkey.valid

theorem renameKey_valid {node : Node} {newKey : Text} (h : ∀ n ∈ d.nodes, isValidKey n.key = true)
    (hop : renameKey node newKey d = .ok d') : ∀ n ∈ d'.nodes, isValidKey n.key = true := by
  obtain ⟨_, hkey, hop⟩ := bind_ok.mp hop
  obtain ⟨_, _, hop⟩ := bind_ok.mp hop
  obtain ⟨parent, _, hop⟩ := bind_ok.mp hop
  obtain rfl := pure_ok.mp hop
  refine forall_mem_map.mpr fun n hn => ?_
  by_cases hid : n.id = node.id
  · rw [Node.renamed, if_pos hid]
    exact raiseUnless_ok.mp hkey
  · rw [(renamed_other hid).1]
    exact h n hn

theorem updateNode_valid {k : Uuid} {payload : BudgetNodeUpdate} (h : ∀ n ∈ d.nodes, isValidKey n.key = true)
    (hop : updateNode env k payload d = .ok d') : ∀ n ∈ d'.nodes, isValidKey n.key = true := by
  obtain ⟨node, changed, d₁, after, hnode, rfl, hcheck, hpatched, hrename, _, rfl⟩ := updateNode_ok hop
  have hmodified : ∀ n ∈ Table.modify Node.id node.id (fun _ => changed) d.nodes, isValidKey n.key = true := by
    refine forall_mem_map.mpr fun n hn => ?_
    split
    · rw [(patched_ok hcheck hpatched).key]
      exact h node hnode
    · exact h n hn
  suffices hrenamed : ∀ n ∈ d₁.nodes, isValidKey n.key = true from hrenamed
  unfold renameIf at hrename
  split at hrename
  · exact renameKey_valid hmodified hrename
  · cases hrename
    exact hmodified

theorem run_pathKeyed {rs : List (Env × Request)} (hrun : Runs.run step emptyDb rs = some d) : PathKeyed d.nodes := by
  refine ⟨(run_treed hrun).keyed, ?_⟩
  refine Runs.run_keeps (J := fun d => ∀ n ∈ d.nodes, isValidKey n.key = true) ?_ (by simp [emptyDb]) hrun
  intro d r d' h hop
  rcases nodes_cases (toOption_some.mp hop) with ⟨hnodes, _⟩ | ⟨_, hop⟩ | ⟨_, _, hop⟩ | ⟨_, hop⟩
  · exact hnodes ▸ h
  · exact createNode_valid h hop
  · exact updateNode_valid h hop
  · obtain ⟨_, _, _, _, rfl⟩ := deleteNode_ok hop
    exact fun n hn => h n (mem_of_mem_filter hn)

end Reachable

section Keys

variable {nodes : List Node} {G : List Uuid} {n c : Node} {k : Uuid}

def Node.viewedBy (G : List Uuid) (n : Node) : Bool := n.viewGremiumId.any G.contains

def Visible (nodes : List Node) (G : List Uuid) (n : Node) : Prop :=
  ∃ c ∈ nodes, c.viewedBy G = true ∧ Relation.ReflTransGen (Child Node.id Node.parentId nodes) c.id n.id

theorem viewedBy_iff : n.viewedBy G = true ↔ ∃ g ∈ G, n.viewGremiumId = some g := by
  cases hg : n.viewGremiumId <;> simp [Node.viewedBy, hg]

theorem not_visible_nil : ¬ Visible nodes [] n := by
  rintro ⟨c, _, hview, _⟩
  obtain ⟨g, hg, _⟩ := viewedBy_iff.mp hview
  cases hg

theorem isAlnum_literal {c : ℕ} (h : Allocation.isAlnum c = true) : Auth.Literal c :=
  Auth.isAlnum_literal h

theorem isValidKey_literal {key : Text} (h : isValidKey key = true) : ∀ c ∈ key, Auth.Literal c := by
  simp only [isValidKey, Bool.and_eq_true, all_eq_true] at h
  have hbody := h.2
  split at hbody
  next hlast =>
    intro c hc
    rw [← dropLast_append_getLast? 10 hlast, mem_append] at hc
    rcases hc with hc | hc
    · exact isAlnum_literal (hbody c hc)
    · rw [mem_singleton.mp hc]
      exact ⟨by decide, by decide, by decide⟩
  next => exact fun c hc => isAlnum_literal (hbody c hc)

/-- No path holds a character that `LIKE` reads as a pattern. -/
theorem PathKeyed.literal (h : PathKeyed nodes) : ∀ n ∈ nodes, ∀ c ∈ n.pathKey, Auth.Literal c := by
  refine h.keyed.induction ?_ ?_
  · intro n hn hp
    rw [h.keyed.top n hn hp]
    exact isValidKey_literal (h.valid n hn)
  · intro n hn q hq hp hpath ih c hc
    rw [hpath, mem_append, mem_cons] at hc
    rcases hc with hc | rfl | hc
    · exact ih c hc
    · exact ⟨by decide, by decide, by decide⟩
    · exact isValidKey_literal (h.valid n hn) c hc

theorem PathKeyed.mem_pathPrefixes_iff (h : PathKeyed nodes) (hc : c ∈ nodes) (hn : n ∈ nodes) :
    c.pathKey ∈ Auth.pathPrefixes n.pathKey ↔
      Relation.ReflTransGen (Child Node.id Node.parentId nodes) c.id n.id := by
  rw [Auth.mem_pathPrefixes]
  exact h.keyed.self_or_prefix_iff hc hn

theorem PathKeyed.like_iff (h : PathKeyed nodes) (hc : c ∈ nodes) (hn : n ∈ nodes) :
    (n.pathKey = c.pathKey || Auth.like (c.pathKey ++ [Auth.pathSep, 37]) n.pathKey) = true ↔
      Relation.ReflTransGen (Child Node.id Node.parentId nodes) c.id n.id := by
  have hliteral : ∀ x ∈ c.pathKey ++ [Auth.pathSep], Auth.Literal x := by
    intro x hx
    rcases mem_append.mp hx with hx | hx
    · exact h.literal c hc x hx
    · rw [mem_singleton.mp hx]
      exact ⟨by decide, by decide, by decide⟩
  have hlike := Auth.like_prefix hliteral n.pathKey
  rw [append_assoc, singleton_append] at hlike
  rw [Bool.or_eq_true, decide_eq_true_eq, hlike, eq_comm]
  exact h.keyed.self_or_prefix_iff hc hn

end Keys

section Forms

variable {d : Db} {G : List Uuid} {k : Uuid}

theorem getNode_of_mem {n : Node} (hids : (d.nodes.map Node.id).Nodup) (hn : n ∈ d.nodes) : d.getNode n.id = .ok n := by
  have hfind : d.nodes.find? (fun m => m.id = n.id) = some n := Table.find_of_mem hids hn rfl
  rw [Db.getNode, hfind]
  rfl

theorem canViewNode_iff (h : PathKeyed d.nodes) :
    d.canViewNode k G = .ok true ↔ ∃ n ∈ d.nodes, n.id = k ∧ Visible d.nodes G n := by
  cases hG : G.isEmpty with
  | true =>
    rw [List.isEmpty_iff] at hG
    subst hG
    exact iff_of_false (by rintro ⟨⟩) fun ⟨n, _, _, hvis⟩ => not_visible_nil hvis
  | false =>
    simp only [Db.canViewNode, hG, Bool.false_eq_true, if_false]
    constructor
    · intro hop
      obtain ⟨n, hget, hview⟩ := bind_ok.mp hop
      obtain ⟨g, hg, hgG⟩ := any_eq_true.mp (pure_ok.mp hview)
      obtain ⟨hn, rfl⟩ := getNode_ok hget
      obtain ⟨c, hc, hview⟩ := mem_filterMap.mp hg
      obtain ⟨hc, hpath⟩ := mem_filter.mp hc
      exact ⟨n, hn, rfl, c, hc, viewedBy_iff.mpr ⟨g, by simpa using hgG, hview⟩,
        (h.mem_pathPrefixes_iff hc hn).mp (by simpa using hpath)⟩
    · rintro ⟨n, hn, rfl, c, hc, hviewed, hreach⟩
      obtain ⟨g, hgG, hview⟩ := viewedBy_iff.mp hviewed
      refine bind_ok.mpr ⟨n, getNode_of_mem h.keyed.ids hn, pure_ok.mpr ?_⟩
      refine any_eq_true.mpr ⟨g, mem_filterMap.mpr ⟨c, mem_filter.mpr ⟨hc, ?_⟩, hview⟩, by simpa using hgG⟩
      simpa using (h.mem_pathPrefixes_iff hc hn).mpr hreach

theorem mem_visibleBudgetIds (h : PathKeyed d.nodes) :
    k ∈ d.visibleBudgetIds G ↔ ∃ n ∈ d.nodes, n.id = k ∧ Visible d.nodes G n := by
  cases hG : G.isEmpty with
  | true =>
    rw [List.isEmpty_iff] at hG
    subst hG
    exact iff_of_false (by simp [Db.visibleBudgetIds]) fun ⟨n, _, _, hvis⟩ => not_visible_nil hvis
  | false =>
    simp only [Db.visibleBudgetIds, hG, Bool.false_eq_true, if_false, mem_map, mem_filter, any_eq_true]
    constructor
    · rintro ⟨n, ⟨hn, _, ⟨c, ⟨hc, hviewed⟩, rfl⟩, hpath⟩, rfl⟩
      exact ⟨n, hn, rfl, c, hc, hviewed, (h.like_iff hc hn).mp hpath⟩
    · rintro ⟨n, hn, rfl, c, hc, hviewed, hreach⟩
      exact ⟨n, ⟨hn, _, ⟨c, ⟨hc, hviewed⟩, rfl⟩, (h.like_iff hc hn).mpr hreach⟩, rfl⟩

section Cut

variable {nodes : List Node} {f : Figures}

def roots (nodes : List Node) : List Node := nodes.filter fun n => n.parentId = none

def cutNodes (nodes : List Node) (G : List Uuid) : List Node :=
  (roots nodes).flatMap fun r =>
    ((treeAt Node.id Node.parentId nodes (fun n => n) r).outermost (Node.viewedBy G)).flatMap Rose.labels

theorem forestIds_scope (hG : G.isEmpty = false) :
    forestIds (scopeForest (buildForest nodes f) G) = (cutNodes nodes G).map Node.id := by
  have hroots : (roots nodes).filter (fun r => (none : Option Uuid) = none || r.gremiumId = none) = roots nodes := by
    simp
  rw [scopeForest, hG, if_neg Bool.false_ne_true, forestIds, buildForest]
  change ((((roots nodes).filter _).map _).flatMap _ |>.flatMap _).map _ = _
  rw [hroots, flatMap_map, flatMap_assoc, map_flatMap, cutNodes, map_flatMap]
  refine flatMap_congr fun r _ => ?_
  rw [treeAt, Rose.outermost_grow, map_map]
  rfl

theorem mem_cutNodes (h : PathKeyed nodes) {n : Node} : n ∈ cutNodes nodes G ↔ n ∈ nodes ∧ Visible nodes G n := by
  simp only [cutNodes, roots, mem_flatMap (l := List.filter _ _), mem_filter, decide_eq_true_eq]
  constructor
  · rintro ⟨r, ⟨hr, _⟩, hn⟩
    obtain ⟨hn, c, hc, hviewed, _, hreach⟩ := (h.keyed.mem_outermost r hr).mp hn
    exact ⟨hn, c, hc, hviewed, hreach⟩
  · rintro ⟨hn, c, hc, hviewed, hreach⟩
    obtain ⟨r, hr, htop, _, habove⟩ := h.keyed.root c hc
    exact ⟨r, ⟨hr, htop⟩, (h.keyed.mem_outermost r hr).mpr ⟨hn, c, hc, hviewed, habove, hreach⟩⟩

def forestNodes (nodes : List Node) : List Node :=
  (roots nodes).flatMap fun r => (treeAt Node.id Node.parentId nodes (fun n => n) r).labels

theorem forestNodes_nodup (h : Keyed Node.id Node.parentId Node.key Node.pathKey 45 nodes) : (forestNodes nodes).Nodup := by
  refine h.branches_nodup (p := none) ((List.Nodup.of_map Node.id h.ids).filter _) (fun r hr => ?_) fun r hr => ?_
  · simpa using mem_filter.mp hr
  · exact h.treeAt_nodup r (mem_filter.mp hr).1

theorem mem_forestNodes (h : Keyed Node.id Node.parentId Node.key Node.pathKey 45 nodes) {n : Node} :
    n ∈ forestNodes nodes ↔ n ∈ nodes := by
  simp only [forestNodes, roots, mem_flatMap, mem_filter, decide_eq_true_eq]
  constructor
  · rintro ⟨r, ⟨hr, _⟩, hn⟩
    exact ((h.mem_treeAt r hr).mp hn).1
  · intro hn
    obtain ⟨r, hr, htop, _, habove⟩ := h.root n hn
    exact ⟨r, ⟨hr, htop⟩, (h.mem_treeAt r hr).mpr ⟨hn, habove⟩⟩

theorem labels_buildForest :
    (buildForest nodes f).flatMap Rose.labels = (forestNodes nodes).map (nodeView nodes (f.tables nodes)) := by
  have hroots : (roots nodes).filter (fun r => (none : Option Uuid) = none || r.gremiumId = none) = roots nodes := by
    simp
  rw [buildForest]
  change ((((roots nodes).filter _).map _).flatMap _) = _
  rw [hroots, flatMap_map, forestNodes, map_flatMap]
  exact flatMap_congr fun r _ => PathTree.labels_treeAt r

theorem cutNodes_nodup (h : PathKeyed nodes) : (cutNodes nodes G).Nodup := by
  have hsub := Rose.outermostAll_sublist (Node.viewedBy G)
    ((roots nodes).map (treeAt Node.id Node.parentId nodes fun n => n))
  rw [Rose.outermostAll_eq, Rose.labelsAll_eq, flatMap_map, flatMap_map, flatMap_assoc] at hsub
  exact (forestNodes_nodup h.keyed).sublist hsub

theorem PathKeyed.perm {nodes' : List Node} (h : PathKeyed nodes) (hperm : nodes'.Perm nodes) : PathKeyed nodes' :=
  ⟨h.keyed.perm hperm, fun n hn => h.valid n (hperm.mem_iff.mp hn)⟩

theorem Visible.perm {nodes' : List Node} {n : Node} (hperm : nodes'.Perm nodes) (h : Visible nodes' G n) :
    Visible nodes G n := by
  obtain ⟨c, hc, hviewed, hreach⟩ := h
  refine ⟨c, hperm.mem_iff.mp hc, hviewed, PathTree.reach_mono ?_ hreach⟩
  exact fun r hr => ⟨r, hperm.mem_iff.mp hr, rfl, rfl⟩

theorem mem_forestIds_scope (h : PathKeyed nodes) :
    k ∈ forestIds (scopeForest (buildForest nodes f) G) ↔ ∃ n ∈ nodes, n.id = k ∧ Visible nodes G n := by
  cases hG : G.isEmpty with
  | true =>
    rw [List.isEmpty_iff] at hG
    subst hG
    exact iff_of_false (by simp [forestIds, scopeForest]) fun ⟨n, _, _, hvis⟩ => not_visible_nil hvis
  | false =>
    rw [forestIds_scope hG, mem_map]
    constructor
    · rintro ⟨n, hn, rfl⟩
      obtain ⟨hn, hvis⟩ := (mem_cutNodes h).mp hn
      exact ⟨n, hn, rfl, hvis⟩
    · rintro ⟨n, hn, rfl, hvis⟩
      exact ⟨n, (mem_cutNodes h).mpr ⟨hn, hvis⟩, rfl⟩

theorem forestIds_scope_nodup (h : PathKeyed nodes) : (forestIds (scopeForest (buildForest nodes f) G)).Nodup := by
  cases hG : G.isEmpty with
  | true => simp [forestIds, scopeForest, hG]
  | false =>
    rw [forestIds_scope hG]
    refine (cutNodes_nodup h).map_on fun n hn m hm hid => ?_
    exact h.keyed.unique ((mem_cutNodes h).mp hn).1 ((mem_cutNodes h).mp hm).1 hid

end Cut

/-- For every tree with its keys, in every order of its rows and for all Gremien: a node stands in
the cut of the forest iff the check of it passes, iff it is one of the visible ids; and no node
stands in the cut twice. -/
theorem visibility_agrees (h : PathKeyed d.nodes) {nodes : List Node} (hperm : nodes.Perm d.nodes) (f : Figures)
    (G : List Uuid) :
    (∀ k, (k ∈ forestIds (scopeForest (buildForest nodes f) G) ↔ d.canViewNode k G = .ok true) ∧
      (d.canViewNode k G = .ok true ↔ k ∈ d.visibleBudgetIds G)) ∧
      (forestIds (scopeForest (buildForest nodes f) G)).Nodup := by
  have hcut : ∀ k, k ∈ forestIds (scopeForest (buildForest nodes f) G) ↔ ∃ n ∈ d.nodes, n.id = k ∧ Visible d.nodes G n := by
    intro k
    rw [mem_forestIds_scope (h.perm hperm)]
    constructor
    · rintro ⟨n, hn, hid, hvis⟩
      exact ⟨n, hperm.mem_iff.mp hn, hid, hvis.perm hperm⟩
    · rintro ⟨n, hn, hid, hvis⟩
      exact ⟨n, hperm.mem_iff.mpr hn, hid, hvis.perm hperm.symm⟩
  refine ⟨fun k => ⟨?_, ?_⟩, forestIds_scope_nodup (h.perm hperm)⟩
  · rw [hcut, canViewNode_iff h]
  · rw [canViewNode_iff h, mem_visibleBudgetIds h]

end Forms

def viewed : List (Env × Request) :=
  [centre "VS", centre "800" (some 0), centre "04" (some 1), centre "AS",
    .updateNode 1 { viewGremiumId := some (some 7) }].map fun r => (desk, r)

theorem viewed_agrees : ∃ d, Runs.run step emptyDb viewed = some d ∧ d.visibleBudgetIds [7] = [1, 2] ∧
    ∀ k, k ∈ forestIds (scopeForest (buildForest d.nodes ⟨[], [], [], [], []⟩) [7]) ↔ k = 1 ∨ k = 2 := by
  have hrun : (Runs.run step emptyDb viewed).map (fun d => d.visibleBudgetIds [7]) = some [1, 2] := by decide +kernel
  obtain ⟨d, hd, hids⟩ := Option.map_eq_some_iff.mp hrun
  refine ⟨d, hd, hids, fun k => ?_⟩
  obtain ⟨hforest, hset⟩ := (visibility_agrees (run_pathKeyed hd) (.refl _) ⟨[], [], [], [], []⟩ [7]).1 k
  rw [hforest, hset, hids]
  simp

end BudgetTree
