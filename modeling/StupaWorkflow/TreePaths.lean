import StupaWorkflow.PathTree
import StupaWorkflow.TreeSteps

/-!
The path keys of the budget tree.
-/
namespace BudgetTree
open Py hiding Date
open List
open Budget (Uuid Problem Patch)
open Allocation (isValidKey composePathKey)

/-- The cost centres are a tree with its paths, and their ids are given out. -/
structure Treed (d : Db) : Prop where
  keyed : PathTree.Keyed Node.id Node.parentId Node.key Node.pathKey 45 d.nodes
  below : ∀ n ∈ d.nodes, n.id < d.next

section Operations

variable {env : Env} {d d' : Db} {k : Uuid}

theorem isValidKey_plain {key : Text} (h : isValidKey key = true) : 45 ∉ key := by
  intro hmem
  simp only [isValidKey, Bool.and_eq_true, all_eq_true] at h
  have hbody := h.2
  split at hbody
  next hlast =>
    have hnl : key = key.dropLast ++ [10] := by
      obtain ⟨body, hbody'⟩ := getLast?_eq_some_iff.mp hlast
      simp [hbody']
    rw [hnl] at hmem
    rcases mem_append.mp hmem with hmem | hmem
    · exact absurd (hbody 45 hmem) (by decide)
    · simp at hmem
  next => exact absurd (hbody 45 hmem) (by decide)

theorem Treed.createNode {payload : BudgetNodeCreate} (h : Treed d) (hop : createNode env payload d = .ok d') :
    Treed d' := by
  obtain ⟨parent, node, hparent, hadmitted, hsib, hid, hp, hpath, rfl⟩ := createNode_ok hop
  rw [← hp] at hparent
  refine ⟨h.keyed.insert ?_ (isValidKey_plain hadmitted.valid) ?_ ?_ hsib, ?_⟩
  · intro n hn
    exact hid ▸ (h.below n hn).ne
  · intro htop
    rcases getParent_ok hparent with ⟨_, rfl⟩ | ⟨q, _, hq, _⟩
    · exact hpath
    · rw [htop] at hq
      cases hq
  · intro p hp'
    rcases getParent_ok hparent with ⟨hnone, _⟩ | ⟨q, hmem, hq, rfl⟩
    · rw [hp'] at hnone
      cases hnone
    · rw [hp', Option.some.injEq] at hq
      exact ⟨q, hmem, hq.symm, hpath⟩
  · intro n hn
    rcases mem_append.mp hn with hn | hn
    · exact (h.below n hn).trans (Nat.lt_succ_self _)
    · rw [mem_singleton.mp hn, hid]
      exact Nat.lt_succ_self _

theorem Treed.modify (h : Treed d) {n changed : Node} (hn : n ∈ d.nodes) (hid : changed.id = n.id)
    (hparent : changed.parentId = n.parentId) (hkey : changed.key = n.key) (hpath : changed.pathKey = n.pathKey) :
    Treed { d with nodes := Table.modify Node.id n.id (fun _ => changed) d.nodes } := by
  have hsame : ∀ m ∈ d.nodes, ∀ {α : Type} (column : Node → α), column changed = column n →
      column (if m.id = n.id then changed else m) = column m := by
    intro m hm α column hcol
    split
    next hmn => rw [hcol, h.keyed.unique hm hn hmn]
    next => rfl
  refine ⟨h.keyed.map (fun m hm => hsame m hm Node.id hid) (fun m hm => hsame m hm Node.parentId hparent)
    (fun m hm => hsame m hm Node.key hkey) (fun m hm => hsame m hm Node.pathKey hpath), ?_⟩
  refine forall_mem_map.mpr fun m hm => ?_
  rw [hsame m hm Node.id hid]
  exact h.below m hm

theorem renamed_other {node n : Node} {newKey newPath : Text} (hne : n.id ≠ node.id) :
    (node.renamed newKey newPath n).key = n.key ∧
      (node.renamed newKey newPath n).pathKey = PathTree.renamed 45 node.pathKey newPath n.pathKey := by
  unfold Node.renamed PathTree.renamed isDescendantPath
  rw [if_neg hne]
  split <;> exact ⟨rfl, rfl⟩

theorem Treed.renameKey {node : Node} {newKey : Text} (h : Treed d) (hnode : node ∈ d.nodes)
    (hop : renameKey node newKey d = .ok d') : Treed d' := by
  obtain ⟨_, hkey, hop⟩ := bind_ok.mp hop
  obtain ⟨_, hsib, hop⟩ := bind_ok.mp hop
  obtain ⟨parent, hparent, hop⟩ := bind_ok.mp hop
  obtain rfl := pure_ok.mp hop
  refine ⟨h.keyed.rename hnode (isValidKey_plain (raiseUnless_ok.mp hkey)) ?_ ?_ (siblingExists_false (raiseUnless_ok.mp hsib))
    (fun n _ => (renamed_same node newKey _ n).1) (fun n _ => (renamed_same node newKey _ n).2.1) ?_
    (fun n _ hne => renamed_other hne), ?_⟩
  · intro htop
    rcases getParent_ok hparent with ⟨_, rfl⟩ | ⟨q, _, hq, _⟩
    · rfl
    · rw [htop] at hq
      cases hq
  · intro q hq hp
    rcases getParent_ok hparent with ⟨hnone, _⟩ | ⟨q', hq', hp', rfl⟩
    · rw [hp] at hnone
      cases hnone
    · rw [hp, Option.some.injEq] at hp'
      rw [h.keyed.unique hq hq' hp']
      rfl
  · rw [Node.renamed, if_pos rfl]
    exact ⟨rfl, rfl⟩
  · refine forall_mem_map.mpr fun n hn => ?_
    rw [(renamed_same node newKey _ n).1]
    exact h.below n hn

theorem Treed.updateNode {payload : BudgetNodeUpdate} (h : Treed d) (hop : updateNode env k payload d = .ok d') :
    Treed d' := by
  obtain ⟨node, changed, d₁, after, hnode, rfl, hcheck, hpatched, hrename, _, rfl⟩ := updateNode_ok hop
  have hp := patched_ok hcheck hpatched
  have hmodified := h.modify hnode hp.id hp.parentId hp.key hp.pathKey
  have hmem : changed ∈ Table.modify Node.id node.id (fun _ => changed) d.nodes :=
    mem_map.mpr ⟨node, hnode, if_pos rfl⟩
  have h₁ : Treed d₁ := by
    unfold renameIf at hrename
    split at hrename
    · exact hmodified.renameKey hmem hrename
    · cases hrename
      exact hmodified
  obtain ⟨f, rfl, _⟩ := renameIf_ok hrename
  exact ⟨h₁.keyed, h₁.below⟩

theorem Treed.deleteNode (h : Treed d) (hop : deleteNode k d = .ok d') : Treed d' := by
  obtain ⟨hchild, _, _, _, rfl⟩ := deleteNode_ok hop
  refine ⟨h.keyed.filter ?_, fun n hn => h.below n (mem_of_mem_filter hn)⟩
  intro n hn _ q _ hq
  exact decide_eq_true fun hqk => hchild n hn (hqk ▸ hq)

theorem Treed.same (h : Treed d) (hnodes : d'.nodes = d.nodes) (hnext : d.next ≤ d'.next) : Treed d' :=
  ⟨hnodes ▸ h.keyed, fun n hn => (h.below n (hnodes ▸ hn)).trans_le hnext⟩

def BooksStep (env : Env) (d d' : Db) : Prop :=
  d'.books = d.books ∨ (∃ r : Budget.Request, r.handle (d.booksEnv env) d.books = .ok d'.books) ∨
    ∃ k, d'.books = unbound d.books k

/-- Three operations write nodes; every other request leaves them and takes no id back. -/
theorem nodes_cases {r : Request} (hop : r.handle env d = .ok d') :
    (d'.nodes = d.nodes ∧ d.next ≤ d'.next ∧ BooksStep env d d') ∨ (∃ payload, createNode env payload d = .ok d') ∨
      (∃ k payload, updateNode env k payload d = .ok d') ∨ ∃ k, deleteNode k d = .ok d' := by
  cases r with
  | createNode payload => exact .inr (.inl ⟨payload, hop⟩)
  | updateNode k payload => exact .inr (.inr (.inl ⟨k, payload, hop⟩))
  | deleteNode k => exact .inr (.inr (.inr ⟨k, hop⟩))
  | revertNode n =>
    rcases revertAudit_ok hop with ⟨k, _, hop⟩ | ⟨k, before, _, _, hop⟩
    · exact .inr (.inr (.inr ⟨k, hop⟩))
    · exact .inr (.inr (.inl ⟨k, before, hop⟩))
  | createFiscalYear k payload =>
    obtain ⟨_, _, _, _, _, _, _, _, _, _, _, rfl⟩ := createFiscalYear_ok hop
    exact .inl ⟨rfl, Nat.le_succ _, .inl rfl⟩
  | updateFiscalYear k y payload =>
    obtain ⟨_, _, _, _, _, _, _, _, _, _, _, rfl⟩ := updateFiscalYear_ok hop
    exact .inl ⟨rfl, le_rfl, .inl rfl⟩
  | deleteFiscalYear k y =>
    obtain ⟨_, _, _, _, _, _, rfl⟩ := deleteFiscalYear_ok hop
    exact .inl ⟨rfl, le_rfl, .inl rfl⟩
  | setFiscalYearClosed k y closed now =>
    obtain ⟨_, _, _, rfl⟩ := setFiscalYearClosed_ok hop
    exact .inl ⟨rfl, le_rfl, .inl rfl⟩
  | setAllocation k y payload =>
    obtain ⟨_, _, rfl⟩ := allocate_ok hop
    exact .inl ⟨rfl, le_rfl, .inl rfl⟩
  | revertAllocation n =>
    obtain ⟨_, _, rfl⟩ := allocate_ok hop
    exact .inl ⟨rfl, le_rfl, .inl rfl⟩
  | book r =>
    obtain ⟨_, hbooks, rfl⟩ := book_ok hop
    exact .inl ⟨rfl, le_rfl, .inr (.inl ⟨r, hbooks⟩)⟩
  | assignBudget k payload =>
    obtain ⟨_, _, _, _, rfl | ⟨_, _, _, rfl⟩⟩ := assignBudget_ok hop
    · exact .inl ⟨rfl, le_rfl, .inl rfl⟩
    · exact .inl ⟨rfl, le_rfl, .inl rfl⟩
  | moveFiscalYear k y =>
    obtain ⟨_, _, _, _, _, _, _, rfl⟩ := moveFiscalYear_ok hop
    exact .inl ⟨rfl, le_rfl, .inl rfl⟩
  | flowAssign k b fromField =>
    cases hop
    rcases flowAssign_cases env k b fromField d with heq | ⟨_, _, _, _, _, _, heq⟩
    · exact .inl ⟨by rw [heq], by rw [heq], .inl (by rw [heq])⟩
    · exact .inl ⟨by rw [heq]; rfl, by rw [heq]; exact le_rfl, .inl (by rw [heq]; rfl)⟩
  | createApplication =>
    cases hop
    exact .inl ⟨rfl, Nat.le_succ _, .inl rfl⟩
  | deleteApplication k =>
    obtain rfl := deleteApplication_ok hop
    exact .inl ⟨rfl, le_rfl, .inr (.inr ⟨k, rfl⟩)⟩

theorem Treed.handle {r : Request} (h : Treed d) (hop : r.handle env d = .ok d') : Treed d' := by
  rcases nodes_cases hop with ⟨hnodes, hnext, _⟩ | ⟨_, hop⟩ | ⟨_, _, hop⟩ | ⟨_, hop⟩
  · exact h.same hnodes hnext
  · exact h.createNode hop
  · exact h.updateNode hop
  · exact h.deleteNode hop

end Operations

theorem emptyDb_treed : Treed emptyDb where
  keyed :=
    { ids := nodup_nil
      plain := by simp [emptyDb]
      top := by simp [emptyDb]
      below := by simp [emptyDb]
      siblings := by simp [emptyDb] }
  below := by simp [emptyDb]

theorem run_treed {rs : List (Env × Request)} {d : Db} (hrun : Runs.run step emptyDb rs = some d) : Treed d :=
  Runs.run_keeps (fun h hop => h.handle (toOption_some.mp hop)) emptyDb_treed hrun

/-- After every sequence of requests the path key of a node is the one that the keys
along its chain of parents compose, no two nodes share one, and the prefix test says
which node is a strict ancestor of which. -/
theorem run_pathKeys {rs : List (Env × Request)} {d : Db} (hrun : Runs.run step emptyDb rs = some d) :
    (∀ n ∈ d.nodes, ∀ p, PathTree.Composed Node.id Node.parentId Node.key 45 d.nodes n p ↔ p = n.pathKey) ∧
      (d.nodes.map Node.pathKey).Nodup ∧
      ∀ a ∈ d.nodes, ∀ b ∈ d.nodes, isDescendantPath a.pathKey b.pathKey = true ↔
        Relation.TransGen (PathTree.Child Node.id Node.parentId d.nodes) a.id b.id := by
  have h := (run_treed hrun).keyed
  refine ⟨fun n hn p => h.composed_iff hn, ?_, fun a ha b hb => ?_⟩
  · exact List.Nodup.map_on h.path_inj (List.Nodup.of_map Node.id h.ids)
  · rw [← h.prefix_iff ha b hb, isDescendantPath, isPrefixOf_iff_prefix]

/-- A desk on day 738000, where nothing is locked. -/
def desk : Env where
  gremium _ := true
  invoices := []
  today := 738000
  sameNumber a b := a = b
  locked _ := false

def centre (key : String) (parentId : Option Uuid := none) : Request :=
  .createNode { key := text key, name := text "centre", parentId := parentId }

def renames : List (Env × Request) :=
  [centre "VS", centre "VS8", centre "80" (some 0), centre "04" (some 2), .updateNode 0 { key := some (some (text "AS")) },
    .updateNode 2 { key := some (some (text "800")) }, .revertNode 4].map fun r => (desk, r)

theorem renames_pathKeys : ∃ d, Runs.run step emptyDb renames = some d ∧
    d.nodes.map Node.pathKey = [text "VS", text "VS8", text "VS-800", text "VS-800-04"] ∧
    (d.nodes.map Node.pathKey).Nodup := by
  have hrun : (Runs.run step emptyDb renames).map (fun d => d.nodes.map Node.pathKey) =
      some [text "VS", text "VS8", text "VS-800", text "VS-800-04"] := by decide +kernel
  obtain ⟨d, hd, hpaths⟩ := Option.map_eq_some_iff.mp hrun
  exact ⟨d, hd, hpaths, (run_pathKeys hd).2.1⟩

end BudgetTree
