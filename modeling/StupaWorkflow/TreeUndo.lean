import StupaWorkflow.BudgetUndo
import StupaWorkflow.TreeYears

/-!
The revert of an update in the budget tree.
-/
namespace BudgetTree
open Py hiding Date
open List
open Budget (Uuid Problem Patch AlikeTexts optionalField recorded_checked recorded_same recorded_matches)
open Allocation (isValidKey composePathKey)

structure Stored (d : Db) : Prop where
  founded : Founded d
  nodes : ∀ n ∈ d.nodes, n.Admitted
  books : Budget.Sound none d.books

section Rows

variable {env env' : Env} {d d' d₁ d₂ : Db} {k : Uuid} {payload : BudgetNodeUpdate}

theorem updateNode_rows (h : Treed d) (hop : updateNode env k payload d = .ok d₁) :
    ∃ node changed g, node ∈ d.nodes ∧ node.id = k ∧ payload.check = .ok () ∧ node.patched env payload = .ok changed ∧
      (∀ key ∈ payload.newKey node, isValidKey key = true) ∧
      g node = { changed with key := (payload.newKey node).getD node.key, pathKey := (g node).pathKey } ∧
      (∀ n ∈ d.nodes, n ≠ node → g n = { n with pathKey := (g n).pathKey }) ∧
      d₁ = { d with
        nodes := d.nodes.map g, years := redatedIf (node.restarts changed) changed d.years
        log := d.log ++ [.nodeUpdate k (payload.read node) (payload.read (g node))] } := by
  have h₁ := h.updateNode hop
  obtain ⟨node, changed, d', renamed, hnode, rfl, hcheck, hpatched, hrename, hfind, rfl⟩ := updateNode_ok hop
  obtain ⟨hvalid, f, rfl, hf⟩ := renameIf_rows hrename
  have hp := patched_ok hcheck hpatched
  have hself : f changed = { changed with key := (payload.newKey node).getD node.key, pathKey := (f changed).pathKey } := by
    have hrow := hf changed
    rwa [if_pos rfl, hp.key] at hrow
  have hnodes : (Table.modify Node.id node.id (fun _ => changed) d.nodes).map f =
      d.nodes.map fun n => if n.id = node.id then f changed else f n := by
    rw [Table.modify, map_map]
    exact map_congr_left fun n _ => apply_ite f _ _ _
  refine ⟨node, changed, fun n => if n.id = node.id then f changed else f n, hnode, rfl, hcheck, hpatched, hvalid,
    by simpa using hself, fun n hn hne => ?_, ?_⟩
  · have hid : n.id ≠ node.id := fun hid => hne (h.keyed.unique hn hnode hid)
    have hrow := hf n
    rw [if_neg (hp.id ▸ hid)] at hrow
    simpa [hid] using hrow
  · have hrenamed : renamed = f changed := by
      obtain ⟨hmem, hid⟩ := Table.of_find hfind
      refine h₁.keyed.unique hmem (mem_map_of_mem (mem_map.mpr ⟨node, hnode, if_pos rfl⟩)) (hid.trans ?_)
      rw [hself]
      exact hp.id.symm
    simp [hrenamed, hnodes]

theorem Stored.createNode {payload : BudgetNodeCreate} (h : Stored d) (hfounded : Founded d')
    (hop : createNode env payload d = .ok d') : Stored d' := by
  obtain ⟨_, node, _, hadmitted, _, _, _, _, rfl⟩ := createNode_ok hop
  refine ⟨hfounded, fun n hn => ?_, h.books⟩
  rcases mem_append.mp hn with hn | hn
  · exact h.nodes n hn
  · rw [mem_singleton.mp hn]
    exact hadmitted

theorem newKey_checked {n : Node} (hcheck : payload.check = .ok ()) (hold : textField (text "key") 64 n.key = .ok ()) :
    textField (text "key") 64 ((payload.newKey n).getD n.key) = .ok () := by
  obtain ⟨_, hkey, _⟩ := bind_ok.mp hcheck
  rcases hp : payload.key with _ | _ | key
  · simpa [BudgetNodeUpdate.newKey, hp] using hold
  · simpa [BudgetNodeUpdate.newKey, hp] using hold
  · by_cases hsame : key = n.key
    · simpa [BudgetNodeUpdate.newKey, hp, hsame, Option.filter] using hold
    · simpa [BudgetNodeUpdate.newKey, hp, hsame, Option.filter, optionalField] using hkey

theorem Stored.updateNode (h : Stored d) (hfounded : Founded d') (hop : updateNode env k payload d = .ok d') : Stored d' := by
  obtain ⟨node, changed, g, hnode, _, hcheck, hpatched, hvalid, hself, hother, rfl⟩ := updateNode_rows h.founded.treed hop
  have hp := patched_ok hcheck hpatched
  have hold := h.nodes node hnode
  refine ⟨hfounded, forall_mem_map.mpr fun n hn => ?_, h.books⟩
  by_cases hne : n = node
  · rw [hne, hself]
    refine ⟨newKey_checked hcheck hold.key, ?_, hp.name hold.name, hp.start hold.start, hp.currency.trans hold.currency⟩
    cases hkey : payload.newKey node with
    | none => exact hold.valid
    | some key => exact hvalid key hkey
  · obtain ⟨hkey, hvalid, hname, hstart, hcurrency⟩ := h.nodes n hn
    rw [hother n hn hne]
    exact ⟨hkey, hvalid, hname, hstart, hcurrency⟩

theorem Stored.handle {r : Request} (h : Stored d) (hop : r.handle env d = .ok d') : Stored d' := by
  have hfounded := h.founded.handle hop
  rcases nodes_cases hop with ⟨hnodes, _, hbooks⟩ | ⟨_, hop⟩ | ⟨_, _, hop⟩ | ⟨_, hop⟩
  · refine ⟨hfounded, hnodes ▸ h.nodes, ?_⟩
    rcases hbooks with heq | ⟨r, hop⟩ | ⟨k, heq⟩
    · exact heq ▸ h.books
    · exact Budget.handle_sound h.books h.founded.books hop
    · rw [heq]
      refine h.books.rewrite (fun r _ => ?_) (fun r hr => ?_) (fun r _ => .inr (.inr ?_))
      · split <;> exact ⟨rfl, rfl, rfl, rfl⟩
      · split
        · obtain ⟨hbounds, hstored⟩ := Budget.checked_iff.mp (h.books.checked r hr)
          exact ⟨Budget.checked_iff.mpr ⟨hbounds, congrArg (fun x => { x with applicationId := none }) hstored⟩,
            h.books.described r hr⟩
        · exact ⟨h.books.checked r hr, h.books.described r hr⟩
      · split <;> rfl
  · exact h.createNode hfounded hop
  · exact h.updateNode hfounded hop
  · obtain ⟨_, _, _, _, rfl⟩ := deleteNode_ok hop
    exact ⟨hfounded, fun n hn => h.nodes n (mem_of_mem_filter hn), h.books.filter _⟩

theorem emptyDb_stored : Stored emptyDb := ⟨emptyDb_founded, by simp [emptyDb], Budget.emptyDb_sound⟩

theorem run_stored {rs : List (Env × Request)} {d : Db} (hrun : Runs.run step emptyDb rs = some d) : Stored d :=
  Runs.run_keeps (fun h hop => h.handle (toOption_some.mp hop)) emptyDb_stored hrun

end Rows

section Nodes

variable {env env' : Env} {d d' d₁ d₂ : Db} {k : Uuid} {payload : BudgetNodeUpdate} {node changed n₁ changed₂ : Node}

theorem nodes_back (h : Treed d) (h' : Treed d') {g : Node → Node} (hnodes : d'.nodes = d.nodes.map g)
    (hg : ∀ n ∈ d.nodes, g n = { n with pathKey := (g n).pathKey }) : d'.nodes = d.nodes := by
  have hpath := h.keyed.path_eq (hnodes ▸ h'.keyed) (fun n hn => by rw [hg n hn]) (fun n hn => by rw [hg n hn])
    (fun n hn => by rw [hg n hn])
  rw [hnodes]
  conv_rhs => rw [← map_id d.nodes]
  refine map_congr_left fun n hn => ?_
  rw [hg n hn, hpath n hn]
  rfl

theorem patched_back (hp : node.patched env payload = .ok changed)
    (hn : n₁ = { changed with key := n₁.key, pathKey := n₁.pathKey }) (hback : n₁.patched env' (payload.read node) = .ok changed₂) :
    changed₂ = { node with key := n₁.key, pathKey := n₁.pathKey } := by
  obtain rfl := patched_eq hback
  generalize n₁.key = key, n₁.pathKey = path at hn ⊢
  rw [hn, patched_eq hp]
  simp only [BudgetNodeUpdate.read, Budget.write_back, Budget.writeRequired_back]

theorem newKey_back (hkey : n₁.key = (payload.newKey node).getD node.key) :
    ((payload.read node).newKey n₁).getD n₁.key = node.key := by
  rcases hp : payload.key with _ | _ | key
  · simpa [BudgetNodeUpdate.newKey, BudgetNodeUpdate.read, hp] using hkey
  · simpa [BudgetNodeUpdate.newKey, BudgetNodeUpdate.read, hp] using hkey
  · by_cases hsame : node.key = n₁.key
    · simp [BudgetNodeUpdate.newKey, BudgetNodeUpdate.read, hp, hsame, Option.filter]
    · simp [BudgetNodeUpdate.newKey, BudgetNodeUpdate.read, hp, hsame, Option.filter]

theorem newKey_read {key : Text} (h : key ∈ (payload.read node).newKey n₁) : key = node.key ∧ key ≠ n₁.key := by
  obtain ⟨hset, hne⟩ := Option.filter_eq_some_iff.mp h
  rcases hp : payload.key.getD none with _ | _
  · simp [BudgetNodeUpdate.read, hp] at hset
  · exact ⟨by simpa [BudgetNodeUpdate.read, hp, eq_comm] using hset, by simpa using hne⟩

def BudgetNodeUpdate.Restarts (payload : BudgetNodeUpdate) (n : Node) : Prop :=
  n.parentId = none ∧ (payload.fiscalStartMonth.writeRequired n.fiscalStartMonth ≠ n.fiscalStartMonth ∨
    payload.fiscalStartDay.writeRequired n.fiscalStartDay ≠ n.fiscalStartDay)

/-- When a revert undoes an update of a node: the years of a budget whose fiscal start moves have
the dates of its old start, and the old Gremien are there. -/
structure BudgetNodeUpdate.Undoable (env : Env) (d : Db) (n : Node) (payload : BudgetNodeUpdate) : Prop where
  years : payload.Restarts n → ∀ y ∈ d.years, y.budgetId = n.id → y.dated n = y
  view : payload.viewGremiumId ≠ none → n.viewGremiumId.all env.gremium = true
  decision : payload.decisionGremiumId ≠ none → n.decisionGremiumId.all env.gremium = true

theorem restarts_patched (hp : node.patched env payload = .ok changed) : node.restarts changed = true ↔ payload.Restarts node := by
  rw [patched_eq hp]
  simp [Node.restarts, BudgetNodeUpdate.Restarts]

theorem years_back {years : List FiscalYear} (hp : node.patched env payload = .ok changed)
    (hn : n₁ = { changed with key := n₁.key, pathKey := n₁.pathKey })
    (hc : changed₂ = { node with key := n₁.key, pathKey := n₁.pathKey })
    (hdated : payload.Restarts node → ∀ y ∈ years, y.budgetId = node.id → y.dated node = y) :
    redatedIf (n₁.restarts changed₂) changed₂ (redatedIf (node.restarts changed) changed years) = years := by
  have hsame : changed.id = node.id ∧ changed.parentId = node.parentId := by
    rw [patched_eq hp]
    exact ⟨rfl, rfl⟩
  have hrestarts : n₁.restarts changed₂ = node.restarts changed := by
    rw [hn, hc]
    simp [Node.restarts, hsame.2, eq_comm]
  rw [hrestarts]
  cases hmoved : node.restarts changed with
  | false => rfl
  | true =>
    show (years.map _).map _ = years
    rw [map_map]
    conv_rhs => rw [← map_id years]
    refine map_congr_left fun y hy => ?_
    by_cases hown : y.budgetId = node.id
    · have hy' := hdated ((restarts_patched hp).mp hmoved) y hy hown
      rw [Function.comp_apply, if_pos (hown.trans hsame.1.symm), if_pos (hc ▸ hown), hc]
      exact hy'
    · simp [hc, hsame.1, hown]

/-- An update with the recorded values, where it succeeds, restores the nodes and the years. -/
theorem updateNode_back (h : Treed d) (hop : updateNode env k payload d = .ok d₁)
    (hfind : d.nodes.find? (fun n => n.id = k) = some node) (hback : updateNode env' k (payload.read node) d₁ = .ok d₂)
    (hdated : payload.Restarts node → ∀ y ∈ d.years, y.budgetId = node.id → y.dated node = y) :
    d₂.nodes = d.nodes ∧ d₂.years = d.years := by
  have h₁ := h.updateNode hop
  have h₂ := h₁.updateNode hback
  obtain ⟨node', changed, g, hnode, hid, _, hp, _, hself, hother, rfl⟩ := updateNode_rows h hop
  obtain ⟨hmem, rfl⟩ := Table.of_find hfind
  obtain rfl := h.keyed.unique hmem hnode hid.symm
  obtain ⟨n₁, changed₂, g₂, hn₁, hid₁, _, hp₂, _, hself₂, hother₂, rfl⟩ := updateNode_rows h₁ hback
  have hsame : changed.id = node.id := by rw [patched_eq hp]
  have hfirst : n₁ = g node := by
    refine h₁.keyed.unique hn₁ (mem_map_of_mem hnode) (hid₁.trans ?_)
    rw [hself]
    exact hsame.symm
  have hrow : n₁ = { changed with key := n₁.key, pathKey := n₁.pathKey } := by
    rw [hfirst, hself]
  have hc := patched_back hp hrow hp₂
  refine ⟨nodes_back h h₂ (g := g₂ ∘ g) (map_map) fun n hn => ?_, years_back hp hrow hc hdated⟩
  by_cases hne : n = node
  · rw [hne, Function.comp_apply, ← hfirst, hself₂, newKey_back (by rw [hfirst, hself]), hc]
  · have hgn := hother n hn hne
    have hne₁ : g n ≠ n₁ := by
      intro heq
      refine hne (h.keyed.unique hn hnode ?_)
      rw [hgn] at heq
      exact (congrArg Node.id heq).trans hid₁
    have hgn₂ := hother₂ (g n) (mem_map_of_mem hn) hne₁
    rw [Function.comp_apply, hgn₂, hgn]

theorem getNode_runs (hmem : ∃ n ∈ d.nodes, n.id = k) : ∃ n, d.getNode k = .ok n := by
  obtain ⟨n, hn, hid⟩ := hmem
  rw [Db.getNode]
  cases hfind : d.nodes.find? fun n => n.id = k with
  | none => exact absurd hid (by simpa using List.find?_eq_none.mp hfind n hn)
  | some m => exact ⟨m, rfl⟩

theorem read_checked (hn : node.Admitted) : (payload.read node).check = .ok () := by
  obtain ⟨hmonth, hday⟩ := validStart_iff.mp hn.start
  exact bind_ok.mpr ⟨(), recorded_checked (payload.key.getD none) hn.key, bind_ok.mpr ⟨(), recorded_checked payload.name hn.name,
    bind_ok.mpr ⟨(), recorded_checked payload.fiscalStartMonth hmonth, recorded_checked payload.fiscalStartDay hday⟩⟩⟩

theorem recorded_column {α : Type} (p : Patch α) (a old : α) : ∃ b, Patch.column (p.map fun _ => some a) old = .ok b := by
  cases p <;> exact ⟨_, rfl⟩

theorem BudgetNodeUpdate.Undoable.patches (hundo : payload.Undoable env d node) (n : Node) :
    ∃ changed, n.patched env (payload.read node) = .ok changed := by
  have hset : ∀ {p : Patch Uuid} {old : Option Uuid}, (p ≠ none → old.all env.gremium = true) →
      ((p.map fun _ => old).getD none).all env.gremium = true := by
    intro p old hold
    cases p with
    | none => rfl
    | some _ => exact hold (Option.some_ne_none _)
  obtain ⟨name, hname⟩ := recorded_column payload.name node.name n.name
  obtain ⟨active, hactive⟩ := recorded_column payload.active node.active n.active
  obtain ⟨hidden, hhidden⟩ := recorded_column payload.hiddenInBudget node.hiddenInBudget n.hiddenInBudget
  obtain ⟨month, hmonth⟩ := recorded_column payload.fiscalStartMonth node.fiscalStartMonth n.fiscalStartMonth
  obtain ⟨day, hday⟩ := recorded_column payload.fiscalStartDay node.fiscalStartDay n.fiscalStartDay
  exact ⟨_, bind_ok.mpr ⟨(), raiseUnless_ok.mpr (hset hundo.decision), bind_ok.mpr ⟨name, hname, bind_ok.mpr ⟨active, hactive,
    bind_ok.mpr ⟨hidden, hhidden, bind_ok.mpr ⟨month, hmonth, bind_ok.mpr ⟨day, hday,
      bind_ok.mpr ⟨(), raiseUnless_ok.mpr (hset hundo.view), rfl⟩⟩⟩⟩⟩⟩⟩⟩

theorem redate_runs (node : Node) (hstart : ValidStart node.fiscalStartMonth node.fiscalStartDay) (years : List FiscalYear) :
    ∃ ys, redate node years = .ok ys := by
  induction years with
  | nil => exact ⟨[], rfl⟩
  | cons y years ih =>
    obtain ⟨ys, hys⟩ := ih
    have hbounds : ∃ bounds, y.newBounds node = .ok bounds := by
      rw [FiscalYear.newBounds]
      split
      · exact ⟨_, bind_ok.mpr ⟨(), raiseUnless_ok.mpr hstart, rfl⟩⟩
      · exact ⟨_, rfl⟩
    obtain ⟨bounds, hbounds⟩ := hbounds
    exact ⟨_, bind_ok.mpr ⟨bounds, hbounds, bind_ok.mpr ⟨ys, hys, rfl⟩⟩⟩

theorem renameIf_runs {newKey : Option Text} (hvalid : ∀ key ∈ newKey, isValidKey key = true ∧
      ∀ n ∈ d.nodes, n.parentId = node.parentId → n.key ≠ key)
    (hparent : ∀ p, node.parentId = some p → ∃ q ∈ d.nodes, q.id = p) : ∃ d', renameIf newKey node d = .ok d' := by
  cases newKey with
  | none => exact ⟨d, rfl⟩
  | some key =>
    obtain ⟨hkey, hfree⟩ := hvalid key rfl
    have hsibling : d.siblingExists node.parentId key = false :=
      any_eq_false.mpr fun n hn => by simpa using hfree n hn
    have hfound : ∃ parent, d.getParent node.parentId = .ok parent := by
      cases hp : node.parentId with
      | none => exact ⟨none, rfl⟩
      | some p =>
        obtain ⟨q, hq⟩ := getNode_runs (hparent p hp)
        exact ⟨some q, bind_ok.mpr ⟨q, hq, rfl⟩⟩
    obtain ⟨parent, hfound⟩ := hfound
    exact ⟨_, bind_ok.mpr ⟨(), raiseUnless_ok.mpr hkey, bind_ok.mpr ⟨(), raiseUnless_ok.mpr (by rw [hsibling]; rfl),
      bind_ok.mpr ⟨parent, hfound, rfl⟩⟩⟩⟩

theorem BudgetNodeUpdate.Undoable.runs (h : Stored d) (hop : updateNode env k payload d = .ok d₁)
    (hfind : d.nodes.find? (fun n => n.id = k) = some node) (hundo : payload.Undoable env' d node) :
    ∃ d₂, updateNode env' k (payload.read node) d₁ = .ok d₂ := by
  have h₁ := h.founded.treed.updateNode hop
  obtain ⟨node', changed, g, hnode, hid, _, hp, _, hself, hother, rfl⟩ := updateNode_rows h.founded.treed hop
  obtain ⟨hmem, rfl⟩ := Table.of_find hfind
  have hkeyed := h.founded.treed.keyed
  obtain rfl := hkeyed.unique hmem hnode hid.symm
  obtain ⟨changed₂, hp₂⟩ := hundo.patches (g node)
  have hrow : g node = { changed with key := (g node).key, pathKey := (g node).pathKey } := by rw [hself]
  have hc := patched_back hp hrow hp₂
  have hsame : changed.id = node.id := by rw [patched_eq hp]
  have hid₁ : (g node).id = node.id := by rw [hself, hsame]
  have hn₁ : g node ∈ d.nodes.map g := mem_map_of_mem hnode
  have hids : ∀ n ∈ d.nodes, (g n).id = n.id := by
    intro n hn
    by_cases hne : n = node
    · rw [hne, hid₁]
    · rw [hother n hn hne]
  -- the node is written over itself, and every id is still there
  have hmodified : ∀ n ∈ d.nodes, ∃ n' ∈ Table.modify Node.id node.id (fun _ => changed₂) (d.nodes.map g), n'.id = n.id := by
    intro n hn
    refine ⟨_, mem_map_of_mem (mem_map_of_mem hn), ?_⟩
    by_cases hne : n.id = node.id
    · rw [if_pos ((hids n hn).trans hne), hc, hne]
    · rw [if_neg (by rw [hids n hn]; exact hne), hids n hn]
  have hrenames : ∃ d', renameIf ((payload.read node).newKey (g node)) changed₂ { d with
      nodes := Table.modify Node.id node.id (fun _ => changed₂) (d.nodes.map g)
      years := redatedIf (node.restarts changed) changed d.years
      log := d.log ++ [.nodeUpdate node.id (payload.read node) (payload.read (g node))] } = .ok d' := by
    refine renameIf_runs (fun key hkey => ?_) fun p hparent => ?_
    · obtain ⟨rfl, hnew⟩ := newKey_read hkey
      refine ⟨(h.nodes node hnode).valid, forall_mem_map.mpr (forall_mem_map.mpr fun n hn hparent hsame => ?_)⟩
      by_cases hne : n = node
      · rw [if_pos (hne ▸ hid₁), hc] at hsame
        exact hnew hsame.symm
      · have hid : n.id ≠ node.id := fun hid => hne (hkeyed.unique hn hnode hid)
        rw [if_neg (by rw [hids n hn]; exact hid), hother n hn hne] at hparent hsame
        rw [hc] at hparent
        exact hid (hkeyed.siblings n hn node hnode hparent hsame)
    · rw [hc] at hparent
      obtain ⟨q, hq, rfl, _⟩ := hkeyed.below node hnode p hparent
      exact hmodified q hq
  obtain ⟨d', hrenamed⟩ := hrenames
  obtain ⟨f, rfl, hf⟩ := renameIf_ok hrenamed
  have hredates : ∃ d₂, redateIf ((g node).restarts changed₂) changed₂ { d with
      nodes := (Table.modify Node.id node.id (fun _ => changed₂) (d.nodes.map g)).map f
      years := redatedIf (node.restarts changed) changed d.years
      log := d.log ++ [.nodeUpdate node.id (payload.read node) (payload.read (g node))] } = .ok d₂ := by
    cases (g node).restarts changed₂ with
    | false => exact ⟨_, rfl⟩
    | true =>
      obtain ⟨years, hyears⟩ := redate_runs changed₂ (by rw [hc]; exact (h.nodes node hnode).start)
        (redatedIf (node.restarts changed) changed d.years)
      exact ⟨_, bind_ok.mpr ⟨years, hyears, rfl⟩⟩
  obtain ⟨d₂, hredated⟩ := hredates
  obtain ⟨renamed, hlast⟩ : ∃ n, d₂.getNode node.id = .ok n := by
    obtain ⟨n, hn, hid⟩ := hmodified node hnode
    obtain rfl := redateIf_ok hredated
    exact getNode_runs ⟨f n, mem_map_of_mem hn, (hf n).1.trans hid⟩
  have hfound : ((d.nodes.map g).find? fun n => n.id = node.id) = some (g node) := Table.find_of_mem h₁.keyed.ids hn₁ hid₁
  refine ⟨_, bind_ok.mpr ⟨(), read_checked (h.nodes node hnode), bind_ok.mpr ⟨g node, ?_, bind_ok.mpr ⟨changed₂, hp₂,
    bind_ok.mpr ⟨_, hrenamed, bind_ok.mpr ⟨d₂, hredated, bind_ok.mpr ⟨renamed, hlast, rfl⟩⟩⟩⟩⟩⟩⟩
  rw [Db.getNode, hfound]
  rfl

end Nodes

section Stale

variable {env env' : Env} {d d₁ : Db} {k : Uuid} {payload : BudgetNodeUpdate}

def BudgetNodeUpdate.texts (u : BudgetNodeUpdate) : List (Patch Text) := [u.key, u.name, u.color]

/-- The fields that hold no free text. -/
def BudgetNodeUpdate.others (u : BudgetNodeUpdate) : BudgetNodeUpdate := { u with key := none, name := none, color := none }

def BudgetNodeUpdate.Alike (env : Budget.Env) (current recorded : BudgetNodeUpdate) : Prop :=
  current.others = recorded.others ∧ AlikeTexts env current.texts recorded.texts

theorem notStale_iff {env : Budget.Env} {n new : Node} :
    notStale env n (payload.read new) = true ↔ (payload.read n).Alike env (payload.read new) := by
  simp only [notStale, BudgetNodeUpdate.read, Bool.and_eq_true, recorded_same, recorded_matches, BudgetNodeUpdate.Alike,
    BudgetNodeUpdate.others, BudgetNodeUpdate.texts, AlikeTexts, forall₂_cons, List.Forall₂.nil,
    BudgetNodeUpdate.mk.injEq]
  tauto

theorem read_empty {n m : Node} (h : payload.read n = {}) : payload.read m = {} := by
  simp only [BudgetNodeUpdate.read, BudgetNodeUpdate.mk.injEq, Option.map_eq_none_iff] at h ⊢
  exact h

theorem revertAudit_update (env : Env) {i : ℕ} {n old new : Node} (hfind : d.nodes.find? (fun n => n.id = k) = some n)
    (hentry : d.log[i]? = some (.nodeUpdate k (payload.read old) (payload.read new))) (hrecorded : payload.read old ≠ {}) :
    ((payload.read n).Alike (d.booksEnv env) (payload.read new) →
        revertAudit env i d = updateNode env k (payload.read old) d) ∧
      (¬ (payload.read n).Alike (d.booksEnv env) (payload.read new) →
        revertAudit env i d = .error (.conflict (text "stale_revert"))) := by
  have hstep : revertAudit env i d = (do
      raiseUnless (notStale (d.booksEnv env) n (payload.read new)) (.conflict (text "stale_revert"))
      updateNode env k (payload.read old) d) := by
    rw [revertAudit, hentry]
    simp only [revertNodeUpdate, hfind, decide_true, hrecorded, ne_eq, not_false_eq_true]
    rfl
  rw [hstep]
  constructor
  · intro halike
    rw [notStale_iff.mpr halike]
    rfl
  · intro halike
    rw [Bool.eq_false_iff.mpr fun hfresh => halike (notStale_iff.mp hfresh)]
    rfl

/-- An update and the revert of its entry, also where the revert is refused. -/
theorem updateNode_undone (h : Stored d) (hop : updateNode env k payload d = .ok d₁)
    (hundo : ∀ n ∈ d.nodes, n.id = k → payload.Undoable env' d n) :
    ((revertAudit env' d.log.length d₁).toOption.getD d₁).nodes = d.nodes ∧
      ((revertAudit env' d.log.length d₁).toOption.getD d₁).years = d.years := by
  have htreed := h.founded.treed
  have h₁ := htreed.updateNode hop
  obtain ⟨node, changed, g, hnode, rfl, _, hp, _, hself, hother, hd₁⟩ := updateNode_rows htreed hop
  have hundo := hundo node hnode rfl
  have hfind : d.nodes.find? (fun n => n.id = node.id) = some node := Table.find_of_mem htreed.keyed.ids hnode rfl
  have hentry : d₁.log[d.log.length]? = some (.nodeUpdate node.id (payload.read node) (payload.read (g node))) := by simp [hd₁]
  by_cases hempty : payload.read node = {}
  · -- nothing was recorded, and nothing was changed
    have hrevert : revertAudit env' d.log.length d₁ = .error (.conflict (text "not_revertable")) := by
      rw [revertAudit, hentry]
      simp only [revertNodeUpdate, hempty, ne_eq, not_true_eq_false, decide_false]
      rfl
    rw [hrevert]
    simp only [BudgetNodeUpdate.read, BudgetNodeUpdate.mk.injEq, Option.map_eq_none_iff] at hempty
    obtain ⟨hkey, hname, hactive, hcolor, haccepted, hdenied, hhidden, hview, hdecision, hmonth, hday⟩ := hempty
    have hchanged : changed = node := by
      rw [patched_eq hp]
      simp only [hname, hactive, hcolor, haccepted, hdenied, hhidden, hview, hdecision, hmonth, hday]
      rfl
    have hstays : ¬ payload.Restarts node := by simp [BudgetNodeUpdate.Restarts, hmonth, hday, Patch.writeRequired]
    constructor
    · show d₁.nodes = d.nodes
      refine nodes_back htreed h₁ (by rw [hd₁]) fun n hn => ?_
      by_cases hne : n = node
      · rw [hne, hself, hchanged, BudgetNodeUpdate.newKey, hkey]
        rfl
      · exact hother n hn hne
    · rw [← restarts_patched hp, Bool.not_eq_true] at hstays
      show d₁.years = d.years
      rw [hd₁, hstays]
      rfl
  · have hfind₁ : d₁.nodes.find? (fun n => n.id = node.id) = some (g node) := by
      refine Table.find_of_mem h₁.keyed.ids (by rw [hd₁]; exact mem_map_of_mem hnode) ?_
      rw [hself, patched_eq hp]
    obtain ⟨d₂, hback⟩ := hundo.runs h hop hfind
    have hrevert : revertAudit env' d.log.length d₁ = .ok d₂ :=
      ((revertAudit_update _ hfind₁ hentry hempty).1 ⟨rfl, .refl _ _⟩).trans hback
    rw [hrevert]
    exact updateNode_back htreed hop hfind hback hundo.years

end Stale

section Updates

inductive Update where
  | node (budgetId : Uuid) (payload : BudgetNodeUpdate)
  | expense (expenseId : Uuid) (payload : Budget.ExpenseUpdate)

def Update.request : Update → Request
  | .node k payload => .updateNode k payload
  | .expense k payload => .book (.updateExpense k payload)

def Update.revert (d : Db) : Update → Request
  | .node _ _ => .revertNode d.log.length
  | .expense _ _ => .book (.revertAudit d.books.log.length)

def Update.Undoable (env : Env) (d : Db) : Update → Prop
  | .node k payload => ∀ n ∈ d.nodes, n.id = k → payload.Undoable env d n
  | .expense k payload => ∀ e, d.books.get k = some e → payload.Undoable (d.booksEnv env) d.books e ∨ e.Kept payload

/-- Every field of every node with its path, and the dates of the years; or every field of the booking. -/
def Update.Restored (d d' : Db) : Update → Prop
  | .node _ _ => d'.nodes = d.nodes ∧ d'.years = d.years
  | .expense k _ => d'.books.get k = d.books.get k

variable {env env' : Env} {d d₁ : Db}

theorem Stored.restores (h : Stored d) (u : Update) (hop : step (env, u.request) d = some d₁) (hundo : u.Undoable env' d) :
    u.Restored d ((step (env', u.revert d) d₁).getD d₁) := by
  have hop := toOption_some.mp hop
  cases u with
  | node k payload => exact updateNode_undone h hop hundo
  | expense k payload =>
    obtain ⟨books, hbooks, rfl⟩ := book_ok hop
    obtain ⟨e, _, _, _, hget, _⟩ := Budget.updateExpense_ok hbooks
    have heuro : ∀ n ∈ (d.booksEnv env).nodes, n.currency = text "EUR" :=
      forall_mem_map.mpr fun n hn => (h.nodes n hn).currency
    have hback := Budget.updateExpense_undone (d.booksEnv env') h.books heuro rfl rfl hget hbooks (hundo e hget)
    rw [Update.Restored, hget, ← hback]
    show (((Budget.revertAudit (d.booksEnv env') d.books.log.length books >>= fun b => pure { d with books := b }) :
      Except Problem Db).toOption.getD { d with books := books }).books.get k = _
    cases Budget.revertAudit (d.booksEnv env') d.books.log.length books <;> rfl

/-- A revert directly after its update restores the node or the booking. Where a recorded field has
another value by then, the revert is stale, unless the two are texts that read as one number; then
it is the update with the values from before. -/
theorem revert_undoes {d : Db} {env : Env} :
    (∀ {rs : List (Env × Request)} {d₁ : Db} {env' : Env} (u : Update), Runs.run step emptyDb rs = some d →
      step (env, u.request) d = some d₁ → u.Undoable env' d → u.Restored d ((step (env', u.revert d) d₁).getD d₁)) ∧
    (∀ {i : ℕ} {k : Uuid} {payload : BudgetNodeUpdate} {old new n : Node},
      d.log[i]? = some (.nodeUpdate k (payload.read old) (payload.read new)) →
      d.nodes.find? (fun n => n.id = k) = some n → payload.read n ≠ payload.read new →
      (¬ (payload.read n).Alike (d.booksEnv env) (payload.read new) →
        (Request.revertNode i).handle env d = .error (.conflict (text "stale_revert"))) ∧
      ((payload.read n).Alike (d.booksEnv env) (payload.read new) →
        (Request.revertNode i).handle env d = (Request.updateNode k (payload.read old)).handle env d)) ∧
    ∀ {i : ℕ} {k : Uuid} {payload : Budget.ExpenseUpdate} {old new e : Budget.BudgetExpense},
      d.books.log[i]? = some (.expenseUpdate k (some (payload.read old, payload.read new))) →
      d.books.get k = some e → payload.read e ≠ payload.read new →
      (¬ (payload.read e).Alike (d.booksEnv env) (payload.read new) →
        (Request.book (.revertAudit i)).handle env d = .error (.conflict (text "stale_revert"))) ∧
      ((payload.read e).Alike (d.booksEnv env) (payload.read new) →
        (Request.book (.revertAudit i)).handle env d = (Request.book (.updateExpense k (payload.read old))).handle env d) := by
  refine ⟨fun u hrun hop hundo => (run_stored hrun).restores u hop hundo, ?_, ?_⟩
  · intro i k payload old new n hentry hfind hdiffers
    have hrecorded : payload.read old ≠ {} := fun hempty => hdiffers ((read_empty hempty).trans (read_empty hempty).symm)
    obtain ⟨halike, hstale⟩ := revertAudit_update env hfind hentry hrecorded
    exact ⟨hstale, halike⟩
  · intro i k payload old new e hentry hget _
    obtain ⟨halike, hstale⟩ := Budget.revertAudit_update (d.booksEnv env) hget hentry
    refine ⟨fun hno => ?_, fun hyes => ?_⟩
    · show (Budget.revertAudit (d.booksEnv env) i d.books >>= fun b => pure { d with books := b }) = _
      rw [hstale hno]
      rfl
    · show (Budget.revertAudit (d.booksEnv env) i d.books >>= fun b => pure { d with books := b }) = _
      rw [halike hyes]
      rfl

def oneBudget : List (Env × Request) :=
  [centre "VS", centre "80" (some 0), .createFiscalYear 0 { year := 2025 }].map fun r => (desk, r)

def restarted : Update := .node 0 { key := some (some (text "AS")), fiscalStartMonth := some (some 7) }

theorem restarted_restored : ∃ d d₁, Runs.run step emptyDb oneBudget = some d ∧ step (desk, restarted.request) d = some d₁ ∧
    d₁.nodes ≠ d.nodes ∧ d₁.years ≠ d.years ∧ restarted.Restored d ((step (desk, restarted.revert d) d₁).getD d₁) := by
  have hrun : ((Runs.run step emptyDb oneBudget).bind fun d => (step (desk, restarted.request) d).map fun d₁ =>
      decide ((∀ n ∈ d.nodes, ∀ y ∈ d.years, y.dated n = y) ∧ d₁.nodes ≠ d.nodes ∧ d₁.years ≠ d.years)) = some true := by
    decide +kernel
  obtain ⟨d, hd, hstep⟩ := Option.bind_eq_some_iff.mp hrun
  obtain ⟨d₁, hd₁, hfacts⟩ := Option.map_eq_some_iff.mp hstep
  obtain ⟨hdated, hnodes, hyears⟩ := of_decide_eq_true hfacts
  exact ⟨d, d₁, hd, hd₁, hnodes, hyears, revert_undoes.1 restarted hd hd₁ fun n hn _ =>
    ⟨fun _ y hy _ => hdated n hn y hy, fun h => absurd rfl h, fun h => absurd rfl h⟩⟩

/-- The texts of `Decimal` that differ in leading zeros only read as one number. -/
def zerosDesk : Env := { desk with sameNumber := fun a b => a.dropWhile (· = 48) = b.dropWhile (· = 48) }

def numericKeys : List (Env × Request) :=
  [centre "A", .updateNode 0 { key := some (some (text "04")) }, .updateNode 0 { key := some (some (text "4")) }].map fun r =>
    (zerosDesk, r)

/-- A booking and a new amount for it that is no whole number of cents. -/
def halfCent : Update := .expense 0 { amount := some (some 10.005) }

def halfCentBooked : List (Env × Request) :=
  oneBudget ++ [(desk, .book (.createExpense { amount := 10, description := text "paper", budgetId := some 1 } (text "alice")))]

/-- The first key change is reverted over the second one; and the new amount of a booking is not
taken back. -/
theorem revert_misses :
    (∃ d d', Runs.run step emptyDb numericKeys = some d ∧
      d.log[1]? = some (.nodeUpdate 0 { key := some (some (text "A")) } { key := some (some (text "04")) }) ∧
      d.nodes.map Node.key = [text "4"] ∧ (Request.revertNode 1).handle zerosDesk d = .ok d' ∧ d'.nodes.map Node.key = [text "A"]) ∧
    ∃ d d₁, Runs.run step emptyDb halfCentBooked = some d ∧ step (desk, halfCent.request) d = some d₁ ∧
      ¬ halfCent.Restored d ((step (desk, halfCent.revert d) d₁).getD d₁) := by
  have hkeys : ((Runs.run step emptyDb numericKeys).bind fun d => ((Request.revertNode 1).handle zerosDesk d).toOption.map
      fun d' => decide (d.log[1]? = some (.nodeUpdate 0 { key := some (some (text "A")) } { key := some (some (text "04")) }) ∧
        d.nodes.map Node.key = [text "4"] ∧ d'.nodes.map Node.key = [text "A"])) = some true := by decide +kernel
  have hcents : ((Runs.run step emptyDb halfCentBooked).bind fun d => (step (desk, halfCent.request) d).map fun d₁ =>
      decide (((step (desk, halfCent.revert d) d₁).getD d₁).books.get 0 ≠ d.books.get 0)) = some true := by decide +kernel
  obtain ⟨d, hd, hrest⟩ := Option.bind_eq_some_iff.mp hkeys
  obtain ⟨d', hd', hfacts⟩ := Option.map_eq_some_iff.mp hrest
  obtain ⟨hlog, hold, hnew⟩ := of_decide_eq_true hfacts
  obtain ⟨e, he, hrest'⟩ := Option.bind_eq_some_iff.mp hcents
  obtain ⟨e₁, he₁, hfacts'⟩ := Option.map_eq_some_iff.mp hrest'
  have hkept := of_decide_eq_true hfacts'
  exact ⟨⟨d, d', hd, hlog, hold, toOption_some.mp hd', hnew⟩, e, e₁, he, he₁, hkept⟩

end Updates

end BudgetTree
