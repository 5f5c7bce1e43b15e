import StupaWorkflow.TreePaths

/-!
The fiscal years of the applications and of the bookings.
-/
namespace BudgetTree
open Py hiding Date
open List
open Budget (Uuid Problem Application)

section Foundation

/-- The keys of the tables: each id is there once, and the budget of a year is a
top-level one. -/
structure Founded (d : Db) : Prop where
  treed : Treed d
  ids : (d.years.map fun y => y.id).Nodup
  below : ∀ y ∈ d.years, y.id < d.next
  top : ∀ y ∈ d.years, ∃ n ∈ d.nodes, n.id = y.budgetId ∧ n.parentId = none
  books : Budget.OneYear d.books
  apps : (d.applications.map Application.id).Nodup
  appsBelow : ∀ a ∈ d.applications, a.id < d.next

variable {env : Env} {d d' : Db} {k : Uuid}
variable {payload : BudgetNodeUpdate}

theorem Founded.unique_year (h : Founded d) {y z : FiscalYear} (hy : y ∈ d.years) (hz : z ∈ d.years) (hid : y.id = z.id) :
    y = z := inj_on_of_nodup_map h.ids hy hz hid

def FiscalYear.link (y : FiscalYear) : Uuid × Uuid := (y.id, y.budgetId)

theorem Founded.keep (h : Founded d) (htreed : Treed d') (hnext : d.next ≤ d'.next)
    (hyears : (d'.years.map FiscalYear.link).Sublist (d.years.map FiscalYear.link))
    (hnodes : ∀ y ∈ d'.years, ∀ n ∈ d.nodes, n.id = y.budgetId → n.parentId = none →
      ∃ n' ∈ d'.nodes, n'.id = n.id ∧ n'.parentId = none)
    (hbooks : Budget.OneYear d'.books) (happs : (d'.applications.map Application.id).Sublist (d.applications.map Application.id)) :
    Founded d' := by
  have hold : ∀ y' ∈ d'.years, ∃ y ∈ d.years, y.id = y'.id ∧ y.budgetId = y'.budgetId := by
    intro y' hy'
    obtain ⟨y, hy, heq⟩ := mem_map.mp (hyears.subset (mem_map_of_mem hy'))
    exact ⟨y, hy, congrArg Prod.fst heq, congrArg Prod.snd heq⟩
  constructor
  case treed => exact htreed
  case ids =>
    have hids : ∀ ys : List FiscalYear, ys.map (fun y => y.id) = (ys.map FiscalYear.link).map Prod.fst := by
      intro ys
      rw [map_map]
      rfl
    rw [hids]
    exact (hids d.years ▸ h.ids).sublist (hyears.map Prod.fst)
  case below =>
    intro y' hy'
    obtain ⟨y, hy, hid, _⟩ := hold y' hy'
    exact hid ▸ (h.below y hy).trans_le hnext
  case top =>
    intro y' hy'
    obtain ⟨y, hy, _, hb⟩ := hold y' hy'
    obtain ⟨n, hn, hid, hp⟩ := h.top y hy
    obtain ⟨n', hn', hid', hp'⟩ := hnodes y' hy' n hn (hid.trans hb) hp
    exact ⟨n', hn', hid'.trans (hid.trans hb), hp'⟩
  case books => exact hbooks
  case apps => exact h.apps.sublist happs
  case appsBelow =>
    intro a ha
    obtain ⟨b, hb, hid⟩ := mem_map.mp (happs.subset (mem_map_of_mem ha))
    exact hid ▸ (h.appsBelow b hb).trans_le hnext

theorem Founded.years (h : Founded d) (htreed : Treed d') (hnodes : d'.nodes = d.nodes) (hnext : d'.next = d.next)
    (hyears : (d'.years.map FiscalYear.link).Sublist (d.years.map FiscalYear.link)) (hbooks : d'.books = d.books)
    (happs : d'.applications = d.applications) : Founded d' :=
  h.keep htreed hnext.ge hyears (fun _ _ n hn _ hp => ⟨n, hnodes ▸ hn, rfl, hp⟩) (hbooks ▸ h.books) (happs ▸ .refl _)

theorem sublist_of_eq {α : Type} {l l' : List α} (h : l = l') : l.Sublist l' := h ▸ .refl l

theorem modify_links (h : Founded d) {fy : FiscalYear} (hfy : fy ∈ d.years) {row : FiscalYear} (hlink : row.link = fy.link) :
    (Table.modify (fun f : FiscalYear => f.id) fy.id (fun _ => row) d.years).map FiscalYear.link = d.years.map FiscalYear.link := by
  rw [Table.modify, map_map]
  refine map_congr_left fun y hy => ?_
  by_cases hid : y.id = fy.id
  · rw [Function.comp_apply, if_pos hid, h.unique_year hy hfy hid]
    exact hlink
  · rw [Function.comp_apply, if_neg hid]

theorem redatedIf_links (restarts : Bool) (node : Node) (years : List FiscalYear) :
    (redatedIf restarts node years).map FiscalYear.link = years.map FiscalYear.link := by
  unfold redatedIf
  split
  · rw [map_map]
    refine map_congr_left fun y _ => ?_
    rw [Function.comp_apply]
    split <;> rfl
  · rfl

theorem place_ids (k : Uuid) (b y : Option Uuid) :
    (d.place k b y).applications.map Application.id = d.applications.map Application.id :=
  Table.modify_keys (f := fun a => ⟨a.id, b, y⟩) (fun _ => rfl) d.applications

theorem updateNode_nodes (h : Treed d) (hop : updateNode env k payload d = .ok d') :
    ∀ n ∈ d.nodes, ∃ n' ∈ d'.nodes, n'.id = n.id ∧ n'.parentId = n.parentId := by
  obtain ⟨node, changed, d₁, after, hnode, rfl, hcheck, hpatched, hrename, _, rfl⟩ := updateNode_ok hop
  obtain ⟨f, rfl, hf⟩ := renameIf_ok hrename
  have hp := patched_ok hcheck hpatched
  intro n hn
  refine ⟨_, mem_map_of_mem (mem_map_of_mem hn), ?_, ?_⟩
  · rw [(hf _).1]
    split
    next hid => exact hp.id.trans hid.symm
    next => rfl
  · rw [(hf _).2.1]
    split
    next hid => rw [hp.parentId, h.keyed.unique hn hnode hid]
    next => rfl

theorem Founded.updateNode (h : Founded d) (hop : updateNode env k payload d = .ok d') : Founded d' := by
  have htreed := h.treed.updateNode hop
  have hnodes := updateNode_nodes h.treed hop
  obtain ⟨node, changed, d₁, after, _, _, _, _, _, _, rfl⟩ := updateNode_ok hop
  refine h.keep htreed le_rfl (sublist_of_eq (redatedIf_links _ _ _)) ?_ h.books (.refl _)
  intro y _ n hn _ hp
  obtain ⟨n', hn', hid, hp'⟩ := hnodes n hn
  exact ⟨n', hn', hid, hp'.trans hp⟩

theorem Founded.deleteNode (h : Founded d) (hop : deleteNode k d = .ok d') : Founded d' := by
  have htreed := h.treed.deleteNode hop
  obtain ⟨_, _, _, _, rfl⟩ := deleteNode_ok hop
  refine h.keep htreed le_rfl (List.Sublist.map _ filter_sublist) ?_ (h.books.filter _) (.refl _)
  intro y hy n hn hid hp
  have hk : y.budgetId ≠ k := of_decide_eq_true (mem_filter.mp hy).2
  exact ⟨n, mem_filter.mpr ⟨hn, by simpa [hid] using hk⟩, rfl, hp⟩

theorem Founded.place {b y : Option Uuid} (h : Founded d) (htreed : Treed (d.place k b y)) : Founded (d.place k b y) :=
  h.keep htreed le_rfl (.refl _) (fun _ _ n hn _ hp => ⟨n, hn, rfl, hp⟩) h.books (sublist_of_eq (place_ids k b y))

theorem booksEnv_years (h : Founded d) (env : Env) : ((d.booksEnv env).years.map Budget.FiscalYear.id).Nodup := by
  show ((d.years.map FiscalYear.toFiscalYear).map Budget.FiscalYear.id).Nodup
  rw [map_map]
  exact h.ids

theorem Founded.handle {r : Request} (h : Founded d) (hop : r.handle env d = .ok d') : Founded d' := by
  have htreed := h.treed.handle hop
  cases r with
  | createNode payload =>
    obtain ⟨_, node, _, _, _, _, _, _, rfl⟩ := createNode_ok hop
    exact h.keep htreed (Nat.le_succ _) (.refl _) (fun _ _ n hn _ hp => ⟨n, mem_append_left _ hn, rfl, hp⟩) h.books
      (.refl _)
  | updateNode k payload => exact h.updateNode hop
  | deleteNode k => exact h.deleteNode hop
  | revertNode n =>
    rcases revertAudit_ok hop with ⟨k, _, hop⟩ | ⟨k, before, _, _, hop⟩
    · exact h.deleteNode hop
    · exact h.updateNode hop
  | createFiscalYear k payload =>
    obtain ⟨top, fy, htop, hid, hparent, _, _, hfid, hfb, _, _, rfl⟩ := createFiscalYear_ok hop
    have hmem : ∀ {y}, y ∈ d.years ++ [fy] → y ∈ d.years ∨ y = fy := by simp
    refine ⟨htreed, ?_, ?_, ?_, h.books, h.apps, fun a ha => (h.appsBelow a ha).trans (Nat.lt_succ_self _)⟩
    · refine Table.nodup_insert h.ids fun z hz => ?_
      rw [hfid]
      exact (h.below z hz).ne
    · intro y hy
      rcases hmem hy with hy | rfl
      · exact (h.below y hy).trans (Nat.lt_succ_self _)
      · exact hfid ▸ Nat.lt_succ_self _
    · intro y hy
      rcases hmem hy with hy | rfl
      · exact h.top y hy
      · exact ⟨top, htop, hid.trans hfb.symm, hparent⟩
  | updateFiscalYear k y payload =>
    obtain ⟨top, fy, redated, active, _, _, _, hfind, _, hredated, _, rfl⟩ := updateFiscalYear_ok hop
    obtain ⟨hfy, _⟩ := foundYear hfind
    refine h.years htreed rfl rfl ?_ rfl rfl
    rcases redated_ok hredated with ⟨_, rfl⟩ | ⟨year, _, _, rfl⟩
    · exact sublist_of_eq (modify_links h hfy rfl)
    · exact sublist_of_eq (modify_links h hfy rfl)
  | deleteFiscalYear k y =>
    obtain ⟨_, _, _, _, _, _, rfl⟩ := deleteFiscalYear_ok hop
    exact h.years htreed rfl rfl (List.Sublist.map _ filter_sublist) rfl rfl
  | setFiscalYearClosed k y closed now =>
    obtain ⟨fy, closedAt, hfind, rfl⟩ := setFiscalYearClosed_ok hop
    obtain ⟨hfy, _⟩ := foundYear hfind
    exact h.years htreed rfl rfl (sublist_of_eq (modify_links h hfy rfl)) rfl rfl
  | setAllocation k y payload =>
    obtain ⟨_, _, rfl⟩ := allocate_ok hop
    exact h.years htreed rfl rfl (.refl _) rfl rfl
  | revertAllocation n =>
    obtain ⟨_, _, rfl⟩ := allocate_ok hop
    exact h.years htreed rfl rfl (.refl _) rfl rfl
  | book r =>
    obtain ⟨books, hbooks, rfl⟩ := book_ok hop
    obtain ⟨fy, _, hedits⟩ := Budget.handle_edits (booksEnv_years h env) h.books hbooks
    exact h.keep htreed le_rfl (.refl _) (fun _ _ n hn _ hp => ⟨n, hn, rfl, hp⟩) (Budget.Edits.oneYear hedits h.books)
      (.refl _)
  | assignBudget k payload =>
    obtain ⟨_, _, _, _, rfl | ⟨_, _, _, rfl⟩⟩ := assignBudget_ok hop
    · exact h.place htreed
    · exact h.place htreed
  | moveFiscalYear k y =>
    obtain ⟨_, _, _, _, _, _, _, rfl⟩ := moveFiscalYear_ok hop
    exact h.place htreed
  | flowAssign k b fromField =>
    cases hop
    rcases flowAssign_cases env k b fromField d with heq | ⟨_, _, _, _, _, _, heq⟩
    · rw [heq]
      exact h
    · rw [heq] at htreed ⊢
      exact h.place htreed
  | createApplication =>
    cases hop
    refine ⟨htreed, h.ids, fun y hy => (h.below y hy).trans (Nat.lt_succ_self _), h.top, h.books, ?_, ?_⟩
    · exact Table.nodup_insert h.apps fun a ha => (h.appsBelow a ha).ne
    · intro a ha
      rcases mem_append.mp ha with ha | ha
      · exact (h.appsBelow a ha).trans (Nat.lt_succ_self _)
      · rw [mem_singleton.mp ha]
        exact Nat.lt_succ_self _
  | deleteApplication k =>
    obtain rfl := deleteApplication_ok hop
    refine h.keep htreed le_rfl (.refl _) (fun _ _ n hn _ hp => ⟨n, hn, rfl, hp⟩) (h.books.versions fun r _ => ?_)
      (List.Sublist.map _ filter_sublist)
    split <;> exact ⟨rfl, rfl, rfl, rfl⟩

theorem emptyDb_founded : Founded emptyDb where
  treed := emptyDb_treed
  ids := nodup_nil
  below := by simp [emptyDb]
  top := by simp [emptyDb]
  books := Budget.emptyDb_oneYear
  apps := nodup_nil
  appsBelow := by simp [emptyDb]

end Foundation

section Ownership

def OwnYear (d : Db) (b y : Uuid) : Prop :=
  ∃ fy ∈ d.years, fy.id = y ∧ ∃ top ∈ d.nodes, top.id = fy.budgetId ∧ top.parentId = none ∧
    Relation.ReflTransGen (PathTree.Child Node.id Node.parentId d.nodes) top.id b

/-- Cost centre and fiscal year fit together, at every application that has both and at every booking. -/
structure Owned (d : Db) : Prop where
  applications : ∀ a ∈ d.applications, ∀ b y, a.budgetId = some b → a.fiscalYearId = some y → OwnYear d b y
  bookings : ∀ r ∈ d.books.bookings, OwnYear d r.budgetId r.fiscalYearId

/-- Both cost centres are under one top-level budget: their paths begin with one segment. -/
def SharesTop (n m : Node) : Prop := n.pathKey.takeWhile (· ≠ 45) = m.pathKey.takeWhile (· ≠ 45)

instance (n m : Node) : Decidable (SharesTop n m) := inferInstanceAs (Decidable (_ = _))

variable {env : Env} {d d' : Db} {k : Uuid}
variable {node n m : Node} {b y : Uuid}

theorem topLevel_root (h : Founded d) (hnode : node ∈ d.nodes) {top : Budget.Node}
    (htop : Budget.topLevel (d.booksEnv env) node.booking = .ok top) : ∃ t ∈ d.nodes, t.id = top.id ∧ t.parentId = none ∧
      Relation.ReflTransGen (PathTree.Child Node.id Node.parentId d.nodes) t.id node.id := by
  obtain ⟨t, ht, hparent, hpath, hanc⟩ := h.treed.keyed.root node hnode
  refine ⟨t, ht, ?_, hparent, hanc⟩
  have hfind := foundOr_ok htop
  obtain ⟨n, hn, rfl⟩ := mem_map.mp (mem_of_find?_eq_some hfind)
  have hcond := List.find?_some hfind
  simp only [Bool.and_eq_true, decide_eq_true_eq] at hcond
  have hsame : t.pathKey = n.pathKey := hpath.trans hcond.1.symm
  rw [h.treed.keyed.path_inj t ht n hn hsame]
  rfl

theorem Resolved.own (h : Founded d) (hres : Resolved d env b y) : OwnYear d b y := by
  obtain ⟨node, hnode, rfl, top, htop, fy, hfy, hid, hown, _⟩ := hres
  obtain ⟨t, ht, htid, hparent, hanc⟩ := topLevel_root h hnode htop
  exact ⟨fy, hfy, hid, t, ht, htid.trans hown.symm, hparent, hanc⟩

theorem walkUp_root (h : Treed d) (fuel : ℕ) (hnode : node ∈ d.nodes) {seen : List Uuid}
    (hseen : ∀ s ∈ seen, s ∈ d.nodes.map Node.id ∧
      Relation.TransGen (PathTree.Child Node.id Node.parentId d.nodes) node.id s)
    (hnodup : seen.Nodup) (hfuel : d.nodes.length ≤ fuel + seen.length + 1) :
    ∃ top ∈ d.nodes, d.walkUp fuel seen node = top ∧ top.parentId = none ∧
      Relation.ReflTransGen (PathTree.Child Node.id Node.parentId d.nodes) top.id node.id := by
  induction fuel generalizing node seen with
  | zero =>
    refine ⟨node, hnode, rfl, ?_, .refl⟩
    cases hp : node.parentId with
    | none => rfl
    | some p =>
      obtain ⟨q, hq, rfl, _⟩ := h.keyed.below node hnode p hp
      have hchild : PathTree.Child Node.id Node.parentId d.nodes q.id node.id := ⟨node, hnode, rfl, hp⟩
      have hsub : q.id :: node.id :: seen ⊆ d.nodes.map Node.id := by
        intro x hx
        rcases mem_cons.mp hx with rfl | hx
        · exact mem_map_of_mem hq
        · rcases mem_cons.mp hx with rfl | hx
          · exact mem_map_of_mem hnode
          · exact (hseen x hx).1
      have hdistinct : (q.id :: node.id :: seen).Nodup := by
        refine nodup_cons.mpr ⟨fun hmem => ?_, nodup_cons.mpr ⟨fun hmem => ?_, hnodup⟩⟩
        · rcases mem_cons.mp hmem with heq | hmem
          · obtain rfl := h.keyed.unique hq hnode heq
            exact h.keyed.acyclic hq (.single hchild)
          · exact h.keyed.acyclic hq (.head hchild (hseen _ hmem).2)
        · exact h.keyed.acyclic hnode (hseen _ hmem).2
      have hlen := (hdistinct.subperm hsub).length_le
      simp only [length_cons, length_map] at hlen
      omega
  | succ fuel ih =>
    cases hp : node.parentId with
    | none => exact ⟨node, hnode, by simp [Db.walkUp, hp], hp, .refl⟩
    | some p =>
      obtain ⟨q, hq, rfl, _⟩ := h.keyed.below node hnode p hp
      have hchild : PathTree.Child Node.id Node.parentId d.nodes q.id node.id := ⟨node, hnode, rfl, hp⟩
      have hnew : q.id ∉ seen := fun hmem => h.keyed.acyclic hq (.head hchild (hseen _ hmem).2)
      have hfind : d.nodes.find? (fun n => n.id = q.id) = some q := Table.find_of_mem h.keyed.ids hq rfl
      have hstep : d.walkUp (fuel + 1) seen node = d.walkUp fuel (node.id :: seen) q := by
        simp [Db.walkUp, hp, hnew, hfind]
      have hseen' : ∀ s ∈ node.id :: seen, s ∈ d.nodes.map (·.id) ∧
          Relation.TransGen (PathTree.Child Node.id Node.parentId d.nodes) q.id s := by
        intro s hs
        rcases mem_cons.mp hs with rfl | hs
        · exact ⟨mem_map_of_mem hnode, .single hchild⟩
        · exact ⟨(hseen s hs).1, .head hchild (hseen s hs).2⟩
      obtain ⟨top, htop, hwalk, hparent, hanc⟩ := ih hq hseen' (nodup_cons.mpr ⟨fun hmem => h.keyed.acyclic hnode (hseen _ hmem).2, hnodup⟩)
        (by rw [length_cons]; omega)
      exact ⟨top, htop, hstep.trans hwalk, hparent, hanc.tail hchild⟩

theorem currentYear_own (h : Founded d) (hnode : node ∈ d.nodes) (hcurrent : d.currentYear env node = some y) :
    OwnYear d node.id y := by
  obtain ⟨fy, hfy, hid, hb, _⟩ := currentYear_ok hcurrent
  obtain ⟨top, htop, hwalk, hparent, hanc⟩ :=
    walkUp_root h.treed d.nodes.length hnode (by simp) nodup_nil (by simp)
  exact ⟨fy, hfy, hid, top, htop, by rw [hb, hwalk], hparent, hanc⟩

theorem OwnYear.shares (h : Founded d) (hn : n ∈ d.nodes) (hm : m ∈ d.nodes) (hshares : SharesTop n m) (hown : OwnYear d n.id y) :
    OwnYear d m.id y := by
  obtain ⟨fy, hfy, hid, top, htop, hb, hparent, hanc⟩ := hown
  obtain ⟨top', htop', hparent', hpath', hanc'⟩ := h.treed.keyed.root m hm
  have hsame : top.pathKey = top'.pathKey := by
    rw [h.treed.keyed.root_path htop hparent n hn hanc, hpath']
    exact hshares
  rw [h.treed.keyed.path_inj top htop top' htop' hsame] at hb
  exact ⟨fy, hfy, hid, top', htop', hb, hparent', hanc'⟩

theorem sharesTop_of_own (h : Founded d) (hn : n ∈ d.nodes) (hm : m ∈ d.nodes) (hown : OwnYear d n.id y)
    (hown' : OwnYear d m.id y) : SharesTop n m := by
  obtain ⟨fy, hfy, hid, top, htop, hb, hparent, hanc⟩ := hown
  obtain ⟨fy', hfy', hid', top', htop', hb', hparent', hanc'⟩ := hown'
  obtain rfl := h.unique_year hfy hfy' (hid.trans hid'.symm)
  obtain rfl := h.treed.keyed.unique htop htop' (hb.trans hb'.symm)
  rw [SharesTop, ← h.treed.keyed.root_path htop hparent n hn hanc, ← h.treed.keyed.root_path htop hparent m hm hanc']

theorem OwnYear.mono (hown : OwnYear d b y)
    (hyears : ∀ fy ∈ d.years, fy.id = y → ∃ fy' ∈ d'.years, fy'.id = fy.id ∧ fy'.budgetId = fy.budgetId)
    (hnodes : ∀ n ∈ d.nodes, ∃ n' ∈ d'.nodes, n'.id = n.id ∧ n'.parentId = n.parentId) : OwnYear d' b y := by
  obtain ⟨fy, hfy, hid, top, htop, hb, hparent, hanc⟩ := hown
  obtain ⟨fy', hfy', hid', hb'⟩ := hyears fy hfy hid
  obtain ⟨top', htop', htid, hparent'⟩ := hnodes top htop
  refine ⟨fy', hfy', hid'.trans hid, top', htop', htid.trans (hb.trans hb'.symm), hparent'.trans hparent, ?_⟩
  rw [htid]
  exact PathTree.reach_mono hnodes hanc

/-- A deleted node was nobody's parent, so it is above no cost centre that stays. -/
theorem OwnYear.delete (hown : OwnYear d b y) (hleaf : ∀ n ∈ d.nodes, n.parentId ≠ some k) (hb : b ≠ k) :
    OwnYear (d.deleteNode k) b y := by
  obtain ⟨fy, hfy, hid, top, htop, hbudget, hparent, hanc⟩ := hown
  obtain ⟨hne, hreach⟩ := PathTree.reach_without hleaf hanc hb
  refine ⟨fy, mem_filter.mpr ⟨hfy, by simpa [← hbudget] using hne⟩, hid, top,
    mem_filter.mpr ⟨htop, by simpa using hne⟩, hbudget, hparent, hreach⟩

end Ownership

section Steps

variable {env : Env} {d d' : Db} {k : Uuid}

def Request.FollowsYear (env : Env) (d : Db) : Request → Prop
  | .flowAssign k b fromField => ∀ app ∈ d.applications, app.id = k → ∀ node ∈ d.nodes, node.id = b →
      d.flowSkips env app node fromField = true ∨ (d.currentYear env node).isSome = true ∨ app.fiscalYearId = none ∨
        ∃ old ∈ d.nodes, app.budgetId = some old.id ∧ SharesTop old node
  | _ => True

instance (env : Env) (d : Db) : (r : Request) → Decidable (r.FollowsYear env d)
  | .flowAssign k b fromField => inferInstanceAs (Decidable (∀ app ∈ d.applications, app.id = k → ∀ node ∈ d.nodes,
      node.id = b → d.flowSkips env app node fromField = true ∨ (d.currentYear env node).isSome = true ∨
        app.fiscalYearId = none ∨ ∃ old ∈ d.nodes, app.budgetId = some old.id ∧ SharesTop old node))
  | .createNode _ | .updateNode _ _ | .deleteNode _ | .revertNode _ | .createFiscalYear _ _ | .updateFiscalYear _ _ _
  | .deleteFiscalYear _ _ | .setFiscalYearClosed _ _ _ _ | .setAllocation _ _ _ | .revertAllocation _ | .book _
  | .assignBudget _ _ | .moveFiscalYear _ _ | .createApplication | .deleteApplication _ => isTrue trivial

/-- Owned years, and an application with a year has a cost centre. -/
structure Settled (d : Db) : Prop where
  founded : Founded d
  owned : Owned d
  centre : ∀ a ∈ d.applications, a.fiscalYearId ≠ none → a.budgetId ≠ none

theorem Settled.keep (h : Settled d) (hfounded : Founded d')
    (happs : ∀ a ∈ d'.applications, ∃ a₀ ∈ d.applications, a.budgetId = a₀.budgetId ∧ a.fiscalYearId = a₀.fiscalYearId)
    (hbooks : ∀ r ∈ d'.books.bookings, ∃ r₀ ∈ d.books.bookings, r.budgetId = r₀.budgetId ∧ r.fiscalYearId = r₀.fiscalYearId)
    (happsFit : ∀ a ∈ d'.applications, ∀ b y, a.budgetId = some b → a.fiscalYearId = some y → OwnYear d b y → OwnYear d' b y)
    (hbooksFit : ∀ r ∈ d'.books.bookings, OwnYear d r.budgetId r.fiscalYearId → OwnYear d' r.budgetId r.fiscalYearId) :
    Settled d' where
  founded := hfounded
  owned :=
    { applications := by
        intro a ha b y hb hy
        obtain ⟨a₀, ha₀, hb₀, hy₀⟩ := happs a ha
        exact happsFit a ha b y hb hy (h.owned.applications a₀ ha₀ b y (hb₀ ▸ hb) (hy₀ ▸ hy))
      bookings := by
        intro r hr
        obtain ⟨r₀, hr₀, hb₀, hy₀⟩ := hbooks r hr
        refine hbooksFit r hr ?_
        rw [hb₀, hy₀]
        exact h.owned.bookings r₀ hr₀ }
  centre := by
    intro a ha hy
    obtain ⟨a₀, ha₀, hb₀, hy₀⟩ := happs a ha
    rw [hb₀]
    exact h.centre a₀ ha₀ (hy₀ ▸ hy)

theorem Settled.mono (h : Settled d) (hfounded : Founded d') (happs : d'.applications = d.applications)
    (hbooks : d'.books = d.books)
    (hyears : ∀ fy ∈ d.years, ∃ fy' ∈ d'.years, fy'.id = fy.id ∧ fy'.budgetId = fy.budgetId)
    (hnodes : ∀ n ∈ d.nodes, ∃ n' ∈ d'.nodes, n'.id = n.id ∧ n'.parentId = n.parentId) : Settled d' :=
  h.keep hfounded (fun a ha => ⟨a, happs ▸ ha, rfl, rfl⟩) (fun r hr => ⟨r, hbooks ▸ hr, rfl, rfl⟩)
    (fun _ _ _ _ _ _ hown => hown.mono (fun fy hfy _ => hyears fy hfy) hnodes)
    fun _ _ hown => hown.mono (fun fy hfy _ => hyears fy hfy) hnodes

theorem same_links (h : d'.years.map FiscalYear.link = d.years.map FiscalYear.link) :
    ∀ fy ∈ d.years, ∃ fy' ∈ d'.years, fy'.id = fy.id ∧ fy'.budgetId = fy.budgetId := by
  intro fy hfy
  have hmem : fy.link ∈ d'.years.map FiscalYear.link := h ▸ mem_map_of_mem hfy
  obtain ⟨fy', hfy', heq⟩ := mem_map.mp hmem
  exact ⟨fy', hfy', congrArg Prod.fst heq, congrArg Prod.snd heq⟩

theorem Settled.updateNode {payload : BudgetNodeUpdate} (h : Settled d) (hop : updateNode env k payload d = .ok d') :
    Settled d' := by
  have hfounded := h.founded.updateNode hop
  have hnodes := updateNode_nodes h.founded.treed hop
  obtain ⟨node, changed, d₁, after, _, _, _, _, _, _, rfl⟩ := updateNode_ok hop
  exact h.mono hfounded rfl rfl (same_links (redatedIf_links _ _ _)) hnodes

theorem Settled.deleteNode (h : Settled d) (hop : deleteNode k d = .ok d') : Settled d' := by
  have hfounded := h.founded.deleteNode hop
  obtain ⟨hleaf, hbooked, hassigned, _, rfl⟩ := deleteNode_ok hop
  refine h.keep hfounded (fun a ha => ⟨a, ha, rfl, rfl⟩) (fun r hr => ⟨r, mem_of_mem_filter hr, rfl, rfl⟩) ?_ ?_
  · intro a ha b y hb _ hown
    exact hown.delete hleaf fun heq => hassigned a ha (heq ▸ hb)
  · intro r hr hown
    exact hown.delete hleaf (hbooked r (mem_of_mem_filter hr))

theorem Settled.place (h : Settled d) {b y : Option Uuid} (hfounded : Founded (d.place k b y))
    (hfit : ∀ b' y', b = some b' → y = some y' → OwnYear d b' y') (hcentre : y ≠ none → b ≠ none) :
    Settled (d.place k b y) where
  founded := hfounded
  owned :=
    { applications := by
        refine forall_mem_map.mpr fun a ha b' y' => ?_
        split
        · exact hfit b' y'
        · exact h.owned.applications a ha b' y'
      bookings := h.owned.bookings }
  centre := by
    refine forall_mem_map.mpr fun a ha => ?_
    split
    · exact hcentre
    · exact h.centre a ha

theorem Settled.flowAssign (h : Settled d) {b : Uuid} {fromField : Bool}
    (hfounded : Founded (flowAssign env k b fromField d)) (hr : (Request.flowAssign k b fromField).FollowsYear env d) :
    Settled (flowAssign env k b fromField d) := by
  rcases flowAssign_cases env k b fromField d with heq | ⟨app, node, happ, hnode, hskip, _, heq⟩
  · rw [heq]
    exact h
  · rw [heq] at hfounded ⊢
    obtain ⟨hmem, hid⟩ := Table.of_find happ
    obtain ⟨hnmem, hnid⟩ := Table.of_find hnode
    refine h.place hfounded ?_ (fun _ => by simp)
    intro b' y hb' hy
    obtain rfl := Option.some.inj hb'
    rcases hr app hmem hid node hnmem hnid with hskips | hcurrent | hnone | ⟨old, hold, hb, hshares⟩
    · rw [hskip] at hskips
      cases hskips
    · obtain ⟨picked, hpicked⟩ := Option.isSome_iff_exists.mp hcurrent
      rw [hpicked, Option.some_or, Option.some.injEq] at hy
      exact hy ▸ currentYear_own h.founded hnmem hpicked
    · cases hcurrent : d.currentYear env node with
      | none => simp [hcurrent, hnone] at hy
      | some picked =>
        rw [hcurrent, Option.some_or, Option.some.injEq] at hy
        exact hy ▸ currentYear_own h.founded hnmem hcurrent
    · cases hcurrent : d.currentYear env node with
      | none =>
        rw [hcurrent, Option.none_or] at hy
        exact (h.owned.applications app hmem old.id y hb hy).shares h.founded hold hnmem hshares
      | some picked =>
        rw [hcurrent, Option.some_or, Option.some.injEq] at hy
        exact hy ▸ currentYear_own h.founded hnmem hcurrent

theorem Settled.handle {r : Request} (h : Settled d) (hr : r.FollowsYear env d) (hop : r.handle env d = .ok d') :
    Settled d' := by
  have hfounded := h.founded.handle hop
  cases r with
  | createNode payload =>
    obtain ⟨_, _, _, _, _, _, _, _, rfl⟩ := createNode_ok hop
    exact h.mono hfounded rfl rfl (same_links rfl) fun n hn => ⟨n, mem_append_left _ hn, rfl, rfl⟩
  | updateNode k payload => exact h.updateNode hop
  | deleteNode k => exact h.deleteNode hop
  | revertNode n =>
    rcases revertAudit_ok hop with ⟨k, _, hop⟩ | ⟨k, before, _, _, hop⟩
    · exact h.deleteNode hop
    · exact h.updateNode hop
  | createFiscalYear k payload =>
    obtain ⟨_, _, _, _, _, _, _, _, _, _, _, rfl⟩ := createFiscalYear_ok hop
    exact h.mono hfounded rfl rfl (fun fy hfy => ⟨fy, mem_append_left _ hfy, rfl, rfl⟩) fun n hn => ⟨n, hn, rfl, rfl⟩
  | updateFiscalYear k y payload =>
    obtain ⟨top, fy, redated, active, _, _, _, hfind, _, hredated, _, rfl⟩ := updateFiscalYear_ok hop
    obtain ⟨hfy, _⟩ := foundYear hfind
    refine h.mono hfounded rfl rfl (same_links ?_) fun n hn => ⟨n, hn, rfl, rfl⟩
    rcases redated_ok hredated with ⟨_, rfl⟩ | ⟨year, _, _, rfl⟩
    · exact modify_links h.founded hfy rfl
    · exact modify_links h.founded hfy rfl
  | deleteFiscalYear k y =>
    obtain ⟨fy, _, _, hbooked, _, hassigned, rfl⟩ := deleteFiscalYear_ok hop
    refine h.keep hfounded (fun a ha => ⟨a, ha, rfl, rfl⟩) (fun r hr => ⟨r, hr, rfl, rfl⟩) ?_ ?_
    · intro a ha b z _ hz hown
      refine hown.mono (fun f hf hid => ⟨f, mem_filter.mpr ⟨hf, ?_⟩, rfl, rfl⟩) fun n hn => ⟨n, hn, rfl, rfl⟩
      exact decide_eq_true fun heq => hassigned a ha (by rw [hz, ← hid, heq])
    · intro r hr hown
      refine hown.mono (fun f hf hid => ⟨f, mem_filter.mpr ⟨hf, ?_⟩, rfl, rfl⟩) fun n hn => ⟨n, hn, rfl, rfl⟩
      exact decide_eq_true fun heq => hbooked r hr (hid.symm.trans heq)
  | setFiscalYearClosed k y closed now =>
    obtain ⟨fy, closedAt, hfind, rfl⟩ := setFiscalYearClosed_ok hop
    obtain ⟨hfy, _⟩ := foundYear hfind
    exact h.mono hfounded rfl rfl (same_links (modify_links h.founded hfy rfl)) fun n hn => ⟨n, hn, rfl, rfl⟩
  | setAllocation k y payload =>
    obtain ⟨_, _, rfl⟩ := allocate_ok hop
    exact h.mono hfounded rfl rfl (same_links rfl) fun n hn => ⟨n, hn, rfl, rfl⟩
  | revertAllocation n =>
    obtain ⟨_, _, rfl⟩ := allocate_ok hop
    exact h.mono hfounded rfl rfl (same_links rfl) fun n hn => ⟨n, hn, rfl, rfl⟩
  | book r =>
    obtain ⟨books, hbooks, rfl⟩ := book_ok hop
    obtain ⟨fy, _, hedits⟩ := Budget.handle_edits (booksEnv_years h.founded env) h.founded.books hbooks
    refine ⟨hfounded, ⟨h.owned.applications, ?_⟩, h.centre⟩
    refine Budget.Edits.places (P := OwnYear d) ?_ h.owned.applications hedits h.owned.bookings
    rintro _ hmem asked y hres
    obtain ⟨node, hnode, rfl⟩ := mem_map.mp hmem
    exact (resolveFiscalYear_ok hnode hres).own h.founded
  | assignBudget k payload =>
    obtain ⟨_, _, _, _, rfl | ⟨b, y, hres, rfl⟩⟩ := assignBudget_ok hop
    · exact h.place hfounded (by simp) (by simp)
    · refine h.place hfounded ?_ (by simp)
      intro b' y' hb' hy'
      cases hb'
      cases hy'
      exact hres.own h.founded
  | moveFiscalYear k y =>
    obtain ⟨_, _, _, _, b, _, hres, rfl⟩ := moveFiscalYear_ok hop
    refine h.place hfounded ?_ (by simp)
    intro b' y' hb' hy'
    cases hb'
    cases hy'
    exact hres.own h.founded
  | flowAssign k b fromField =>
    cases hop
    exact h.flowAssign hfounded hr
  | createApplication =>
    cases hop
    have hmem : ∀ a ∈ d.applications ++ [Application.mk d.next none none], a ∈ d.applications ∨ a = ⟨d.next, none, none⟩ := by
      simp
    refine ⟨hfounded, ⟨fun a ha b y hb hy => ?_, h.owned.bookings⟩, fun a ha hy => ?_⟩
    · rcases hmem a ha with ha | rfl
      · exact h.owned.applications a ha b y hb hy
      · cases hb
    · rcases hmem a ha with ha | rfl
      · exact h.centre a ha hy
      · exact absurd rfl hy
  | deleteApplication k =>
    obtain rfl := deleteApplication_ok hop
    refine h.keep hfounded (fun a ha => ⟨a, mem_of_mem_filter ha, rfl, rfl⟩) ?_ (fun _ _ _ _ _ _ hown => hown)
      fun _ _ hown => hown
    refine forall_mem_map.mpr fun r hr => ⟨r, hr, ?_⟩
    split <;> exact ⟨rfl, rfl⟩

theorem followsYear_of_owned (h : Settled d) {r : Request} (hop : r.handle env d = .ok d') (howned : Owned d') :
    r.FollowsYear env d := by
  cases r with
  | flowAssign k b fromField =>
    intro app hmem hid node hnmem hnid
    have happ : d.applications.find? (fun a => a.id = k) = some app := Table.find_of_mem h.founded.apps hmem hid
    have hnode : d.nodes.find? (fun n => n.id = b) = some node := Table.find_of_mem h.founded.treed.keyed.ids hnmem hnid
    cases hskip : d.flowSkips env app node fromField with
    | true => exact .inl rfl
    | false =>
      cases hcurrent : d.currentYear env node with
      | some picked => exact .inr (.inl rfl)
      | none =>
        cases hy : app.fiscalYearId with
        | none => exact .inr (.inr (.inl rfl))
        | some y =>
          obtain ⟨c, hc⟩ := Option.ne_none_iff_exists'.mp (h.centre app hmem (by simp [hy]))
          have hold := h.owned.applications app hmem c y hc hy
          have hnew : OwnYear d node.id y := by
            cases hop
            have hplaced : flowAssign env k b fromField d = d.place k (some node.id) (some y) := by
              rw [BudgetTree.flowAssign, happ, hnode]
              simp [hskip, hcurrent, hy]
            rw [hplaced] at howned
            exact howned.applications ⟨app.id, some node.id, some y⟩
              (mem_map.mpr ⟨app, hmem, if_pos hid⟩) node.id y rfl rfl
          obtain ⟨old, holdmem, rfl⟩ : ∃ old ∈ d.nodes, old.id = c := by
            obtain ⟨_, _, _, top, htop, _, _, hanc⟩ := hold
            rcases Relation.ReflTransGen.cases_tail hanc with heq | ⟨_, _, n, hn, hnc, _⟩
            · exact ⟨top, htop, heq.symm⟩
            · exact ⟨n, hn, hnc⟩
          exact .inr (.inr (.inr ⟨old, holdmem, hc, sharesTop_of_own h.founded holdmem hnmem hold hnew⟩))
  | _ => trivial

end Steps

theorem emptyDb_settled : Settled emptyDb where
  founded := emptyDb_founded
  owned := ⟨by simp [emptyDb], by simp [emptyDb, Budget.emptyDb]⟩
  centre := by simp [emptyDb]

def FollowsYears (rs : List (Env × Request)) : Prop :=
  Runs.Guarded (fun p d => p.2.FollowsYear p.1 d) step emptyDb rs

instance (rs : List (Env × Request)) : Decidable (FollowsYears rs) :=
  inferInstanceAs (Decidable (Runs.Guarded (fun p d => p.2.FollowsYear p.1 d) step emptyDb rs))

theorem run_settled {rs : List (Env × Request)} {d : Db} (hfollows : FollowsYears rs)
    (hrun : Runs.run step emptyDb rs = some d) : Settled d :=
  Runs.guarded_run (fun h hr hop => h.handle hr (toOption_some.mp hop)) emptyDb_settled hfollows hrun

/-- In every run whose flow actions follow the years, the fiscal year of an application
and of a booking belongs to the top-level budget of its cost centre; a further request
breaks this exactly when it is a flow action that does not follow the year. -/
theorem run_owned {rs : List (Env × Request)} {d : Db} (hfollows : FollowsYears rs)
    (hrun : Runs.run step emptyDb rs = some d) :
    Owned d ∧ ∀ env r d', step (env, r) d = some d' → (Owned d' ↔ r.FollowsYear env d) := by
  have h := run_settled hfollows hrun
  exact ⟨h.owned, fun env r d' hop => ⟨followsYear_of_owned h (toOption_some.mp hop),
    fun hr => (h.handle hr (toOption_some.mp hop)).owned⟩⟩

/-- An application in the year of one top-level budget, and a cost centre below another. -/
def assigned : List (Env × Request) :=
  [centre "VS", centre "FS", centre "10" (some 1), .createFiscalYear 0 { year := 2024 }, .createApplication,
    .assignBudget 4 { budgetId := some 0 }].map fun r => (desk, r)

def followed : List (Env × Request) :=
  assigned ++ [.createFiscalYear 1 { year := 2024 }, .flowAssign 4 2 false].map fun r => (desk, r)

theorem followed_owned : ∃ d, Runs.run step emptyDb followed = some d ∧ Owned d ∧
    d.applications = [⟨4, some 2, some 5⟩] := by
  have hfollows : FollowsYears followed := by decide +kernel
  have hrun : (Runs.run step emptyDb followed).map Db.applications = some [⟨4, some 2, some 5⟩] := by decide +kernel
  obtain ⟨d, hd, happs⟩ := Option.map_eq_some_iff.mp hrun
  exact ⟨d, hd, (run_owned hfollows hd).1, happs⟩

/-- The flow action where the other budget has no fiscal year. -/
theorem stranded_notOwned : ∃ d d', Runs.run step emptyDb assigned = some d ∧
    step (desk, .flowAssign 4 2 false) d = some d' ∧ ¬ Owned d' ∧ d'.applications = [⟨4, some 2, some 3⟩] ∧
    d'.years.map FiscalYear.link = [(3, 0)] := by
  have hfollows : FollowsYears assigned := by decide +kernel
  have hrun : (Runs.run step emptyDb assigned).map (fun d =>
      let d' := flowAssign desk 4 2 false d
      (decide ((Request.flowAssign 4 2 false).FollowsYear desk d), d'.applications, d'.years.map FiscalYear.link)) =
      some (false, [⟨4, some 2, some 3⟩], [(3, 0)]) := by decide +kernel
  obtain ⟨d, hd, hrows⟩ := Option.map_eq_some_iff.mp hrun
  refine ⟨d, _, hd, rfl, fun howned => ?_, congrArg (fun p => p.2.1) hrows, congrArg (fun p => p.2.2) hrows⟩
  exact of_decide_eq_false (congrArg Prod.fst hrows) (followsYear_of_owned (run_settled hfollows hd) rfl howned)

end BudgetTree
