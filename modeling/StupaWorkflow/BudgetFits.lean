import StupaWorkflow.BudgetVisibility

/-!
The remainder of a cost centre as the flow guard computes it, beside the figures that the tree
view shows for the same node and year.
-/
namespace BudgetTree
open Py hiding Date
open List hiding splitOn
open Budget (Uuid BudgetExpense)
open Allocation (isValidKey asAmount BudgetAllocation)
open PathTree (Rose Keyed Child treeAt)

section Guard

def committedAmount (requested approved : Option ℚ) : Option ℚ := approved.or requested

def signedAmount (r : BudgetExpense) : ℚ := if r.kind = .income then r.amount else -r.amount

/-- What the guard takes as the free remainder of a cost centre in a year. -/
def Db.available (d : Db) (budgetId fiscalYearId : Uuid) : ℚ :=
  let allocated := (d.allocations.find? fun a => a.key = (budgetId, fiscalYearId)).map BudgetAllocation.allocated
  let flow := ((d.books.bookings.filter fun r => r.budgetId = budgetId && r.fiscalYearId = fiscalYearId).map signedAmount).sum
  asAmount allocated + flow

def Db.budgetFits (d : Db) (app : ApplicationRow) : Bool :=
  match app.budgetId, app.fiscalYearId, committedAmount app.amount app.approvedAmount with
  | some budgetId, some fiscalYearId, some amount => amount ≤ d.available budgetId fiscalYearId
  | _, _, _ => false

def shownRemainder (forest : List (Rose NodeView)) (k year : Uuid) : ℚ :=
  (((forest.flatMap Rose.labels).find? fun v => v.id = k).bind fun v =>
    v.byFiscalYear.find? fun a => a.fiscalYearId = year).elim 0 fun a => a.allocated - a.expended + a.income

def Db.subBooked (d : Db) (budgetId fiscalYearId : Uuid) : ℚ :=
  ((d.books.bookings.filter fun r =>
    (r.budgetId = budgetId && r.fiscalYearId = fiscalYearId) && r.parentExpenseId.isSome).map signedAmount).sum

end Guard

section Order

variable {nodes : List Node}

theorem mapM_isSome {α β : Type} {f : α → Option β} {l : List α} (h : ∀ a ∈ l, (f a).isSome) : (l.mapM f).isSome := by
  induction l with
  | nil => rfl
  | cons a l ih =>
    have hrest := ih fun x hx => h x (mem_cons_of_mem a hx)
    have hfirst := h a mem_cons_self
    rw [mapM_cons]
    cases hb : f a with
    | none => simp [hb] at hfirst
    | some b =>
      cases hbs : l.mapM f with
      | none => simp [hbs] at hrest
      | some bs => rfl

theorem decimalValue_of_ascii {s : Text} (hdigit : isDigitText s = true) (hascii : ∀ c ∈ s, c < 128) :
    ∀ c ∈ s, (decimalValue c).isSome := by
  intro c hc
  simp only [isDigitText, Bool.and_eq_true, all_eq_true, Bool.or_eq_true] at hdigit
  rcases hdigit.2 c hc with hvalue | hspecial
  · exact hvalue
  · obtain ⟨range, hrange, hle⟩ := any_eq_true.mp hspecial
    have hfirst : ∀ range ∈ specialDigits, 128 ≤ range.1 := by decide
    have hlow := hfirst range hrange
    have hc' := hascii c hc
    simp only [Bool.and_eq_true, decide_eq_true_eq] at hle
    omega

theorem isValidKey_ascii {key : Text} (h : isValidKey key = true) : ∀ c ∈ key, c < 128 := by
  have halnum : ∀ {c : ℕ}, Allocation.isAlnum c = true → c < 128 := by
    intro c hc
    simp only [Allocation.isAlnum, isDigit, Bool.or_eq_true, Bool.and_eq_true, decide_eq_true_eq] at hc
    omega
  simp only [isValidKey, Bool.and_eq_true, all_eq_true] at h
  have hbody := h.2
  split at hbody
  next hlast =>
    intro c hc
    rw [← dropLast_append_getLast? 10 hlast, mem_append] at hc
    rcases hc with hc | hc
    · exact halnum (hbody c hc)
    · rw [mem_singleton.mp hc]
      decide
  next => exact fun c hc => halnum (hbody c hc)

theorem PathKeyed.segments (h : PathKeyed nodes) : ∀ n ∈ nodes, ∀ s ∈ splitOn 45 n.pathKey, isValidKey s = true := by
  refine h.keyed.induction ?_ ?_
  · intro n hn hp s hs
    rw [h.keyed.top n hn hp, splitOn_absent (h.keyed.plain n hn), mem_singleton] at hs
    rw [hs]
    exact h.valid n hn
  · intro n hn q hq hp hpath ih s hs
    rw [hpath, splitOn_join, splitOn_absent (h.keyed.plain n hn), mem_append, mem_singleton] at hs
    rcases hs with hs | rfl
    · exact ih s hs
    · exact h.valid n hn

theorem PathKeyed.naturalPathKey (h : PathKeyed nodes) : ∀ n ∈ nodes, (naturalPathKey n.pathKey).isSome := by
  intro n hn
  refine mapM_isSome fun s hs => ?_
  have hvalid := h.segments n hn s hs
  split
  next hdigit =>
    have hlen : s.length ≤ 64 := by
      simp only [isValidKey, Bool.and_eq_true, decide_eq_true_eq] at hvalid
      exact hvalid.1.1
    have hread := mapM_isSome (decimalValue_of_ascii hdigit (isValidKey_ascii hvalid))
    rw [intOfDigits, if_pos (hlen.trans (by decide)), Option.isSome_map, Option.isSome_map]
    exact hread
  next => rfl

theorem PathKeyed.getTree {d : Db} (h : PathKeyed d.nodes) (applications : List ApplicationRow) :
    ∃ nodes, nodes.Perm d.nodes ∧ d.getTree applications = some (buildForest nodes (d.figures applications nodes)) := by
  have hall : d.nodes.all (fun n => (BudgetTree.naturalPathKey n.pathKey).isSome) = true :=
    all_eq_true.mpr h.naturalPathKey
  refine ⟨_, perm_insertionSort (fun a b : Node => pathKeyLe a.pathKey b.pathKey) d.nodes, ?_⟩
  rw [Db.getTree, naturalOrder, if_pos hall]
  rfl

end Order

section Sums

variable {sums : Sums} {k y : Uuid} {v : ℚ}

theorem Sums.at_eq (hvalue : ∀ e ∈ sums, e.1 = (k, y) → e.2 = v) (hentry : v ≠ 0 → ∃ e ∈ sums, e.1 = (k, y)) :
    sums.at k y = v := by
  rw [Sums.at]
  cases hlast : (sums.filter fun e => e.1 = (k, y)).getLast? with
  | none =>
    rw [getLast?_eq_none_iff, filter_eq_nil_iff] at hlast
    by_contra hne
    obtain ⟨e, he, hkey⟩ := hentry (Ne.symm hne)
    exact hlast e he (decide_eq_true hkey)
  | some e =>
    obtain ⟨he, hkey⟩ := mem_filter.mp (mem_of_getLast? hlast)
    exact hvalue e he (of_decide_eq_true hkey)

theorem Sums.at_absent (h : ∀ e ∈ sums, e.1 ≠ (k, y)) : sums.at k y = 0 :=
  Sums.at_eq (fun e he hkey => absurd hkey (h e he)) fun hne => absurd rfl hne

variable {nodes : List Node} {rows : List LeafRow} {n : Node}

def rolledUp (rows : List LeafRow) (path : Text) (year : Uuid) : ℚ :=
  ((rows.filter fun row => row.1 = year && isSelfOrDescendantPath path row.2.1).map fun row => asAmount row.2.2).sum

theorem rollupCommitted_total (path : Text) (year : Uuid) (rows : List LeafRow) :
    ((((rows.filter fun row => row.1 = year).map fun row => row.2).filter fun leaf =>
      isSelfOrDescendantPath path leaf.1).map fun leaf => asAmount leaf.2).sum = rolledUp rows path year := by
  rw [rolledUp, filter_map, map_map, filter_filter]
  congr 2
  refine filter_congr fun row _ => ?_
  rw [Bool.and_comm]
  rfl

theorem mem_rollupByFy {e : (Uuid × Uuid) × ℚ} : e ∈ rollupByFy (nodes.map fun n => (n.id, n.pathKey)) rows ↔
    e.1.2 ∈ rows.map (fun row => row.1) ∧ e.2 ≠ 0 ∧ ∃ n ∈ nodes, n.id = e.1.1 ∧ e.2 = rolledUp rows n.pathKey e.1.2 := by
  obtain ⟨⟨k, y⟩, v⟩ := e
  simp only [rollupByFy, rollupCommitted, map_map, mem_flatMap, mem_eraseDups, mem_map, mem_filter,
    Function.comp_apply, rollupCommitted_total, Prod.mk.injEq, ne_eq, decide_eq_true_eq]
  constructor
  · rintro ⟨_, hy, _, ⟨⟨n, hn, rfl⟩, hne⟩, ⟨rfl, rfl⟩, rfl⟩
    exact ⟨hy, hne, n, hn, rfl, rfl⟩
  · rintro ⟨hy, hne, n, hn, rfl, rfl⟩
    exact ⟨y, hy, _, ⟨⟨n, hn, rfl⟩, hne⟩, ⟨rfl, rfl⟩, rfl⟩

theorem rollupByFy_at (hids : (nodes.map Node.id).Nodup) (hn : n ∈ nodes) :
    (rollupByFy (nodes.map fun n => (n.id, n.pathKey)) rows).at n.id y = rolledUp rows n.pathKey y := by
  refine Sums.at_eq ?_ fun hne => ?_
  · intro e he hkey
    obtain ⟨_, _, n', hn', hid, hvalue⟩ := mem_rollupByFy.mp he
    rw [hkey] at hid hvalue
    rw [hvalue, inj_on_of_nodup_map hids hn' hn hid]
  · have hyear : y ∈ rows.map fun row => row.1 := by
      by_contra habsent
      refine hne ?_
      have hnone : rows.filter (fun row => row.1 = y && isSelfOrDescendantPath n.pathKey row.2.1) = [] := by
        rw [filter_eq_nil_iff]
        intro row hrow hkeep
        simp only [Bool.and_eq_true, decide_eq_true_eq] at hkeep
        exact habsent (mem_map.mpr ⟨row, hrow, hkeep.1⟩)
      rw [rolledUp, hnone, map_nil, sum_nil]
    exact ⟨((n.id, y), rolledUp rows n.pathKey y), mem_rollupByFy.mpr ⟨hyear, hne, n, hn, rfl, rfl⟩, rfl⟩

/-- The entry of a year without figures. -/
def emptyView (year : Uuid) : AllocationView := ⟨year, 0, 0, 0, 0, 0, 0, 0⟩

theorem view_absent (t : Tables) (k : Uuid) (habsent : y ∉ t.years k) : t.view k y = emptyView y := by
  have hzero : ∀ sums : Sums, (∀ e ∈ sums, e.1.1 = k → e.1.2 ∈ t.years k) → sums.at k y = 0 := by
    intro sums hsums
    refine Sums.at_absent fun e he hkey => ?_
    have := hsums e he (by rw [hkey])
    rw [hkey] at this
    exact habsent this
  have hyears : ∀ e ∈ t.allocByNode ++ t.boundByNode ++ t.requestedByNode ++ t.expendedByNode ++ t.incomeByNode,
      e.1.1 = k → e.1.2 ∈ t.years k := by
    intro e he hk
    exact mem_eraseDups.mpr (mem_map.mpr ⟨e, mem_filter.mpr ⟨he, decide_eq_true hk⟩, rfl⟩)
  rw [Tables.view, hzero t.allocByNode fun e he => hyears e (by simp [he]), hzero t.boundByNode fun e he => hyears e (by simp [he]),
    hzero t.requestedByNode fun e he => hyears e (by simp [he]), hzero t.expendedByNode fun e he => hyears e (by simp [he]),
    hzero t.incomeByNode fun e he => hyears e (by simp [he])]
  simp [emptyView, nodeAvailable, asAmount]

theorem viewsForNode_figure (t : Tables) (k y : Uuid) {figure : AllocationView → ℚ} (hempty : figure (emptyView y) = 0) :
    ((t.viewsForNode k).find? fun a => a.fiscalYearId = y).elim 0 figure = figure (t.view k y) := by
  cases hfind : (t.viewsForNode k).find? fun a => a.fiscalYearId = y with
  | some a =>
    obtain ⟨y', _, rfl⟩ := mem_map.mp (mem_of_find?_eq_some hfind)
    have hyear : y' = y := by
      have hfound := find?_some hfind
      exact of_decide_eq_true hfound
    rw [hyear]
    rfl
  | none =>
    have habsent : y ∉ t.years k := by
      intro hyear
      have hview : t.view k y ∈ t.viewsForNode k :=
        mem_map_of_mem ((mem_insertionSort _).mpr hyear)
      simpa [Tables.view] using find?_eq_none.mp hfind _ hview
    rw [view_absent t k habsent, hempty]
    rfl

theorem viewsForNode_remainder (t : Tables) (k y : Uuid) :
    ((t.viewsForNode k).find? fun a => a.fiscalYearId = y).elim 0 (fun a => a.allocated - a.expended + a.income) =
      t.allocByNode.at k y - t.expendedByNode.at k y + t.incomeByNode.at k y :=
  viewsForNode_figure t k y (by simp [emptyView])

end Sums

section Shown

variable {nodes : List Node} {f : Figures} {n : Node} {y : Uuid}

theorem shownRemainder_eq (h : PathKeyed nodes) (hn : n ∈ nodes) :
    shownRemainder (buildForest nodes f) n.id y =
      (f.tables nodes).allocByNode.at n.id y - rolledUp f.expendedRows n.pathKey y + rolledUp f.incomeRows n.pathKey y := by
  have hids : ((forestNodes nodes).map Node.id).Nodup := by
    refine (forestNodes_nodup h.keyed).map_on fun a ha b hb hid => ?_
    exact h.keyed.unique ((mem_forestNodes h.keyed).mp ha) ((mem_forestNodes h.keyed).mp hb) hid
  have hfind : (forestNodes nodes).find? (fun m => m.id = n.id) = some n :=
    Table.find_of_mem hids ((mem_forestNodes h.keyed).mpr hn) rfl
  rw [shownRemainder, labels_buildForest, find?_map]
  change (((forestNodes nodes).find? fun m => m.id = n.id).map _ |>.bind _).elim _ _ = _
  rw [hfind, Option.map_some, Option.bind_some]
  refine (viewsForNode_remainder (f.tables nodes) n.id y).trans ?_
  rw [Figures.tables, rollupByFy_at h.keyed.ids hn, rollupByFy_at h.keyed.ids hn]

end Shown

section Leaf

variable {d : Db} {n : Node} {y : Uuid}

theorem allocByNode_at (hkeys : (d.allocations.map BudgetAllocation.key).Nodup) (k y : Uuid)
    (applications : List ApplicationRow) (nodes : List Node) :
    ((d.figures applications nodes).tables nodes).allocByNode.at k y =
      asAmount ((d.allocations.find? fun a => a.key = (k, y)).map BudgetAllocation.allocated) := by
  have hmem : ∀ e : (Uuid × Uuid) × ℚ, e ∈ ((d.figures applications nodes).tables nodes).allocByNode ↔
      ∃ a ∈ d.allocations, (a.key, a.allocated) = e := by
    intro e
    simp only [Figures.tables, Db.figures, map_map, mem_map]
    rfl
  refine Sums.at_eq ?_ fun hne => ?_
  · intro e he hkey
    obtain ⟨a, ha, rfl⟩ := (hmem e).mp he
    have hfind : d.allocations.find? (fun a => a.key = (k, y)) = some a := Table.find_of_mem hkeys ha hkey
    rw [hfind]
    rfl
  · cases hfind : d.allocations.find? fun a => a.key = (k, y) with
    | none =>
      rw [hfind] at hne
      exact absurd rfl hne
    | some a =>
      obtain ⟨ha, hkey⟩ := Table.of_find hfind
      exact ⟨(a.key, a.allocated), (hmem _).mpr ⟨a, ha, rfl⟩, hkey⟩

theorem leaf_path (h : PathKeyed d.nodes) (hn : n ∈ d.nodes) (hleaf : ∀ m ∈ d.nodes, m.parentId ≠ some n.id) {b : Node}
    (hb : b ∈ d.nodes) : isSelfOrDescendantPath n.pathKey b.pathKey = true ↔ b.id = n.id := by
  rw [isSelfOrDescendantPath, isDescendantPath, Bool.or_eq_true, decide_eq_true_eq, isPrefixOf_iff_prefix, eq_comm,
    h.keyed.self_or_prefix_iff hn hb]
  constructor
  · intro hreach
    rcases Relation.ReflTransGen.cases_head hreach with heq | ⟨_, ⟨c, hc, rfl, hp⟩, _⟩
    · exact heq.symm
    · exact absurd hp (hleaf c hc)
  · intro hid
    rw [hid]

theorem rolledUp_append (rows rows' : List LeafRow) (path : Text) :
    rolledUp (rows ++ rows') path y = rolledUp rows path y + rolledUp rows' path y := by
  rw [rolledUp, filter_append, map_append, sum_append]
  rfl

def counted (n : Node) (y : Uuid) (kind : Budget.ExpenseKind) (r : BudgetExpense) : Bool :=
  (r.budgetId = n.id && r.fiscalYearId = y) && r.kind = kind

theorem rolledUp_booking (h : PathKeyed d.nodes) (hn : n ∈ d.nodes) (hleaf : ∀ m ∈ d.nodes, m.parentId ≠ some n.id)
    (kind : Budget.ExpenseKind) (r : BudgetExpense) :
    rolledUp ((((d.nodes.filter fun b => b.id = r.budgetId).map fun b =>
      ExpenseRow.mk b.pathKey r.fiscalYearId r.amount r.kind r.applicationId).filter fun e => e.kind = kind).map
        ExpenseRow.leaf) n.pathKey y = if counted n y kind r then r.amount else 0 := by
  rw [Table.filter_key h.keyed.ids r.budgetId]
  cases hfind : d.nodes.find? fun b => b.id = r.budgetId with
  | none =>
    have hother : r.budgetId ≠ n.id := fun hid => by
      simpa [hid] using find?_eq_none.mp hfind n hn
    simp [counted, hother, rolledUp]
  | some b =>
    obtain ⟨hb, hid⟩ := Table.of_find hfind
    have hpath := leaf_path h hn hleaf hb
    rw [hid] at hpath
    by_cases hkind : r.kind = kind <;> by_cases hy : r.fiscalYearId = y <;> by_cases hk : r.budgetId = n.id <;>
      simp [counted, rolledUp, ExpenseRow.leaf, hkind, hy, hk, hpath, asAmount]

theorem rolledUp_leaf (h : PathKeyed d.nodes) (hn : n ∈ d.nodes) (hleaf : ∀ m ∈ d.nodes, m.parentId ≠ some n.id)
    (kind : Budget.ExpenseKind) :
    rolledUp ((d.expenseRows.filter fun e => e.kind = kind).map ExpenseRow.leaf) n.pathKey y =
      (((d.books.bookings.filter fun r => r.parentExpenseId = none).filter (counted n y kind)).map
        BudgetExpense.amount).sum := by
  rw [Db.expenseRows]
  induction d.books.bookings.filter fun r => r.parentExpenseId = none with
  | nil => rfl
  | cons r rest ih =>
    rw [flatMap_cons, filter_append, map_append, rolledUp_append, rolledUp_booking h hn hleaf, ih]
    by_cases hr : counted n y kind r = true
    · rw [if_pos hr, filter_cons_of_pos hr, map_cons, sum_cons]
    · rw [if_neg hr, filter_cons_of_neg hr, zero_add]

theorem signed_split (n : Node) (y : Uuid) (bookings : List BudgetExpense) :
    ((bookings.filter fun r => r.budgetId = n.id && r.fiscalYearId = y).map signedAmount).sum =
      -(((bookings.filter fun r => r.parentExpenseId = none).filter (counted n y .expense)).map BudgetExpense.amount).sum +
        (((bookings.filter fun r => r.parentExpenseId = none).filter (counted n y .income)).map BudgetExpense.amount).sum +
        ((bookings.filter fun r =>
          (r.budgetId = n.id && r.fiscalYearId = y) && r.parentExpenseId.isSome).map signedAmount).sum := by
  induction bookings with
  | nil => norm_num
  | cons r rest ih =>
    by_cases hk : r.budgetId = n.id ∧ r.fiscalYearId = y
    · cases hp : r.parentExpenseId <;> cases hkind : r.kind <;>
        simp only [filter_cons, counted, hk.1, hk.2, hp, hkind, signedAmount, decide_true, decide_false, reduceCtorEq,
          Option.isSome_none, Option.isSome_some, Bool.and_true, Bool.and_false, Bool.false_eq_true, if_true, if_false,
          map_cons, sum_cons, ih] <;>
        ring
    · have hother : (decide (r.budgetId = n.id) && decide (r.fiscalYearId = y)) = false := by
        simpa [not_and] using hk
      cases hp : r.parentExpenseId <;>
        simp only [filter_cons, counted, hother, hp, decide_true, decide_false, reduceCtorEq, Bool.false_and,
          Bool.false_eq_true, if_true, if_false, ih]

theorem available_eq (h : PathKeyed d.nodes) (hkeys : (d.allocations.map BudgetAllocation.key).Nodup) (hn : n ∈ d.nodes)
    (hleaf : ∀ m ∈ d.nodes, m.parentId ≠ some n.id) {nodes : List Node} (hperm : nodes.Perm d.nodes)
    (applications : List ApplicationRow) :
    d.available n.id y =
      shownRemainder (buildForest nodes (d.figures applications nodes)) n.id y + d.subBooked n.id y := by
  rw [shownRemainder_eq (h.perm hperm) (hperm.mem_iff.mpr hn), allocByNode_at hkeys, Db.figures, Db.available, Db.subBooked,
    signed_split]
  simp only [rolledUp_leaf h hn hleaf]
  ring

/-- On a leaf cost centre and a year the guard takes what the view shows iff the
sub-bookings there sum to nothing; without sub-bookings they do. -/
theorem available_agrees (h : PathKeyed d.nodes) (hkeys : (d.allocations.map BudgetAllocation.key).Nodup) (hn : n ∈ d.nodes)
    (hleaf : ∀ m ∈ d.nodes, m.parentId ≠ some n.id) (applications : List ApplicationRow) (y : Uuid) :
    ∃ forest, d.getTree applications = some forest ∧
      (d.available n.id y = shownRemainder forest n.id y ↔ d.subBooked n.id y = 0) := by
  obtain ⟨nodes, hperm, htree⟩ := h.getTree applications
  refine ⟨_, htree, ?_⟩
  rw [available_eq h hkeys hn hleaf hperm applications, add_eq_left]

end Leaf

def booked : List (Env × Request) :=
  [centre "VS", centre "800" (some 0), centre "900" (some 0), .createFiscalYear 0 { year := 2024 },
    .setAllocation 0 3 ⟨1000⟩, .setAllocation 1 3 ⟨400⟩,
    .book (.createExpense
      { amount := 100, description := text "trip", budgetId := some 1, fiscalYearId := some 3 } (text "ada")),
    .book (.createTransfer ⟨1, 2, 3, 50, text "share"⟩ (text "ada"))].map fun r => (desk, r)

theorem booked_agrees : ∃ d forest, Runs.run step emptyDb booked = some d ∧ d.getTree [] = some forest ∧
    d.available 1 3 = 250 ∧ shownRemainder forest 1 3 = 250 := by
  have hrun : (Runs.run step emptyDb booked).map (fun d => (d.available 1 3, d.subBooked 1 3,
      d.nodes.map fun n => (n.id, n.parentId))) = some (250, 0, [(0, none), (1, some 0), (2, some 0)]) := by decide +kernel
  have hkeys : (Runs.run step emptyDb booked).map (fun d => d.allocations.map BudgetAllocation.key) =
      some [(0, 3), (1, 3)] := by decide +kernel
  obtain ⟨d, hd, hread⟩ := Option.map_eq_some_iff.mp hrun
  rw [hd, Option.map_some, Option.some.injEq] at hkeys
  simp only [Prod.mk.injEq] at hread
  obtain ⟨havailable, hsub, hrows⟩ := hread
  have hmem : ((1, some 0) : Uuid × Option Uuid) ∈ d.nodes.map fun n => (n.id, n.parentId) := by simp [hrows]
  obtain ⟨n, hn, hid⟩ := mem_map.mp hmem
  rw [Prod.mk.injEq] at hid
  have hleaf : ∀ m ∈ d.nodes, m.parentId ≠ some n.id := by
    intro m hm hp
    have hrow : (m.id, m.parentId) ∈ d.nodes.map fun n => (n.id, n.parentId) := mem_map_of_mem hm
    rw [hrows, hp, hid.1] at hrow
    simp at hrow
  obtain ⟨forest, htree, hiff⟩ := available_agrees (run_pathKeyed hd) (by rw [hkeys]; decide) hn hleaf [] 3
  rw [hid.1] at hiff
  exact ⟨d, forest, hd, htree, havailable, (hiff.mpr hsub).symm.trans havailable⟩

def split : List (Env × Request) :=
  [centre "VS", .createFiscalYear 0 { year := 2024 }, .setAllocation 0 1 ⟨1000⟩,
    .book (.createExpense
      { amount := 100, description := text "trip", budgetId := some 0, fiscalYearId := some 1 } (text "ada")),
    .book (.createSubBooking 0 { amount := 40, description := text "train" } (text "ada")),
    .book (.createSubBooking 0 { amount := 60, description := text "hotel" } (text "ada"))].map fun r => (desk, r)

/-- The view shows 900 of 1000, and an application over 850 does not fit. -/
theorem split_differs : ∃ d forest, Runs.run step emptyDb split = some d ∧ d.getTree [] = some forest ∧
    shownRemainder forest 0 1 = 900 ∧ d.available 0 1 = 800 ∧
    d.budgetFits { id := 9, budgetId := some 0, fiscalYearId := some 1, amount := some 850 } = false := by
  have hrun : (Runs.run step emptyDb split).map (fun d => ((d.getTree []).map fun f => shownRemainder f 0 1,
      d.available 0 1, d.budgetFits { id := 9, budgetId := some 0, fiscalYearId := some 1, amount := some 850 })) =
      some (some 900, 800, false) := by decide +kernel
  obtain ⟨d, hd, hread⟩ := Option.map_eq_some_iff.mp hrun
  simp only [Prod.mk.injEq] at hread
  obtain ⟨forest, htree, hshown⟩ := Option.map_eq_some_iff.mp hread.1
  exact ⟨d, forest, hd, htree, hshown, hread.2.1, hread.2.2⟩

end BudgetTree
