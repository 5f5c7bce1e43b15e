import StupaWorkflow.AllocationModel
import StupaWorkflow.Runs
import StupaWorkflow.Shares

/-!
The allocations of a year are shares: no cost centre hands down more than it holds. A set keeps
this, since both checks read whole cents and the stored value is rounded.
-/
namespace Allocation
open Py Decimals List
open Budget (Uuid Problem FiscalYear refuseClosed)

def Db.amount (d : Db) (fiscalYearId budgetId : Uuid) : ℚ :=
  asAmount ((d.allocation budgetId fiscalYearId).map BudgetAllocation.allocated)

/-- In every year, what the children of a cost centre hold is at most its own amount. -/
def Within (d : Db) : Prop := ∀ fy, Shares.Within Node.id Node.parentId d.budgets (d.amount fy)

def Db.store (d : Db) (budgetId fiscalYearId : Uuid) (new : ℚ) : Db :=
  d.write (d.allocation budgetId fiscalYearId) ⟨budgetId, fiscalYearId, cents new⟩

structure Wf (d : Db) : Prop where
  ids : (d.budgets.map Node.id).Nodup
  below : ∀ b ∈ d.budgets, b.id < d.next
  self : ∀ b ∈ d.budgets, b.parentId ≠ some b.id
  parent : ∀ b ∈ d.budgets, ∀ p, b.parentId = some p → ∃ x ∈ d.budgets, x.id = p
  keys : (d.allocations.map BudgetAllocation.key).Nodup
  owner : ∀ a ∈ d.allocations, ∃ b ∈ d.budgets, b.id = a.budgetId
  rounded : ∀ a ∈ d.allocations, cents a.allocated = a.allocated

section Lookups

variable {env : Env} {d d' : Db} {fy k : Uuid}

theorem getNode_ok {b : Node} (h : d.getNode k = .ok b) : b ∈ d.budgets ∧ b.id = k := Table.of_find (foundOr_ok h)

theorem Wf.amount_rounded (h : Wf d) (fy k : Uuid) : cents (d.amount fy k) = d.amount fy k := by
  rw [Db.amount]
  cases hrow : d.allocation k fy with
  | none => norm_num [asAmount, cents]
  | some a => exact h.rounded a (Table.of_find hrow).1

theorem Wf.fresh_amount (h : Wf d) (hk : d.next ≤ k) : d.amount fy k = 0 := by
  have hnone : d.allocation k fy = none := by
    rw [Db.allocation, find?_eq_none]
    intro a ha hkey
    have hid : a.budgetId = k := congrArg Prod.fst (of_decide_eq_true hkey)
    obtain ⟨b, hb, hba⟩ := h.owner a ha
    have hlt := h.below b hb
    rw [hba, hid] at hlt
    exact absurd hlt (not_lt.mpr hk)
  rw [Db.amount, hnone]
  rfl

theorem Wf.rows (h : Wf d) (k fy : Uuid) :
    (d.allocations.filter fun a => a.key = (k, fy)) = (d.allocation k fy).toList :=
  Table.filter_key h.keys (k, fy)

theorem Wf.childrenAllocSum (h : Wf d) (p fy : Uuid) (exclude : Option Uuid) :
    d.childrenAllocSum p fy exclude =
      Shares.heldBy Node.id Node.parentId d.budgets (fun b => some b.id ≠ exclude) (d.amount fy) p := by
  rw [Db.childrenAllocSum, Shares.heldBy]
  simp only [h.rows]
  induction d.budgets with
  | nil => rfl
  | cons b rows ih =>
    by_cases hp : b.parentId = some p
    · rw [filter_cons_of_pos (by simp [hp]), flatMap_cons, filter_append, map_append,
        sum_append, ih]
      by_cases hb : some b.id = exclude
      · rw [filter_cons_of_neg (by simp [hb])]
        have hnone : ((d.allocation b.id fy).toList.map fun a => (b.id, a.allocated)).filter
            (fun row => some row.1 ≠ exclude) = [] := by
          rw [filter_eq_nil_iff]
          intro row hrow
          obtain ⟨a, _, rfl⟩ := mem_map.mp hrow
          simp [hb]
        rw [hnone, map_nil, sum_nil, zero_add]
      · rw [filter_cons_of_pos (by simp [hp, hb]), map_cons, sum_cons]
        congr 1
        cases hrow : d.allocation b.id fy with
        | none => simp [Db.amount, hrow, asAmount]
        | some a => simp [Db.amount, hrow, asAmount, hb]
    · rw [filter_cons_of_neg (by simp [hp]), filter_cons_of_neg (by simp [hp]), ih]

theorem Wf.childrenAllocSum_all (h : Wf d) (p fy : Uuid) :
    d.childrenAllocSum p fy none = Shares.held Node.id Node.parentId d.budgets (d.amount fy) p := by
  rw [h.childrenAllocSum, Shares.held]
  rfl

theorem Wf.held_rounded (h : Wf d) (p fy : Uuid) (c : Node → Bool) :
    cents (Shares.heldBy Node.id Node.parentId d.budgets c (d.amount fy) p) =
      Shares.heldBy Node.id Node.parentId d.budgets c (d.amount fy) p := by
  refine cents_sum fun a ha => ?_
  obtain ⟨b, _, rfl⟩ := mem_map.mp ha
  exact h.amount_rounded fy b.id

end Lookups

section Writes

variable {env : Env} {d d' : Db} {fy k : Uuid}

theorem store_budgets (d : Db) (k fy : Uuid) (new : ℚ) : (d.store k fy new).budgets = d.budgets := by
  unfold Db.store Db.write
  split <;> rfl

theorem store_next (d : Db) (k fy : Uuid) (new : ℚ) : (d.store k fy new).next = d.next := by
  unfold Db.store Db.write
  split <;> rfl

theorem store_allocation (d : Db) (k fy : Uuid) (new : ℚ) (k' fy' : Uuid) :
    (d.store k fy new).allocation k' fy' =
      if (k', fy') = (k, fy) then some ⟨k, fy, cents new⟩ else d.allocation k' fy' := by
  cases hrow : d.allocation k fy with
  | some a =>
    rw [Db.store, hrow]
    show (Table.modify BudgetAllocation.key (k, fy) _ d.allocations).find? _ = _
    have hkey : ∀ r : BudgetAllocation, r.key = (k, fy) → (⟨k, fy, cents new⟩ : BudgetAllocation).key = (k, fy) :=
      fun _ _ => rfl
    rw [Table.find_modify hkey]
    split
    next =>
      rw [show d.allocations.find? (fun a => a.key = (k, fy)) = some a from hrow]
      rfl
    next => rfl
  | none =>
    rw [Db.store, hrow]
    show (d.allocations ++ [_]).find? _ = _
    rw [find?_append]
    split
    next hk =>
      rw [hk, show d.allocations.find? (fun a => a.key = (k, fy)) = none from hrow]
      simp [BudgetAllocation.key]
    next hk =>
      have hother : ¬ (k = k' ∧ fy = fy') := fun heq => hk (by rw [heq.1, heq.2])
      simp [BudgetAllocation.key, hother, Db.allocation]

theorem store_amount (d : Db) (k fy : Uuid) (new : ℚ) (fy' : Uuid) :
    (d.store k fy new).amount fy' =
      if fy' = fy then Function.update (d.amount fy) k (cents new) else d.amount fy' := by
  funext k'
  rw [Db.amount, store_allocation]
  by_cases hfy : fy' = fy
  · subst hfy
    rw [if_pos rfl]
    by_cases hk : k' = k
    · subst hk
      rw [if_pos rfl, Function.update_self]
      rfl
    · rw [if_neg (by simp [hk]), Function.update_of_ne hk]
      rfl
  · rw [if_neg hfy, if_neg (by simp [hfy])]
    rfl

theorem Wf.audit (h : Wf d) (entry : AuditEntry) : Wf (d.audit entry) := ⟨h.1, h.2, h.3, h.4, h.5, h.6, h.7⟩

theorem store_rows {new : ℚ} {a : BudgetAllocation} (ha : a ∈ (d.store k fy new).allocations) :
    a ∈ d.allocations ∨ a = ⟨k, fy, cents new⟩ := by
  unfold Db.store Db.write at ha
  split at ha
  next =>
    obtain ⟨x, hx, rfl⟩ := mem_map.mp ha
    split
    · exact .inr rfl
    · exact .inl hx
  next => simpa using ha

theorem Wf.store (h : Wf d) (hk : ∃ b ∈ d.budgets, b.id = k) (new : ℚ) : Wf (d.store k fy new) := by
  refine ⟨?_, ?_, ?_, ?_, ?_, fun a ha => ?_, fun a ha => ?_⟩
  · rw [store_budgets]
    exact h.ids
  · rw [store_budgets, store_next]
    exact h.below
  · rw [store_budgets]
    exact h.self
  · rw [store_budgets]
    exact h.parent
  · unfold Db.store Db.write
    split
    next =>
      show ((Table.modify BudgetAllocation.key (k, fy) _ d.allocations).map BudgetAllocation.key).Nodup
      have hkeys : (Table.modify BudgetAllocation.key (k, fy) (fun _ => ⟨k, fy, cents new⟩) d.allocations).map
          BudgetAllocation.key = d.allocations.map BudgetAllocation.key := by
        rw [Table.modify, map_map]
        refine map_congr_left fun a _ => ?_
        by_cases hkey : a.key = (k, fy)
        · simp only [Function.comp_apply, if_pos hkey]
          exact hkey.symm
        · simp only [Function.comp_apply, if_neg hkey]
      rw [hkeys]
      exact h.keys
    next hnone =>
      exact Table.nodup_insert h.keys fun a ha hkey => find?_eq_none.mp hnone a ha (decide_eq_true hkey)
  · rw [store_budgets]
    rcases store_rows ha with ha | rfl
    · exact h.owner a ha
    · exact hk
  · rcases store_rows ha with ha | rfl
    · exact h.rounded a ha
    · exact cents_idem new

theorem Wf.checked (h : Wf d) {node : Node} {new : ℚ} (hup : d.checkParent node fy new = .ok ())
    (hdown : d.checkChildren node fy new = .ok ()) :
    (∀ q, node.parentId = some q →
      cents new + Shares.heldBy Node.id Node.parentId d.budgets (fun b => b.id ≠ node.id) (d.amount fy) q ≤
        d.amount fy q) ∧
      Shares.held Node.id Node.parentId d.budgets (d.amount fy) node.id ≤ cents new := by
  constructor
  · intro q hq
    rw [Db.checkParent, hq] at hup
    have hroom : d.childrenAllocSum q fy (some node.id) + new ≤ d.amount fy q := by
      simpa [childrenAllocationExceedsParent, Db.amount] using hup
    have hsum : d.childrenAllocSum q fy (some node.id) =
        Shares.heldBy Node.id Node.parentId d.budgets (fun b => b.id ≠ node.id) (d.amount fy) q := by
      rw [h.childrenAllocSum]
      simp only [ne_eq, Option.some.injEq]
    rw [hsum] at hroom
    have := cents_le (le_sub_iff_add_le'.mpr hroom) (cents_sub (h.amount_rounded fy q) (h.held_rounded q fy _))
    exact le_sub_iff_add_le.mp this
  · have hcovers : d.childrenAllocSum node.id fy none ≤ new := by
      simpa [Db.checkChildren, parentAllocationBelowChildren] using hdown
    rw [h.childrenAllocSum_all] at hcovers
    exact le_cents hcovers (h.held_rounded node.id fy _)

theorem Within.store (h : Within d) (hw : Wf d) {node : Node} (hnode : node ∈ d.budgets) {new : ℚ}
    (hup : d.checkParent node fy new = .ok ()) (hdown : d.checkChildren node fy new = .ok ()) :
    Within (d.store node.id fy new) := by
  obtain ⟨hup, hdown⟩ := hw.checked hup hdown
  intro fy'
  rw [store_budgets, store_amount]
  split
  next hfy => exact (h fy).update hw.ids hnode (hw.self node hnode) hup hdown
  next => exact h fy'

end Writes

section Operations

variable {env : Env} {d d' : Db} {k fy : Uuid}

structure Kept (d : Db) : Prop where
  wf : Wf d
  nonneg : ∀ a ∈ d.allocations, 0 ≤ a.allocated
  within : Within d

theorem Kept.audit (h : Kept d) (entry : AuditEntry) : Kept (d.audit entry) := ⟨h.wf.audit entry, h.nonneg, h.within⟩

theorem Kept.amount_nonneg (h : Kept d) (fy k : Uuid) : 0 ≤ d.amount fy k := by
  rw [Db.amount]
  cases hrow : d.allocation k fy with
  | none => exact le_rfl
  | some a => exact h.nonneg a (Table.of_find hrow).1

theorem setAllocation_kept {payload : AllocationSet} (h : Kept d) (hop : setAllocation env k fy payload d = .ok d') :
    Kept d' := by
  obtain ⟨_, hfield, hop⟩ := bind_ok.mp hop
  obtain ⟨node, hnode, hop⟩ := bind_ok.mp hop
  obtain ⟨_, _, hop⟩ := bind_ok.mp hop
  obtain ⟨_, hup, hop⟩ := bind_ok.mp hop
  obtain ⟨_, hdown, hop⟩ := bind_ok.mp hop
  obtain rfl := pure_ok.mp hop
  obtain ⟨hmem, rfl⟩ := getNode_ok hnode
  have hnew : 0 ≤ payload.allocated := by
    simp only [AllocationSet.check, raiseUnless_ok, Bool.and_eq_true, decide_eq_true_eq] at hfield
    exact hfield.1
  have hkept : Kept (d.store node.id fy payload.allocated) := by
    refine ⟨h.wf.store ⟨node, hmem, rfl⟩ _, fun a ha => ?_, h.within.store h.wf hmem hup hdown⟩
    rcases store_rows ha with ha | rfl
    · exact h.nonneg a ha
    · exact cents_nonneg hnew
  exact hkept.audit _

theorem createNode_kept {payload : BudgetNodeCreate} (h : Kept d) (hop : createNode env payload d = .ok d') :
    Kept d' := by
  obtain ⟨_, _, hop⟩ := bind_ok.mp hop
  obtain ⟨_, _, hop⟩ := bind_ok.mp hop
  obtain ⟨parent, hparent, hop⟩ := bind_ok.mp hop
  obtain ⟨_, _, hop⟩ := bind_ok.mp hop
  obtain ⟨_, _, hop⟩ := bind_ok.mp hop
  obtain ⟨_, _, hop⟩ := bind_ok.mp hop
  obtain rfl := pure_ok.mp hop
  have hexists : ∀ p, payload.parentId = some p → ∃ x ∈ d.budgets, x.id = p := by
    intro p hp
    simp only [Db.getParent, hp] at hparent
    obtain ⟨x, hx, _⟩ := bind_ok.mp hparent
    exact ⟨x, getNode_ok hx⟩
  generalize hnew : Node.mk d.next payload.parentId ((parent.map Node.gremiumId).getD payload.gremiumId) payload.key
    (composePathKey (parent.map Node.pathKey) payload.key) = node
  have hid : node.id = d.next := hnew ▸ rfl
  have hp : node.parentId = payload.parentId := hnew ▸ rfl
  have hmem : ∀ {b}, b ∈ d.budgets ++ [node] → b ∈ d.budgets ∨ b = node := by simp
  -- the new node is nobody's parent
  have hnobody : ∀ b ∈ d.budgets ++ [node], b.parentId ≠ some node.id := by
    intro b hb hbp
    have hold : ∃ x ∈ d.budgets, x.id = node.id := by
      rcases hmem hb with hb | rfl
      · exact h.wf.parent b hb _ hbp
      · exact hexists _ (hp ▸ hbp)
    obtain ⟨x, hx, hxid⟩ := hold
    exact (h.wf.below x hx).ne (hxid.trans hid)
  refine ⟨⟨?_, fun b hb => ?_, fun b hb => ?_, fun b hb p hbp => ?_, h.wf.keys, fun a ha => ?_, h.wf.rounded⟩,
    h.nonneg, fun fy => ?_⟩
  · refine Table.nodup_insert h.wf.ids fun b hb => ?_
    rw [hid]
    exact (h.wf.below b hb).ne
  · rcases hmem hb with hb | rfl
    · exact Nat.lt_succ_of_lt (h.wf.below b hb)
    · rw [hid]
      exact Nat.lt_succ_self _
  · rcases hmem hb with hb | rfl
    · exact h.wf.self b hb
    · exact hnobody _ (mem_append_right _ mem_cons_self)
  · rcases hmem hb with hb | rfl
    · obtain ⟨x, hx, hxp⟩ := h.wf.parent b hb p hbp
      exact ⟨x, mem_append_left _ hx, hxp⟩
    · obtain ⟨x, hx, hxp⟩ := hexists p (hp ▸ hbp)
      exact ⟨x, mem_append_left _ hx, hxp⟩
  · obtain ⟨b, hb, hba⟩ := h.wf.owner a ha
    exact ⟨b, mem_append_left _ hb, hba⟩
  · refine (h.within fy).insert ?_ hnobody
    rw [hid]
    exact h.wf.fresh_amount le_rfl

theorem deleteNode_kept (h : Kept d) (hop : deleteNode env k d = .ok d') : Kept d' := by
  obtain ⟨_, _, hop⟩ := bind_ok.mp hop
  obtain ⟨_, hleaf, hop⟩ := bind_ok.mp hop
  obtain ⟨_, _, hop⟩ := bind_ok.mp hop
  obtain ⟨_, _, hop⟩ := bind_ok.mp hop
  obtain rfl := pure_ok.mp hop
  have hleaf : ∀ b ∈ d.budgets, b.parentId ≠ some k := by simpa using hleaf
  have hmem : ∀ {b}, b ∈ (d.deleteNode env k).budgets ↔ b ∈ d.budgets ∧ b.id ≠ k := by simp [Db.deleteNode]
  refine ⟨?_, fun a ha => h.nonneg a (mem_of_mem_filter ha), ?_⟩
  · refine ⟨h.wf.ids.sublist (filter_sublist.map _), fun b hb => h.wf.below b (hmem.mp hb).1,
      fun b hb => h.wf.self b (hmem.mp hb).1, fun b hb p hp => ?_, h.wf.keys.sublist (filter_sublist.map _),
      fun a ha => ?_, fun a ha => h.wf.rounded a (mem_of_mem_filter ha)⟩
    · obtain ⟨x, hx, rfl⟩ := h.wf.parent b (hmem.mp hb).1 p hp
      exact ⟨x, hmem.mpr ⟨hx, fun hid => hleaf b (hmem.mp hb).1 (hid ▸ hp)⟩, rfl⟩
    · obtain ⟨b, hb, hba⟩ := h.wf.owner a (mem_of_mem_filter ha)
      have hne : a.budgetId ≠ k := by
        have := (mem_filter.mp ha).2
        simp only [ne_eq, Bool.and_eq_true, decide_eq_true_eq] at this
        exact this.1
      exact ⟨b, hmem.mpr ⟨hb, hba ▸ hne⟩, hba⟩
  · intro fy
    by_cases hgone : fy ∈ (env.years.filter fun y => y.budgetId = k).map FiscalYear.id
    · -- the year goes with its top-level budget
      refine Shares.within_zero fun b _ => ?_
      have hnone : (d.deleteNode env k).allocation b.id fy = none := by
        rw [Db.allocation, find?_eq_none]
        intro a ha hkey
        have hfy : a.fiscalYearId = fy := congrArg Prod.snd (of_decide_eq_true hkey)
        have hkeep := (mem_filter.mp ha).2
        simp only [Bool.and_eq_true, Bool.not_eq_true', contains_eq_mem, decide_eq_false_iff_not] at hkeep
        exact hkeep.2 (hfy ▸ hgone)
      rw [Db.amount, hnone]
      rfl
    · refine Shares.Within.congr ((h.within fy).filter fun j => h.amount_nonneg fy j) fun b hb => ?_
      have hsame : (d.deleteNode env k).allocation b.id fy = d.allocation b.id fy := by
        rw [Db.allocation, Db.deleteNode, find?_filter, Db.allocation]
        congr 1
        funext a
        by_cases hkey : a.key = (b.id, fy)
        · have hid : a.budgetId = b.id := congrArg Prod.fst hkey
          have hfy : a.fiscalYearId = fy := congrArg Prod.snd hkey
          have hne : b.id ≠ k := (hmem.mp hb).2
          simp [hkey, hid, hfy, hne, hgone]
        · simp [hkey]
      rw [Db.amount, Db.amount, hsame]

theorem drop_amount (d : Db) (k fy fy' : Uuid) :
    (d.dropAllocation k fy).amount fy' = if fy' = fy then Function.update (d.amount fy) k 0 else d.amount fy' := by
  funext j
  rw [Db.amount, Db.allocation, Db.dropAllocation, Table.find_filter_ne]
  by_cases hfy : fy' = fy
  · subst hfy
    by_cases hj : j = k
    · subst hj
      simp [asAmount]
    · simp [hj, Db.amount, Db.allocation]
  · simp [hfy, Db.amount, Db.allocation]

theorem Kept.drop (h : Kept d) (hk : ∃ b ∈ d.budgets, b.id = k) (hnone : d.childrenAllocSum k fy none = 0) :
    Kept (d.dropAllocation k fy) := by
  obtain ⟨b, hb, rfl⟩ := hk
  refine ⟨?_, fun a ha => h.nonneg a (mem_of_mem_filter ha), fun fy' => ?_⟩
  · exact ⟨h.wf.ids, h.wf.below, h.wf.self, h.wf.parent, h.wf.keys.sublist (filter_sublist.map _),
      fun a ha => h.wf.owner a (mem_of_mem_filter ha), fun a ha => h.wf.rounded a (mem_of_mem_filter ha)⟩
  · rw [drop_amount]
    split
    next =>
      rw [h.wf.childrenAllocSum_all] at hnone
      exact (h.within fy).lower h.wf.ids hb (h.wf.self b hb) (h.wf.parent b hb) (h.amount_nonneg fy b.id) hnone.le
    next => exact h.within fy'

/-- The revert of a first set finds no children with an amount. -/
def AuditEntry.Undoable (d : Db) (entry : AuditEntry) : Prop :=
  entry.previousAllocated = none → d.childrenAllocSum entry.target entry.fiscalYearId none = 0

theorem revertAllocationSet_kept {entry : AuditEntry} (h : Kept d) (hundo : entry.Undoable d)
    (hop : revertAllocationSet env entry d = .ok d') : Kept d' := by
  obtain ⟨_, hstale, hop⟩ := bind_ok.mp hop
  split at hop
  next hprevious =>
    obtain rfl := pure_ok.mp hop
    refine (h.drop ?_ (hundo hprevious)).audit _
    -- the row that is dropped is there, and so is its cost centre
    cases hrow : d.allocation entry.target entry.fiscalYearId with
    | none => simp [hrow] at hstale
    | some a =>
      obtain ⟨ha, hkey⟩ := Table.of_find hrow
      have hid : a.budgetId = entry.target := congrArg Prod.fst hkey
      exact hid ▸ h.wf.owner a ha
  next => exact setAllocation_kept h hop

end Operations

section Run

def Request.Careful (d : Db) : Request → Prop
  | .revertAudit n => ∀ entry ∈ d.log[n]?, entry.Undoable d
  | _ => True

instance (d : Db) (entry : AuditEntry) : Decidable (entry.Undoable d) :=
  inferInstanceAs (Decidable (entry.previousAllocated = none →
    d.childrenAllocSum entry.target entry.fiscalYearId none = 0))

instance (d : Db) : (r : Request) → Decidable (r.Careful d)
  | .revertAudit n => inferInstanceAs (Decidable (∀ entry ∈ d.log[n]?, entry.Undoable d))
  | .setAllocation _ _ _ | .createNode _ | .deleteNode _ => isTrue trivial

theorem handle_kept {env : Env} {r : Request} {d d' : Db} (h : Kept d) (hr : r.Careful d)
    (hop : r.handle env d = .ok d') : Kept d' := by
  cases r with
  | setAllocation k fy payload => exact setAllocation_kept h hop
  | createNode payload => exact createNode_kept h hop
  | deleteNode k => exact deleteNode_kept h hop
  | revertAudit n =>
    rw [Request.handle, revertAudit] at hop
    cases hentry : d.log[n]? with
    | none => simp [hentry] at hop
    | some entry =>
      rw [hentry] at hop
      exact revertAllocationSet_kept h (hr entry hentry) hop

theorem emptyDb_kept : Kept emptyDb where
  wf := ⟨nodup_nil, by simp [emptyDb], by simp [emptyDb], by simp [emptyDb], nodup_nil, by simp [emptyDb],
    by simp [emptyDb]⟩
  nonneg a ha := by cases ha
  within fy b hb := by cases hb

def CarefulRun (rs : List (Env × Request)) (d : Db) : Prop := Runs.Guarded (fun p d => p.2.Careful d) step d rs

instance (rs : List (Env × Request)) (d : Db) : Decidable (CarefulRun rs d) :=
  inferInstanceAs (Decidable (Runs.Guarded (fun p d => p.2.Careful d) step d rs))

theorem run_kept {rs : List (Env × Request)} {d : Db} (hrs : CarefulRun rs emptyDb)
    (hrun : Runs.run step emptyDb rs = some d) : Kept d :=
  Runs.guarded_run (fun h hr hop => handle_kept h hr (toOption_some.mp hop)) emptyDb_kept hrs hrun

/-- From the empty tree, a run without a careless revert never hands down more than a
cost centre has. -/
theorem run_within {rs : List (Env × Request)} {d : Db} (hrs : CarefulRun rs emptyDb)
    (hrun : Runs.run step emptyDb rs = some d) : Within d := (run_kept hrs hrun).within

section Samples

def openYear : Env where
  years := [⟨5, 0, 10, 20, true, none⟩]
  booked _ := false
  assigned _ := false
  gremium _ := true

def twoLevels : List (Env × Request) :=
  [(openYear, .createNode { key := text "T" }), (openYear, .createNode { key := text "A", parentId := some 0 }),
    (openYear, .setAllocation 0 5 ⟨100⟩), (openYear, .setAllocation 1 5 ⟨50⟩)]

/-- The revert of the first set drops the 100 over the 50. -/
theorem droppedTop_exceeds :
    ∃ d, Runs.run step emptyDb (twoLevels ++ [(openYear, .revertAudit 0)]) = some d ∧ ¬ Within d := by
  have hrun : (Runs.run step emptyDb (twoLevels ++ [(openYear, .revertAudit 0)])).map (fun d =>
      (d.budgets.map Node.id, d.amount 5 0, Shares.held Node.id Node.parentId d.budgets (d.amount 5) 0)) =
        some ([0, 1], 0, 50) := by decide +kernel
  obtain ⟨d, hd, heq⟩ := Option.map_eq_some_iff.mp hrun
  simp only [Prod.mk.injEq] at heq
  refine ⟨d, hd, fun hwithin => ?_⟩
  obtain ⟨b, hb, hid⟩ := mem_map.mp (show 0 ∈ d.budgets.map Node.id by simp [heq.1])
  have hle := hwithin 5 b hb
  rw [hid, heq.2.1, heq.2.2] at hle
  norm_num at hle

/-- The cost centre gives its share back and takes half a cent more; then the top-level
amount is set anew and the second set is reverted. -/
def sharedYear : List (Env × Request) :=
  twoLevels ++ [(openYear, .setAllocation 1 5 ⟨99.995⟩), (openYear, .setAllocation 0 5 ⟨150⟩), (openYear, .revertAudit 3),
    (openYear, .setAllocation 1 5 ⟨0⟩), (openYear, .deleteNode 1), (openYear, .revertAudit 0)]

theorem sharedYear_within : ∃ d, Runs.run step emptyDb sharedYear = some d ∧ d.amount 5 0 = 0 ∧ Within d := by
  have hrun : (Runs.run step emptyDb sharedYear).map (fun d => d.amount 5 0) = some 0 := by decide +kernel
  obtain ⟨d, hd, heq⟩ := Option.map_eq_some_iff.mp hrun
  have hcareful : CarefulRun sharedYear emptyDb := by decide +kernel
  exact ⟨d, hd, heq, run_within hcareful hd⟩

end Samples

end Run

end Allocation
