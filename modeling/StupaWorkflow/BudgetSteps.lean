import StupaWorkflow.BudgetModel

/-!
What the requests on bookings do, one lemma for each of them: the rows that a successful request
has read, what it has checked of them, and the statements that it has run.
-/
namespace Budget
open Py Decimals List

variable {env : Env} {d d' : Db}

section Statements

variable {r x : BudgetExpense}

theorem checked_ok {r' : BudgetExpense} (h : r.checked = .ok r') : r' = r.stored := by
  obtain ⟨_, _, hret⟩ := bind_ok.mp h
  exact (pure_ok.mp hret).symm

theorem insert_ok (h : d.insert r = .ok d') : d' = { d with bookings := d.bookings ++ [r.stored] } := by
  obtain ⟨r', hr', hret⟩ := bind_ok.mp h
  rw [← pure_ok.mp hret, checked_ok hr']

theorem save_ok (h : d.save r = .ok d') :
    d' = { d with bookings := d.bookings.map fun x => if x.id = r.id then r.stored else x } := by
  obtain ⟨r', hr', hret⟩ := bind_ok.mp h
  rw [← pure_ok.mp hret, checked_ok hr']
  rfl

theorem get_some {k : Uuid} {e : BudgetExpense} (h : d.get k = some e) : e ∈ d.bookings ∧ e.id = k := Table.of_find h

theorem mem_legs {t : Uuid} : x ∈ d.legs t ↔ x ∈ d.bookings ∧ x.transferId = some t := by
  simp [Db.legs]

theorem mem_children {k : Uuid} : x ∈ d.children k ↔ x ∈ d.bookings ∧ x.parentExpenseId = some k := by
  simp [Db.children]

theorem insert_next (h : d.insert r = .ok d') (n : Uuid) : ({ d with next := n } : Db).insert r = .ok { d' with next := n } := by
  obtain ⟨r', hr', hret⟩ := bind_ok.mp h
  rw [Db.insert, hr', ← pure_ok.mp hret]
  rfl

end Statements

section Bookings

theorem writeRequired_checked {α : Type} {check : α → Except Problem Unit} {p : Patch α} {old : α}
    (hp : optionalField p check = .ok ()) (hold : check old = .ok ()) : check (p.writeRequired old) = .ok () := by
  rcases p with _ | _ | a
  · exact hold
  · exact hold
  · exact hp

variable {k : Uuid} {payload : ExpenseUpdate}

theorem getNode_ok {n : Node} (h : getNode env k = .ok n) : n ∈ env.nodes ∧ n.id = k :=
  Table.of_find (foundOr_ok h)

theorem getFiscalYear_ok {y : FiscalYear} (h : getFiscalYear env k = .ok y) : y ∈ env.years ∧ y.id = k :=
  Table.of_find (foundOr_ok h)

theorem moveTarget_ok {y : Uuid} {target : Option Node} (h : moveTarget env payload y = .ok target) :
    (payload.budgetId.getD none = none ∧ target = none) ∨
      ∃ node ∈ env.nodes, payload.budgetId = some (some node.id) ∧ target = some node := by
  unfold moveTarget at h
  split at h
  next b hb =>
    obtain ⟨node, hnode, h⟩ := bind_ok.mp h
    obtain ⟨_, _, h⟩ := bind_ok.mp h
    obtain rfl := pure_ok.mp h
    obtain ⟨hmem, rfl⟩ := getNode_ok hnode
    exact .inr ⟨node, hmem, hb, rfl⟩
  next hno =>
    cases h
    refine .inl ⟨?_, rfl⟩
    rcases hb : payload.budgetId with _ | _ | b
    · rfl
    · rfl
    · exact absurd hb (hno b)

theorem createExpense_ok {payload : ExpenseCreate} {actor : Text} (hop : createExpense env payload actor d = .ok d') :
    ∃ node fy r d₁, payload.check = .ok () ∧ bookingTarget env payload = .ok (node, fy) ∧ d.insert r = .ok d₁ ∧
      (r.id = d.next ∧ r.transferId = none ∧ r.parentExpenseId = none) ∧ r.budgetId = node.id ∧ r.fiscalYearId = fy ∧
      r.description = payload.description ∧ d' = Db.audit { d₁ with next := d.next + 1 } (.expenseCreate d.next) := by
  obtain ⟨_, hcheck, hop⟩ := bind_ok.mp hop
  obtain ⟨⟨node, fy⟩, htarget, hop⟩ := bind_ok.mp hop
  obtain ⟨_, _, hop⟩ := bind_ok.mp hop
  obtain ⟨d₁, hins, hop⟩ := bind_ok.mp hop
  obtain rfl := pure_ok.mp hop
  exact ⟨node, fy, _, d₁, hcheck, htarget, hins, ⟨rfl, rfl, rfl⟩, rfl, rfl, rfl, rfl⟩

theorem createSubBooking_ok {parentId : Uuid} {payload : SubBookingCreate} {actor : Text}
    (hop : createSubBooking env parentId payload actor d = .ok d') :
    ∃ parent r d₁ d₂, descriptionField payload.description = .ok () ∧ d.get parentId = some parent ∧
      (parent.parentExpenseId = none ∧ parent.transferId = none) ∧ requireOpenFiscalYear env parent.fiscalYearId = .ok () ∧
      d.insert r = .ok d₁ ∧ (r.id = d.next ∧ r.transferId = none ∧ r.parentExpenseId = some parent.id) ∧
      (r.budgetId = parent.budgetId ∧ r.fiscalYearId = parent.fiscalYearId ∧ r.kind = parent.kind) ∧
      r.description = payload.description ∧
      Db.recomputeParentAmount { d₁ with next := d.next + 1 } parentId = .ok d₂ ∧ d' = d₂.audit (.expenseCreate d.next) := by
  obtain ⟨_, _, hop⟩ := bind_ok.mp hop
  obtain ⟨_, hnamed, hop⟩ := bind_ok.mp hop
  cases hget : d.get parentId with
  | none => simp [hget] at hop
  | some parent =>
    simp only [hget] at hop
    obtain ⟨_, hnested, hop⟩ := bind_ok.mp hop
    obtain ⟨_, hleg, hop⟩ := bind_ok.mp hop
    obtain ⟨_, hopen, hop⟩ := bind_ok.mp hop
    obtain ⟨d₁, hins, hop⟩ := bind_ok.mp hop
    obtain ⟨d₂, hrec, hop⟩ := bind_ok.mp hop
    obtain rfl := pure_ok.mp hop
    exact ⟨parent, _, d₁, d₂, hnamed, rfl, ⟨by simpa using hnested, by simpa using hleg⟩, hopen, hins,
      ⟨rfl, rfl, rfl⟩, ⟨rfl, rfl, rfl⟩, rfl, hrec, rfl⟩

def BudgetExpense.updated (e : BudgetExpense) (payload : ExpenseUpdate) (target : Option Node) : AuditEntry :=
  .expenseUpdate e.id (some (payload.read e, payload.read (e.patched payload target)))

theorem updateExpense_ok (hop : updateExpense env k payload d = .ok d') :
    ∃ e target d₁, payload.check = .ok () ∧ d.get k = some e ∧ requireOpenFiscalYear env e.fiscalYearId = .ok () ∧
      (payload.amount.getD none ≠ none → d.children k = []) ∧ (e.parentExpenseId ≠ none → payload.budgetId = none) ∧
      moveTarget env payload e.fiscalYearId = .ok target ∧ d.save (e.patched payload target) = .ok d₁ ∧
      ((∃ p v, e.parentExpenseId = some p ∧ payload.amount = some v ∧
          (d₁.audit (e.updated payload target)).recomputeParentAmount p = .ok d') ∨
        (∀ p v, e.parentExpenseId = some p → payload.amount ≠ some v) ∧ d' = d₁.audit (e.updated payload target)) := by
  obtain ⟨_, hcheck, hop⟩ := bind_ok.mp hop
  cases hget : d.get k with
  | none => simp [hget] at hop
  | some e =>
    obtain rfl := (get_some hget).2
    simp only [hget] at hop
    obtain ⟨_, hopen, hop⟩ := bind_ok.mp hop
    obtain ⟨_, hreadonly, hop⟩ := bind_ok.mp hop
    obtain ⟨_, hinherited, hop⟩ := bind_ok.mp hop
    obtain ⟨target, htarget, hop⟩ := bind_ok.mp hop
    obtain ⟨_, _, hop⟩ := bind_ok.mp hop
    obtain ⟨d₁, hsave, hop⟩ := bind_ok.mp hop
    refine ⟨e, target, d₁, hcheck, rfl, hopen, fun hset => ?_, fun hsub => ?_, htarget, hsave, ?_⟩
    · simpa [Option.isSome_iff_ne_none.mpr hset] using hreadonly
    · simpa [Option.isSome_iff_ne_none.mpr hsub] using hinherited
    · split at hop
      · rename_i p v hp hv
        exact .inl ⟨p, v, hp, hv, hop⟩
      · rename_i hno
        exact .inr ⟨fun p v hp hv => hno p v hp hv, (pure_ok.mp hop).symm⟩

theorem parent_ok {p : Option Uuid} (hop : (match p with
      | some parent => d.recomputeParentAmount parent
      | none => pure d) = .ok d') :
    (∃ parent, p = some parent ∧ d.recomputeParentAmount parent = .ok d') ∨ p = none ∧ d' = d := by
  cases p with
  | none => exact .inr ⟨rfl, (pure_ok.mp hop).symm⟩
  | some parent => exact .inl ⟨parent, rfl, hop⟩

theorem deleteExpense_ok (hop : deleteExpense env k d = .ok d') :
    ∃ e d₁, d.get k = some e ∧ requireOpenFiscalYear env e.fiscalYearId = .ok () ∧
      ((∃ t, e.transferId = some t ∧ d₁ = d.deleteAll (d.legs t)) ∨ e.transferId = none ∧ d₁ = d.delete k) ∧
      ((∃ p, e.parentExpenseId = some p ∧ (d₁.audit (.expenseDelete k)).recomputeParentAmount p = .ok d') ∨
        e.parentExpenseId = none ∧ d' = d₁.audit (.expenseDelete k)) := by
  rw [deleteExpense] at hop
  cases hget : d.get k with
  | none => simp [hget] at hop
  | some e =>
    simp only [hget] at hop
    obtain ⟨_, hopen, hop⟩ := bind_ok.mp hop
    cases ht : e.transferId with
    | none =>
      rw [ht] at hop
      exact ⟨e, _, rfl, hopen, .inr ⟨ht, rfl⟩, parent_ok hop⟩
    | some t =>
      rw [ht] at hop
      exact ⟨e, _, rfl, hopen, .inl ⟨t, ht, rfl⟩, parent_ok hop⟩

end Bookings

section Transfers

theorem transferLegs_mem {t : Uuid} {out income : BudgetExpense} (hlegs : d.transferLegs t = .ok (out, income)) :
    (out ∈ d.bookings ∧ out.transferId = some t) ∧ (income ∈ d.bookings ∧ income.transferId = some t) ∧
      out.kind ≠ income.kind := by
  rw [Db.transferLegs] at hlegs
  split at hlegs
  next o i ho hi =>
    cases hlegs
    have hkind : out.kind = .expense := by simpa using find?_some ho
    have hkind' : income.kind = .income := by simpa using find?_some hi
    refine ⟨mem_legs.mp (mem_of_find?_eq_some ho), mem_legs.mp (mem_of_find?_eq_some hi), ?_⟩
    rw [hkind, hkind']
    decide
  next => cases hlegs

theorem createTransfer_ok {payload : TransferCreate} {actor : Text} (hop : createTransfer env payload actor d = .ok d') :
    ∃ src dst fy d₁ d₂, payload.check = .ok () ∧
      (getNode env payload.fromBudgetId = .ok src ∧ resolveFiscalYear env src (some payload.fiscalYearId) = .ok fy) ∧
      (getNode env payload.toBudgetId = .ok dst ∧ resolveFiscalYear env dst (some payload.fiscalYearId) = .ok fy) ∧
      d.insert (transferLeg payload actor d.next (d.next + 1) .expense src fy) = .ok d₁ ∧
      d₁.insert (transferLeg payload actor d.next (d.next + 2) .income dst fy) = .ok d₂ ∧
      d' = Db.audit { d₂ with next := d.next + 3 } (.transferCreate d.next) := by
  obtain ⟨_, hcheck, hop⟩ := bind_ok.mp hop
  obtain ⟨src, hsrc, hop⟩ := bind_ok.mp hop
  obtain ⟨dst, hdst, hop⟩ := bind_ok.mp hop
  obtain ⟨fySrc, hresSrc, hop⟩ := bind_ok.mp hop
  obtain ⟨fyDst, hresDst, hop⟩ := bind_ok.mp hop
  obtain ⟨_, hyear, hop⟩ := bind_ok.mp hop
  obtain ⟨d₁, hout, hop⟩ := bind_ok.mp hop
  obtain ⟨d₂, hincome, hop⟩ := bind_ok.mp hop
  obtain rfl := pure_ok.mp hop
  obtain rfl : fySrc = fyDst := by simpa using hyear
  exact ⟨src, dst, fySrc, d₁, d₂, hcheck, ⟨hsrc, hresSrc⟩, ⟨hdst, hresDst⟩, hout, hincome, rfl⟩

structure LegPatched (payload : TransferUpdate) (e r : BudgetExpense) : Prop where
  id : r.id = e.id
  transfer : r.transferId = e.transferId
  parent : r.parentExpenseId = e.parentExpenseId
  kind : r.kind = e.kind
  year : r.fiscalYearId = e.fiscalYearId
  centre : r.budgetId = e.budgetId
  amount : r.amount = payload.amount.writeRequired e.amount
  description : r.description = payload.description.writeRequired e.description

theorem column_ok {α : Type} {p : Patch α} {old new : α} (h : p.column old = .ok new) : new = p.writeRequired old := by
  rcases p with _ | _ | a
  · exact (Except.ok.inj h).symm
  · cases h
  · exact (Except.ok.inj h).symm

variable {payload : TransferUpdate}

theorem transferPatched_ok {e r : BudgetExpense} (h : payload.patched e = .ok r) : LegPatched payload e r := by
  obtain ⟨amount, hamount, h⟩ := bind_ok.mp h
  obtain ⟨description, hdescription, h⟩ := bind_ok.mp h
  obtain rfl := pure_ok.mp h
  exact ⟨rfl, rfl, rfl, rfl, rfl, rfl, column_ok hamount, column_ok hdescription⟩

theorem updateTransfer_ok {t : Uuid} (hop : updateTransfer env t payload d = .ok d') :
    ∃ out income out' income' d₁ d₂, payload.check = .ok () ∧ d.transferLegs t = .ok (out, income) ∧
      requireOpenFiscalYear env out.fiscalYearId = .ok () ∧ payload.patched out = .ok out' ∧
      payload.patched income = .ok income' ∧ d.save out' = .ok d₁ ∧ d₁.save income' = .ok d₂ ∧
      d' = d₂.audit (.expenseUpdate t none) := by
  obtain ⟨_, hcheck, hop⟩ := bind_ok.mp hop
  obtain ⟨⟨out, income⟩, hlegs, hop⟩ := bind_ok.mp hop
  obtain ⟨_, hopen, hop⟩ := bind_ok.mp hop
  obtain ⟨_, _, hop⟩ := bind_ok.mp hop
  obtain ⟨out', hout', hop⟩ := bind_ok.mp hop
  obtain ⟨income', hincome', hop⟩ := bind_ok.mp hop
  obtain ⟨d₁, hsave, hop⟩ := bind_ok.mp hop
  obtain ⟨d₂, hsave', hop⟩ := bind_ok.mp hop
  obtain rfl := pure_ok.mp hop
  exact ⟨out, income, out', income', d₁, d₂, hcheck, hlegs, hopen, hout', hincome', hsave, hsave', rfl⟩

theorem deleteTransfer_ok {t : Uuid} (hop : deleteTransfer env t d = .ok d') :
    ∃ out income, d.transferLegs t = .ok (out, income) ∧ requireOpenFiscalYear env out.fiscalYearId = .ok () ∧
      d' = (d.deleteAll [out, income]).audit (.expenseDelete t) := by
  obtain ⟨⟨out, income⟩, hlegs, hop⟩ := bind_ok.mp hop
  obtain ⟨_, hopen, hop⟩ := bind_ok.mp hop
  exact ⟨out, income, hlegs, hopen, (pure_ok.mp hop).symm⟩

end Transfers

theorem revertAudit_cases {n : ℕ} (hop : revertAudit env n d = .ok d') :
    (∃ k e, d.log[n]? = some (.expenseCreate k) ∧ d.get k = some e ∧ requireOpenFiscalYear env e.fiscalYearId = .ok () ∧
        d' = (d.delete k).audit (.expenseDelete k)) ∨
      (∃ t e, d.log[n]? = some (.transferCreate t) ∧ e ∈ d.legs t ∧ requireOpenFiscalYear env e.fiscalYearId = .ok () ∧
        d' = (d.deleteAll (d.legs t)).audit (.expenseDelete t)) ∨
      ∃ k before after e, d.log[n]? = some (.expenseUpdate k (some (before, after))) ∧ d.get k = some e ∧
        notStale env e after = true ∧ updateExpense env k before d = .ok d' := by
  rw [revertAudit] at hop
  split at hop
  · cases hop
  · rename_i k hentry
    rw [revertExpenseCreate] at hop
    cases hget : d.get k with
    | none => simp [hget] at hop
    | some e =>
      simp only [hget] at hop
      obtain ⟨_, hopen, hop⟩ := bind_ok.mp hop
      exact .inl ⟨k, e, hentry, hget, hopen, (pure_ok.mp hop).symm⟩
  · rename_i t hentry
    rw [revertTransferCreate] at hop
    split at hop
    · cases hop
    · rename_i first rest hlegs
      obtain ⟨_, hopen, hop⟩ := bind_ok.mp hop
      exact .inr (.inl ⟨t, first, hentry, hlegs ▸ mem_cons_self, hopen, (pure_ok.mp hop).symm⟩)
  · rename_i k states hentry
    rcases states with _ | ⟨before, after⟩
    · cases hop
    · rw [revertExpenseUpdate] at hop
      cases hget : d.get k with
      | none => simp [hget] at hop
      | some e =>
        simp only [hget] at hop
        obtain ⟨_, hfresh, hop⟩ := bind_ok.mp hop
        exact .inr (.inr ⟨k, before, after, e, hentry, hget, raiseUnless_ok.mp hfresh, hop⟩)
  · cases hop

end Budget
