import StupaWorkflow.BudgetSound

/-!
The revert of an update of a booking. It compares what the entry wrote with the row as it stands,
texts that read as one number being the same, and then writes the recorded values back by an
update of its own.
-/
namespace Budget
open Py Decimals List

section Values

variable {α β : Type}

@[simp] theorem write_back (p : Patch α) (a : Option α) : Patch.write (p.map fun _ => a) (p.write a) = a := by
  cases p <;> rfl

@[simp] theorem writeRequired_back (p : Patch α) (a : α) :
    Patch.writeRequired (p.map fun _ => some a) (p.writeRequired a) = a := by
  cases p <;> rfl

theorem recorded_same [DecidableEq α] (p : Option β) (a b : Option α) :
    ((p.map fun _ => b).all fun v => v = a) = true ↔ (p.map fun _ => a) = p.map fun _ => b := by
  cases p <;> simp [eq_comm]

theorem recorded_matches (env : Env) (p : Option β) (a b : Option Text) : ((p.map fun _ => b).all (textMatches env a)) = true ↔
    Option.Rel (fun a b => textMatches env a b = true) (p.map fun _ => a) (p.map fun _ => b) := by
  cases p <;> simp

def AlikeTexts (env : Env) (current recorded : List (Patch Text)) : Prop :=
  List.Forall₂ (Option.Rel fun a b => textMatches env a b = true) current recorded

theorem AlikeTexts.refl (env : Env) (texts : List (Patch Text)) : AlikeTexts env texts texts := by
  refine forall₂_same.mpr fun p _ => ?_
  cases p with
  | none => exact .none
  | some v => exact .some (by simp [textMatches])

end Values

section Recorded

def ExpenseUpdate.texts (u : ExpenseUpdate) : List (Patch Text) :=
  [u.description, u.correspondent, u.note, u.referenceNumber, u.category]

/-- The fields that hold no free text. -/
def ExpenseUpdate.others (u : ExpenseUpdate) : ExpenseUpdate :=
  { u with description := none, correspondent := none, note := none, referenceNumber := none, category := none }

def ExpenseUpdate.Alike (env : Env) (current recorded : ExpenseUpdate) : Prop :=
  current.others = recorded.others ∧ AlikeTexts env current.texts recorded.texts

variable {payload : ExpenseUpdate}

theorem notStale_iff {env : Env} {e new : BudgetExpense} :
    notStale env e (payload.read new) = true ↔ (payload.read e).Alike env (payload.read new) := by
  simp only [notStale, ExpenseUpdate.read, Bool.and_eq_true, recorded_same, recorded_matches, ExpenseUpdate.Alike,
    ExpenseUpdate.others, ExpenseUpdate.texts, AlikeTexts, forall₂_cons, List.Forall₂.nil,
    ExpenseUpdate.mk.injEq]
  tauto

theorem ExpenseUpdate.Alike.refl (env : Env) (u : ExpenseUpdate) : u.Alike env u := ⟨rfl, .refl env _⟩

theorem read_eq_empty {e : BudgetExpense} (h : payload.read e = {}) : payload = {} := by
  cases payload
  simp only [ExpenseUpdate.read, ExpenseUpdate.mk.injEq, Option.map_eq_none_iff] at h ⊢
  exact h

theorem recorded_checked {α β : Type} {check : α → Except Problem Unit} {a : α} (p : Option β) (h : check a = .ok ()) :
    optionalField (p.map fun _ => some a) check = .ok () := by
  cases p with
  | none => rfl
  | some _ => exact h

end Recorded

section Update

variable {env env' : Env} {d d₁ d₂ : Db} {k : Uuid} {e : BudgetExpense} {payload : ExpenseUpdate}
variable {target back : Option Node}

/-- The update writes the row, and of the other rows at most the sum of one that is no sub-booking. -/
theorem updateExpense_rows (h : Sound none d) (hget : d.get k = some e) (hop : updateExpense env k payload d = .ok d₁) :
    ∃ target g, moveTarget env payload e.fiscalYearId = .ok target ∧ g e = (e.patched payload target).stored ∧
      (∀ r ∈ d.bookings, Version r (g r)) ∧ (∀ r ∈ d.bookings, r ≠ e → r.parentExpenseId ≠ none → g r = r) ∧
      d₁ = { d with bookings := d.bookings.map g, log := d.log ++ [e.updated payload target] } := by
  obtain ⟨e', target, d', _, hget', _, _, _, htarget, hsave, hrest⟩ := updateExpense_ok hop
  obtain rfl := Option.some.inj (hget.symm.trans hget')
  obtain ⟨he, rfl⟩ := get_some hget
  let write (x : BudgetExpense) := if x.id = e.id then (e.patched payload target).stored else x
  have hd : d' = { d with bookings := d.bookings.map write } := save_ok hsave
  have hself : write e = (e.patched payload target).stored := if_pos rfl
  have hversion : ∀ r ∈ d.bookings, Version r (write r) := by
    intro r hr
    by_cases hid : r.id = e.id
    · obtain rfl := h.unique hr he hid
      rw [hself]
      exact ⟨rfl, rfl, rfl, rfl⟩
    · rw [show write r = r from if_neg hid]
      exact ⟨rfl, rfl, rfl, rfl⟩
  have hother : ∀ r ∈ d.bookings, r ≠ e → write r = r := fun r hr hne => if_neg fun hid => hne (h.unique hr he hid)
  rcases hrest with ⟨p, _, hp, _, hrec⟩ | ⟨_, rfl⟩
  · rcases recompute_cases hrec with ⟨rfl, _⟩ | ⟨q, hq, _, hsum⟩
    · exact ⟨target, write, htarget, hself, hversion, fun r hr hne _ => hother r hr hne, by rw [hd]; rfl⟩
    · obtain ⟨hmem, rfl⟩ := get_some hq
      rw [hd] at hmem
      obtain ⟨x, hx, rfl⟩ := mem_map.mp hmem
      rw [(hversion x hx).id] at hp
      -- the parent is another row, and no sub-booking itself
      have htop : x.parentExpenseId = none := h.flat e he x hx hp
      have hne : x ≠ e := fun heq => by simp [← heq, htop] at hp
      rw [hother x hx hne] at hsum
      generalize (d'.audit (e.updated payload target)).total x.id = amount at hsum
      let sum (y : BudgetExpense) := if y.id = x.id then ({ x with amount := amount } : BudgetExpense).stored else write y
      have hsum' : d₁ = { d with bookings := d.bookings.map sum, log := d.log ++ [e.updated payload target] } := by
        rw [save_ok hsum, hd]
        simp only [Db.audit, map_map, Db.mk.injEq, and_true]
        refine map_congr_left fun y hy => ?_
        rw [Function.comp_apply, (hversion y hy).id]
      refine ⟨target, sum, htarget, (if_neg fun hid => hne (h.unique hx he hid.symm)).trans hself, fun y hy => ?_, fun y hy hye hsub => ?_, hsum'⟩
      · by_cases hid : y.id = x.id
        · obtain rfl := h.unique hy hx hid
          rw [show sum y = _ from if_pos rfl]
          exact ⟨rfl, rfl, rfl, rfl⟩
        · rw [show sum y = write y from if_neg hid]
          exact hversion y hy
      · have hid : y.id ≠ x.id := fun hid => hsub (h.unique hy hx hid ▸ htop)
        rw [show sum y = write y from if_neg hid]
        exact hother y hy hye
  · exact ⟨target, write, htarget, hself, hversion, fun r hr hne _ => hother r hr hne, by rw [hd]; rfl⟩

theorem updateExpense_get (h : Sound none d) (hget : d.get k = some e) (hop : updateExpense env k payload d = .ok d₁) :
    ∃ target, moveTarget env payload e.fiscalYearId = .ok target ∧ d₁.get k = some (e.patched payload target).stored ∧
      d₁.log = d.log ++ [e.updated payload target] := by
  have h₁ := updateExpense_sound h hop
  obtain ⟨target, g, htarget, hself, _, _, rfl⟩ := updateExpense_rows h hget hop
  obtain ⟨he, rfl⟩ := get_some hget
  have hmem : (e.patched payload target).stored ∈ d.bookings.map g := hself ▸ mem_map_of_mem he
  exact ⟨target, htarget, Table.find_of_mem h₁.ids hmem rfl, rfl⟩

theorem patched_back (hstored : e.stored = e) (htarget : payload.budgetId = none → target = none)
    (hback : payload.budgetId = none ∧ back = none ∨ ∃ node, back = some node ∧ node.id = e.budgetId ∧ node.currency = e.currency) :
    ((e.patched payload target).stored.patched (payload.read e) back) = e := by
  have hamount : (payload.read e).amount.writeRequired (cents (payload.amount.writeRequired e.amount)) = e.amount := by
    rcases hp : payload.amount with _ | v
    · simp only [ExpenseUpdate.read, hp]
      exact congrArg BudgetExpense.amount hstored
    · simp [ExpenseUpdate.read, hp, Patch.writeRequired]
  have hplace : (back.map Node.id).getD ((target.map Node.id).getD e.budgetId) = e.budgetId ∧
      (back.map Node.currency).getD ((target.map Node.currency).getD e.currency) = e.currency := by
    rcases hback with ⟨hnone, rfl⟩ | ⟨node, rfl, hid, hcurrency⟩
    · rw [htarget hnone]
      exact ⟨rfl, rfl⟩
    · exact ⟨hid, hcurrency⟩
  unfold BudgetExpense.patched BudgetExpense.stored
  simp only [hamount, hplace.1, hplace.2]
  simp only [ExpenseUpdate.read, write_back, writeRequired_back]

theorem patched_restored (h : Sound none d) (heuro : ∀ n ∈ env'.nodes, n.currency = text "EUR") (he : e ∈ d.bookings)
    {y y' : Uuid} (htarget : moveTarget env payload y = .ok target) (hback : moveTarget env' (payload.read e) y' = .ok back) :
    (e.patched payload target).stored.patched (payload.read e) back = e := by
  obtain ⟨⟨_, _, hcurrency⟩, hstored⟩ := checked_iff.mp (h.checked e he)
  refine patched_back hstored ?_ ?_
  · intro hnone
    rcases moveTarget_ok htarget with ⟨_, rfl⟩ | ⟨_, _, hset, _⟩
    · rfl
    · rw [hnone] at hset
      cases hset
  · rcases moveTarget_ok hback with ⟨hnone, rfl⟩ | ⟨node, hnode, hset, rfl⟩
    · cases hp : payload.budgetId with
      | none => exact .inl ⟨rfl, rfl⟩
      | some _ => simp [ExpenseUpdate.read, hp] at hnone
    · refine .inr ⟨node, rfl, ?_, (heuro node hnode).trans hcurrency.symm⟩
      obtain ⟨_, _, hid⟩ := Option.map_eq_some_iff.mp hset
      exact (Option.some.inj hid).symm

theorem updateExpense_back (h : Sound none d) (heuro : ∀ n ∈ env'.nodes, n.currency = text "EUR") (hget : d.get k = some e)
    (hop : updateExpense env k payload d = .ok d₁) (hback : updateExpense env' k (payload.read e) d₁ = .ok d₂) :
    d₂.get k = some e := by
  obtain ⟨target, htarget, hget₁, _⟩ := updateExpense_get h hget hop
  obtain ⟨back, hmoved, hget₂, _⟩ := updateExpense_get (updateExpense_sound h hop) hget₁ hback
  have he := (get_some hget).1
  rw [hget₂, patched_restored h heuro he htarget hmoved, h.stored he]

end Update

section Revert

/-- When a revert undoes an update of a booking: a new amount is in whole cents, a null amount
stands at a booking without sub-bookings, a patched cost centre resolves the fiscal year of the
booking, and the old invoice is there. -/
structure ExpenseUpdate.Undoable (env : Env) (d : Db) (e : BudgetExpense) (payload : ExpenseUpdate) : Prop where
  amount : ∀ a, payload.amount = some (some a) → cents a = a
  sums : payload.amount = some none → d.children e.id = []
  place : payload.budgetId ≠ none → ∃ node y, getNode env e.budgetId = .ok node ∧
    resolveFiscalYear env node (some e.fiscalYearId) = .ok y
  invoice : payload.invoiceId ≠ none → e.invoiceId.all env.invoices.contains = true

def BudgetExpense.Kept (e : BudgetExpense) (payload : ExpenseUpdate) : Prop :=
  (e.patched payload none).stored = e ∧ (payload.budgetId.getD none).all (· = e.budgetId) = true

variable {env env' : Env} {d d₁ d₂ : Db} {k : Uuid} {e : BudgetExpense} {payload : ExpenseUpdate}

theorem recompute_runs {p : Uuid} (hchecked : ∀ q ∈ d.bookings, q.id = p → q.checked = .ok q)
    (hcents : cents (d.total p) = d.total p) (hmax : ∀ q ∈ d.bookings, q.id = p → d.total p ≤ maxAmount) :
    ∃ d', d.recomputeParentAmount p = .ok d' := by
  rw [Db.recomputeParentAmount]
  by_cases hpos : 0 < ((d.children p).map BudgetExpense.amount).sum
  · simp only [if_pos hpos]
    cases hget : d.get p with
    | none => exact ⟨d, rfl⟩
    | some q =>
      obtain ⟨hq, hid⟩ := get_some hget
      obtain ⟨⟨_, _, hcurrency⟩, _⟩ := checked_iff.mp (hchecked q hq hid)
      have hsum : ({ q with amount := d.total p } : BudgetExpense).checked = .ok _ :=
        checked_iff.mpr ⟨⟨hpos.trans_eq hcents.symm, hcents.trans_le (hmax q hq hid), hcurrency⟩, rfl⟩
      exact ⟨_, bind_ok.mpr ⟨_, hsum, rfl⟩⟩
  · simp only [if_neg hpos]
    exact ⟨d, rfl⟩

theorem read_checked (h : e.checked = .ok e) (hdescribed : descriptionField e.description = .ok ()) (hcheck : payload.check = .ok ()) :
    (payload.read e).check = .ok () := by
  obtain ⟨⟨hpos, hmax, _⟩, hstored⟩ := checked_iff.mp h
  rw [hstored] at hpos hmax
  have hamount : amountField e.amount = .ok () := raiseUnless_ok.mpr (by simp [hpos, hmax])
  obtain ⟨_, _, hcheck⟩ := bind_ok.mp hcheck
  obtain ⟨_, _, hcheck⟩ := bind_ok.mp hcheck
  have hne : payload ≠ {} := by simpa using hcheck
  have hread : payload.read e ≠ {} := fun heq => hne (read_eq_empty heq)
  refine bind_ok.mpr ⟨(), recorded_checked payload.amount hamount, bind_ok.mpr ⟨(), recorded_checked payload.description hdescribed, ?_⟩⟩
  exact raiseUnless_ok.mpr (by simpa using hread)

theorem ExpenseUpdate.Undoable.moves (hundo : payload.Undoable env d e) :
    ∃ back, moveTarget env (payload.read e) e.fiscalYearId = .ok back := by
  cases hp : payload.budgetId with
  | none => exact ⟨none, by simp [moveTarget, ExpenseUpdate.read, hp]⟩
  | some v =>
    obtain ⟨node, y, hnode, hres⟩ := hundo.place (by simp [hp])
    refine ⟨some node, ?_⟩
    have hset : (payload.read e).budgetId = some (some e.budgetId) := by simp [ExpenseUpdate.read, hp]
    rw [moveTarget, hset]
    exact bind_ok.mpr ⟨node, hnode, bind_ok.mpr ⟨y, hres, rfl⟩⟩

theorem total_back (h : Sound none d) (hget : d.get k = some e) (hop : updateExpense env k payload d = .ok d₁)
    {d' : Db} (hsave : d₁.save e = .ok d') {q : BudgetExpense} (hq : q ∈ d'.bookings) (hp : e.parentExpenseId = some q.id) :
    d'.total q.id ≤ maxAmount := by
  have he := (get_some hget).1
  obtain ⟨_, g, _, _, hversion, hother, hd₁⟩ := updateExpense_rows h hget hop
  let back (r : BudgetExpense) := if (g r).id = e.id then e else g r
  have hrows : d'.bookings = d.bookings.map back := by
    rw [save_ok hsave, hd₁, h.stored he]
    exact map_map
  have hback : ∀ r ∈ d.bookings, (back r).id = r.id ∧ (back r).parentExpenseId = r.parentExpenseId ∧
      (r.parentExpenseId = some q.id → (back r).amount = r.amount) := by
    intro r hr
    by_cases hre : r = e
    · rw [show back r = e from if_pos ((hversion r hr).id.trans (congrArg _ hre)), hre]
      exact ⟨rfl, rfl, fun _ => rfl⟩
    · have hid : (g r).id ≠ e.id := fun hid => hre (h.unique hr he ((hversion r hr).id.symm.trans hid))
      rw [show back r = g r from if_neg hid]
      exact ⟨(hversion r hr).id, (hversion r hr).parent, fun hsub => by rw [hother r hr hre (by simp [hsub])]⟩
  have htotal : d'.total q.id = Db.total { d with bookings := d.bookings.map back } q.id := by
    rw [Db.total, Db.children, hrows]
    rfl
  rw [htotal, total_map fun r hr => (hback r hr).2]
  rw [hrows] at hq
  obtain ⟨r, hr, rfl⟩ := mem_map.mp hq
  rw [(hback r hr).1]
  exact h.fits r hr (Option.some_ne_none _).symm

theorem parent_runs {p : Option Uuid} (a : Patch ℚ)
    (hruns : ∀ parent, p = some parent → ∃ d', d.recomputeParentAmount parent = .ok d') :
    ∃ d', (match p, a with
      | some parent, some _ => d.recomputeParentAmount parent
      | _, _ => pure d) = .ok d' := by
  cases p with
  | none => exact ⟨d, rfl⟩
  | some parent =>
    cases a with
    | none => exact ⟨d, rfl⟩
    | some _ => exact hruns parent rfl

theorem ExpenseUpdate.Undoable.leaf (h : Sound none d) (hget : d.get k = some e)
    (hop : updateExpense env k payload d = .ok d₁) (hundo : payload.Undoable env' d e) (hset : (payload.read e).amount ≠ none) :
    d₁.children e.id = [] := by
  obtain ⟨_, _, _, _, hget', _, hreadonly, _⟩ := updateExpense_ok hop
  obtain rfl := Option.some.inj (hget.symm.trans hget')
  obtain ⟨_, rfl⟩ := get_some hget
  have hnil : d.children e.id = [] := by
    rcases hp : payload.amount with _ | _ | a
    · simp [ExpenseUpdate.read, hp] at hset
    · exact hundo.sums hp
    · exact hreadonly (by simp [hp])
  obtain ⟨_, g, _, _, hversion, _, rfl⟩ := updateExpense_rows h hget hop
  rw [eq_nil_iff_forall_not_mem] at hnil ⊢
  intro x hx
  obtain ⟨hx, hp⟩ := mem_children.mp hx
  obtain ⟨r, hr, rfl⟩ := mem_map.mp hx
  exact hnil r (mem_children.mpr ⟨hr, (hversion r hr).parent ▸ hp⟩)

theorem ExpenseUpdate.Undoable.invoiced (hundo : payload.Undoable env d e) :
    optionalField (payload.read e).invoiceId (requireInvoice env) = .ok () := by
  rcases hp : payload.invoiceId with _ | v
  · simp [ExpenseUpdate.read, hp, optionalField]
  · have hall := hundo.invoice (by simp [hp])
    cases hi : e.invoiceId with
    | none => simp [ExpenseUpdate.read, hp, hi, optionalField]
    | some i => simpa [ExpenseUpdate.read, hp, hi, optionalField, requireInvoice] using hall

theorem ExpenseUpdate.Undoable.runs (h : Sound none d) (heuro : ∀ n ∈ env'.nodes, n.currency = text "EUR")
    (hyears : env'.years = env.years) (hget : d.get k = some e) (hop : updateExpense env k payload d = .ok d₁)
    (hundo : payload.Undoable env' d e) : ∃ d₂, updateExpense env' k (payload.read e) d₁ = .ok d₂ := by
  obtain ⟨he, rfl⟩ := get_some hget
  have h₁ := updateExpense_sound h hop
  obtain ⟨_, _, _, hcheck, hget', hopen, _, hinherited, _⟩ := updateExpense_ok hop
  obtain rfl := Option.some.inj (hget.symm.trans hget')
  obtain ⟨target, htarget, hget₁, _⟩ := updateExpense_get h hget hop
  obtain ⟨back, hback⟩ := hundo.moves
  have hrow := patched_restored h heuro he htarget hback
  have hchecked : ((e.patched payload target).stored.patched (payload.read e) back).checked = .ok e :=
    hrow.symm ▸ h.checked e he
  obtain ⟨d', hsave⟩ : ∃ d', d₁.save e = .ok d' := ⟨_, bind_ok.mpr ⟨e, h.checked e he, rfl⟩⟩
  have hruns : ∀ entry p, e.parentExpenseId = some p → ∃ d₂, (d'.audit entry).recomputeParentAmount p = .ok d₂ := by
    intro entry p hp
    have he₁ := (get_some hget₁).1
    have hsound : Sound (some p) d' :=
      h₁.weaken.save he₁ hsave ⟨rfl, rfl, rfl, rfl⟩ (h.described e he) (.inr (.inl hp))
    refine recompute_runs (fun q hq _ => hsound.checked q hq) (hsound.total_stored p) fun q hq hid => ?_
    subst hid
    exact total_back h hget hop hsave hq hp
  obtain ⟨d₂, hrest⟩ := parent_runs (payload.read e).amount (hruns (.expenseUpdate e.id (some
    ((payload.read e).read (e.patched payload target).stored, (payload.read e).read e))))
  refine ⟨d₂, ?_⟩
  rw [updateExpense]
  refine bind_ok.mpr ⟨(), read_checked (h.checked e he) (h.described e he) hcheck, ?_⟩
  simp only [hget₁]
  refine bind_ok.mpr ⟨(), ?_, bind_ok.mpr ⟨(), raiseUnless_ok.mpr ?_, bind_ok.mpr ⟨(), raiseUnless_ok.mpr ?_,
    bind_ok.mpr ⟨back, hback, bind_ok.mpr ⟨(), hundo.invoiced, bind_ok.mpr ⟨d', hrow.symm ▸ hsave, ?_⟩⟩⟩⟩⟩⟩
  · rw [requireOpenFiscalYear, hyears]
    exact hopen
  · cases hset : (payload.read e).amount with
    | none => rfl
    | some v => simp [hundo.leaf h hget hop (by simp [hset])]
  · cases hsub : e.parentExpenseId with
    | none => simp [BudgetExpense.stored, BudgetExpense.patched, hsub]
    | some p => simp [ExpenseUpdate.read, hinherited (by simp [hsub])]
  · rw [hrow]
    exact hrest

theorem revertAudit_update (env : Env) {n : ℕ} {old new : BudgetExpense} (hget : d.get k = some e)
    (hentry : d.log[n]? = some (.expenseUpdate k (some (payload.read old, payload.read new)))) :
    ((payload.read e).Alike env (payload.read new) → revertAudit env n d = updateExpense env k (payload.read old) d) ∧
      (¬ (payload.read e).Alike env (payload.read new) → revertAudit env n d = .error (.conflict (text "stale_revert"))) := by
  rw [revertAudit, hentry]
  simp only [revertExpenseUpdate, hget]
  constructor
  · intro halike
    rw [notStale_iff.mpr halike]
    rfl
  · intro halike
    rw [Bool.eq_false_iff.mpr fun hfresh => halike (notStale_iff.mp hfresh)]
    rfl

theorem read_stored (he : e.stored = e) (hamount : ∀ a, payload.amount = some (some a) → cents a = a) (target : Option Node) :
    payload.read (e.patched payload target).stored = payload.read (e.patched payload target) := by
  simp only [ExpenseUpdate.read, ExpenseUpdate.mk.injEq]
  refine ⟨?_, rfl, rfl, rfl, rfl, rfl, rfl, rfl, rfl, rfl, rfl⟩
  rcases hp : payload.amount with _ | _ | a
  · rfl
  · simpa [BudgetExpense.stored, BudgetExpense.patched, Patch.writeRequired, hp] using congrArg BudgetExpense.amount he
  · simpa [BudgetExpense.stored, BudgetExpense.patched, Patch.writeRequired, hp] using hamount a hp

theorem BudgetExpense.Kept.stored (hkept : e.Kept payload) {target : Option Node}
    (htarget : (payload.budgetId.getD none = none ∧ target = none) ∨
      ∃ node, payload.budgetId = some (some node.id) ∧ target = some node ∧ node.currency = e.currency) :
    (e.patched payload target).stored = e := by
  rcases htarget with ⟨_, rfl⟩ | ⟨node, hset, rfl, hcurrency⟩
  · exact hkept.1
  · have hid : node.id = e.budgetId := by simpa [hset] using hkept.2
    have hsame : e.patched payload (some node) = e.patched payload none := by
      simp [BudgetExpense.patched, hid, hcurrency]
    rw [hsame]
    exact hkept.1

/-- An update and the revert of its entry, also where the revert is refused. -/
theorem updateExpense_undone (env' : Env) (h : Sound none d) (heuro : ∀ n ∈ env.nodes, n.currency = text "EUR")
    (hnodes : env'.nodes = env.nodes) (hyears : env'.years = env.years) (hget : d.get k = some e)
    (hop : updateExpense env k payload d = .ok d₁) (hundo : payload.Undoable env' d e ∨ e.Kept payload) :
    ((revertAudit env' d.log.length d₁).toOption.getD d₁).get k = some e := by
  obtain ⟨he, rfl⟩ := get_some hget
  obtain ⟨⟨_, _, hcurrency⟩, hstored⟩ := checked_iff.mp (h.checked e he)
  obtain ⟨target, htarget, hget₁, hlog⟩ := updateExpense_get h hget hop
  have hentry : d₁.log[d.log.length]? = some (e.updated payload target) := by simp [hlog]
  obtain ⟨hfresh, hstale⟩ := revertAudit_update env' hget₁ hentry
  cases hrevert : revertAudit env' d.log.length d₁ with
  | ok d₂ =>
    by_cases halike : (payload.read (e.patched payload target).stored).Alike env' (payload.read (e.patched payload target))
    · exact updateExpense_back h (hnodes ▸ heuro) hget hop ((hfresh halike).symm.trans hrevert)
    · rw [hstale halike] at hrevert
      cases hrevert
  | error p =>
    rcases hundo with hundo | hkept
    · rw [read_stored hstored hundo.amount] at hfresh
      obtain ⟨d₂, hback⟩ := hundo.runs h (hnodes ▸ heuro) hyears hget hop
      rw [hfresh (.refl env' _), hback] at hrevert
      cases hrevert
    · show d₁.get e.id = some e
      rw [hget₁, hkept.stored ((moveTarget_ok htarget).imp_right ?_)]
      rintro ⟨node, hnode, hset, rfl⟩
      exact ⟨node, hset, rfl, (heuro node hnode).trans hcurrency.symm⟩

end Revert

end Budget
