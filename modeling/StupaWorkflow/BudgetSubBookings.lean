import StupaWorkflow.BudgetTransfers
import StupaWorkflow.Runs

/-!
A booking with sub-bookings carries their sum, and they stand in its cost centre, its fiscal year
and its kind. Between a write to a sub-booking and the recomputation of the sum one parent is
stale.
-/
namespace Budget
open Py Decimals List

structure IsChild (parent child : BudgetExpense) : Prop where
  centre : child.budgetId = parent.budgetId
  year : child.fiscalYearId = parent.fiscalYearId
  kind : child.kind = parent.kind

def Db.total (d : Db) (k : Uuid) : ℚ := ((d.children k).map BudgetExpense.amount).sum

structure SubBooked (d : Db) : Prop where
  total : ∀ q ∈ d.bookings, d.children q.id ≠ [] → q.amount = d.total q.id
  inherits : ∀ q ∈ d.bookings, ∀ c ∈ d.children q.id, IsChild q c
  flat : ∀ q ∈ d.bookings, ∀ c ∈ d.children q.id, d.children c.id = []
  legs : ∀ q ∈ d.bookings, q.transferId ≠ none → d.children q.id = []

section Books

structure IsParent (parent child : BudgetExpense) : Prop extends IsChild parent child where
  top : parent.parentExpenseId = none
  leg : parent.transferId = none
  child_leg : child.transferId = none

structure Books (stale : Option Uuid) (d : Db) : Prop where
  ids : (d.bookings.map BudgetExpense.id).Nodup
  below : ∀ r ∈ d.bookings, r.id < d.next
  positive : ∀ r ∈ d.bookings, 0 < r.amount
  rounded : ∀ r ∈ d.bookings, cents r.amount = r.amount
  parent : ∀ r ∈ d.bookings, ∀ p, r.parentExpenseId = some p → ∃ q ∈ d.bookings, q.id = p ∧ IsParent q r
  total : ∀ q ∈ d.bookings, stale ≠ some q.id → d.children q.id ≠ [] → q.amount = d.total q.id

variable {stale stale' : Option Uuid} {d d' : Db}
variable {e q : BudgetExpense}

theorem Books.unique (h : Books stale d) {x y : BudgetExpense} (hx : x ∈ d.bookings) (hy : y ∈ d.bookings)
    (hid : x.id = y.id) : x = y := inj_on_of_nodup_map h.ids hx hy hid

theorem Books.get (h : Books stale d) (he : e ∈ d.bookings) {k : Uuid} (hid : e.id = k) :
    d.get k = some e := Table.find_of_mem h.ids he hid

theorem Books.parent_of (h : Books stale d) {c : BudgetExpense} (hq : q ∈ d.bookings) (hc : c ∈ d.children q.id) :
    IsParent q c := by
  obtain ⟨hc, hp⟩ := mem_children.mp hc
  obtain ⟨q', hq', hid, hparent⟩ := h.parent c hc q.id hp
  rwa [h.unique hq' hq hid] at hparent

theorem Books.children_nil (h : Books stale d) (he : e ∈ d.bookings) (hsub : e.parentExpenseId ≠ none ∨ e.transferId ≠ none) :
    d.children e.id = [] := by
  rw [eq_nil_iff_forall_not_mem]
  intro c hc
  have hparent := h.parent_of he hc
  rcases hsub with hsub | hsub
  · exact hsub hparent.top
  · exact hsub hparent.leg

theorem Books.total_pos (h : Books stale d) {k : Uuid} (hne : d.children k ≠ []) : 0 < d.total k := by
  have hmem : ∀ c ∈ d.children k, 0 < c.amount := fun c hc => h.positive c (mem_children.mp hc).1
  rw [Db.total]
  cases hrows : d.children k with
  | nil => exact absurd hrows hne
  | cons c rest =>
    rw [hrows] at hmem
    have hrest : 0 ≤ (rest.map BudgetExpense.amount).sum := by
      refine sum_nonneg fun a ha => ?_
      obtain ⟨x, hx, rfl⟩ := mem_map.mp ha
      exact (hmem x (mem_cons_of_mem _ hx)).le
    rw [map_cons, sum_cons]
    exact add_pos_of_pos_of_nonneg (hmem c mem_cons_self) hrest

theorem Books.total_rounded (h : Books stale d) (k : Uuid) : cents (d.total k) = d.total k := by
  refine cents_sum fun a ha => ?_
  obtain ⟨c, hc, rfl⟩ := mem_map.mp ha
  exact h.rounded c (mem_children.mp hc).1

theorem Books.total_eq (h : Books none d) (hq : q ∈ d.bookings) (hne : d.children q.id ≠ []) : q.amount = d.total q.id :=
  h.total q hq (Option.some_ne_none q.id).symm hne

theorem Books.subBooked (h : Books none d) : SubBooked d where
  total q hq hne := h.total_eq hq hne
  inherits q hq c hc := (h.parent_of hq hc).toIsChild
  flat q hq c hc := by
    obtain ⟨hmem, hp⟩ := mem_children.mp hc
    exact h.children_nil hmem (.inl (by simp [hp]))
  legs q hq hleg := h.children_nil hq (.inr hleg)

theorem Books.audit (h : Books stale d) (entry : AuditEntry) : Books stale (d.audit entry) where
  ids := h.ids
  below := h.below
  positive := h.positive
  rounded := h.rounded
  parent := h.parent
  total := h.total

theorem emptyDb_books : Books none emptyDb where
  ids := nodup_nil
  below := by simp [emptyDb]
  positive := by simp [emptyDb]
  rounded := by simp [emptyDb]
  parent := by simp [emptyDb]
  total := by simp [emptyDb]

end Books

section Writes

variable {stale stale' : Option Uuid} {d d' : Db}
variable {r e : BudgetExpense}

theorem checked_pos {r' : BudgetExpense} (h : r.checked = .ok r') : 0 < r.stored.amount := by
  obtain ⟨_, hcheck, _⟩ := bind_ok.mp h
  simp only [raiseUnless_ok, Bool.and_eq_true, decide_eq_true_eq] at hcheck
  exact hcheck.1.1

theorem insert_pos (h : d.insert r = .ok d') : 0 < r.stored.amount := by
  obtain ⟨r', hr', _⟩ := bind_ok.mp h
  exact checked_pos hr'

theorem save_pos (h : d.save r = .ok d') : 0 < r.stored.amount := by
  obtain ⟨r', hr', _⟩ := bind_ok.mp h
  exact checked_pos hr'

theorem children_insert (d : Db) (r : BudgetExpense) (n k : Uuid) :
    (⟨d.bookings ++ [r], d.log, n⟩ : Db).children k = d.children k ++ [r].filter fun r => r.parentExpenseId = some k :=
  filter_append _ _

theorem Books.insert (h : Books none d) {r : BudgetExpense} (hid : r.id = d.next) (hins : d.insert r = .ok d')
    (hp : ∀ p, r.parentExpenseId = some p → ∃ q ∈ d.bookings, q.id = p ∧ IsParent q r) :
    Books r.parentExpenseId { d' with next := d.next + 1 } := by
  have hpos := insert_pos hins
  rw [insert_ok hins]
  have hmem : ∀ {q}, q ∈ d.bookings ++ [r.stored] → q ∈ d.bookings ∨ q = r.stored := by simp
  constructor
  case ids =>
    refine Table.nodup_insert h.ids fun q hq => ?_
    show q.id ≠ r.id
    rw [hid]
    exact (h.below q hq).ne
  case below =>
    intro q hq
    rcases hmem hq with hq | rfl
    · exact Nat.lt_succ_of_lt (h.below q hq)
    · show r.id < d.next + 1
      rw [hid]
      exact Nat.lt_succ_self _
  case positive =>
    intro q hq
    rcases hmem hq with hq | rfl
    · exact h.positive q hq
    · exact hpos
  case rounded =>
    intro q hq
    rcases hmem hq with hq | rfl
    · exact h.rounded q hq
    · exact cents_idem _
  case parent =>
    intro q hq p hqp
    rcases hmem hq with hq | rfl
    · obtain ⟨x, hx, hxid, hparent⟩ := h.parent q hq p hqp
      exact ⟨x, mem_append_left _ hx, hxid, hparent⟩
    · obtain ⟨x, hx, hxid, hparent⟩ := hp p hqp
      exact ⟨x, mem_append_left _ hx, hxid, ⟨hparent.centre, hparent.year, hparent.kind⟩, hparent.top, hparent.leg,
        hparent.child_leg⟩
  case total =>
    intro q hq hstale hne
    have hsame : (⟨d.bookings ++ [r.stored], d.log, d.next + 1⟩ : Db).children q.id = d.children q.id := by
      rw [children_insert]
      have : r.stored.parentExpenseId ≠ some q.id := hstale
      simp [this]
    rw [Db.total, hsame]
    rw [hsame] at hne
    rcases hmem hq with hq | rfl
    · exact h.total_eq hq hne
    · -- nothing has a parent that is not there yet
      refine absurd ?_ hne
      rw [eq_nil_iff_forall_not_mem]
      intro c hc
      obtain ⟨hc, hcp⟩ := mem_children.mp hc
      obtain ⟨x, hx, hxid, _⟩ := h.parent c hc _ hcp
      exact absurd (hxid.trans hid) (h.below x hx).ne

structure Replaces (e r : BudgetExpense) : Prop where
  id : r.id = e.id
  transfer : r.transferId = e.transferId
  parent : r.parentExpenseId = e.parentExpenseId
  year : r.fiscalYearId = e.fiscalYearId
  kind : r.kind = e.kind

theorem children_save (h : Books stale d) (he : e ∈ d.bookings) (hr : Replaces e r) (hsave : d.save r = .ok d') (k : Uuid) :
    d'.children k = (d.children k).map fun x => if x.id = r.id then r.stored else x := by
  rw [save_ok hsave]
  show (d.bookings.map _).filter _ = _
  rw [filter_map, Db.children]
  congr 1
  refine filter_congr fun x hx => ?_
  simp only [Function.comp_apply]
  split
  next hid =>
    have hxe : x = e := h.unique hx he (hid.trans hr.id)
    rw [hxe, show r.stored.parentExpenseId = e.parentExpenseId from hr.parent]
  next => rfl

theorem total_save (h : Books stale d) (he : e ∈ d.bookings) (hr : Replaces e r) (hsave : d.save r = .ok d') {k : Uuid}
    (hkeep : e.parentExpenseId = some k → cents r.amount = e.amount) : d'.total k = d.total k := by
  rw [Db.total, children_save h he hr hsave, map_map, Db.total]
  congr 1
  refine map_congr_left fun x hx => ?_
  obtain ⟨hmem, hp⟩ := mem_children.mp hx
  simp only [Function.comp_apply]
  split
  next hid =>
    obtain rfl := h.unique hmem he (hid.trans hr.id)
    exact hkeep hp
  next => rfl

/-- A new version of one row: it stays in its cost centre where it has sub-bookings or
is one, and the stale parent is the one whose sum moves. -/
theorem Books.save (h : Books stale d) (he : e ∈ d.bookings) (hr : Replaces e r) (hsave : d.save r = .ok d')
    (hcentre : e.parentExpenseId ≠ none ∨ d.children e.id ≠ [] → r.budgetId = e.budgetId)
    (hsub : ∀ p, e.parentExpenseId = some p → stale' = some p ∨ cents r.amount = e.amount)
    (hown : stale' ≠ some e.id → d.children e.id ≠ [] → cents r.amount = d.total e.id)
    (hothers : ∀ k, k ≠ e.id → stale' ≠ some k → stale ≠ some k) : Books stale' d' := by
  have hpos := save_pos hsave
  have hrows : d'.bookings = d.bookings.map fun x => if x.id = r.id then r.stored else x := by rw [save_ok hsave]
  -- the new version of a row has the links of the old one
  have hnew : ∀ x ∈ d.bookings, Replaces x (if x.id = r.id then r.stored else x) := by
    intro x hx
    split
    next hid =>
      obtain rfl := h.unique hx he (hid.trans hr.id)
      exact ⟨hr.id, hr.transfer, hr.parent, hr.year, hr.kind⟩
    next => exact ⟨rfl, rfl, rfl, rfl, rfl⟩
  have hstay : ∀ x ∈ d.bookings, x.parentExpenseId ≠ none ∨ d.children x.id ≠ [] →
      (if x.id = r.id then r.stored else x).budgetId = x.budgetId := by
    intro x hx hlink
    split
    next hid =>
      obtain rfl := h.unique hx he (hid.trans hr.id)
      exact hcentre hlink
    next => rfl
  constructor
  case ids =>
    have : d'.bookings.map BudgetExpense.id = d.bookings.map BudgetExpense.id := by
      rw [hrows, map_map]
      exact map_congr_left fun x hx => (hnew x hx).id
    rw [this]
    exact h.ids
  case below =>
    rw [hrows]
    refine forall_mem_map.mpr fun x hx => ?_
    rw [(hnew x hx).id, save_ok hsave]
    exact h.below x hx
  case positive =>
    rw [hrows]
    refine forall_mem_map.mpr fun x hx => ?_
    split
    · exact hpos
    · exact h.positive x hx
  case rounded =>
    rw [hrows]
    refine forall_mem_map.mpr fun x hx => ?_
    split
    · exact cents_idem _
    · exact h.rounded x hx
  case parent =>
    rw [hrows]
    refine forall_mem_map.mpr fun x hx p hp => ?_
    rw [(hnew x hx).parent] at hp
    obtain ⟨q, hq, rfl, hparent⟩ := h.parent x hx p hp
    have hchild : d.children q.id ≠ [] := ne_nil_of_mem (mem_children.mpr ⟨hx, hp⟩)
    refine ⟨_, mem_map_of_mem hq, (hnew q hq).id, ⟨?_, ?_, ?_⟩, ?_, ?_, ?_⟩
    · rw [hstay x hx (.inl (by simp [hp])), hstay q hq (.inr hchild)]
      exact hparent.centre
    · rw [(hnew x hx).year, (hnew q hq).year]
      exact hparent.year
    · rw [(hnew x hx).kind, (hnew q hq).kind]
      exact hparent.kind
    · rw [(hnew q hq).parent]
      exact hparent.top
    · rw [(hnew q hq).transfer]
      exact hparent.leg
    · rw [(hnew x hx).transfer]
      exact hparent.child_leg
  case total =>
    rw [hrows]
    refine forall_mem_map.mpr fun q hq hstale hne => ?_
    rw [(hnew q hq).id] at hstale hne ⊢
    have hne : d.children q.id ≠ [] := by
      rintro hnil
      rw [children_save h he hr hsave, hnil] at hne
      exact hne rfl
    rw [total_save h he hr hsave fun hp => (hsub q.id hp).resolve_left hstale]
    split
    next hid =>
      obtain rfl := h.unique hq he (hid.trans hr.id)
      exact hown hstale hne
    next hid => exact h.total q hq (hothers q.id (fun heq => hid (heq.trans hr.id.symm)) hstale) hne

theorem Books.recompute {p : Uuid} (h : Books (some p) d) (hrec : d.recomputeParentAmount p = .ok d') :
    Books none d' := by
  rw [Db.recomputeParentAmount] at hrec
  by_cases hnil : d.children p = []
  · have hzero : ¬ (0 : ℚ) < ((d.children p).map BudgetExpense.amount).sum := by simp [hnil]
    simp only [if_neg hzero] at hrec
    cases hrec
    refine { h with total := fun q hq _ hne => h.total q hq ?_ hne }
    rintro hstale
    rw [← Option.some.inj hstale] at hne
    exact hne hnil
  · obtain ⟨c, hc⟩ := exists_mem_of_ne_nil _ hnil
    obtain ⟨hmem, hp⟩ := mem_children.mp hc
    obtain ⟨q, hq, rfl, hparent⟩ := h.parent c hmem p hp
    simp only [if_pos (show 0 < ((d.children q.id).map BudgetExpense.amount).sum from h.total_pos hnil),
      h.get hq rfl] at hrec
    refine h.save (r := { q with amount := d.total q.id }) hq ⟨rfl, rfl, rfl, rfl, rfl⟩ hrec (fun _ => rfl) ?_ ?_ ?_
    · intro p hp
      rw [hparent.top] at hp
      cases hp
    · exact fun _ _ => h.total_rounded q.id
    · rintro k hk - hstale
      exact hk (Option.some.inj hstale).symm

theorem Books.delete (h : Books none d) {k : Uuid}
    (hstale : ∀ e ∈ d.bookings, e.id = k → ∀ p, e.parentExpenseId = some p → stale = some p ∨ d.children p = [e]) :
    Books stale (d.delete k) := by
  have hmem : ∀ {x}, x ∈ (d.delete k).bookings ↔ x ∈ d.bookings ∧ x.id ≠ k ∧ x.parentExpenseId ≠ some k := by
    simp [Db.delete]
  constructor
  case ids => exact h.ids.sublist (List.Sublist.map _ filter_sublist)
  case below => exact fun r hr => h.below r (hmem.mp hr).1
  case positive => exact fun r hr => h.positive r (hmem.mp hr).1
  case rounded => exact fun r hr => h.rounded r (hmem.mp hr).1
  case parent =>
    intro r hr p hp
    obtain ⟨hr, _, hkeep⟩ := hmem.mp hr
    obtain ⟨q, hq, rfl, hparent⟩ := h.parent r hr p hp
    refine ⟨q, hmem.mpr ⟨hq, fun hid => hkeep (hid ▸ hp), ?_⟩, rfl, hparent⟩
    simp [hparent.top]
  case total =>
    intro q hq hq' hne
    obtain ⟨hq, hqk, _⟩ := hmem.mp hq
    have hrows : (d.delete k).children q.id = (d.children q.id).filter fun r => r.id ≠ k := by
      rw [Db.children, Db.delete, Db.children, filter_comm]
      refine filter_congr fun r hr => ?_
      have hp : r.parentExpenseId = some q.id := by simpa using of_mem_filter hr
      simp [hp, hqk]
    rw [hrows] at hne
    have hall : (d.children q.id).filter (fun r => r.id ≠ k) = d.children q.id := by
      rw [filter_eq_self]
      intro r hr
      refine decide_eq_true fun hid => ?_
      obtain ⟨hr, hp⟩ := mem_children.mp hr
      rcases hstale r hr hid q.id hp with hstale | honly
      · exact hq' hstale
      · exact hne (by simp [honly, hid])
    rw [Db.total, hrows, hall]
    rw [hall] at hne
    exact h.total_eq hq hne

theorem Books.deleteAll (h : Books none d) {rows : List BudgetExpense}
    (htop : ∀ x ∈ rows, ∀ e ∈ d.bookings, e.id = x.id → e.parentExpenseId = none) : Books none (d.deleteAll rows) := by
  induction rows generalizing d with
  | nil => exact h
  | cons x rows ih =>
    have hstep : d.deleteAll (x :: rows) = (d.delete x.id).deleteAll rows := rfl
    rw [hstep]
    refine ih (h.delete fun e he hid p hp => ?_) fun y hy e he hid => ?_
    · rw [htop x mem_cons_self e he hid] at hp
      cases hp
    · exact htop y (mem_cons_of_mem _ hy) e (mem_of_mem_filter he) hid

theorem Books.leg_top (h : Books stale d) (he : e ∈ d.bookings) (hleg : e.transferId ≠ none) : e.parentExpenseId = none := by
  cases hp : e.parentExpenseId with
  | none => rfl
  | some p =>
    obtain ⟨q, _, _, hparent⟩ := h.parent e he p hp
    exact absurd hparent.child_leg hleg

theorem Books.deleteLegs (h : Books none d) (t : Uuid) : Books none (d.deleteAll (d.legs t)) := by
  refine h.deleteAll fun x hx e he hid => ?_
  obtain ⟨hx, hleg⟩ := mem_legs.mp hx
  rw [h.unique he hx hid]
  exact h.leg_top hx (by simp [hleg])

end Writes

section Operations

variable {env : Env} {d d' : Db}
variable {actor : Text} {payload : ExpenseUpdate} {expenseId t : Uuid}

theorem createExpense_books {payload : ExpenseCreate} (h : Books none d) (hop : createExpense env payload actor d = .ok d') :
    Books none d' := by
  obtain ⟨_, _, r, d₁, _, _, hins, ⟨hid, _, hp⟩, _, _, _, rfl⟩ := createExpense_ok hop
  have hbooks := h.insert hid hins (by simp [hp])
  rw [hp] at hbooks
  exact hbooks.audit _

theorem createSubBooking_books {parentId : Uuid} {payload : SubBookingCreate} (h : Books none d)
    (hop : createSubBooking env parentId payload actor d = .ok d') : Books none d' := by
  obtain ⟨parent, r, d₁, d₂, _, hget, ⟨hnested, hleg⟩, _, hins, ⟨hid, ht, hp⟩, ⟨hcentre, hyear, hkind⟩, _, hrec, rfl⟩ :=
    createSubBooking_ok hop
  obtain ⟨hmem, rfl⟩ := get_some hget
  have hstale := h.insert hid hins fun p hpp => by
    obtain rfl := Option.some.inj (hp.symm.trans hpp)
    exact ⟨parent, hmem, rfl, ⟨hcentre, hyear, hkind⟩, hnested, hleg, ht⟩
  rw [hp] at hstale
  exact (hstale.recompute hrec).audit _

def Db.KeepsCentre (d : Db) (expenseId : Uuid) (payload : ExpenseUpdate) : Prop :=
  ∀ e ∈ d.bookings, e.id = expenseId → d.children expenseId ≠ [] → payload.budgetId.writeRequired e.budgetId = e.budgetId

theorem moveTarget_id {fy b : Uuid} {target : Option Node} (h : moveTarget env payload fy = .ok target) :
    (target.map Node.id).getD b = payload.budgetId.writeRequired b := by
  rcases moveTarget_ok h with ⟨hnone, rfl⟩ | ⟨node, _, hset, rfl⟩
  · rw [Patch.writeRequired, hnone]
    rfl
  · rw [hset]
    rfl

theorem updateExpense_books (h : Books none d) (hcentre : d.KeepsCentre expenseId payload)
    (hop : updateExpense env expenseId payload d = .ok d') : Books none d' := by
  obtain ⟨expense, target, d₁, _, hget, _, hreadonly, hinherited, htarget, hsave, hrest⟩ := updateExpense_ok hop
  obtain ⟨hmem, rfl⟩ := get_some hget
  have hround := h.rounded expense hmem
  -- the amount of a parent is read-only, the cost centre of a sub-booking too
  have hamount : d.children expense.id ≠ [] → payload.amount.writeRequired expense.amount = expense.amount := by
    intro hne
    have hnone : payload.amount.getD none = none := by
      by_contra hset
      exact hne (hreadonly hset)
    simp [Patch.writeRequired, hnone]
  have hstay : expense.parentExpenseId ≠ none ∨ d.children expense.id ≠ [] →
      (expense.patched payload target).budgetId = expense.budgetId := by
    show _ → (target.map Node.id).getD expense.budgetId = expense.budgetId
    rw [moveTarget_id htarget]
    rintro (hsub | hparent)
    · rw [hinherited hsub]
      rfl
    · exact hcentre expense hmem rfl hparent
  have hsaved : ∀ {stale'}, (∀ p, expense.parentExpenseId = some p → stale' = some p ∨
      cents (expense.patched payload target).amount = expense.amount) → Books stale' d₁ := by
    intro stale' hsub
    refine h.save (r := expense.patched payload target) hmem ⟨rfl, rfl, rfl, rfl, rfl⟩ hsave hstay hsub ?_
      fun k _ _ => (Option.some_ne_none k).symm
    intro _ hne
    show cents (payload.amount.writeRequired expense.amount) = _
    rw [hamount hne, hround]
    exact h.total_eq hmem hne
  rcases hrest with ⟨parent, v, hparent, _, hrec⟩ | ⟨hno, rfl⟩
  · refine Books.recompute (Books.audit (hsaved ?_) _) hrec
    intro p hp
    exact .inl (hparent.symm.trans hp)
  · refine (hsaved ?_).audit _
    intro p hp
    right
    have hleft : payload.amount = none := by
      cases hset : payload.amount with
      | none => rfl
      | some v => exact absurd hset (hno p v hp)
    show cents (payload.amount.writeRequired expense.amount) = _
    rw [hleft]
    exact hround

theorem deleteExpense_books (h : Books none d) (hop : deleteExpense env expenseId d = .ok d') : Books none d' := by
  obtain ⟨expense, d₁, hget, _, hdeleted, hrest⟩ := deleteExpense_ok hop
  obtain ⟨hmem, rfl⟩ := get_some hget
  have hdelete : Books expense.parentExpenseId d₁ := by
    rcases hdeleted with ⟨t, ht, rfl⟩ | ⟨_, rfl⟩
    · rw [h.leg_top hmem (by simp [ht])]
      exact h.deleteLegs t
    · refine h.delete fun e he hid p hp => .inl ?_
      rwa [h.unique he hmem hid] at hp
  rcases hrest with ⟨p, hp, hrec⟩ | ⟨hp, rfl⟩
  · rw [hp] at hdelete
    exact (hdelete.audit _).recompute hrec
  · rw [hp] at hdelete
    exact hdelete.audit _

theorem createTransfer_books {payload : TransferCreate} (h : Books none d) (hop : createTransfer env payload actor d = .ok d') :
    Books none d' := by
  obtain ⟨src, dst, fy, d₁, d₂, _, _, _, hout, hincome, rfl⟩ := createTransfer_ok hop
  have hfresh : Books none { d with next := d.next + 1 } :=
    { h with below := fun r hr => Nat.lt_succ_of_lt (h.below r hr) }
  have hfirst := hfresh.insert rfl (insert_next hout (d.next + 1)) (by simp [transferLeg])
  exact (hfirst.insert rfl (insert_next hincome (d.next + 1 + 1)) (by simp [transferLeg])).audit _

theorem Books.saveLeg (h : Books none d) {payload : TransferUpdate} {e r : BudgetExpense} (he : e ∈ d.bookings)
    (hleg : e.transferId ≠ none) (hr : payload.patched e = .ok r) (hsave : d.save r = .ok d') : Books none d' := by
  obtain ⟨hid, ht, hp, hkind, hyear, _, _, _⟩ := transferPatched_ok hr
  have htop := h.leg_top he hleg
  have hnil := h.children_nil he (.inr hleg)
  refine h.save he ⟨hid, ht, hp, hyear, hkind⟩ hsave ?_ ?_ ?_ fun _ _ => id
  · simp [htop, hnil]
  · simp [htop]
  · simp [hnil]

theorem updateTransfer_books {payload : TransferUpdate} (h : Books none d) (hop : updateTransfer env t payload d = .ok d') :
    Books none d' := by
  obtain ⟨out, income, out', income', d₁, d₂, _, hlegs, _, hout', hincome', hsave, hsave', rfl⟩ := updateTransfer_ok hop
  obtain ⟨⟨hmem, hleg⟩, ⟨hmem', hleg'⟩, hkind⟩ := transferLegs_mem hlegs
  have hbooks := h.saveLeg hmem (by simp [hleg]) hout' hsave
  have hother : income ∈ d₁.bookings := by
    have hne : income.id ≠ out'.id := by
      intro hid
      rw [(transferPatched_ok hout').id] at hid
      exact hkind (h.unique hmem hmem' hid.symm ▸ rfl)
    rw [save_ok hsave]
    exact mem_map.mpr ⟨income, hmem', if_neg hne⟩
  exact (hbooks.saveLeg hother (by simp [hleg']) hincome' hsave').audit _

theorem deleteTransfer_books (h : Books none d) (hop : deleteTransfer env t d = .ok d') : Books none d' := by
  obtain ⟨out, income, hlegs, _, rfl⟩ := deleteTransfer_ok hop
  obtain ⟨⟨hmem, hleg⟩, ⟨hmem', hleg'⟩, _⟩ := transferLegs_mem hlegs
  refine Books.audit (h.deleteAll ?_) _
  intro x hx e he hid
  rcases mem_pair.mp hx with rfl | rfl
  · rw [h.unique he hmem hid]
    exact h.leg_top hmem (by simp [hleg])
  · rw [h.unique he hmem' hid]
    exact h.leg_top hmem' (by simp [hleg'])

def Db.Only (d : Db) (k : Uuid) : Prop := ∀ e ∈ d.bookings, e.id = k → ∀ p ∈ e.parentExpenseId, d.children p = [e]

end Operations

section Runs

/-- The revert of the entry deletes no sub-booking that has siblings, and moves no
booking that has sub-bookings. -/
def AuditEntry.Undoable (d : Db) : AuditEntry → Prop
  | .expenseCreate k => d.Only k
  | .expenseUpdate k (some (before, _)) => d.KeepsCentre k before
  | _ => True

def Request.Careful (d : Db) : Request → Prop
  | .updateExpense k payload => d.KeepsCentre k payload
  | .revertAudit n => ∀ entry ∈ d.log[n]?, entry.Undoable d
  | _ => True

instance (d : Db) (k : Uuid) (payload : ExpenseUpdate) : Decidable (d.KeepsCentre k payload) :=
  inferInstanceAs (Decidable (∀ e ∈ d.bookings, e.id = k → d.children k ≠ [] →
    payload.budgetId.writeRequired e.budgetId = e.budgetId))

instance (d : Db) (k : Uuid) : Decidable (d.Only k) :=
  inferInstanceAs (Decidable (∀ e ∈ d.bookings, e.id = k → ∀ p ∈ e.parentExpenseId, d.children p = [e]))

instance (d : Db) : (entry : AuditEntry) → Decidable (entry.Undoable d)
  | .expenseCreate k => inferInstanceAs (Decidable (d.Only k))
  | .expenseUpdate k (some (before, _)) => inferInstanceAs (Decidable (d.KeepsCentre k before))
  | .expenseUpdate _ none | .transferCreate _ | .expenseDelete _ => isTrue trivial

instance (d : Db) : (r : Request) → Decidable (r.Careful d)
  | .updateExpense k payload => inferInstanceAs (Decidable (d.KeepsCentre k payload))
  | .revertAudit n => inferInstanceAs (Decidable (∀ entry ∈ d.log[n]?, entry.Undoable d))
  | .createTransfer _ _ | .updateTransfer _ _ | .deleteTransfer _ | .createExpense _ _ | .deleteExpense _
  | .createSubBooking _ _ _ => isTrue trivial

theorem revertAudit_books {env : Env} {n : ℕ} {d d' : Db} (h : Books none d)
    (hundo : ∀ entry ∈ d.log[n]?, entry.Undoable d) (hop : revertAudit env n d = .ok d') : Books none d' := by
  rcases revertAudit_cases hop with ⟨k, e, hentry, _, _, rfl⟩ | ⟨t, e, _, _, _, rfl⟩ | ⟨k, before, after, e, hentry, _, _, hop⟩
  · have honly : d.Only k := hundo _ hentry
    exact (h.delete fun e he hid p hp => .inr (honly e he hid p hp)).audit _
  · exact (h.deleteLegs t).audit _
  · exact updateExpense_books h (hundo _ hentry) hop

theorem handle_books {env : Env} {r : Request} {d d' : Db} (h : Books none d) (hr : r.Careful d)
    (hop : r.handle env d = .ok d') : Books none d' := by
  cases r with
  | createTransfer payload actor => exact createTransfer_books h hop
  | updateTransfer t payload => exact updateTransfer_books h hop
  | deleteTransfer t => exact deleteTransfer_books h hop
  | createExpense payload actor => exact createExpense_books h hop
  | updateExpense k payload => exact updateExpense_books h hr hop
  | deleteExpense k => exact deleteExpense_books h hop
  | createSubBooking k payload actor => exact createSubBooking_books h hop
  | revertAudit n => exact revertAudit_books h hr hop

def step (p : Env × Request) (d : Db) : Option Db := (p.2.handle p.1 d).toOption

theorem run_step {rs : List (Env × Request)} {d d' : Db} : Runs.run step d rs = some d' ↔ run rs d = .ok d' := by
  induction rs generalizing d with
  | nil => simp [Runs.run, run]
  | cons p rest ih =>
    rw [Runs.run, run, Option.bind_eq_some_iff, bind_ok]
    exact exists_congr fun d₁ => and_congr toOption_some ih

def CarefulRun (rs : List (Env × Request)) (d : Db) : Prop := Runs.Guarded (fun p d => p.2.Careful d) step d rs

instance (rs : List (Env × Request)) (d : Db) : Decidable (CarefulRun rs d) :=
  inferInstanceAs (Decidable (Runs.Guarded (fun p d => p.2.Careful d) step d rs))

/-- From the empty table, a careful run keeps the books of every parent. -/
theorem run_subBooked {rs : List (Env × Request)} {d : Db} (hrs : CarefulRun rs emptyDb)
    (hrun : run rs emptyDb = .ok d) : SubBooked d := by
  have hbooks : Books none d :=
    Runs.guarded_run (fun h hr hop => handle_books h hr (toOption_some.mp hop)) emptyDb_books hrs (run_step.mpr hrun)
  exact hbooks.subBooked

section Samples

def travelCosts : Request :=
  .createExpense { amount := 100, description := text "trip", budgetId := some 2, fiscalYearId := some 5 } (text "bob")

def share (amount : ℚ) : Request := .createSubBooking 0 { amount := amount, description := text "ticket" } (text "bob")

def twoShares : List (Env × Request) := [(smallBudget, travelCosts), (smallBudget, share 30), (smallBudget, share 20)]

def lostShare : List (Env × Request) := twoShares ++ [(smallBudget, .revertAudit 1)]

def movedTrip : List (Env × Request) := twoShares ++ [(smallBudget, .updateExpense 0 { budgetId := some (some 1) })]

/-- After the revert the booking says 50 over one sub-booking of 20; after the move its
sub-bookings stand in the old cost centre. -/
theorem careless_runs : (∃ d, run lostShare emptyDb = .ok d ∧ ¬ SubBooked d) ∧
    ∃ d, run movedTrip emptyDb = .ok d ∧ ¬ SubBooked d := by
  constructor
  · have hrun : (run lostShare emptyDb).toOption.map
        (fun d => d.bookings.map fun q => (q.amount, d.total q.id, (d.children q.id).isEmpty)) =
          some [(50, 20, false), (20, 0, true)] := by decide +kernel
    obtain ⟨d, hd, hrows⟩ := Option.map_eq_some_iff.mp hrun
    refine ⟨d, toOption_some.mp hd, fun hbooked => ?_⟩
    have hmem : (50, 20, false) ∈ d.bookings.map fun q => (q.amount, d.total q.id, (d.children q.id).isEmpty) := by
      rw [hrows]
      exact mem_cons_self
    obtain ⟨q, hq, heq⟩ := mem_map.mp hmem
    simp only [Prod.mk.injEq] at heq
    have htotal := hbooked.total q hq (by simpa using heq.2.2)
    rw [heq.1, heq.2.1] at htotal
    norm_num at htotal
  · have hrun : (run movedTrip emptyDb).toOption.map
        (fun d => d.bookings.map fun q => (q.budgetId, (d.children q.id).map BudgetExpense.budgetId)) =
          some [(1, [2, 2]), (2, []), (2, [])] := by decide +kernel
    obtain ⟨d, hd, hrows⟩ := Option.map_eq_some_iff.mp hrun
    refine ⟨d, toOption_some.mp hd, fun hbooked => ?_⟩
    have hmem : (1, [2, 2]) ∈ d.bookings.map fun q => (q.budgetId, (d.children q.id).map BudgetExpense.budgetId) := by
      rw [hrows]
      exact mem_cons_self
    obtain ⟨q, hq, heq⟩ := mem_map.mp hmem
    simp only [Prod.mk.injEq] at heq
    have htwo : 2 ∈ (d.children q.id).map BudgetExpense.budgetId := by simp [heq.2]
    obtain ⟨c, hc, hcentre⟩ := mem_map.mp htwo
    have := (hbooked.inherits q hq c hc).centre
    rw [heq.1, hcentre] at this
    cases this

/-- One sub-booking changes its amount, one is deleted, and the creation of the last one
is reverted; the booking moves when it has none left. -/
def settledTrip : List (Env × Request) :=
  twoShares ++ [(smallBudget, .updateExpense 1 { amount := some (some 45) }), (smallBudget, .deleteExpense 2),
    (smallBudget, .revertAudit 1), (smallBudget, .updateExpense 0 { budgetId := some (some 1) })]

theorem settledTrip_subBooked : ∃ d, run settledTrip emptyDb = .ok d ∧
    d.bookings.map BudgetExpense.amount = [45] ∧ SubBooked d := by
  have hrun : (run settledTrip emptyDb).toOption.map (fun d => d.bookings.map BudgetExpense.amount) = some [45] := by
    decide +kernel
  obtain ⟨d, hd, hrows⟩ := Option.map_eq_some_iff.mp hrun
  have hcareful : CarefulRun settledTrip emptyDb := by decide +kernel
  exact ⟨d, toOption_some.mp hd, hrows, run_subBooked hcareful (toOption_some.mp hd)⟩

end Samples

end Runs

end Budget
