import StupaWorkflow.BudgetSteps

/-!
The two legs of a transfer. No operation changes the transfer, the parent or the kind of a
booking, every delete takes both legs, and the update of a transfer writes both.
-/
namespace Budget
open Py Decimals List

/-- An expense and an income of one amount in one fiscal year. -/
structure IsPair (out income : BudgetExpense) : Prop where
  out_kind : out.kind = .expense
  income_kind : income.kind = .income
  amount : out.amount = income.amount
  year : out.fiscalYearId = income.fiscalYearId

def Balanced (rows : List BudgetExpense) : Prop :=
  rows = [] ∨ ∃ out income, rows = [out, income] ∧ IsPair out income

def Paired (d : Db) : Prop := ∀ t, Balanced (d.legs t)

def BudgetExpense.signed (e : BudgetExpense) : ℚ :=
  match e.kind with
  | .expense => -e.amount
  | .income => e.amount

theorem Balanced.net {rows : List BudgetExpense} (h : Balanced rows) : (rows.map BudgetExpense.signed).sum = 0 := by
  rcases h with rfl | ⟨out, income, rfl, hpair⟩
  · rfl
  · simp [BudgetExpense.signed, hpair.out_kind, hpair.income_kind, hpair.amount]

theorem Balanced.map {rows : List BudgetExpense} {g : BudgetExpense → BudgetExpense} (h : Balanced rows)
    (hg : ∀ x ∈ rows, (g x).kind = x.kind ∧ (g x).fiscalYearId = x.fiscalYearId ∧ (g x).amount = x.amount) :
    Balanced (rows.map g) := by
  rcases h with rfl | ⟨out, income, rfl, hpair⟩
  · exact .inl rfl
  · obtain ⟨hkind, hyear, hamount⟩ := hg out (by simp)
    obtain ⟨hkind', hyear', hamount'⟩ := hg income (by simp)
    refine .inr ⟨g out, g income, rfl, ?_⟩
    exact ⟨hkind.trans hpair.out_kind, hkind'.trans hpair.income_kind,
      hamount.trans (hpair.amount.trans hamount'.symm), hyear.trans (hpair.year.trans hyear'.symm)⟩

section WellFormed

def AuditEntry.target : AuditEntry → Uuid
  | .expenseCreate k => k
  | .transferCreate t => t
  | .expenseUpdate k _ => k
  | .expenseDelete k => k

def SameAmount (before after : ExpenseUpdate) : Prop :=
  before.amount = none ∨ ∃ a, before.amount = some (some (cents a)) ∧ after.amount = some (some a)

/-- What an entry of the log says about a leg: a booking that was created alone is
none, and an update of a leg kept its amount. -/
def AuditEntry.Sound (d : Db) : AuditEntry → Prop
  | .expenseCreate k => ∀ r ∈ d.bookings, r.id = k → r.transferId = none
  | .expenseUpdate k (some (before, after)) =>
    ∀ r ∈ d.bookings, r.id = k → r.transferId ≠ none → SameAmount before after
  | _ => True

/-- Every id in the rows and in the log is older than this one. -/
structure Db.Below (d : Db) (k : Uuid) : Prop where
  id : ∀ r ∈ d.bookings, r.id < k
  transfer : ∀ r ∈ d.bookings, ∀ t, r.transferId = some t → t < k
  parent : ∀ r ∈ d.bookings, ∀ p, r.parentExpenseId = some p → p < k
  log : ∀ entry ∈ d.log, entry.target < k

/-- A sub-booking is no leg, and neither is its parent, which has no parent itself. -/
def Leaf (rows : List BudgetExpense) (r : BudgetExpense) : Prop :=
  ∀ p, r.parentExpenseId = some p →
    r.transferId = none ∧ ∀ q ∈ rows, q.id = p → q.transferId = none ∧ q.parentExpenseId = none

structure Wf (d : Db) : Prop where
  ids : (d.bookings.map BudgetExpense.id).Nodup
  below : d.Below d.next
  rounded : ∀ r ∈ d.bookings, cents r.amount = r.amount
  leaf : ∀ r ∈ d.bookings, Leaf d.bookings r
  log : ∀ entry ∈ d.log, entry.Sound d

variable {d : Db}

attribute [local simp] Db.legs Db.recomputeParentAmount Leaf Db.deleteAll BudgetExpense.signed Db.transferLegs notStale

theorem Wf.unique (h : Wf d) {x y : BudgetExpense} (hx : x ∈ d.bookings) (hy : y ∈ d.bookings) (hid : x.id = y.id) :
    x = y := inj_on_of_nodup_map h.ids hx hy hid

theorem Db.Below.mono {j k : Uuid} (h : d.Below j) (hle : j ≤ k) : d.Below k where
  id r hr := lt_of_lt_of_le (h.id r hr) hle
  transfer r hr t ht := lt_of_lt_of_le (h.transfer r hr t ht) hle
  parent r hr p hp := lt_of_lt_of_le (h.parent r hr p hp) hle
  log entry he := lt_of_lt_of_le (h.log entry he) hle

theorem AuditEntry.Sound.keep {d' : Db} {entry : AuditEntry} (h : entry.Sound d)
    (hkeep : ∀ r' ∈ d'.bookings, r'.id = entry.target → ∃ r ∈ d.bookings, r.id = r'.id ∧ r.transferId = r'.transferId) :
    entry.Sound d' := by
  cases entry with
  | transferCreate t => trivial
  | expenseDelete k => trivial
  | expenseCreate k =>
    intro r' hr' hid
    obtain ⟨r, hr, hrid, ht⟩ := hkeep r' hr' hid
    rw [← ht]
    exact h r hr (hrid.trans hid)
  | expenseUpdate k states =>
    cases states with
    | none => trivial
    | some states =>
      intro r' hr' hid hleg
      obtain ⟨r, hr, hrid, ht⟩ := hkeep r' hr' hid
      exact h r hr (hrid.trans hid) (ht ▸ hleg)

theorem Wf.filter (h : Wf d) (p : BudgetExpense → Bool) : Wf { d with bookings := d.bookings.filter p } where
  ids := h.ids.sublist (List.Sublist.map _ filter_sublist)
  below :=
    { id := fun r hr => h.below.id r (mem_of_mem_filter hr)
      transfer := fun r hr => h.below.transfer r (mem_of_mem_filter hr)
      parent := fun r hr => h.below.parent r (mem_of_mem_filter hr)
      log := h.below.log }
  rounded r hr := h.rounded r (mem_of_mem_filter hr)
  leaf r hr p hp := by
    obtain ⟨hleg, hparent⟩ := h.leaf r (mem_of_mem_filter hr) p hp
    exact ⟨hleg, fun q hq => hparent q (mem_of_mem_filter hq)⟩
  log entry he := (h.log entry he).keep fun r' hr' _ => ⟨r', mem_of_mem_filter hr', rfl, rfl⟩

theorem Wf.map (h : Wf d) {g : BudgetExpense → BudgetExpense} (hid : ∀ r ∈ d.bookings, (g r).id = r.id)
    (ht : ∀ r ∈ d.bookings, (g r).transferId = r.transferId) (hp : ∀ r ∈ d.bookings, (g r).parentExpenseId = r.parentExpenseId)
    (ha : ∀ r ∈ d.bookings, cents (g r).amount = (g r).amount) : Wf { d with bookings := d.bookings.map g } where
  ids := by
    have : (d.bookings.map g).map BudgetExpense.id = d.bookings.map BudgetExpense.id := by
      rw [map_map]
      exact map_congr_left hid
    show ((d.bookings.map g).map BudgetExpense.id).Nodup
    rw [this]
    exact h.ids
  below :=
    { id := forall_mem_map.mpr fun r hr => (hid r hr).symm ▸ h.below.id r hr
      transfer := forall_mem_map.mpr fun r hr => (ht r hr).symm ▸ h.below.transfer r hr
      parent := forall_mem_map.mpr fun r hr => (hp r hr).symm ▸ h.below.parent r hr
      log := h.below.log }
  rounded := forall_mem_map.mpr ha
  leaf := by
    refine forall_mem_map.mpr fun r hr p hpar => ?_
    rw [hp r hr] at hpar
    obtain ⟨hleg, hparent⟩ := h.leaf r hr p hpar
    refine ⟨(ht r hr).trans hleg, forall_mem_map.mpr fun q hq hqid => ?_⟩
    rw [hid q hq] at hqid
    rw [ht q hq, hp q hq]
    exact hparent q hq hqid
  log entry he := by
    refine (h.log entry he).keep ?_
    refine forall_mem_map.mpr fun r hr _ => ?_
    exact ⟨r, hr, (hid r hr).symm, (ht r hr).symm⟩

theorem Wf.insert {d : Db} (h : Wf d) {r : BudgetExpense} {n : Uuid} (hb : d.Below r.id) (hid : r.id < n)
    (ht : ∀ t, r.transferId = some t → t < n) (hp : ∀ p, r.parentExpenseId = some p → p < r.id)
    (hround : cents r.amount = r.amount) (hleaf : Leaf d.bookings r) :
    Wf ⟨d.bookings ++ [r], d.log, n⟩ := by
  have hmem : ∀ {q}, q ∈ d.bookings ++ [r] → q ∈ d.bookings ∨ q = r := by simp
  constructor
  case ids => exact Table.nodup_insert h.ids fun q hq => (hb.id q hq).ne
  case below =>
    have hb' := hb.mono hid.le
    constructor
    · intro q hq
      rcases hmem hq with hq | rfl
      · exact hb'.id q hq
      · exact hid
    · intro q hq
      rcases hmem hq with hq | rfl
      · exact hb'.transfer q hq
      · exact ht
    · intro q hq
      rcases hmem hq with hq | rfl
      · exact hb'.parent q hq
      · exact fun p hpar => lt_trans (hp p hpar) hid
    · exact hb'.log
  case rounded =>
    intro q hq
    rcases hmem hq with hq | rfl
    · exact h.rounded q hq
    · exact hround
  case leaf =>
    -- no older row and not the new one has the new id as its parent
    have hnew : ∀ q p, q ∈ d.bookings ++ [r] → q.parentExpenseId = some p → p ≠ r.id := by
      intro q p hq hpar
      rcases hmem hq with hq | rfl
      · exact (hb.parent q hq p hpar).ne
      · exact (hp p hpar).ne
    intro q hq p hpar
    have hold : Leaf d.bookings q := by
      rcases hmem hq with hq | rfl
      · exact h.leaf q hq
      · exact hleaf
    obtain ⟨hleg, hparent⟩ := hold p hpar
    refine ⟨hleg, fun x hx hxid => ?_⟩
    rcases hmem hx with hx | rfl
    · exact hparent x hx hxid
    · exact absurd hxid.symm (hnew q p hq hpar)
  case log =>
    intro entry he
    refine (h.log entry he).keep fun r' hr' hid' => ?_
    rcases hmem hr' with hr' | rfl
    · exact ⟨r', hr', rfl, rfl⟩
    · exact absurd hid' (hb.log entry he).ne'

theorem Wf.audit (h : Wf d) {entry : AuditEntry} (hbelow : entry.target < d.next) (hsound : entry.Sound d) :
    Wf (d.audit entry) where
  ids := h.ids
  below :=
    { id := h.below.id
      transfer := h.below.transfer
      parent := h.below.parent
      log := by
        intro e he
        rcases mem_append.mp he with he | he
        · exact h.below.log e he
        · rw [mem_singleton.mp he]
          exact hbelow }
  rounded := h.rounded
  leaf := h.leaf
  log := by
    intro e he
    rcases mem_append.mp he with he | he
    · exact (h.log e he).keep fun r' hr' _ => ⟨r', hr', rfl, rfl⟩
    · rw [mem_singleton.mp he]
      exact hsound.keep fun r' hr' _ => ⟨r', hr', rfl, rfl⟩

end WellFormed

section Statements

def Db.Links (d : Db) (r : BudgetExpense) : Prop :=
  ∀ x ∈ d.bookings, x.id = r.id → r.transferId = x.transferId ∧ r.parentExpenseId = x.parentExpenseId

variable {d d' : Db} {e r : BudgetExpense}

theorem Wf.links (h : Wf d) (he : e ∈ d.bookings) (hid : r.id = e.id) (ht : r.transferId = e.transferId)
    (hp : r.parentExpenseId = e.parentExpenseId) : d.Links r := by
  intro x hx hxid
  rw [h.unique hx he (hxid.trans hid)]
  exact ⟨ht, hp⟩

theorem Wf.save (h : Wf d) (hlinks : d.Links r) (hsave : d.save r = .ok d') : Wf d' := by
  rw [save_ok hsave]
  refine h.map ?_ ?_ ?_ ?_
  · intro x hx
    split
    next hid => exact hid.symm
    next => rfl
  · intro x hx
    split
    next hid => exact (hlinks x hx hid).1
    next => rfl
  · intro x hx
    split
    next hid => exact (hlinks x hx hid).2
    next => rfl
  · intro x hx
    split
    next => exact cents_idem _
    next => exact h.rounded x hx

theorem save_rows (hsave : d.save r = .ok d') (he : e ∈ d.bookings) (hid : r.id = e.id) (ht : r.transferId = e.transferId) :
    ∀ r' ∈ d'.bookings, ∃ x ∈ d.bookings, x.id = r'.id ∧ x.transferId = r'.transferId := by
  rw [save_ok hsave]
  refine forall_mem_map.mpr fun x hx => ?_
  split
  · exact ⟨e, he, hid.symm, ht.symm⟩
  · exact ⟨x, hx, rfl, rfl⟩

theorem legs_map {g : BudgetExpense → BudgetExpense} (ht : ∀ r ∈ d.bookings, (g r).transferId = r.transferId) (t : Uuid) :
    ({ d with bookings := d.bookings.map g } : Db).legs t = (d.legs t).map g := by
  rw [Db.legs, Db.legs, filter_map]
  congr 1
  refine filter_congr fun r hr => ?_
  simp only [Function.comp_apply, ht r hr]

theorem legs_save (hlinks : d.Links r) (hsave : d.save r = .ok d') (t : Uuid) :
    d'.legs t = (d.legs t).map fun x => if x.id = r.id then r.stored else x := by
  rw [save_ok hsave]
  refine legs_map (fun x hx => ?_) t
  split
  next hid => exact (hlinks x hx hid).1
  next => rfl

theorem Paired.save (h : Paired d) (hlinks : d.Links r) (hsave : d.save r = .ok d')
    (hkeep : ∀ x ∈ d.bookings, x.id = r.id → x.transferId ≠ none →
      r.kind = x.kind ∧ r.fiscalYearId = x.fiscalYearId ∧ cents r.amount = x.amount) :
    Paired d' := by
  intro t
  rw [legs_save hlinks hsave]
  refine (h t).map fun x hx => ?_
  obtain ⟨hmem, hleg⟩ := mem_legs.mp hx
  split
  next hid => exact hkeep x hmem hid (by simp [hleg])
  next => exact ⟨rfl, rfl, rfl⟩

theorem deleteAll_bookings (d : Db) (rows : List BudgetExpense) :
    d.deleteAll rows =
      { d with bookings := d.bookings.filter fun r => rows.all fun x => r.id ≠ x.id && r.parentExpenseId ≠ some x.id } := by
  induction rows generalizing d with
  | nil => simp [Db.deleteAll]
  | cons x rows ih =>
    have hstep : d.deleteAll (x :: rows) = (d.delete x.id).deleteAll rows := rfl
    rw [hstep, ih, Db.delete, filter_filter]
    simp only [all_cons, Bool.and_comm]

theorem Wf.legs_delete (h : Wf d) (k : Uuid) (t : Uuid) : (d.delete k).legs t = (d.legs t).filter fun r => r.id ≠ k := by
  rw [Db.legs, Db.delete, Db.legs, filter_comm]
  refine filter_congr fun r hr => ?_
  obtain ⟨hmem, hleg⟩ := mem_legs.mp hr
  have hparent : r.parentExpenseId ≠ some k := by
    intro hp
    have := (h.leaf r hmem k hp).1
    rw [hleg] at this
    cases this
  simp [hparent]

theorem Wf.delete (h : Wf d) (k : Uuid) : Wf (d.delete k) := h.filter _

theorem Wf.deleteAll (h : Wf d) (rows : List BudgetExpense) : Wf (d.deleteAll rows) := by
  rw [deleteAll_bookings]
  exact h.filter _

theorem Paired.delete (h : Paired d) (hw : Wf d) (he : e ∈ d.bookings) (hleg : e.transferId = none) : Paired (d.delete e.id) := by
  intro t
  rw [hw.legs_delete, filter_eq_self.mpr]
  · exact h t
  · intro r hr
    obtain ⟨hmem, hr⟩ := mem_legs.mp hr
    have hne : r.id ≠ e.id := by
      intro hid
      rw [hw.unique hmem he hid, hleg] at hr
      cases hr
    simp [hne]

theorem Wf.legs_deleteAll (h : Wf d) (rows : List BudgetExpense) (t : Uuid) :
    (d.deleteAll rows).legs t = (d.legs t).filter fun r => rows.all fun x => r.id ≠ x.id := by
  induction rows generalizing d with
  | nil => simp [Db.deleteAll]
  | cons x rows ih =>
    have hstep : d.deleteAll (x :: rows) = (d.delete x.id).deleteAll rows := rfl
    rw [hstep, ih (h.delete x.id), h.legs_delete, filter_filter]
    simp only [all_cons, Bool.and_comm]

theorem Paired.deleteLegs (h : Paired d) (hw : Wf d) (t : Uuid) : Paired (d.deleteAll (d.legs t)) := by
  intro t'
  rw [hw.legs_deleteAll]
  by_cases hsame : t' = t
  · subst hsame
    left
    rw [filter_eq_nil_iff]
    intro r hr hall
    have := all_eq_true.mp hall r hr
    simp at this
  · rw [filter_eq_self.mpr]
    · exact h t'
    · intro r hr
      obtain ⟨hmem, hr⟩ := mem_legs.mp hr
      rw [all_eq_true]
      intro x hx
      obtain ⟨hx, hxt⟩ := mem_legs.mp hx
      have hne : r.id ≠ x.id := by
        intro hid
        rw [hw.unique hmem hx hid, hxt] at hr
        exact hsame (Option.some.inj hr).symm
      simp [hne]

theorem legs_insert (d : Db) (r : BudgetExpense) (n : Uuid) (t : Uuid) :
    (⟨d.bookings ++ [r], d.log, n⟩ : Db).legs t = d.legs t ++ [r].filter fun r => r.transferId = some t :=
  filter_append _ _

theorem Paired.insert {d : Db} (h : Paired d) {r : BudgetExpense} (hleg : r.transferId = none) (n : Uuid) :
    Paired ⟨d.bookings ++ [r], d.log, n⟩ := by
  intro t
  rw [legs_insert]
  simpa [hleg] using h t

def Kept (d : Db) : Prop := Wf d ∧ Paired d

theorem Kept.audit (h : Kept d) {entry : AuditEntry} (hbelow : entry.target < d.next) (hsound : entry.Sound d) :
    Kept (d.audit entry) := ⟨h.1.audit hbelow hsound, h.2⟩

theorem Kept.save (h : Kept d) (hlinks : d.Links r) (hsave : d.save r = .ok d')
    (hkeep : ∀ x ∈ d.bookings, x.id = r.id → x.transferId ≠ none →
      r.kind = x.kind ∧ r.fiscalYearId = x.fiscalYearId ∧ cents r.amount = x.amount) :
    Kept d' :=
  ⟨h.1.save hlinks hsave, h.2.save hlinks hsave hkeep⟩

theorem Kept.saveOf (h : Kept d) (he : e ∈ d.bookings) (hsave : d.save r = .ok d') (hid : r.id = e.id)
    (ht : r.transferId = e.transferId) (hp : r.parentExpenseId = e.parentExpenseId)
    (hkeep : e.transferId ≠ none → r.kind = e.kind ∧ r.fiscalYearId = e.fiscalYearId ∧ cents r.amount = e.amount) : Kept d' := by
  refine h.save (h.1.links he hid ht hp) hsave fun x hx hxid hleg => ?_
  have hxe := h.1.unique hx he (hxid.trans hid)
  subst hxe
  exact hkeep hleg

theorem Kept.recompute (h : Kept d) {p : Uuid} (hp : ∀ q ∈ d.bookings, q.id = p → q.transferId = none)
    (hrec : d.recomputeParentAmount p = .ok d') : Kept d' := by
  rw [Db.recomputeParentAmount] at hrec
  split at hrec
  next parent hget =>
    split at hget
    · obtain ⟨hmem, hid⟩ := get_some hget
      exact h.saveOf hmem hrec rfl rfl rfl fun hleg => absurd (hp parent hmem hid) hleg
    · cases hget
  next =>
    cases hrec
    exact h

theorem recompute_next {p : Uuid} (hrec : d.recomputeParentAmount p = .ok d') : d'.next = d.next := by
  rw [Db.recomputeParentAmount] at hrec
  split at hrec
  · rw [save_ok hrec]
  · cases hrec
    rfl

theorem recompute_rows {p : Uuid} (hrec : d.recomputeParentAmount p = .ok d') :
    ∀ r' ∈ d'.bookings, ∃ r ∈ d.bookings, r.id = r'.id ∧ r.transferId = r'.transferId := by
  rw [Db.recomputeParentAmount] at hrec
  split at hrec
  next parent hget =>
    split at hget
    · exact save_rows hrec (get_some hget).1 rfl rfl
    · cases hget
  next =>
    cases hrec
    exact fun r hr => ⟨r, hr, rfl, rfl⟩

end Statements

section Operations

variable {env : Env} {d d' : Db}
variable {actor : Text} {expenseId t : Uuid}

theorem Kept.insert (h : Kept d) {r : BudgetExpense} (hid : r.id = d.next) (ht : r.transferId = none)
    (hp : ∀ p, r.parentExpenseId = some p → p < d.next) (hleaf : Leaf d.bookings r) (hins : d.insert r = .ok d') :
    Kept { d' with next := d.next + 1 } := by
  rw [insert_ok hins]
  have hbelow : d.Below r.stored.id := by
    show d.Below r.id
    rw [hid]
    exact h.1.below
  refine ⟨h.1.insert hbelow ?_ ?_ ?_ (cents_idem _) hleaf, h.2.insert (r := r.stored) ht _⟩
  · show r.id < d.next + 1
    rw [hid]
    exact Nat.lt_succ_self _
  · intro t htt
    rw [show r.stored.transferId = r.transferId from rfl, ht] at htt
    cases htt
  · intro p hpp
    show p < r.id
    rw [hid]
    exact hp p hpp

theorem createExpense_kept {payload : ExpenseCreate} (h : Kept d) (hop : createExpense env payload actor d = .ok d') :
    Kept d' := by
  obtain ⟨_, _, r, d₁, _, _, hins, ⟨hid, ht, hp⟩, _, _, _, rfl⟩ := createExpense_ok hop
  have hkept := h.insert hid ht (by simp [hp]) (by simp [Leaf, hp]) hins
  refine hkept.audit (Nat.lt_succ_self _) ?_
  -- only the new booking has the new id
  rw [insert_ok hins]
  intro x hx hxid
  rcases mem_append.mp hx with hx | hx
  · exact absurd hxid (h.1.below.id x hx).ne
  · rw [mem_singleton.mp hx]
    exact ht

theorem createSubBooking_kept {parentId : Uuid} {payload : SubBookingCreate} (h : Kept d)
    (hop : createSubBooking env parentId payload actor d = .ok d') : Kept d' := by
  obtain ⟨parent, r, d₁, d₂, _, hget, ⟨hnested, hleg⟩, _, hins, ⟨hid, ht, hp⟩, _, _, hrec, rfl⟩ := createSubBooking_ok hop
  obtain ⟨hmem, rfl⟩ := get_some hget
  have hparent : ∀ q ∈ d.bookings, q.id = parent.id → q.transferId = none ∧ q.parentExpenseId = none := by
    intro q hq hqid
    rw [h.1.unique hq hmem hqid]
    exact ⟨hleg, hnested⟩
  have hkept : Kept { d₁ with next := d.next + 1 } := by
    refine h.insert hid ht ?_ ?_ hins
    · intro p hpp
      obtain rfl := Option.some.inj (hp.symm.trans hpp)
      exact h.1.below.id parent hmem
    · intro p hpp
      obtain rfl := Option.some.inj (hp.symm.trans hpp)
      exact ⟨ht, hparent⟩
  have hnone : ∀ q ∈ d₁.bookings, q.id = parent.id ∨ q.id = d.next → q.transferId = none := by
    rw [insert_ok hins]
    intro q hq hqid
    rcases mem_append.mp hq with hq | hq
    · rcases hqid with hqid | hqid
      · exact (hparent q hq hqid).1
      · exact absurd hqid (h.1.below.id q hq).ne
    · rw [mem_singleton.mp hq]
      exact ht
  refine (hkept.recompute (fun q hq hqid => hnone q hq (.inl hqid)) hrec).audit ?_ ?_
  · rw [recompute_next hrec]
    exact Nat.lt_succ_self _
  · intro r' hr' hr'id
    obtain ⟨q, hq, hqid, hqt⟩ := recompute_rows hrec r' hr'
    rw [← hqt]
    exact hnone q hq (.inr (hqid.trans hr'id))

def Db.KeepsLeg (d : Db) (expenseId : Uuid) (payload : ExpenseUpdate) : Prop :=
  ∀ e ∈ d.bookings, e.id = expenseId → e.transferId ≠ none →
    cents (payload.amount.writeRequired e.amount) = e.amount

theorem updateExpense_kept {payload : ExpenseUpdate} (h : Kept d) (hleg : d.KeepsLeg expenseId payload)
    (hop : updateExpense env expenseId payload d = .ok d') : Kept d' := by
  obtain ⟨expense, target, d₁, _, hget, _, _, _, _, hsave, hrest⟩ := updateExpense_ok hop
  obtain ⟨hmem, rfl⟩ := get_some hget
  have hkept : Kept d₁ := h.saveOf hmem hsave rfl rfl rfl fun ht => ⟨rfl, rfl, hleg expense hmem rfl ht⟩
  have hrows := save_rows hsave hmem rfl rfl
  have hlog : Kept (d₁.audit (expense.updated payload target)) := by
    refine hkept.audit ?_ ?_
    · rw [save_ok hsave]
      exact h.1.below.id expense hmem
    · intro r hr hrid ht
      have htarget : expense.transferId ≠ none := by
        obtain ⟨x, hx, hxid, hxt⟩ := hrows r hr
        rw [← h.1.unique hx hmem (hxid.trans hrid), hxt]
        exact ht
      have hamount := hleg expense hmem rfl htarget
      cases hset : payload.amount with
      | none => exact .inl (by simp [ExpenseUpdate.read, hset])
      | some v =>
        refine .inr ⟨(expense.patched payload target).amount, ?_, by simp [ExpenseUpdate.read, hset]⟩
        simp only [ExpenseUpdate.read, hset, Option.map_some, Option.some.injEq]
        exact hamount.symm
  rcases hrest with ⟨parent, v, hparent, hset, hrec⟩ | ⟨_, rfl⟩
  · refine hlog.recompute (fun q hq hqid => ?_) hrec
    obtain ⟨x, hx, hxid, hxt⟩ := hrows q hq
    rw [← hxt]
    exact ((h.1.leaf expense hmem parent hparent).2 x hx (hxid.trans hqid)).1
  · exact hlog

theorem deleteExpense_kept (h : Kept d) (hop : deleteExpense env expenseId d = .ok d') : Kept d' := by
  obtain ⟨expense, d₁, hget, _, hdeleted, hrest⟩ := deleteExpense_ok hop
  obtain ⟨hmem, rfl⟩ := get_some hget
  have hlt := h.1.below.id expense hmem
  rcases hdeleted with ⟨t, ht, rfl⟩ | ⟨ht, rfl⟩
  · have hparent : expense.parentExpenseId = none := by
      cases hp : expense.parentExpenseId with
      | none => rfl
      | some p =>
        have := (h.1.leaf expense hmem p hp).1
        rw [ht] at this
        cases this
    have hkept : Kept (d.deleteAll (d.legs t)) := ⟨h.1.deleteAll _, h.2.deleteLegs h.1 t⟩
    rcases hrest with ⟨p, hp, _⟩ | ⟨_, rfl⟩
    · rw [hparent] at hp
      cases hp
    · refine hkept.audit ?_ trivial
      rw [deleteAll_bookings]
      exact hlt
  · have hkept : Kept (d.delete expense.id) := ⟨h.1.delete _, h.2.delete h.1 hmem ht⟩
    have hlog : Kept ((d.delete expense.id).audit (.expenseDelete expense.id)) := hkept.audit hlt trivial
    rcases hrest with ⟨parent, hparent, hrec⟩ | ⟨_, rfl⟩
    · refine hlog.recompute (fun q hq hqid => ?_) hrec
      exact ((h.1.leaf expense hmem parent hparent).2 q (mem_of_mem_filter hq) hqid).1
    · exact hlog

theorem transferLegs_ok {out income : BudgetExpense} (h : Paired d) (hlegs : d.transferLegs t = .ok (out, income)) :
    d.legs t = [out, income] ∧ IsPair out income := by
  rw [Db.transferLegs] at hlegs
  rcases h t with hnil | ⟨o, i, hpair, hio⟩
  · simp [hnil] at hlegs
  · rw [hpair] at hlegs ⊢
    simp only [List.find?_cons, hio.out_kind, hio.income_kind, decide_true, reduceCtorEq, decide_false,
      Except.ok.injEq, Prod.mk.injEq] at hlegs
    obtain ⟨rfl, rfl⟩ := hlegs
    exact ⟨rfl, hio⟩

theorem deleteTransfer_kept (h : Kept d) (hop : deleteTransfer env t d = .ok d') : Kept d' := by
  obtain ⟨out, income, hlegs, _, rfl⟩ := deleteTransfer_ok hop
  obtain ⟨hpair, _⟩ := transferLegs_ok h.2 hlegs
  have hout : out ∈ d.bookings ∧ out.transferId = some t := mem_legs.mp (by simp [hpair])
  rw [← hpair]
  have hkept : Kept (d.deleteAll (d.legs t)) := ⟨h.1.deleteAll _, h.2.deleteLegs h.1 t⟩
  refine hkept.audit ?_ trivial
  rw [deleteAll_bookings]
  exact h.1.below.transfer out hout.1 t hout.2

theorem createTransfer_kept {payload : TransferCreate} (h : Kept d) (hop : createTransfer env payload actor d = .ok d') :
    Kept d' := by
  obtain ⟨src, dst, fy, d₁, d₂, _, _, _, hout, hincome, rfl⟩ := createTransfer_ok hop
  rw [insert_ok hincome, insert_ok hout]
  generalize hs : (transferLeg payload actor d.next (d.next + 1) .expense src fy).stored = leg
  generalize hs' : (transferLeg payload actor d.next (d.next + 2) .income dst fy).stored = leg'
  have hleg : leg.id = d.next + 1 ∧ leg.transferId = some d.next ∧ leg.parentExpenseId = none := by
    subst hs
    exact ⟨rfl, rfl, rfl⟩
  have hleg' : leg'.id = d.next + 2 ∧ leg'.transferId = some d.next ∧ leg'.parentExpenseId = none := by
    subst hs'
    exact ⟨rfl, rfl, rfl⟩
  have hwf : Wf ⟨d.bookings ++ [leg], d.log, d.next + 2⟩ := by
    refine h.1.insert (hleg.1 ▸ h.1.below.mono (Nat.le_succ _)) (hleg.1 ▸ Nat.lt_succ_self _) ?_ ?_ (hs ▸ cents_idem _) ?_
    · simp [hleg.2.1]
    · simp [hleg.2.2]
    · simp [Leaf, hleg.2.2]
  have hwf' : Wf ⟨(d.bookings ++ [leg]) ++ [leg'], d.log, d.next + 3⟩ := by
    refine hwf.insert (hleg'.1 ▸ hwf.below) (hleg'.1 ▸ Nat.lt_succ_self _) ?_ ?_ (hs' ▸ cents_idem _) ?_
    · simp [hleg'.2.1]
    · simp [hleg'.2.2]
    · simp [Leaf, hleg'.2.2]
  have hpaired : Paired ⟨(d.bookings ++ [leg]) ++ [leg'], d.log, d.next + 3⟩ := by
    intro t
    have hlegs : (⟨(d.bookings ++ [leg]) ++ [leg'], d.log, d.next + 3⟩ : Db).legs t =
        d.legs t ++ [leg, leg'].filter fun r => r.transferId = some t := by
      simp [Db.legs, filter_append]
    rw [hlegs]
    by_cases ht : t = d.next
    · have hold : d.legs t = [] := by
        rw [Db.legs, filter_eq_nil_iff]
        intro r hr hrt
        exact (h.1.below.transfer r hr t (by simpa using hrt)).ne ht
      refine .inr ⟨leg, leg', ?_, ?_⟩
      · rw [hold, ht]
        simp [hleg.2.1, hleg'.2.1]
      · subst hs hs'
        exact ⟨rfl, rfl, rfl, rfl⟩
    · have hnew : ([leg, leg'].filter fun r => r.transferId = some t) = [] := by
        simp [hleg.2.1, hleg'.2.1, Ne.symm ht]
      rw [hnew, append_nil]
      exact h.2 t
  exact Kept.audit ⟨hwf', hpaired⟩ (Nat.lt_add_of_pos_right (by decide)) trivial

theorem updateTransfer_kept {payload : TransferUpdate} (h : Kept d) (hop : updateTransfer env t payload d = .ok d') :
    Kept d' := by
  obtain ⟨out, income, out', income', d₁, d₂, _, hlegs, _, hout', hincome', hsave, hsave', rfl⟩ := updateTransfer_ok hop
  obtain ⟨hpair, hio⟩ := transferLegs_ok h.2 hlegs
  obtain ⟨houtMem, houtLeg⟩ : out ∈ d.bookings ∧ out.transferId = some t := mem_legs.mp (by simp [hpair])
  obtain ⟨hincMem, hincLeg⟩ : income ∈ d.bookings ∧ income.transferId = some t := mem_legs.mp (by simp [hpair])
  obtain ⟨hid, ht, hp, hkind, hfy, _, hamount, _⟩ := transferPatched_ok hout'
  obtain ⟨hid', ht', hp', hkind', hfy', _, hamount', _⟩ := transferPatched_ok hincome'
  have hne : out.id ≠ income.id := by
    intro heq
    have := hio.out_kind
    rw [h.1.unique houtMem hincMem heq, hio.income_kind] at this
    cases this
  have hlinks : d.Links out' := h.1.links houtMem hid ht hp
  have hlinks' : d₁.Links income' := by
    rw [save_ok hsave]
    refine forall_mem_map.mpr fun x hx hxid => ?_
    split at hxid
    next => exact absurd (hid.symm.trans (hxid.trans hid')) hne
    next hother =>
      rw [if_neg hother]
      exact h.1.links hincMem hid' ht' hp' x hx hxid
  have hwf : Wf d₂ := (h.1.save hlinks hsave).save hlinks' hsave'
  have hpaired : Paired d₂ := by
    intro t'
    rw [legs_save hlinks' hsave', legs_save hlinks hsave, map_map]
    by_cases hsame : t' = t
    · subst hsame
      refine .inr ⟨out'.stored, income'.stored, ?_, ?_⟩
      · have hstored : out'.stored.id ≠ income'.id := by
          show out'.id ≠ income'.id
          rw [hid, hid']
          exact hne
        have hother : income.id ≠ out'.id := hid ▸ hne.symm
        rw [hpair]
        simp only [map_cons, map_nil, Function.comp_apply]
        rw [if_pos hid.symm, if_neg hstored, if_neg hother, if_pos hid'.symm]
      · refine ⟨hkind.trans hio.out_kind, hkind'.trans hio.income_kind, ?_, hfy.trans (hio.year.trans hfy'.symm)⟩
        show cents out'.amount = cents income'.amount
        rw [hamount, hamount', hio.amount]
    · -- the legs of another transfer have other ids
      refine (h.2 t').map fun x hx => ?_
      obtain ⟨hmem, hleg⟩ := mem_legs.mp hx
      have hother : ∀ e ∈ d.bookings, e.transferId = some t → x.id ≠ e.id := by
        intro e he het heq
        rw [h.1.unique hmem he heq, het] at hleg
        exact hsame (Option.some.inj hleg).symm
      have hx : x.id ≠ out'.id := hid ▸ hother out houtMem houtLeg
      have hx' : x.id ≠ income'.id := hid' ▸ hother income hincMem hincLeg
      simp [hx, hx']
  refine Kept.audit ⟨hwf, hpaired⟩ ?_ trivial
  rw [save_ok hsave', save_ok hsave]
  exact h.1.below.transfer out houtMem t houtLeg

theorem keepsLeg_of_notStale {k : Uuid} {before after : ExpenseUpdate} {e : BudgetExpense} (h : Kept d)
    (hlog : (AuditEntry.expenseUpdate k (some (before, after))).Sound d) (hget : d.get k = some e)
    (hfresh : notStale env e after = true) : d.KeepsLeg k before := by
  obtain ⟨hmem, rfl⟩ := get_some hget
  intro x hx hxid hleg
  rw [h.1.unique hx hmem hxid] at hleg ⊢
  have hround := h.1.rounded e hmem
  rcases hlog e hmem rfl hleg with hnone | ⟨a, hbefore, hafter⟩
  · rw [hnone]
    exact hround
  · have hcurrent : after.amount.all (fun v => v = some e.amount) = true := by
      simp only [notStale, Bool.and_eq_true] at hfresh
      tauto
    have hcurrent : a = e.amount := by simpa [hafter] using hcurrent
    rw [hbefore, hcurrent]
    show cents (cents e.amount) = e.amount
    rw [hround, hround]

theorem revertAudit_kept {n : ℕ} (h : Kept d) (hop : revertAudit env n d = .ok d') : Kept d' := by
  have hlogged : ∀ entry, d.log[n]? = some entry → entry.target < d.next ∧ entry.Sound d := fun entry hentry =>
    ⟨h.1.below.log entry (mem_of_getElem? hentry), h.1.log entry (mem_of_getElem? hentry)⟩
  rcases revertAudit_cases hop with ⟨k, e, hentry, hget, _, rfl⟩ | ⟨t, e, hentry, _, _, rfl⟩ |
      ⟨k, before, after, e, hentry, hget, hfresh, hop⟩
  · obtain ⟨hbelow, hsound⟩ := hlogged _ hentry
    obtain ⟨hmem, rfl⟩ := get_some hget
    have hkept : Kept (d.delete e.id) := ⟨h.1.delete _, h.2.delete h.1 hmem (hsound e hmem rfl)⟩
    exact hkept.audit hbelow trivial
  · have hkept : Kept (d.deleteAll (d.legs t)) := ⟨h.1.deleteAll _, h.2.deleteLegs h.1 t⟩
    refine hkept.audit ?_ trivial
    rw [deleteAll_bookings]
    exact (hlogged _ hentry).1
  · exact updateExpense_kept h (keepsLeg_of_notStale h (hlogged _ hentry).2 hget hfresh) hop

end Operations

section Runs

/-- No update of a single booking sets on a leg of a transfer an amount other than
the one that is there. -/
def Request.Steady (d : Db) : Request → Prop
  | .updateExpense k payload => d.KeepsLeg k payload
  | _ => True

instance (d : Db) : (r : Request) → Decidable (r.Steady d)
  | .updateExpense k payload =>
    inferInstanceAs (Decidable (∀ e ∈ d.bookings, e.id = k → e.transferId ≠ none →
      cents (payload.amount.writeRequired e.amount) = e.amount))
  | .createTransfer _ _ | .updateTransfer _ _ | .deleteTransfer _ | .createExpense _ _ | .deleteExpense _
  | .createSubBooking _ _ _ | .revertAudit _ => isTrue trivial

theorem handle_kept {env : Env} {r : Request} {d d' : Db} (h : Kept d) (hr : r.Steady d) (hop : r.handle env d = .ok d') :
    Kept d' := by
  cases r with
  | createTransfer payload actor => exact createTransfer_kept h hop
  | updateTransfer t payload => exact updateTransfer_kept h hop
  | deleteTransfer t => exact deleteTransfer_kept h hop
  | createExpense payload actor => exact createExpense_kept h hop
  | updateExpense k payload => exact updateExpense_kept h hr hop
  | deleteExpense k => exact deleteExpense_kept h hop
  | createSubBooking k payload actor => exact createSubBooking_kept h hop
  | revertAudit n => exact revertAudit_kept h hop

def SteadyRun : List (Env × Request) → Db → Prop
  | [], _ => True
  | (env, r) :: rest, d => r.Steady d ∧ ∀ d' ∈ (r.handle env d).toOption, SteadyRun rest d'

instance decidableSteadyRun : (rs : List (Env × Request)) → (d : Db) → Decidable (SteadyRun rs d)
  | [], _ => isTrue trivial
  | (env, r) :: rest, d =>
    haveI : ∀ d', Decidable (SteadyRun rest d') := decidableSteadyRun rest
    inferInstanceAs (Decidable (r.Steady d ∧ ∀ d' ∈ (r.handle env d).toOption, SteadyRun rest d'))

theorem run_kept {rs : List (Env × Request)} {d d' : Db} (h : Kept d) (hrs : SteadyRun rs d) (hrun : run rs d = .ok d') :
    Kept d' := by
  induction rs generalizing d with
  | nil =>
    cases hrun
    exact h
  | cons p rest ih =>
    obtain ⟨env, r⟩ := p
    obtain ⟨d₁, hop, hrest⟩ := bind_ok.mp hrun
    exact ih (handle_kept h hrs.1 hop) (hrs.2 d₁ (toOption_some.mpr hop)) hrest

theorem emptyDb_kept : Kept emptyDb where
  left :=
    { ids := nodup_nil
      below := ⟨by simp [emptyDb], by simp [emptyDb], by simp [emptyDb], by simp [emptyDb]⟩
      rounded := by simp [emptyDb]
      leaf := by simp [emptyDb]
      log := by simp [emptyDb] }
  right t := .inl rfl

/-- Every transfer id in the table is carried by two bookings, an expense and an
income of one amount in one fiscal year. -/
def TransfersBalanced (d : Db) : Prop :=
  ∀ t, (∃ r ∈ d.bookings, r.transferId = some t) → ∃ out income, d.legs t = [out, income] ∧ IsPair out income

theorem Paired.balanced {d : Db} (h : Paired d) : TransfersBalanced d := by
  rintro t ⟨r, hr, ht⟩
  rcases h t with hnil | hpair
  · have : r ∈ d.legs t := mem_legs.mpr ⟨hr, ht⟩
    rw [hnil] at this
    cases this
  · exact hpair

/-- From the empty table, a run that never sets another amount on a single leg keeps
every transfer balanced: it has both legs, and they add nothing to the budget. -/
theorem run_transfersBalanced {rs : List (Env × Request)} {d : Db} (hrs : SteadyRun rs emptyDb)
    (hrun : run rs emptyDb = .ok d) :
    TransfersBalanced d ∧ ∀ t, ((d.legs t).map BudgetExpense.signed).sum = 0 := by
  have hkept := run_kept emptyDb_kept hrs hrun
  exact ⟨hkept.2.balanced, fun t => (hkept.2 t).net⟩

section Samples

def council : Node := ⟨1, none, text "T", text "EUR"⟩
def travel : Node := ⟨2, some 1, text "T-A", text "EUR"⟩

def smallBudget : Env where
  nodes := [council, travel]
  years := [⟨5, 1, 10, 20, true, none⟩]
  applications := []
  invoices := []
  today := 15
  sameNumber _ _ := false

def hundred : Request := .createTransfer ⟨1, 2, 5, 100, text "seed money"⟩ (text "alice")

def oneLeg : Request := .updateExpense 1 { amount := some (some 50) }

/-- One leg of a transfer takes another amount: both requests succeed, and the books
gain fifty. -/
theorem oneLeg_unbalanced : ∃ d, run [(smallBudget, hundred), (smallBudget, oneLeg)] emptyDb = .ok d ∧
    ¬ TransfersBalanced d ∧ ((d.legs 0).map BudgetExpense.signed).sum = 50 := by
  have hrun : (run [(smallBudget, hundred), (smallBudget, oneLeg)] emptyDb).toOption.map
      (fun d => ((d.legs 0).map BudgetExpense.amount, ((d.legs 0).map BudgetExpense.signed).sum)) =
        some ([50, 100], 50) := by decide +kernel
  obtain ⟨d, hd, hlegs⟩ := Option.map_eq_some_iff.mp hrun
  obtain ⟨hamounts, hsum⟩ := Prod.mk.inj hlegs
  refine ⟨d, toOption_some.mp hd, fun hbalanced => ?_, hsum⟩
  have hnonempty : d.legs 0 ≠ [] := by
    intro hnil
    simp [hnil] at hamounts
  obtain ⟨r, hr⟩ := exists_mem_of_ne_nil _ hnonempty
  obtain ⟨out, income, hpair, hio⟩ := hbalanced 0 ⟨r, mem_legs.mp hr⟩
  rw [hpair] at hamounts
  simp only [map_cons, map_nil, List.cons.injEq, and_true] at hamounts
  have := hio.amount
  rw [hamounts.1, hamounts.2] at this
  norm_num at this

def noteAndAmount : List (Env × Request) :=
  [(smallBudget, hundred), (smallBudget, .updateExpense 1 { amount := some (some 100), note := some (some (text "n")) }),
    (smallBudget, .updateTransfer 0 { amount := some (some 70) })]

theorem noteAndAmount_balanced : ∃ d, run noteAndAmount emptyDb = .ok d ∧ (d.legs 0).map BudgetExpense.amount = [70, 70] ∧
    TransfersBalanced d := by
  have hrun : (run noteAndAmount emptyDb).toOption.map (fun d => (d.legs 0).map BudgetExpense.amount) =
      some [70, 70] := by decide +kernel
  obtain ⟨d, hd, hamounts⟩ := Option.map_eq_some_iff.mp hrun
  have hsteady : SteadyRun noteAndAmount emptyDb := by decide +kernel
  exact ⟨d, toOption_some.mp hd, hamounts, (run_transfersBalanced hsteady (toOption_some.mp hd)).1⟩

end Samples

end Runs

end Budget
