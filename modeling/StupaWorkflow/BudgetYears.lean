import StupaWorkflow.BudgetSubBookings

/-!
The fiscal years of the bookings. A request on bookings is a sequence of edits that all lie in one
year, and this year is open: a transfer and a booking with its sub-bookings never reach into a
second year.
-/
namespace Budget
open Py Decimals List

def Open (env : Env) (fy : Uuid) : Prop := ∀ y ∈ env.years, y.id = fy → y.closedAt = none

inductive Placed (env : Env) (rows : List BudgetExpense) (b fy : Uuid) : Prop
  | resolved {node : Node} {asked : Option Uuid} : node ∈ env.nodes → node.id = b →
      resolveFiscalYear env node asked = .ok fy → Placed env rows b fy
  | application {a : Application} : a ∈ env.applications → a.budgetId = some b → a.fiscalYearId = some fy →
      Placed env rows b fy
  | booking {r : BudgetExpense} : r ∈ rows → r.budgetId = b → r.fiscalYearId = fy → Placed env rows b fy

/-- Both legs of a transfer are in one year, and so are a booking and its sub-bookings. -/
structure OneYear (d : Db) : Prop where
  ids : (d.bookings.map BudgetExpense.id).Nodup
  id : ∀ r ∈ d.bookings, r.id < d.next
  transfer : ∀ r ∈ d.bookings, ∀ t, r.transferId = some t → t < d.next
  parent : ∀ r ∈ d.bookings, ∀ p, r.parentExpenseId = some p → p < d.next
  legs : ∀ r ∈ d.bookings, ∀ s ∈ d.bookings, ∀ t, r.transferId = some t → s.transferId = some t →
    r.fiscalYearId = s.fiscalYearId
  family : ∀ r ∈ d.bookings, ∀ q ∈ d.bookings, r.parentExpenseId = some q.id → r.fiscalYearId = q.fiscalYearId

/-- A new version of a booking has its id, its links and its year. -/
structure Version (r r' : BudgetExpense) : Prop where
  id : r'.id = r.id
  transfer : r'.transferId = r.transferId
  parent : r'.parentExpenseId = r.parentExpenseId
  year : r'.fiscalYearId = r.fiscalYearId

inductive Edit (env : Env) (fy : Uuid) (d : Db) : Db → Prop
  | insert {r : BudgetExpense} {n : Uuid} : d.next ≤ r.id → r.id < n → r.fiscalYearId = fy →
      Placed env d.bookings r.budgetId fy →
      (∀ t, r.transferId = some t → t < n ∧ ∀ x ∈ d.bookings, x.transferId = some t → x.fiscalYearId = fy) →
      (∀ p, r.parentExpenseId = some p → p < d.next ∧ ∀ q ∈ d.bookings, q.id = p → q.fiscalYearId = fy) →
      Edit env fy d ⟨d.bookings ++ [r], d.log, n⟩
  | rewrite {g : BudgetExpense → BudgetExpense} : (∀ r ∈ d.bookings, Version r (g r)) →
      (∀ r ∈ d.bookings, r.fiscalYearId ≠ fy → g r = r) →
      (∀ r ∈ d.bookings, Placed env d.bookings (g r).budgetId r.fiscalYearId) →
      Edit env fy d { d with bookings := d.bookings.map g }
  | remove {keep : BudgetExpense → Bool} : (∀ r ∈ d.bookings, keep r = false → r.fiscalYearId = fy) →
      Edit env fy d { d with bookings := d.bookings.filter keep }
  | audit {log : List AuditEntry} : Edit env fy d { d with log := log }
  | count {n : Uuid} : d.next ≤ n → Edit env fy d { d with next := n }

abbrev Edits (env : Env) (fy : Uuid) : Db → Db → Prop := Relation.ReflTransGen (Edit env fy)

section Edits

variable {env : Env} {fy : Uuid} {d d' : Db}
variable {P : Uuid → Uuid → Prop}

theorem OneYear.unique (h : OneYear d) {x y : BudgetExpense} (hx : x ∈ d.bookings) (hy : y ∈ d.bookings)
    (hid : x.id = y.id) : x = y := inj_on_of_nodup_map h.ids hx hy hid

theorem OneYear.filter (h : OneYear d) (keep : BudgetExpense → Bool) :
    OneYear { d with bookings := d.bookings.filter keep } := by
  have hmem : ∀ {x}, x ∈ d.bookings.filter keep → x ∈ d.bookings := mem_of_mem_filter
  exact ⟨h.ids.sublist (List.Sublist.map _ filter_sublist), fun r hr => h.id r (hmem hr),
    fun r hr => h.transfer r (hmem hr), fun r hr => h.parent r (hmem hr),
    fun r hr s hs => h.legs r (hmem hr) s (hmem hs), fun r hr q hq => h.family r (hmem hr) q (hmem hq)⟩

theorem OneYear.versions (h : OneYear d) {g : BudgetExpense → BudgetExpense} (hg : ∀ r ∈ d.bookings, Version r (g r)) :
    OneYear { d with bookings := d.bookings.map g } := by
  constructor
  case ids =>
    show ((d.bookings.map g).map BudgetExpense.id).Nodup
    have hids : (d.bookings.map g).map BudgetExpense.id = d.bookings.map BudgetExpense.id := by
      rw [map_map]
      exact map_congr_left fun r hr => (hg r hr).id
    rw [hids]
    exact h.ids
  case id => exact forall_mem_map.mpr fun r hr => (hg r hr).id ▸ h.id r hr
  case transfer => exact forall_mem_map.mpr fun r hr t ht => h.transfer r hr t ((hg r hr).transfer ▸ ht)
  case parent => exact forall_mem_map.mpr fun r hr p hp => h.parent r hr p ((hg r hr).parent ▸ hp)
  case legs =>
    refine forall_mem_map.mpr fun r hr => forall_mem_map.mpr fun s hs t ht ht' => ?_
    rw [(hg r hr).year, (hg s hs).year]
    exact h.legs r hr s hs t ((hg r hr).transfer ▸ ht) ((hg s hs).transfer ▸ ht')
  case family =>
    refine forall_mem_map.mpr fun r hr => forall_mem_map.mpr fun q hq hp => ?_
    rw [(hg r hr).year, (hg q hq).year]
    rw [(hg r hr).parent, (hg q hq).id] at hp
    exact h.family r hr q hq hp

theorem Edit.oneYear (hedit : Edit env fy d d') (h : OneYear d) : OneYear d' := by
  cases hedit with
  | @insert r n hid hn hyear hplaced ht hp =>
    have hmem : ∀ {x}, x ∈ d.bookings ++ [r] → x ∈ d.bookings ∨ x = r := by simp
    have hlt : d.next ≤ n := hid.trans hn.le
    constructor
    case ids => exact Table.nodup_insert h.ids fun s hs => ((h.id s hs).trans_le hid).ne
    case id =>
      intro x hx
      rcases hmem hx with hx | rfl
      · exact (h.id x hx).trans_le hlt
      · exact hn
    case transfer =>
      intro x hx t htx
      rcases hmem hx with hx | rfl
      · exact (h.transfer x hx t htx).trans_le hlt
      · exact (ht t htx).1
    case parent =>
      intro x hx p hpx
      rcases hmem hx with hx | rfl
      · exact (h.parent x hx p hpx).trans_le hlt
      · exact (hp p hpx).1.trans_le hlt
    case legs =>
      intro x hx y hy t htx hty
      rcases hmem hx with hx' | rfl <;> rcases hmem hy with hy' | rfl
      · exact h.legs x hx' y hy' t htx hty
      · exact ((ht t hty).2 x hx' htx).trans hyear.symm
      · exact hyear.trans ((ht t htx).2 y hy' hty).symm
      · rfl
    case family =>
      intro x hx q hq hpar
      rcases hmem hx with hx' | rfl <;> rcases hmem hq with hq' | rfl
      · exact h.family x hx' q hq' hpar
      · exact absurd (h.parent x hx' _ hpar) (not_lt.mpr hid)
      · exact hyear.trans ((hp _ hpar).2 q hq' rfl).symm
      · rfl
  | rewrite hg => exact h.versions hg
  | remove => exact h.filter _
  | audit => exact ⟨h.ids, h.id, h.transfer, h.parent, h.legs, h.family⟩
  | count hn =>
    exact ⟨h.ids, fun r hr => (h.id r hr).trans_le hn, fun r hr t ht => (h.transfer r hr t ht).trans_le hn,
      fun r hr p hp => (h.parent r hr p hp).trans_le hn, h.legs, h.family⟩

theorem Edits.oneYear (hedits : Edits env fy d d') (h : OneYear d) : OneYear d' := by
  induction hedits with
  | refl => exact h
  | tail _ hedit ih => exact hedit.oneYear ih

theorem Edit.other (hedit : Edit env fy d d') {y : Uuid} (hy : y ≠ fy) :
    (d'.bookings.filter fun r => r.fiscalYearId = y) = d.bookings.filter fun r => r.fiscalYearId = y := by
  cases hedit with
  | @insert r n _ _ hyear =>
    have hr : ¬ r.fiscalYearId = y := fun heq => hy (heq.symm.trans hyear)
    simp [filter_append, hr]
  | @rewrite g hg hsame _ =>
    show (d.bookings.map g).filter _ = _
    rw [filter_map]
    have hfilter : d.bookings.filter ((fun r => decide (r.fiscalYearId = y)) ∘ g) =
        d.bookings.filter fun r => r.fiscalYearId = y :=
      filter_congr fun r hr => by simp [(hg r hr).year]
    rw [hfilter]
    conv_rhs => rw [← map_id (d.bookings.filter fun r => decide (r.fiscalYearId = y))]
    refine map_congr_left fun r hr => ?_
    obtain ⟨hmem, hyear⟩ := mem_filter.mp hr
    exact hsame r hmem fun heq => hy ((of_decide_eq_true hyear).symm.trans heq)
  | @remove keep hkeep =>
    show (d.bookings.filter keep).filter _ = _
    rw [filter_filter]
    refine filter_congr fun r hr => ?_
    by_cases hyear : r.fiscalYearId = y
    · have hk : keep r = true := Bool.of_not_eq_false fun hk => hy (hyear.symm.trans (hkeep r hr hk))
      simp [hyear, hk]
    · simp [hyear]
  | audit => rfl
  | count => rfl

theorem Edits.other (hedits : Edits env fy d d') {y : Uuid} (hy : y ≠ fy) :
    (d'.bookings.filter fun r => r.fiscalYearId = y) = d.bookings.filter fun r => r.fiscalYearId = y := by
  induction hedits with
  | refl => rfl
  | tail _ hedit ih => rw [hedit.other hy, ih]

theorem Edit.places (hresolved : ∀ node ∈ env.nodes, ∀ asked y, resolveFiscalYear env node asked = .ok y → P node.id y)
    (happs : ∀ a ∈ env.applications, ∀ b y, a.budgetId = some b → a.fiscalYearId = some y → P b y) (hedit : Edit env fy d d')
    (h : ∀ r ∈ d.bookings, P r.budgetId r.fiscalYearId) : ∀ r ∈ d'.bookings, P r.budgetId r.fiscalYearId := by
  have hplaced : ∀ {b y}, Placed env d.bookings b y → P b y := by
    intro b y hp
    cases hp with
    | @resolved node asked hmem hid hres => exact hid ▸ hresolved node hmem asked y hres
    | @application a hmem hb hy => exact happs a hmem b y hb hy
    | @booking r hmem hb hy => exact hb ▸ hy ▸ h r hmem
  cases hedit with
  | @insert r n _ _ hyear hp =>
    intro x hx
    rcases mem_append.mp hx with hx | hx
    · exact h x hx
    · rw [mem_singleton.mp hx, hyear]
      exact hplaced hp
  | @rewrite g hg _ hp =>
    refine forall_mem_map.mpr fun r hr => ?_
    rw [(hg r hr).year]
    exact hplaced (hp r hr)
  | remove => exact fun r hr => h r (mem_of_mem_filter hr)
  | audit => exact h
  | count => exact h

theorem Edits.places (hresolved : ∀ node ∈ env.nodes, ∀ asked y, resolveFiscalYear env node asked = .ok y → P node.id y)
    (happs : ∀ a ∈ env.applications, ∀ b y, a.budgetId = some b → a.fiscalYearId = some y → P b y) (hedits : Edits env fy d d')
    (h : ∀ r ∈ d.bookings, P r.budgetId r.fiscalYearId) : ∀ r ∈ d'.bookings, P r.budgetId r.fiscalYearId := by
  induction hedits with
  | refl => exact h
  | tail _ hedit ih => exact hedit.places hresolved happs ih

end Edits

section Statements

variable {env : Env} {fy : Uuid} {d d' : Db}

theorem insert_edits {r : BudgetExpense} {n : Uuid} (hins : d.insert r = .ok d') (hid : d.next ≤ r.id) (hn : r.id < n)
    (hyear : r.fiscalYearId = fy) (hplaced : Placed env d.bookings r.budgetId fy)
    (ht : ∀ t, r.transferId = some t → t < n ∧ ∀ x ∈ d.bookings, x.transferId = some t → x.fiscalYearId = fy)
    (hp : ∀ p, r.parentExpenseId = some p → p < d.next ∧ ∀ q ∈ d.bookings, q.id = p → q.fiscalYearId = fy) :
    Edits env fy d { d' with next := n } := by
  rw [insert_ok hins]
  exact .single (.insert (r := r.stored) hid hn hyear hplaced ht hp)

theorem save_edits (h : OneYear d) {e r : BudgetExpense} (hsave : d.save r = .ok d') (he : e ∈ d.bookings)
    (hversion : Version e r) (hyear : e.fiscalYearId = fy) (hplaced : Placed env d.bookings r.budgetId fy) :
    Edits env fy d d' := by
  rw [save_ok hsave]
  have hself : ∀ x ∈ d.bookings, x.id = r.id → x = e := fun x hx hxr => h.unique hx he (hxr.trans hversion.id)
  refine .single (.rewrite (fun x hx => ?_) (fun x hx hne => ?_) (fun x hx => ?_))
  · split
    next hxr =>
      obtain rfl := hself x hx hxr
      exact ⟨hversion.id, hversion.transfer, hversion.parent, hversion.year⟩
    next => exact ⟨rfl, rfl, rfl, rfl⟩
  · split
    next hxr => exact absurd (hself x hx hxr ▸ hyear) hne
    next => rfl
  · split
    next hxr =>
      rw [hself x hx hxr, hyear]
      exact hplaced
    next => exact .booking hx rfl rfl

theorem deleteAll_edits (h : OneYear d) {rows : List BudgetExpense}
    (hrows : ∀ e ∈ rows, e ∈ d.bookings ∧ e.fiscalYearId = fy) : Edits env fy d (d.deleteAll rows) := by
  rw [deleteAll_bookings]
  refine .single (.remove fun r hr hgone => ?_)
  rw [all_eq_false] at hgone
  obtain ⟨e, he, hgone⟩ := hgone
  obtain ⟨hmem, hyear⟩ := hrows e he
  by_cases hid : r.id = e.id
  · rw [h.unique hr hmem hid]
    exact hyear
  · have hpar : r.parentExpenseId = some e.id := by simpa [hid] using hgone
    exact (h.family r hr e hmem hpar).trans hyear

theorem delete_edits (h : OneYear d) {e : BudgetExpense} (he : e ∈ d.bookings) (hyear : e.fiscalYearId = fy) :
    Edits env fy d (d.delete e.id) := by
  have hrows : ∀ x ∈ [e], x ∈ d.bookings ∧ x.fiscalYearId = fy := fun _ hx => mem_singleton.mp hx ▸ ⟨he, hyear⟩
  exact deleteAll_edits h hrows

theorem recompute_edits (h : OneYear d) {p : Uuid} (hyear : ∀ q ∈ d.bookings, q.id = p → q.fiscalYearId = fy)
    (hrec : d.recomputeParentAmount p = .ok d') : Edits env fy d d' := by
  rw [Db.recomputeParentAmount] at hrec
  split at hrec
  next parent hget =>
    split at hget
    · obtain ⟨hmem, hid⟩ := get_some hget
      exact save_edits h hrec hmem ⟨rfl, rfl, rfl, rfl⟩ (hyear parent hmem hid) (.booking hmem rfl (hyear parent hmem hid))
    · cases hget
  next =>
    cases hrec
    exact .refl

theorem audit_edits (entry : AuditEntry) (d : Db) : Edits env fy d (d.audit entry) := .single .audit

end Statements

section Years

variable {env : Env} {k : Uuid}
variable {node : Node}

theorem refuseClosed_ok {y : FiscalYear} {u : Unit} (h : refuseClosed y = .ok u) : y.closedAt = none := by
  simpa [refuseClosed] using h

theorem pickFiscalYear_mem {candidates : List FiscalYear} {today : Date} (h : pickFiscalYear candidates today = some k) :
    ∃ y ∈ candidates, y.id = k := by
  unfold pickFiscalYear at h
  split at h
  · cases h
    exact ⟨_, mem_singleton_self _, rfl⟩
  next only _ hcurrent =>
    cases h
    exact ⟨only, mem_of_mem_filter (hcurrent ▸ mem_singleton_self only), rfl⟩
  · cases h

theorem resolve_ok {asked : Option Uuid} (h : resolveFiscalYear env node asked = .ok k) :
    ∃ top, topLevel env node = .ok top ∧ ∃ y ∈ env.years, y.id = k ∧ y.budgetId = top.id ∧ y.closedAt = none := by
  obtain ⟨top, htop, h⟩ := bind_ok.mp h
  refine ⟨top, htop, ?_⟩
  cases asked with
  | some j =>
    obtain ⟨y, hget, h⟩ := bind_ok.mp h
    obtain ⟨_, hown, h⟩ := bind_ok.mp h
    obtain ⟨_, hopen, h⟩ := bind_ok.mp h
    obtain rfl := pure_ok.mp h
    exact ⟨y, (getFiscalYear_ok hget).1, rfl, by simpa using hown, refuseClosed_ok hopen⟩
  | none =>
    dsimp only at h
    split at h
    next picked hpick =>
      obtain rfl := pure_ok.mp h
      obtain ⟨y, hy, rfl⟩ := pickFiscalYear_mem hpick
      obtain ⟨hmem, hcond⟩ := mem_filter.mp hy
      simp only [Bool.and_eq_true, decide_eq_true_eq, Option.isNone_iff_eq_none] at hcond
      exact ⟨y, hmem, rfl, hcond.1.1, hcond.2⟩
    next => cases h

theorem resolve_asked {y : Uuid} (h : resolveFiscalYear env node (some k) = .ok y) : y = k := by
  obtain ⟨top, _, h⟩ := bind_ok.mp h
  obtain ⟨fy, hget, h⟩ := bind_ok.mp h
  obtain ⟨_, _, h⟩ := bind_ok.mp h
  obtain ⟨_, _, h⟩ := bind_ok.mp h
  exact (pure_ok.mp h).symm.trans (getFiscalYear_ok hget).2

theorem requireOpen_open (hyears : (env.years.map FiscalYear.id).Nodup) {u : Unit}
    (h : requireOpenFiscalYear env k = .ok u) : Open env k := by
  intro y hy hid
  have hfind : env.years.find? (fun y => y.id = k) = some y := Table.find_of_mem hyears hy hid
  rw [requireOpenFiscalYear, hfind] at h
  exact refuseClosed_ok h

theorem resolve_open (hyears : (env.years.map FiscalYear.id).Nodup) {asked : Option Uuid}
    (h : resolveFiscalYear env node asked = .ok k) : Open env k := by
  obtain ⟨_, _, y, hy, hid, _, hnone⟩ := resolve_ok h
  intro z hz hzid
  rw [inj_on_of_nodup_map hyears hz hy (hzid.trans hid.symm)]
  exact hnone

end Years

section Operations

variable {env : Env} {d d' : Db}
variable {actor : Text} {expenseId t : Uuid} {payload : TransferUpdate}

def EditsOpen (env : Env) (d d' : Db) : Prop := ∃ fy, Open env fy ∧ Edits env fy d d'

theorem createExpense_edits (hyears : (env.years.map FiscalYear.id).Nodup) {payload : ExpenseCreate}
    (hop : createExpense env payload actor d = .ok d') : EditsOpen env d d' := by
  obtain ⟨node, fy, r, d₁, _, htarget, hins, ⟨hid, ht, hp⟩, hcentre, hyear, _, rfl⟩ := createExpense_ok hop
  have hplaced : Open env fy ∧ Placed env d.bookings node.id fy := by
    unfold bookingTarget at htarget
    split at htarget
    next k _ =>
      split at htarget
      · cases htarget
      next app happ =>
        split at htarget
        next b y hb hy =>
          obtain ⟨x, hnode, htarget⟩ := bind_ok.mp htarget
          obtain ⟨_, hopen, htarget⟩ := bind_ok.mp htarget
          obtain ⟨rfl, rfl⟩ := Prod.mk.inj (pure_ok.mp htarget)
          refine ⟨requireOpen_open hyears hopen, .application (mem_of_find?_eq_some happ) ?_ hy⟩
          rw [hb, (getNode_ok hnode).2]
        · cases htarget
    next =>
      split at htarget
      · cases htarget
      · obtain ⟨x, hnode, htarget⟩ := bind_ok.mp htarget
        obtain ⟨y, hres, htarget⟩ := bind_ok.mp htarget
        obtain ⟨rfl, rfl⟩ := Prod.mk.inj (pure_ok.mp htarget)
        exact ⟨resolve_open hyears hres, .resolved (getNode_ok hnode).1 rfl hres⟩
  refine ⟨fy, hplaced.1, ?_⟩
  refine (insert_edits hins hid.ge (hid ▸ Nat.lt_succ_self _) hyear ?_ (by simp [ht]) (by simp [hp])).trans (audit_edits _ _)
  rw [hcentre]
  exact hplaced.2

theorem updateExpense_edits (hyears : (env.years.map FiscalYear.id).Nodup) (h : OneYear d) {payload : ExpenseUpdate}
    (hop : updateExpense env expenseId payload d = .ok d') : EditsOpen env d d' := by
  obtain ⟨expense, target, d₁, _, hget, hopen, _, _, htarget, hsave, hrest⟩ := updateExpense_ok hop
  obtain ⟨hmem, rfl⟩ := get_some hget
  have hplaced : Placed env d.bookings (expense.patched payload target).budgetId expense.fiscalYearId := by
    unfold moveTarget at htarget
    split at htarget
    · obtain ⟨node, hnode, htarget⟩ := bind_ok.mp htarget
      obtain ⟨y, hres, htarget⟩ := bind_ok.mp htarget
      obtain rfl := pure_ok.mp htarget
      exact .resolved (getNode_ok hnode).1 rfl (resolve_asked hres ▸ hres)
    · cases htarget
      exact .booking hmem rfl rfl
  have hedits : Edits env expense.fiscalYearId d d₁ := save_edits h hsave hmem ⟨rfl, rfl, rfl, rfl⟩ rfl hplaced
  have h₁ := Edits.oneYear hedits h
  refine ⟨expense.fiscalYearId, requireOpen_open hyears hopen, hedits.trans ?_⟩
  rcases hrest with ⟨parent, _, hparent, _, hrec⟩ | ⟨_, rfl⟩
  · refine (audit_edits _ d₁).trans (recompute_edits ⟨h₁.ids, h₁.id, h₁.transfer, h₁.parent, h₁.legs, h₁.family⟩
      (fun q hq hqid => ?_) hrec)
    -- the sub-booking itself is there in its new version
    have hchild : (expense.patched payload target).stored ∈ d₁.bookings := by
      rw [save_ok hsave]
      exact mem_map.mpr ⟨expense, hmem, if_pos rfl⟩
    exact (h₁.family _ hchild q hq (by rw [hqid]; exact hparent)).symm
  · exact audit_edits _ _

theorem deleteExpense_edits (hyears : (env.years.map FiscalYear.id).Nodup) (h : OneYear d)
    (hop : deleteExpense env expenseId d = .ok d') : EditsOpen env d d' := by
  obtain ⟨expense, d₁, hget, hopen, hdeleted, hrest⟩ := deleteExpense_ok hop
  obtain ⟨hmem, rfl⟩ := get_some hget
  refine ⟨expense.fiscalYearId, requireOpen_open hyears hopen, ?_⟩
  have hdelete : Edits env expense.fiscalYearId d d₁ ∧ ∀ q ∈ d₁.bookings, q ∈ d.bookings := by
    rcases hdeleted with ⟨t, ht, rfl⟩ | ⟨_, rfl⟩
    · refine ⟨deleteAll_edits h fun e he => ?_, fun q hq => ?_⟩
      · obtain ⟨he, het⟩ := mem_legs.mp he
        exact ⟨he, h.legs e he expense hmem t het ht⟩
      · rw [deleteAll_bookings] at hq
        exact mem_of_mem_filter hq
    · exact ⟨delete_edits h hmem rfl, fun q hq => mem_of_mem_filter hq⟩
  have hedits : Edits env expense.fiscalYearId d _ := hdelete.1.trans (audit_edits (.expenseDelete expense.id) d₁)
  rcases hrest with ⟨parent, hparent, hrec⟩ | ⟨_, rfl⟩
  · refine hedits.trans (recompute_edits (Edits.oneYear hedits h) (fun q hq hqid => ?_) hrec)
    exact (h.family expense hmem q (hdelete.2 q hq) (by rw [hqid]; exact hparent)).symm
  · exact hedits

theorem createSubBooking_edits (hyears : (env.years.map FiscalYear.id).Nodup) (h : OneYear d) {parentId : Uuid}
    {payload : SubBookingCreate} (hop : createSubBooking env parentId payload actor d = .ok d') : EditsOpen env d d' := by
  obtain ⟨parent, r, d₁, d₂, _, hget, _, hopen, hins, ⟨hid, ht, hp⟩, ⟨hcentre, hyear, _⟩, _, hrec, rfl⟩ :=
    createSubBooking_ok hop
  obtain ⟨hmem, rfl⟩ := get_some hget
  refine ⟨parent.fiscalYearId, requireOpen_open hyears hopen, ?_⟩
  have hparent : ∀ q ∈ d.bookings, q.id = parent.id → q.fiscalYearId = parent.fiscalYearId :=
    fun q hq hqid => by rw [h.unique hq hmem hqid]
  have hinsert : Edits env parent.fiscalYearId d { d₁ with next := d.next + 1 } := by
    refine insert_edits hins hid.ge (hid ▸ Nat.lt_succ_self _) hyear (.booking hmem hcentre.symm rfl) (by simp [ht]) ?_
    intro p hpp
    obtain rfl := Option.some.inj (hp.symm.trans hpp)
    exact ⟨h.id parent hmem, hparent⟩
  refine hinsert.trans ((recompute_edits (Edits.oneYear hinsert h) (fun q hq hqid => ?_) hrec).trans (audit_edits _ _))
  rw [insert_ok hins] at hq
  rcases mem_append.mp hq with hq | hq
  · exact hparent q hq hqid
  · rw [mem_singleton.mp hq]
    exact hyear

theorem createTransfer_edits (hyears : (env.years.map FiscalYear.id).Nodup) (h : OneYear d) {payload : TransferCreate}
    (hop : createTransfer env payload actor d = .ok d') : EditsOpen env d d' := by
  obtain ⟨src, dst, fySrc, d₁, d₂, _, ⟨hsrc, hresSrc⟩, ⟨hdst, hresDst⟩, hout, hincome, rfl⟩ := createTransfer_ok hop
  refine ⟨fySrc, resolve_open hyears hresSrc, ?_⟩
  have hnew : ∀ x ∈ d.bookings, x.transferId ≠ some d.next := fun x hx ht => (h.transfer x hx _ ht).ne rfl
  have hfirst : Edits env fySrc d { d₁ with next := d.next + 2 } := by
    refine insert_edits hout (Nat.le_succ _) (Nat.lt_succ_self _) rfl (.resolved (getNode_ok hsrc).1 rfl hresSrc) ?_ ?_
    · intro t ht
      obtain rfl := Option.some.inj ht
      exact ⟨Nat.lt_add_of_pos_right (by decide), fun x hx hxt => absurd hxt (hnew x hx)⟩
    · intro p hp
      cases hp
  have hsecond : Edits env fySrc { d₁ with next := d.next + 2 } { d₂ with next := d.next + 3 } := by
    refine @insert_edits _ _ _ { d₂ with next := d.next + 2 } _ _ (insert_next hincome (d.next + 2)) le_rfl (Nat.lt_succ_self _) rfl
      (.resolved (getNode_ok hdst).1 rfl hresDst) ?_ ?_
    · intro t ht
      obtain rfl := Option.some.inj ht
      refine ⟨Nat.lt_add_of_pos_right (by decide), fun x hx hxt => ?_⟩
      rw [insert_ok hout] at hx
      rcases mem_append.mp hx with hx | hx
      · exact absurd hxt (hnew x hx)
      · rw [mem_singleton.mp hx]
        rfl
    · intro p hp
      cases hp
  exact hfirst.trans (hsecond.trans (audit_edits _ _))

theorem LegPatched.version {e r : BudgetExpense} (h : LegPatched payload e r) : Version e r :=
  ⟨h.id, h.transfer, h.parent, h.year⟩

theorem updateTransfer_edits (hyears : (env.years.map FiscalYear.id).Nodup) (h : OneYear d)
    (hop : updateTransfer env t payload d = .ok d') : EditsOpen env d d' := by
  obtain ⟨out, income, out', income', d₁, d₂, _, hlegs, hopen, hout', hincome', hsave, hsave', rfl⟩ := updateTransfer_ok hop
  obtain ⟨⟨hout, ht⟩, ⟨hincome, ht'⟩, hkind⟩ := transferLegs_mem hlegs
  refine ⟨out.fiscalYearId, requireOpen_open hyears hopen, ?_⟩
  have hyear : income.fiscalYearId = out.fiscalYearId := h.legs income hincome out hout t ht' ht
  have hversion := transferPatched_ok hout'
  have hversion' := transferPatched_ok hincome'
  have hfirst : Edits env out.fiscalYearId d d₁ :=
    save_edits h hsave hout hversion.version rfl (.booking hout hversion.centre.symm rfl)
  -- the other leg has another id, so the first save left it as it is
  have hincome₁ : income ∈ d₁.bookings := by
    rw [save_ok hsave]
    refine mem_map.mpr ⟨income, hincome, if_neg fun heq => hkind ?_⟩
    rw [h.unique hincome hout (heq.trans hversion.id)]
  have hsecond : Edits env out.fiscalYearId d₁ d₂ :=
    save_edits (Edits.oneYear hfirst h) hsave' hincome₁ hversion'.version hyear
      (.booking hincome₁ hversion'.centre.symm hyear)
  exact hfirst.trans (hsecond.trans (audit_edits _ _))

theorem deleteTransfer_edits (hyears : (env.years.map FiscalYear.id).Nodup) (h : OneYear d)
    (hop : deleteTransfer env t d = .ok d') : EditsOpen env d d' := by
  obtain ⟨out, income, hlegs, hopen, rfl⟩ := deleteTransfer_ok hop
  obtain ⟨⟨hout, ht⟩, ⟨hincome, ht'⟩, _⟩ := transferLegs_mem hlegs
  refine ⟨out.fiscalYearId, requireOpen_open hyears hopen, (deleteAll_edits h fun e he => ?_).trans (audit_edits _ _)⟩
  rcases mem_cons.mp he with rfl | he
  · exact ⟨hout, rfl⟩
  · rw [mem_singleton.mp he]
    exact ⟨hincome, h.legs income hincome out hout t ht' ht⟩

theorem revertAudit_edits (hyears : (env.years.map FiscalYear.id).Nodup) (h : OneYear d) {n : ℕ}
    (hop : revertAudit env n d = .ok d') : EditsOpen env d d' := by
  rcases revertAudit_cases hop with ⟨k, e, _, hget, hopen, rfl⟩ | ⟨t, e, _, he, hopen, rfl⟩ | ⟨k, before, after, e, _, _, _, hop⟩
  · obtain ⟨hmem, rfl⟩ := get_some hget
    exact ⟨_, requireOpen_open hyears hopen, (delete_edits h hmem rfl).trans (audit_edits _ _)⟩
  · refine ⟨_, requireOpen_open hyears hopen, (deleteAll_edits h fun x hx => ?_).trans (audit_edits _ _)⟩
    obtain ⟨hx, hxt⟩ := mem_legs.mp hx
    obtain ⟨he, het⟩ := mem_legs.mp he
    exact ⟨hx, h.legs x hx e he t hxt het⟩
  · exact updateExpense_edits hyears h hop

theorem handle_edits (hyears : (env.years.map FiscalYear.id).Nodup) (h : OneYear d) {r : Request}
    (hop : r.handle env d = .ok d') : EditsOpen env d d' := by
  cases r with
  | createTransfer payload actor => exact createTransfer_edits hyears h hop
  | updateTransfer t payload => exact updateTransfer_edits hyears h hop
  | deleteTransfer t => exact deleteTransfer_edits hyears h hop
  | createExpense payload actor => exact createExpense_edits hyears hop
  | updateExpense k payload => exact updateExpense_edits hyears h hop
  | deleteExpense k => exact deleteExpense_edits hyears h hop
  | createSubBooking k payload actor => exact createSubBooking_edits hyears h hop
  | revertAudit n => exact revertAudit_edits hyears h hop

theorem emptyDb_oneYear : OneYear emptyDb where
  ids := nodup_nil
  id := by simp [emptyDb]
  transfer := by simp [emptyDb]
  parent := by simp [emptyDb]
  legs := by simp [emptyDb]
  family := by simp [emptyDb]

end Operations

end Budget
