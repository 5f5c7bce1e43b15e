import StupaWorkflow.TreeYears

/-!
The freeze of the closed fiscal years. The bookings and the applications of a closed year stay as
they are.
-/
namespace BudgetTree
open Py hiding Date
open List
open Budget (Uuid Date Application)

def FiscalYear.dates (y : FiscalYear) : Date × Date := (y.startDate, y.endDate)

def Db.isClosed (d : Db) (k : Uuid) : Bool := d.years.any fun y => y.id = k && y.closedAt.isSome

/-- Every closed year is there with its dates, and what belongs to it is the same. -/
structure Frozen (d d' : Db) : Prop where
  dates : ∀ y ∈ d.years, y.closedAt.isSome = true → ∃ y' ∈ d'.years, y'.id = y.id ∧ y'.dates = y.dates
  allocations : ∀ k, d.isClosed k = true →
    (d'.allocations.filter fun a => a.fiscalYearId = k) = d.allocations.filter fun a => a.fiscalYearId = k
  bookings : ∀ k, d.isClosed k = true →
    (d'.books.bookings.filter fun r => r.fiscalYearId = k) = d.books.bookings.filter fun r => r.fiscalYearId = k
  applications : ∀ k, d.isClosed k = true →
    (d'.applications.filter fun a => a.fiscalYearId = some k) = d.applications.filter fun a => a.fiscalYearId = some k

section Conditions

def Node.cutoff (n : Node) : ℕ × ℕ := (n.fiscalStartMonth, n.fiscalStartDay)

def BudgetNodeUpdate.cutoff (payload : BudgetNodeUpdate) (n : Node) : ℕ × ℕ :=
  ((payload.fiscalStartMonth.getD none).getD n.fiscalStartMonth, (payload.fiscalStartDay.getD none).getD n.fiscalStartDay)

def FiscalYear.datesAt (y : FiscalYear) (cutoff : ℕ × ℕ) : Date × Date :=
  (toOrdinal y.year cutoff.1 cutoff.2, toOrdinal (y.year + 1) cutoff.1 cutoff.2 - 1)

def Db.SparesUpdate (d : Db) (k : Uuid) (payload : BudgetNodeUpdate) : Prop :=
  ∀ n ∈ d.nodes, n.id = k → n.parentId = none → payload.cutoff n ≠ n.cutoff →
    ∀ y ∈ d.years, y.budgetId = k → y.closedAt.isSome = true → y.datesAt (payload.cutoff n) = y.dates

def Db.SparesDelete (d : Db) (k : Uuid) : Prop :=
  (∀ y ∈ d.years, y.budgetId = k → y.closedAt = none) ∧
    ∀ a ∈ d.allocations, a.budgetId = k → d.isClosed a.fiscalYearId = false

/-- The request reaches no closed year past the check. -/
def Request.Spares (d : Db) : Request → Prop
  | .updateNode k payload => d.SparesUpdate k payload
  | .deleteNode k => d.SparesDelete k
  | .revertNode n => (∀ k, d.log[n]? = some (.nodeCreate k) → d.SparesDelete k) ∧
      ∀ k before after, d.log[n]? = some (.nodeUpdate k before after) → d.SparesUpdate k before
  | .updateFiscalYear k y payload => payload.year ≠ none → ∀ fy ∈ d.years, fy.id = y → fy.closedAt.isSome = true →
      ∀ top ∈ d.nodes, top.id = k → fy.datesAt top.cutoff = fy.dates
  | .revertAllocation n => ∀ entry, d.allocationLog[n]? = some entry → entry.previousAllocated = none →
      d.isClosed entry.fiscalYearId = false
  | _ => True

def Request.OnBudget : Request → Prop
  | .deleteApplication _ => False
  | _ => True

end Conditions

section Parts

variable {env : Env} {d d' : Db} {k y : Uuid}
variable {fy : FiscalYear}

theorem isClosed_iff : d.isClosed k = true ↔ ∃ fy ∈ d.years, fy.id = k ∧ fy.closedAt.isSome = true := by
  simp [Db.isClosed]

theorem isClosed_of_mem (hfy : fy ∈ d.years) (hclosed : fy.closedAt.isSome = true) :
    d.isClosed fy.id = true := isClosed_iff.mpr ⟨fy, hfy, rfl, hclosed⟩

theorem Founded.open_ne (h : Founded d) (hfy : fy ∈ d.years) (hopen : fy.closedAt = none) (hclosed : d.isClosed k = true) :
    fy.id ≠ k := by
  rintro rfl
  obtain ⟨z, hz, hid, hsome⟩ := isClosed_iff.mp hclosed
  rw [h.unique_year hz hfy hid, hopen] at hsome
  cases hsome

theorem Founded.unfrozen_ne (h : Founded d) {x : Option Uuid} (hopen : d.Unfrozen x) (hclosed : d.isClosed k = true) :
    x ≠ some k := by
  rintro rfl
  obtain ⟨z, hz, hid, hsome⟩ := isClosed_iff.mp hclosed
  rw [hopen k rfl z (Table.find_of_mem h.ids hz hid)] at hsome
  cases hsome

theorem Resolved.ne (h : Founded d) {b : Uuid} (hres : Resolved d env b y) (hclosed : d.isClosed k = true) : y ≠ k := by
  obtain ⟨_, _, _, _, _, fy, hfy, rfl, _, hopen⟩ := hres
  exact h.open_ne hfy hopen hclosed

theorem same_dates (hyears : d'.years = d.years) :
    ∀ y ∈ d.years, y.closedAt.isSome = true → ∃ y' ∈ d'.years, y'.id = y.id ∧ y'.dates = y.dates :=
  fun y hy _ => ⟨y, hyears ▸ hy, rfl, rfl⟩

theorem frozen_of_dates (hallocations : d'.allocations = d.allocations) (hbooks : d'.books = d.books)
    (happs : d'.applications = d.applications)
    (hdates : ∀ y ∈ d.years, y.closedAt.isSome = true → ∃ y' ∈ d'.years, y'.id = y.id ∧ y'.dates = y.dates) :
    Frozen d d' :=
  ⟨hdates, fun _ _ => by rw [hallocations], fun _ _ => by rw [hbooks], fun _ _ => by rw [happs]⟩

theorem modify_dates (h : Founded d) (row : FiscalYear) (hfy : fy ∈ d.years) (hid : row.id = fy.id)
    (hdates : fy.closedAt.isSome = true → row.dates = fy.dates) {y : FiscalYear} (hy : y ∈ d.years)
    (hclosed : y.closedAt.isSome = true) :
    ∃ y' ∈ Table.modify (fun f : FiscalYear => f.id) fy.id (fun _ => row) d.years, y'.id = y.id ∧ y'.dates = y.dates := by
  refine ⟨_, mem_map_of_mem hy, ?_⟩
  split
  next heq =>
    obtain rfl := h.unique_year hy hfy heq
    exact ⟨hid, hdates hclosed⟩
  next => exact ⟨rfl, rfl⟩

theorem modify_row {row z : FiscalYear} (hz : z ∈ Table.modify (fun f : FiscalYear => f.id) fy.id (fun _ => row) d.years)
    (hid : z.id = fy.id) : z = row := by
  obtain ⟨x, _, rfl⟩ := mem_map.mp hz
  split
  next => rfl
  next hne =>
    rw [if_neg hne] at hid
    exact absurd hid hne

theorem Founded.place_frozen (h : Founded d) {app : Application} (happ : app ∈ d.applications)
    (hopen : d.Unfrozen app.fiscalYearId) {b x : Option Uuid} (hx : ∀ j, d.isClosed j = true → x ≠ some j) :
    Frozen d (d.place app.id b x) := by
  refine ⟨same_dates rfl, fun _ _ => rfl, fun _ _ => rfl, fun j hclosed => Table.filter_map_apart fun a ha => ?_⟩
  split
  next hid =>
    have hsame : a = app := inj_on_of_nodup_map h.apps ha happ hid
    exact .inr ⟨by simpa [hsame] using h.unfrozen_ne hopen hclosed, by simpa using hx j hclosed⟩
  next => exact .inl rfl

theorem checkFiscalYear_ok {a : Allocation.Db} {node : Allocation.Node} {u : Unit}
    (h : a.checkFiscalYear (d.allocationEnv env) node y = .ok u) : ∃ fy ∈ d.years, fy.id = y ∧ fy.closedAt = none := by
  obtain ⟨fy, hget, h⟩ := bind_ok.mp h
  obtain ⟨_, _, h⟩ := bind_ok.mp h
  obtain ⟨_, _, h⟩ := bind_ok.mp h
  have hfound : fy ∈ (d.allocationEnv env).years ∧ fy.id = y := Table.of_find (foundOr_ok hget)
  obtain ⟨hmem, hid⟩ := hfound
  obtain ⟨fy, hfy, rfl⟩ := mem_map.mp hmem
  exact ⟨fy, hfy, hid, Budget.refuseClosed_ok h⟩

theorem write_other {a : Allocation.Db} {existing : Option Allocation.BudgetAllocation} {row : Allocation.BudgetAllocation}
    (hne : row.fiscalYearId ≠ k) : ((a.write existing row).allocations.filter fun x => x.fiscalYearId = k) =
      a.allocations.filter fun x => x.fiscalYearId = k := by
  cases existing with
  | some _ =>
    refine Table.filter_map_apart fun x _ => ?_
    split
    next hkey =>
      have hyear : x.fiscalYearId = row.fiscalYearId := congrArg Prod.snd hkey
      exact .inr ⟨by simpa [hyear] using hne, by simpa using hne⟩
    next => exact .inl rfl
  | none =>
    show (a.allocations ++ [row]).filter _ = _
    simp [filter_append, hne]

theorem setAllocation_other (h : Founded d) {b : Uuid} {payload : Allocation.AllocationSet} {a a' : Allocation.Db}
    (hop : Allocation.setAllocation (d.allocationEnv env) b y payload a = .ok a') (hclosed : d.isClosed k = true) :
    (a'.allocations.filter fun x => x.fiscalYearId = k) = a.allocations.filter fun x => x.fiscalYearId = k := by
  obtain ⟨_, _, hop⟩ := bind_ok.mp hop
  obtain ⟨node, _, hop⟩ := bind_ok.mp hop
  obtain ⟨_, hcheck, hop⟩ := bind_ok.mp hop
  obtain ⟨_, _, hop⟩ := bind_ok.mp hop
  obtain ⟨_, _, hop⟩ := bind_ok.mp hop
  obtain rfl := pure_ok.mp hop
  obtain ⟨fy, hfy, rfl, hopen⟩ := checkFiscalYear_ok hcheck
  exact write_other (h.open_ne hfy hopen hclosed)

end Parts

section Operations

variable {env : Env} {d d' : Db} {k y : Uuid}
variable {payload : BudgetNodeUpdate}

theorem column_ok {α : Type} {p : Budget.Patch α} {old new : α} (h : p.column old = .ok new) :
    new = (p.getD none).getD old := by
  rcases p with _ | _ | a
  · exact (Except.ok.inj h).symm
  · cases h
  · exact (Except.ok.inj h).symm

theorem patched_cutoff {n changed : Node} (h : n.patched env payload = .ok changed) : changed.cutoff = payload.cutoff n := by
  obtain ⟨_, _, h⟩ := bind_ok.mp h
  obtain ⟨_, _, h⟩ := bind_ok.mp h
  obtain ⟨_, _, h⟩ := bind_ok.mp h
  obtain ⟨_, _, h⟩ := bind_ok.mp h
  obtain ⟨month, hmonth, h⟩ := bind_ok.mp h
  obtain ⟨day, hday, h⟩ := bind_ok.mp h
  obtain ⟨_, _, h⟩ := bind_ok.mp h
  obtain rfl := pure_ok.mp h
  rw [BudgetNodeUpdate.cutoff, ← column_ok hmonth, ← column_ok hday]
  rfl

theorem restarts_iff {n changed : Node} : n.restarts changed = true ↔ n.parentId = none ∧ changed.cutoff ≠ n.cutoff := by
  simp only [Node.restarts, Node.cutoff, Bool.and_eq_true, Option.isNone_iff_eq_none, Bool.or_eq_true, decide_eq_true_eq,
    ne_eq, Prod.mk.injEq, not_and_or]

/-- An update of a node spares the closed years where its new cutoff does. -/
theorem updateNode_frozen (h : Founded d) (hop : updateNode env k payload d = .ok d') :
    Frozen d d' ↔ d.SparesUpdate k payload := by
  obtain ⟨node, changed, d₁, after, hnode, rfl, hcheck, hpatched, _, _, rfl⟩ := updateNode_ok hop
  have hcutoff := patched_cutoff hpatched
  have hid : changed.id = node.id := (patched_ok hcheck hpatched).id
  constructor
  · intro hfrozen n hn hnid hparent hnew y hy hb hclosed
    obtain rfl := h.treed.keyed.unique hn hnode hnid
    obtain ⟨y', hy', hyid, hdates⟩ := hfrozen.dates y hy hclosed
    have hrestarts : n.restarts changed = true := restarts_iff.mpr ⟨hparent, by rwa [hcutoff]⟩
    obtain ⟨z, hz, rfl⟩ := mem_map.mp (show y' ∈ d.years.map _ by simpa [redatedIf, hrestarts] using hy')
    have hzy : z.id = y.id := by
      split at hyid <;> exact hyid
    obtain rfl := h.unique_year hz hy hzy
    rw [if_pos (hb.trans hid.symm)] at hdates
    rw [← hcutoff]
    exact hdates
  · intro hspares
    refine frozen_of_dates rfl rfl rfl fun y hy hclosed => ?_
    show ∃ y' ∈ redatedIf (node.restarts changed) changed d.years, _
    unfold redatedIf
    split
    next hrestarts =>
      obtain ⟨hparent, hnew⟩ := restarts_iff.mp hrestarts
      refine ⟨_, mem_map_of_mem hy, ?_⟩
      split
      next hb =>
        refine ⟨rfl, ?_⟩
        rw [hcutoff] at hnew
        rw [← hspares node hnode rfl hparent hnew y hy (hb.trans hid) hclosed, ← hcutoff]
        rfl
      next => exact ⟨rfl, rfl⟩
    next => exact ⟨y, hy, rfl, rfl⟩

theorem yearOf_closed (h : Founded d) (hopen : ∀ y ∈ d.years, y.budgetId = k → y.closedAt = none)
    (hclosed : d.isClosed y = true) : d.yearOf k y = false := by
  refine Bool.eq_false_iff.mpr fun hown => ?_
  obtain ⟨fy, hfy, hcond⟩ := any_eq_true.mp hown
  simp only [Bool.and_eq_true, decide_eq_true_eq] at hcond
  exact h.open_ne hfy (hopen fy hfy hcond.2) hclosed hcond.1

theorem withoutYears_other {books : Budget.Db} (h : Budget.OneYear books) {gone : Uuid → Bool} (hkeep : gone y = false) :
    ((withoutYears books gone).bookings.filter fun r => r.fiscalYearId = y) =
      books.bookings.filter fun r => r.fiscalYearId = y := by
  show (books.bookings.filter _).filter _ = _
  rw [filter_filter]
  refine filter_congr fun r hr => ?_
  by_cases hy : r.fiscalYearId = y
  · have hparent : ∀ p, r.parentExpenseId = some p →
        p ∉ (books.bookings.filter fun r => gone r.fiscalYearId).map Budget.BudgetExpense.id := by
      intro p hp hmem
      obtain ⟨q, hq, rfl⟩ := mem_map.mp hmem
      obtain ⟨hq, hgone⟩ := mem_filter.mp hq
      rw [← h.family r hr q hq hp, hy, hkeep] at hgone
      cases hgone
    cases hp : r.parentExpenseId with
    | none => simp [hy, hkeep]
    | some p => simpa [hy, hkeep] using hparent p hp
  · simp [hy]

/-- The delete of a node spares the closed years where it has none and no allocation in one. -/
theorem deleteNode_frozen (h : Founded d) (hop : deleteNode k d = .ok d') : Frozen d d' ↔ d.SparesDelete k := by
  obtain ⟨_, _, _, _, rfl⟩ := deleteNode_ok hop
  constructor
  · intro hfrozen
    have hopen : ∀ y ∈ d.years, y.budgetId = k → y.closedAt = none := by
      intro y hy hb
      cases hc : y.closedAt with
      | none => rfl
      | some t =>
        obtain ⟨y', hy', hid, _⟩ := hfrozen.dates y hy (by rw [hc]; rfl)
        obtain ⟨hy', hne⟩ := mem_filter.mp hy'
        rw [h.unique_year hy' hy hid] at hne
        simp [hb] at hne
    refine ⟨hopen, fun a ha hb => Bool.eq_false_iff.mpr fun hclosed => ?_⟩
    have hmem : a ∈ d.allocations.filter fun x => x.fiscalYearId = a.fiscalYearId := mem_filter.mpr ⟨ha, by simp⟩
    rw [← hfrozen.allocations _ hclosed] at hmem
    have hkept := (mem_filter.mp (mem_of_mem_filter hmem)).2
    simp [hb] at hkept
  · rintro ⟨hopen, hallocations⟩
    refine ⟨fun y hy hclosed => ⟨y, mem_filter.mpr ⟨hy, ?_⟩, rfl, rfl⟩, fun j hclosed => ?_, fun j hclosed => ?_,
      fun _ _ => rfl⟩
    · refine decide_eq_true fun hb => ?_
      rw [hopen y hy hb] at hclosed
      cases hclosed
    · show (d.allocations.filter _).filter _ = _
      rw [filter_filter]
      refine filter_congr fun a ha => ?_
      by_cases hyear : a.fiscalYearId = j
      · have hb : a.budgetId ≠ k := by
          intro hb
          have hopen' := hallocations a ha hb
          rw [hyear, hclosed] at hopen'
          cases hopen'
        simp [hyear, hb, yearOf_closed h hopen hclosed]
      · simp [hyear]
    · exact withoutYears_other h.books (yearOf_closed h hopen hclosed)

/-- An update of a closed year spares it where it sets no year or the dates come out as they are. -/
theorem updateFiscalYear_frozen {payload : FiscalYearUpdate} (h : Founded d)
    (hop : updateFiscalYear k y payload d = .ok d') :
    Frozen d d' ↔ (Request.updateFiscalYear k y payload).Spares d := by
  obtain ⟨top, fy, redated, active, htop, htid, _, hfind, _, hredated, _, rfl⟩ := updateFiscalYear_ok hop
  obtain ⟨hfy, hfid⟩ := foundYear hfind
  rcases redated_ok hredated with ⟨hnone, rfl⟩ | ⟨year, hset, hyear, rfl⟩
  · refine ⟨fun _ hsome => absurd hnone hsome, fun _ => frozen_of_dates rfl rfl rfl fun z hz hclosed => ?_⟩
    exact modify_dates h { redated with active := active } hfy rfl (fun _ => rfl) hz hclosed
  · have hsame : fy.closedAt.isSome = true → year = fy.year := by
      intro hclosed
      rcases hyear with heq | hopen
      · exact heq
      · rw [hopen] at hclosed
        cases hclosed
    constructor
    · intro hfrozen _ fy' hfy' hid hclosed top' htop' htid'
      obtain rfl := h.unique_year hfy' hfy (hid.trans hfid.symm)
      obtain rfl := h.treed.keyed.unique htop' htop (htid'.trans htid.symm)
      obtain ⟨z, hz, hzid, hdates⟩ := hfrozen.dates fy' hfy' hclosed
      obtain rfl := modify_row hz hzid
      rw [← hdates, hsame hclosed]
      rfl
    · intro hspares
      refine frozen_of_dates rfl rfl rfl fun z hz hclosed => ?_
      refine modify_dates h { ({ fy with year := year } : FiscalYear).dated top with active := active } hfy rfl
        (fun hclosed => ?_) hz hclosed
      rw [← hspares (by simp [hset]) fy hfy hfid hclosed top htop htid, hsame hclosed]
      rfl

/-- The revert of an allocation spares the closed years where it drops no row of one. -/
theorem revertAllocation_frozen {n : ℕ} (h : Founded d)
    (hop : (Request.revertAllocation n).handle env d = .ok d') :
    Frozen d d' ↔ (Request.revertAllocation n).Spares d := by
  obtain ⟨a', hrevert, rfl⟩ := allocate_ok hop
  rw [Allocation.revertAudit] at hrevert
  split at hrevert
  next => cases hrevert
  next entry hentry =>
    have hlog : d.allocationLog[n]? = some entry := hentry
    obtain ⟨_, hstale, hrevert⟩ := bind_ok.mp hrevert
    cases hprevious : entry.previousAllocated with
    | none =>
      rw [hprevious] at hrevert
      obtain rfl := pure_ok.mp hrevert
      constructor
      · intro hfrozen entry' hentry' _
        obtain rfl := Option.some.inj (hlog.symm.trans hentry')
        refine Bool.eq_false_iff.mpr fun hclosed => ?_
        -- the row is there, or the entry would be stale
        cases hrow : d.allocationDb.allocation entry.target entry.fiscalYearId with
        | none => simp [hrow] at hstale
        | some row =>
          have hfound : row ∈ d.allocations ∧ row.key = (entry.target, entry.fiscalYearId) := Table.of_find hrow
          obtain ⟨hmem, hkey⟩ := hfound
          have hin : row ∈ d.allocations.filter fun x => x.fiscalYearId = entry.fiscalYearId :=
            mem_filter.mpr ⟨hmem, decide_eq_true (congrArg Prod.snd hkey)⟩
          rw [← hfrozen.allocations _ hclosed] at hin
          have hkept := (mem_filter.mp (mem_of_mem_filter hin)).2
          simp [hkey] at hkept
      · intro hspares
        refine ⟨same_dates rfl, fun j hclosed => ?_, fun _ _ => rfl, fun _ _ => rfl⟩
        have hne : entry.fiscalYearId ≠ j := by
          rintro rfl
          rw [hspares entry hlog hprevious] at hclosed
          cases hclosed
        show (d.allocations.filter _).filter _ = _
        rw [filter_filter]
        refine filter_congr fun x _ => ?_
        by_cases hyear : x.fiscalYearId = j
        · have hkey : x.key ≠ (entry.target, entry.fiscalYearId) := fun heq => hne ((congrArg Prod.snd heq).symm.trans hyear)
          simp [hyear, hkey]
        · simp [hyear]
    | some previous =>
      rw [hprevious] at hrevert
      refine ⟨fun _ entry' hentry' hnone => ?_, fun _ => ⟨same_dates rfl, fun j hclosed => ?_, fun _ _ => rfl, fun _ _ => rfl⟩⟩
      · obtain rfl := Option.some.inj (hlog.symm.trans hentry')
        rw [hprevious] at hnone
        cases hnone
      · exact setAllocation_other h hrevert hclosed

/-- A request on the budget leaves the closed years as they are exactly where it spares them. -/
theorem handle_frozen {r : Request} (h : Founded d) (hr : r.OnBudget) (hop : r.handle env d = .ok d') :
    Frozen d d' ↔ r.Spares d := by
  cases r with
  | createNode payload =>
    obtain ⟨_, _, _, _, _, _, _, _, rfl⟩ := createNode_ok hop
    exact iff_of_true (frozen_of_dates rfl rfl rfl (same_dates rfl)) trivial
  | updateNode k payload => exact updateNode_frozen h hop
  | deleteNode k => exact deleteNode_frozen h hop
  | revertNode n =>
    rcases revertAudit_ok hop with ⟨k, hentry, hop⟩ | ⟨k, before, after, hentry, hop⟩
    · rw [deleteNode_frozen h hop]
      simp [Request.Spares, hentry]
    · rw [updateNode_frozen h hop]
      simp [Request.Spares, hentry]
  | createFiscalYear k payload =>
    obtain ⟨_, fy, _, _, _, _, _, _, _, _, _, rfl⟩ := createFiscalYear_ok hop
    exact iff_of_true (frozen_of_dates rfl rfl rfl fun y hy _ => ⟨y, mem_append_left _ hy, rfl, rfl⟩) trivial
  | updateFiscalYear k y payload => exact updateFiscalYear_frozen h hop
  | deleteFiscalYear k y =>
    obtain ⟨fy, hfind, hopen, _, _, _, rfl⟩ := deleteFiscalYear_ok hop
    obtain ⟨hfy, hid⟩ := foundYear hfind
    refine iff_of_true (frozen_of_dates rfl rfl rfl fun z hz hclosed => ⟨z, mem_filter.mpr ⟨hz, ?_⟩, rfl, rfl⟩) trivial
    exact decide_eq_true fun hzid => h.open_ne hfy hopen (isClosed_of_mem hz hclosed) (hid.trans hzid.symm)
  | setFiscalYearClosed k y closed now =>
    obtain ⟨fy, closedAt, hfind, rfl⟩ := setFiscalYearClosed_ok hop
    obtain ⟨hfy, _⟩ := foundYear hfind
    refine iff_of_true (frozen_of_dates rfl rfl rfl fun z hz hclosed => ?_) trivial
    exact modify_dates h { fy with closedAt := closedAt } hfy rfl (fun _ => rfl) hz hclosed
  | setAllocation k y payload =>
    obtain ⟨a, hset, rfl⟩ := allocate_ok hop
    exact iff_of_true ⟨same_dates rfl, fun j hclosed => setAllocation_other h hset hclosed, fun _ _ => rfl, fun _ _ => rfl⟩
      trivial
  | revertAllocation n => exact revertAllocation_frozen h hop
  | book r =>
    obtain ⟨books, hbooks, rfl⟩ := book_ok hop
    obtain ⟨fy, hopen, hedits⟩ := Budget.handle_edits (booksEnv_years h env) h.books hbooks
    refine iff_of_true ⟨same_dates rfl, fun _ _ => rfl, fun j hclosed => Budget.Edits.other hedits ?_, fun _ _ => rfl⟩ trivial
    rintro rfl
    obtain ⟨z, hz, hid, hsome⟩ := isClosed_iff.mp hclosed
    have hnone : z.closedAt = none := hopen z.toFiscalYear (mem_map_of_mem hz) hid
    rw [hnone] at hsome
    cases hsome
  | assignBudget k payload =>
    obtain ⟨app, happ, rfl, hopen, rfl | ⟨b, y, hres, rfl⟩⟩ := assignBudget_ok hop
    · exact iff_of_true (h.place_frozen happ hopen fun _ _ => by simp) trivial
    · exact iff_of_true (h.place_frozen happ hopen fun j hclosed => by simpa using hres.ne h hclosed) trivial
  | moveFiscalYear k y =>
    obtain ⟨app, happ, rfl, hopen, b, _, hres, rfl⟩ := moveFiscalYear_ok hop
    exact iff_of_true (h.place_frozen happ hopen fun j hclosed => by simpa using hres.ne h hclosed) trivial
  | flowAssign k b fromField =>
    cases hop
    refine iff_of_true ?_ trivial
    rcases flowAssign_cases env k b fromField d with heq | ⟨app, node, hfind, _, _, hopen, heq⟩
    · rw [heq]
      exact frozen_of_dates rfl rfl rfl (same_dates rfl)
    · obtain ⟨happ, rfl⟩ := Table.of_find hfind
      rw [heq]
      refine h.place_frozen happ hopen fun j hclosed => ?_
      cases hcurrent : d.currentYear env node with
      | none => exact h.unfrozen_ne hopen hclosed
      | some picked =>
        obtain ⟨fy, hfy, rfl, _, hnone⟩ := currentYear_ok hcurrent
        simpa using h.open_ne hfy hnone hclosed
  | createApplication =>
    cases hop
    refine iff_of_true ⟨same_dates rfl, fun _ _ => rfl, fun _ _ => rfl, fun j _ => ?_⟩ trivial
    show (d.applications ++ [_]).filter _ = _
    simp [filter_append]
  | deleteApplication k => exact hr.elim

end Operations

theorem run_founded {rs : List (Env × Request)} {d : Db} (hrun : Runs.run step emptyDb rs = some d) : Founded d :=
  Runs.run_keeps (fun h hop => h.handle (toOption_some.mp hop)) emptyDb_founded hrun

/-- In every state that requests reach, a further request on the budget leaves the
closed fiscal years and what belongs to them as they are exactly when it spares them. -/
theorem run_frozen {rs : List (Env × Request)} {d d' : Db} {env : Env} {r : Request}
    (hrun : Runs.run step emptyDb rs = some d) (hr : r.OnBudget) (hop : step (env, r) d = some d') :
    Frozen d d' ↔ r.Spares d := handle_frozen (run_founded hrun) hr (toOption_some.mp hop)

def closedYear : List (Env × Request) :=
  [centre "VS", .createFiscalYear 0 { year := 2024 }, .createFiscalYear 0 { year := 2025 }, .setAllocation 0 1 ⟨100⟩,
    .setFiscalYearClosed 0 1 true 7].map fun r => (desk, r)

theorem nextYear_frozen : ∃ d d', Runs.run step emptyDb closedYear = some d ∧
    step (desk, .setAllocation 0 2 ⟨50⟩) d = some d' ∧ Frozen d d' ∧ d.isClosed 1 = true := by
  have hrun : (Runs.run step emptyDb closedYear).map (fun d =>
      ((step (desk, .setAllocation 0 2 ⟨50⟩) d).isSome, d.isClosed 1)) = some (true, true) := by decide +kernel
  obtain ⟨d, hd, hrows⟩ := Option.map_eq_some_iff.mp hrun
  obtain ⟨d', hd'⟩ := Option.isSome_iff_exists.mp (congrArg Prod.fst hrows)
  exact ⟨d, d', hd, hd', (run_frozen (r := .setAllocation 0 2 ⟨50⟩) hd trivial hd').mpr trivial, congrArg Prod.snd hrows⟩

/-- The revert of the first allocation drops it from the closed year, a new cutoff moves the dates, and the delete of
the cost centre takes the year with it. -/
theorem closedYear_notFrozen : ∃ d dropped moved deleted, Runs.run step emptyDb closedYear = some d ∧
    step (desk, .revertAllocation 0) d = some dropped ∧ ¬ Frozen d dropped ∧
    step (desk, .updateNode 0 { fiscalStartMonth := some (some 10) }) d = some moved ∧ ¬ Frozen d moved ∧
    step (desk, .deleteNode 0) d = some deleted ∧ ¬ Frozen d deleted := by
  have hrun : (Runs.run step emptyDb closedYear).map (fun d =>
      ((step (desk, .revertAllocation 0) d).map Db.allocations,
        (step (desk, .updateNode 0 { fiscalStartMonth := some (some 10) }) d).map fun d' => d'.years.map FiscalYear.dates)) =
      some (some [], some [(739160, 739524), (739525, 739889)]) := by decide +kernel
  have hdelete : (Runs.run step emptyDb closedYear).bind (fun d => (step (desk, .deleteNode 0) d).map Db.years) = some [] := by
    decide +kernel
  have hbefore : (Runs.run step emptyDb closedYear).map (fun d => (d.allocations, d.years.head?)) =
      some ([⟨0, 1, 100⟩], some ⟨⟨1, 0, 738886, 739251, true, some 7⟩, 2024⟩) := by decide +kernel
  obtain ⟨d, hd, hrows⟩ := Option.map_eq_some_iff.mp hrun
  obtain ⟨dropped, hdropped, hnone⟩ := Option.map_eq_some_iff.mp (congrArg Prod.fst hrows)
  obtain ⟨moved, hmoved, hdates⟩ := Option.map_eq_some_iff.mp (congrArg Prod.snd hrows)
  rw [hd, Option.map_some, Option.some.injEq, Prod.mk.injEq] at hbefore
  rw [hd, Option.bind_some] at hdelete
  obtain ⟨deleted, hdeleted, hgone⟩ := Option.map_eq_some_iff.mp hdelete
  have hyear := mem_of_mem_head? hbefore.2
  refine ⟨d, dropped, moved, deleted, hd, hdropped, fun hfrozen => ?_, hmoved, fun hfrozen => ?_, hdeleted, fun hfrozen => ?_⟩
  · have hsame := hfrozen.allocations 1 (isClosed_of_mem hyear rfl)
    rw [hnone, hbefore.1] at hsame
    exact absurd hsame (by decide +kernel)
  · obtain ⟨y, hy, _, hkept⟩ := hfrozen.dates _ hyear rfl
    have hmem := mem_map_of_mem (f := FiscalYear.dates) hy
    rw [hdates, hkept] at hmem
    exact absurd hmem (by decide +kernel)
  · obtain ⟨y, hy, -⟩ := hfrozen.dates _ hyear rfl
    rw [hgone] at hy
    cases hy

end BudgetTree
