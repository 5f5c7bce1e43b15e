import StupaWorkflow.TreePaths

/-!
The calendar of the fiscal years. The dates of a year derive from the cutoff of its own top-level
budget; a create, an update of the cutoff and an update through the own budget keep this.
-/
namespace BudgetTree
open Py hiding Date
open List
open Budget (Uuid Date Problem)

/-- The fiscal years of every top-level budget follow its cutoff: their labels are
unique, no day is in two of them, and a year begins the day after the one before. -/
structure Calendar (d : Db) : Prop where
  bounds : ∀ y ∈ d.years, ∃ top ∈ d.nodes, top.id = y.budgetId ∧ top.parentId = none ∧
    fiscalYearBounds y.year top.fiscalStartMonth top.fiscalStartDay = .ok (y.startDate, y.endDate)
  labels : ∀ top ∈ d.nodes, ∀ y ∈ d.years, ∀ z ∈ d.years, y.budgetId = top.id → z.budgetId = top.id →
    fiscalYearDisplay y.year top.fiscalStartMonth top.fiscalStartDay =
      fiscalYearDisplay z.year top.fiscalStartMonth top.fiscalStartDay → y = z
  disjoint : ∀ y ∈ d.years, ∀ z ∈ d.years, y.budgetId = z.budgetId → ∀ day, y.startDate ≤ day → day ≤ y.endDate →
    z.startDate ≤ day → day ≤ z.endDate → y = z
  gapless : ∀ y ∈ d.years, ∀ z ∈ d.years, y.budgetId = z.budgetId → z.year = y.year + 1 → z.startDate = y.endDate + 1

structure Dated (d : Db) : Prop where
  treed : Treed d
  starts : ∀ n ∈ d.nodes, ValidStart n.fiscalStartMonth n.fiscalStartDay
  ids : (d.years.map fun y => y.id).Nodup
  below : ∀ y ∈ d.years, y.id < d.next
  own : ∀ y ∈ d.years, ∃ top ∈ d.nodes, top.id = y.budgetId ∧ top.parentId = none ∧ y.dated top = y
  years : ∀ y ∈ d.years, 1 ≤ y.year
  unique : ∀ y ∈ d.years, ∀ z ∈ d.years, y.budgetId = z.budgetId → y.year = z.year → y.id = z.id

section Dates

variable {y z : FiscalYear} {n m : Node}

def SameStart (n m : Node) : Prop := n.fiscalStartMonth = m.fiscalStartMonth ∧ n.fiscalStartDay = m.fiscalStartDay

instance (n m : Node) : Decidable (SameStart n m) := inferInstanceAs (Decidable (_ ∧ _))

theorem SameStart.dated (h : SameStart n m) (y : FiscalYear) : y.dated n = y.dated m := by
  rw [FiscalYear.dated, FiscalYear.dated, h.1, h.2]

theorem dated_dated (y : FiscalYear) (n : Node) : (y.dated n).dated n = y.dated n := rfl

theorem dated_iff : y.dated n = y ↔ y.startDate = toOrdinal y.year n.fiscalStartMonth n.fiscalStartDay ∧
    y.endDate = toOrdinal (y.year + 1) n.fiscalStartMonth n.fiscalStartDay - 1 := by
  constructor
  · intro h
    constructor
    · conv_lhs => rw [← h]
      rfl
    · conv_lhs => rw [← h]
      rfl
  · rintro ⟨hs, he⟩
    rw [FiscalYear.dated, ← hs, ← he]

theorem dated_lt (hy : y.dated n = y) (hz : z.dated n = z) (hone : 1 ≤ y.year) (hlt : y.year < z.year) :
    y.endDate < z.startDate := by
  obtain ⟨_, hend⟩ := dated_iff.mp hy
  obtain ⟨hstart, _⟩ := dated_iff.mp hz
  have hle := toOrdinal_mono (Nat.succ_pos y.year) hlt n.fiscalStartMonth n.fiscalStartDay
  have hnext := toOrdinal_next hone n.fiscalStartMonth n.fiscalStartDay
  have hbefore : toOrdinal (y.year + 1) n.fiscalStartMonth n.fiscalStartDay - 1 <
      toOrdinal z.year n.fiscalStartMonth n.fiscalStartDay := by
    rw [Nat.succ_eq_add_one] at hle
    omega
  rw [hend, hstart]
  exact hbefore

theorem decimal_inj {a b : ℕ} (h : decimal a = decimal b) : a = b := by
  rw [← digitsValue_decimal a, h, digitsValue_decimal]

theorem fiscalYearDisplay_inj {month day a b : ℕ} (h : fiscalYearDisplay a month day = fiscalYearDisplay b month day) :
    a = b := by
  unfold fiscalYearDisplay at h
  split at h
  · exact decimal_inj h
  · have hplain : ∀ n : ℕ, 47 ∉ digits 2 n := fun n hmem => absurd (digits_isDigit hmem) (by decide)
    exact decimal_inj ((PathTree.joined_inj (hplain _) (hplain _)).mp h).1

end Dates

section Reading

variable {d : Db}

theorem Dated.common (h : Dated d) {y z : FiscalYear} (hy : y ∈ d.years) (hz : z ∈ d.years)
    (hsame : y.budgetId = z.budgetId) : ∃ top ∈ d.nodes, top.id = y.budgetId ∧ y.dated top = y ∧ z.dated top = z := by
  obtain ⟨top, htop, hid, _, hdated⟩ := h.own y hy
  obtain ⟨top', htop', hid', _, hdated'⟩ := h.own z hz
  rw [h.treed.keyed.unique htop' htop (hid'.trans (hsame.symm.trans hid.symm))] at hdated'
  exact ⟨top, htop, hid, hdated, hdated'⟩

theorem Dated.unique_id (h : Dated d) {y z : FiscalYear} (hy : y ∈ d.years) (hz : z ∈ d.years) (hid : y.id = z.id) :
    y = z := inj_on_of_nodup_map h.ids hy hz hid

theorem Dated.calendar (h : Dated d) : Calendar d where
  bounds y hy := by
    obtain ⟨top, htop, hid, hparent, hdated⟩ := h.own y hy
    obtain ⟨hstart, hend⟩ := dated_iff.mp hdated
    refine ⟨top, htop, hid, hparent, ?_⟩
    rw [fiscalYearBounds, show isValidFiscalStart _ _ = true from h.starts top htop, hstart, hend]
    rfl
  labels top _ y hy z hz hby hbz hlabel :=
    h.unique_id hy hz (h.unique y hy z hz (hby.trans hbz.symm) (fiscalYearDisplay_inj hlabel))
  disjoint y hy z hz hb day hys hye hzs hze := by
    obtain ⟨top, _, _, hdy, hdz⟩ := h.common hy hz hb
    rcases lt_trichotomy y.year z.year with hlt | heq | hgt
    · exact absurd (hzs.trans hye) (not_le.mpr (dated_lt hdy hdz (h.years y hy) hlt))
    · exact h.unique_id hy hz (h.unique y hy z hz hb heq)
    · exact absurd (hys.trans hze) (not_le.mpr (dated_lt hdz hdy (h.years z hz) hgt))
  gapless y hy z hz hb hnext := by
    obtain ⟨top, _, _, hdy, hdz⟩ := h.common hy hz hb
    have hge := toOrdinal_next (h.years y hy) top.fiscalStartMonth top.fiscalStartDay
    rw [(dated_iff.mp hdz).1, (dated_iff.mp hdy).2, hnext]
    exact (Nat.sub_add_cancel (by omega)).symm

end Reading

section Steps

variable {env : Env} {d d' : Db} {k : Uuid}
variable {y : Uuid} {payload : FiscalYearUpdate}

def Request.OwnCutoff (d : Db) : Request → Prop
  | .updateFiscalYear k y payload => payload.year ≠ none → ∀ fy ∈ d.years, fy.id = y →
      ∀ top ∈ d.nodes, top.id = k → ∀ own ∈ d.nodes, own.id = fy.budgetId → SameStart top own
  | _ => True

instance (d : Db) : (r : Request) → Decidable (r.OwnCutoff d)
  | .updateFiscalYear k y payload => inferInstanceAs (Decidable (payload.year ≠ none → ∀ fy ∈ d.years, fy.id = y →
      ∀ top ∈ d.nodes, top.id = k → ∀ own ∈ d.nodes, own.id = fy.budgetId → SameStart top own))
  | .createNode _ | .updateNode _ _ | .deleteNode _ | .revertNode _ | .createFiscalYear _ _ | .deleteFiscalYear _ _
  | .setFiscalYearClosed _ _ _ _ | .setAllocation _ _ _ | .revertAllocation _ | .book _ | .assignBudget _ _
  | .moveFiscalYear _ _ | .flowAssign _ _ _ | .createApplication | .deleteApplication _ => isTrue trivial

/-- The nodes keep their ids and parents, and those with years their cutoff. -/
structure NodesKept (d d' : Db) : Prop where
  next : d.next ≤ d'.next
  starts : ∀ n ∈ d'.nodes, ValidStart n.fiscalStartMonth n.fiscalStartDay
  own : ∀ y ∈ d'.years, ∀ n ∈ d.nodes, n.id = y.budgetId → n.parentId = none →
    ∃ n' ∈ d'.nodes, n'.id = n.id ∧ n'.parentId = none ∧ SameStart n' n

theorem Dated.keep (h : Dated d) (htreed : Treed d') (hkept : NodesKept d d')
    (hids : (d'.years.map fun y => y.id).Nodup)
    (hyears : ∀ y' ∈ d'.years, ∃ y ∈ d.years, y'.id = y.id ∧ y'.budgetId = y.budgetId ∧ y'.year = y.year ∧
      y'.startDate = y.startDate ∧ y'.endDate = y.endDate) : Dated d' where
  treed := htreed
  starts := hkept.starts
  ids := hids
  below y' hy' := by
    obtain ⟨y, hy, hid, _⟩ := hyears y' hy'
    exact hid ▸ (h.below y hy).trans_le hkept.next
  own y' hy' := by
    obtain ⟨y, hy, _, hb, hyear, hstart, hend⟩ := hyears y' hy'
    obtain ⟨top, htop, hid, hparent, hdated⟩ := h.own y hy
    obtain ⟨top', htop', hid', hparent', hsame⟩ := hkept.own y' hy' top htop (hid.trans hb.symm) hparent
    refine ⟨top', htop', hid'.trans (hid.trans hb.symm), hparent', ?_⟩
    obtain ⟨hs, he⟩ := dated_iff.mp hdated
    rw [hsame.dated, dated_iff, hyear, hstart, hend]
    exact ⟨hs, he⟩
  years y' hy' := by
    obtain ⟨y, hy, _, _, hyear, _⟩ := hyears y' hy'
    exact hyear ▸ h.years y hy
  unique y' hy' z' hz' hb hyear := by
    obtain ⟨y, hy, hid, hby, hyy, _⟩ := hyears y' hy'
    obtain ⟨z, hz, hid', hbz, hyz, _⟩ := hyears z' hz'
    rw [hid, hid']
    exact h.unique y hy z hz (hby.symm.trans (hb.trans hbz)) (hyy.symm.trans (hyear.trans hyz))

theorem Dated.same (h : Dated d) (htreed : Treed d') (hnodes : d'.nodes = d.nodes) (hyears : d'.years = d.years)
    (hnext : d.next ≤ d'.next) : Dated d' := by
  refine h.keep htreed ⟨hnext, hnodes ▸ h.starts, fun _ _ n hn _ hp => ⟨n, hnodes ▸ hn, rfl, hp, rfl, rfl⟩⟩
    (hyears ▸ h.ids) fun y hy => ⟨y, hyears ▸ hy, rfl, rfl, rfl, rfl, rfl⟩

theorem Dated.createNode {payload : BudgetNodeCreate} (h : Dated d) (hop : createNode env payload d = .ok d') :
    Dated d' := by
  have htreed := h.treed.createNode hop
  obtain ⟨_, node, _, hnode, _, _, _, _, rfl⟩ := createNode_ok hop
  refine h.keep htreed ⟨Nat.le_succ _, ?_, fun _ _ n hn _ hp => ⟨n, mem_append_left _ hn, rfl, hp, rfl, rfl⟩⟩ h.ids
    fun y hy => ⟨y, hy, rfl, rfl, rfl, rfl, rfl⟩
  intro n hn
  rcases mem_append.mp hn with hn | hn
  · exact h.starts n hn
  · rw [mem_singleton.mp hn]
    exact hnode.start

theorem Dated.filter (h : Dated d) (htreed : Treed d') {keep : Node → Bool} {keepYear : FiscalYear → Bool}
    (hnodes : d'.nodes = d.nodes.filter keep) (hyears : d'.years = d.years.filter keepYear) (hnext : d'.next = d.next)
    (hkeep : ∀ y ∈ d.years, keepYear y → ∀ n ∈ d.nodes, n.id = y.budgetId → keep n) : Dated d' := by
  have hmem : ∀ {y}, y ∈ d'.years → y ∈ d.years ∧ keepYear y := fun hy => mem_filter.mp (hyears ▸ hy)
  refine h.keep htreed ⟨hnext.ge, ?_, ?_⟩ ?_ fun y hy => ⟨y, (hmem hy).1, rfl, rfl, rfl, rfl, rfl⟩
  · rw [hnodes]
    exact fun n hn => h.starts n (mem_of_mem_filter hn)
  · intro y hy n hn hid hp
    refine ⟨n, ?_, rfl, hp, rfl, rfl⟩
    rw [hnodes]
    exact mem_filter.mpr ⟨hn, hkeep y (hmem hy).1 (hmem hy).2 n hn hid⟩
  · rw [hyears]
    exact h.ids.sublist (List.Sublist.map _ filter_sublist)

theorem Dated.deleteNode (h : Dated d) (hop : deleteNode k d = .ok d') : Dated d' := by
  have htreed := h.treed.deleteNode hop
  obtain ⟨_, _, _, _, rfl⟩ := deleteNode_ok hop
  refine h.filter htreed rfl rfl rfl fun y _ hkeep n _ hid => ?_
  exact decide_eq_true (hid ▸ of_decide_eq_true hkeep)

/-- What an update of a node leaves of the nodes: their ids, parents and cutoffs, where
the updated node has the new cutoff. -/
theorem Dated.updatedNodes (h : Dated d) {node changed : Node} (hnode : node ∈ d.nodes) (hp : Patched node changed)
    {f : Node → Node} (hf : ∀ n, (f n).id = n.id ∧ (f n).parentId = n.parentId ∧
      (f n).fiscalStartMonth = n.fiscalStartMonth ∧ (f n).fiscalStartDay = n.fiscalStartDay)
    (hnodes : d'.nodes = (Table.modify Node.id node.id (fun _ => changed) d.nodes).map f) :
    (∀ n ∈ d'.nodes, ValidStart n.fiscalStartMonth n.fiscalStartDay) ∧
      ∀ n ∈ d.nodes, ∃ n' ∈ d'.nodes, n'.id = n.id ∧ n'.parentId = n.parentId ∧
        SameStart n' (if n.id = node.id then changed else n) := by
  rw [hnodes]
  constructor
  · refine forall_mem_map.mpr (forall_mem_map.mpr fun n hn => ?_)
    rw [(hf _).2.2.1, (hf _).2.2.2]
    split
    · exact hp.start (h.starts node hnode)
    · exact h.starts n hn
  · intro n hn
    refine ⟨_, mem_map_of_mem (mem_map_of_mem hn), ?_, ?_, (hf _).2.2.1, (hf _).2.2.2⟩
    · rw [(hf _).1]
      split
      next hid => exact hp.id.trans hid.symm
      next => rfl
    · rw [(hf _).2.1]
      split
      next hid => rw [hp.parentId, h.treed.keyed.unique hn hnode hid]
      next => rfl

theorem Dated.updateNode {payload : BudgetNodeUpdate} (h : Dated d) (hop : updateNode env k payload d = .ok d') :
    Dated d' := by
  have htreed := h.treed.updateNode hop
  obtain ⟨node, changed, d₁, after, hnode, rfl, hcheck, hpatched, hrename, _, heq⟩ := updateNode_ok hop
  obtain ⟨f, rfl, hf⟩ := renameIf_ok hrename
  have hp := patched_ok hcheck hpatched
  have hnodes : d'.nodes = (Table.modify Node.id node.id (fun _ => changed) d.nodes).map f := by rw [heq]
  have hyears : d'.years = redatedIf (node.restarts changed) changed d.years := by rw [heq]
  have hnext : d'.next = d.next := by rw [heq]
  obtain ⟨hstarts, hafter⟩ := h.updatedNodes hnode hp hf hnodes
  cases hrestarts : node.restarts changed with
  | false =>
    rw [hrestarts] at hyears
    have hyears : d'.years = d.years := hyears
    refine h.keep htreed ⟨hnext.ge, hstarts, ?_⟩ (hyears ▸ h.ids) fun y hy => ⟨y, hyears ▸ hy, rfl, rfl, rfl, rfl, rfl⟩
    intro y _ n hn _ hparent
    obtain ⟨n', hn', hid', hparent', hsame⟩ := hafter n hn
    refine ⟨n', hn', hid', hparent'.trans hparent, ?_⟩
    split at hsame
    next hid =>
      have hnn := h.treed.keyed.unique hn hnode hid
      subst hnn
      simp only [Node.restarts, hparent, Option.isNone_none, Bool.true_and, Bool.or_eq_false_iff, decide_eq_false_iff_not,
        not_not] at hrestarts
      exact ⟨hsame.1.trans hrestarts.1, hsame.2.trans hrestarts.2⟩
    next => exact hsame
  | true =>
    rw [hrestarts] at hyears
    have hyears : d'.years = d.years.map fun y => if y.budgetId = changed.id then y.dated changed else y := hyears
    have hmap : ∀ {α : Type} (column : FiscalYear → α), (∀ y, column (y.dated changed) = column y) → ∀ y,
        column (if y.budgetId = changed.id then y.dated changed else y) = column y := by
      intro α column hcol y
      split
      · exact hcol y
      · rfl
    have hid := hmap (fun y => y.id) fun _ => rfl
    have hbudget := hmap (fun y => y.budgetId) fun _ => rfl
    have hyear := hmap FiscalYear.year fun _ => rfl
    constructor
    case treed => exact htreed
    case starts => exact hstarts
    case ids =>
      have hids : d'.years.map (fun y => y.id) = d.years.map fun y => y.id := by
        rw [hyears, map_map]
        exact map_congr_left fun y _ => hid y
      rw [hids]
      exact h.ids
    case below =>
      rw [hyears, hnext]
      exact forall_mem_map.mpr fun y hy => by rw [hid]; exact h.below y hy
    case own =>
      rw [hyears]
      refine forall_mem_map.mpr fun y hy => ?_
      obtain ⟨top, htop', htid, hparent, hdated⟩ := h.own y hy
      obtain ⟨n', hn', hid', hparent', hsame⟩ := hafter top htop'
      refine ⟨n', hn', by rw [hbudget, hid', htid], hparent'.trans hparent, ?_⟩
      rw [hsame.dated]
      by_cases hown : top.id = node.id
      · rw [if_pos hown, if_pos (hp.id.trans (hown.symm.trans htid)).symm, dated_dated]
      · have hother : y.budgetId ≠ changed.id := fun heq => hown (htid.trans (heq.trans hp.id))
        rw [if_neg hown, if_neg hother, hdated]
    case years =>
      rw [hyears]
      exact forall_mem_map.mpr fun y hy => by rw [hyear]; exact h.years y hy
    case unique =>
      rw [hyears]
      refine forall_mem_map.mpr fun y hy => forall_mem_map.mpr fun z hz => ?_
      rw [hid, hid, hbudget, hbudget, hyear, hyear]
      exact h.unique y hy z hz

theorem Dated.createFiscalYear {payload : FiscalYearCreate} (h : Dated d) (hop : createFiscalYear k payload d = .ok d') :
    Dated d' := by
  obtain ⟨top, fy, htop, hid, hparent, hyear, hnone, hfid, hfb, _, hdated, rfl⟩ := createFiscalYear_ok hop
  have hmem : ∀ {y}, y ∈ d.years ++ [fy] → y ∈ d.years ∨ y = fy := by simp
  constructor
  case treed => exact h.treed.same rfl (Nat.le_succ _)
  case starts => exact h.starts
  case ids =>
    refine Table.nodup_insert h.ids fun z hz => ?_
    rw [hfid]
    exact (h.below z hz).ne
  case below =>
    intro y hy
    rcases hmem hy with hy | rfl
    · exact (h.below y hy).trans (Nat.lt_succ_self _)
    · exact hfid ▸ Nat.lt_succ_self _
  case own =>
    intro y hy
    rcases hmem hy with hy | rfl
    · exact h.own y hy
    · exact ⟨top, htop, hid.trans hfb.symm, hparent, hdated⟩
  case years =>
    intro y hy
    rcases hmem hy with hy | rfl
    · exact h.years y hy
    · exact (by decide : 1 ≤ 1900).trans hyear
  case unique =>
    intro y hy z hz hb hyears
    rcases hmem hy with hy' | rfl <;> rcases hmem hz with hz' | rfl
    · exact h.unique y hy' z hz' hb hyears
    · exact absurd hyears (hnone y hy' (hb.trans hfb))
    · exact absurd hyears.symm (hnone z hz' (hb.symm.trans hfb))
    · rfl

theorem Dated.saveYear (h : Dated d) {fy : FiscalYear} (row : FiscalYear) (hfy : fy ∈ d.years) (hid : row.id = fy.id)
    (hb : row.budgetId = fy.budgetId) (hone : 1 ≤ row.year)
    (hdated : ∀ top ∈ d.nodes, top.id = fy.budgetId → row.dated top = row)
    (hunique : ∀ f ∈ d.years, f.budgetId = row.budgetId → f.year = row.year → f.id = row.id) :
    Dated { d with years := Table.modify (fun f : FiscalYear => f.id) row.id (fun _ => row) d.years } := by
  have hcase : ∀ y ∈ d.years, (y.id = row.id ∧ y = fy) ∨ y.id ≠ row.id := by
    intro y hy
    by_cases heq : y.id = row.id
    · exact .inl ⟨heq, h.unique_id hy hfy (heq.trans hid)⟩
    · exact .inr heq
  constructor
  case treed => exact h.treed.same rfl le_rfl
  case starts => exact h.starts
  case ids =>
    have hids : (Table.modify (fun f : FiscalYear => f.id) row.id (fun _ => row) d.years).map (fun y => y.id) =
        d.years.map fun y => y.id := by
      rw [Table.modify, map_map]
      refine map_congr_left fun y _ => ?_
      by_cases heq : y.id = row.id <;> simp [heq]
    show ((Table.modify _ _ _ d.years).map fun y => y.id).Nodup
    rw [hids]
    exact h.ids
  case below =>
    refine forall_mem_map.mpr fun y hy => ?_
    split
    next heq => exact heq ▸ h.below y hy
    next => exact h.below y hy
  case own =>
    refine forall_mem_map.mpr fun y hy => ?_
    obtain ⟨top, htop, htid, hparent, hyd⟩ := h.own y hy
    rcases hcase y hy with ⟨heq, rfl⟩ | hne
    · rw [if_pos heq]
      exact ⟨top, htop, htid.trans hb.symm, hparent, hdated top htop htid⟩
    · rw [if_neg hne]
      exact ⟨top, htop, htid, hparent, hyd⟩
  case years =>
    refine forall_mem_map.mpr fun y hy => ?_
    split
    · exact hone
    · exact h.years y hy
  case unique =>
    refine forall_mem_map.mpr fun y hy => forall_mem_map.mpr fun z hz => ?_
    split <;> split
    next => exact fun _ _ => rfl
    next => exact fun hb' hyear => (hunique z hz hb'.symm hyear.symm).symm
    next => exact hunique y hy
    next => exact h.unique y hy z hz

theorem Dated.updateFiscalYear (h : Dated d) (hown : (Request.updateFiscalYear k y payload).OwnCutoff d)
    (hop : updateFiscalYear k y payload d = .ok d') : Dated d' := by
  obtain ⟨top, fy, redated, active, htop, htid, _, hfind, hcheck, hredated, hunique, rfl⟩ := updateFiscalYear_ok hop
  obtain ⟨hfy, hfid⟩ := foundYear hfind
  rcases redated_ok hredated with ⟨_, rfl⟩ | ⟨year, hset, _, rfl⟩
  · refine h.saveYear { redated with active := active } hfy rfl rfl (h.years redated hfy) ?_ hunique
    intro own hmem hid
    obtain ⟨own', hmem', hid', _, hdated⟩ := h.own redated hfy
    rw [h.treed.keyed.unique hmem hmem' (hid.trans hid'.symm)]
    exact dated_iff.mpr ((dated_iff (y := redated)).mp hdated)
  · have hyear : 1 ≤ year := by
      rw [FiscalYearUpdate.check, hset] at hcheck
      have := raiseUnless_ok.mp hcheck
      simp only [Bool.and_eq_true, decide_eq_true_eq] at this
      omega
    refine h.saveYear { ({ fy with year := year } : FiscalYear).dated top with active := active } hfy rfl rfl hyear
      ?_ hunique
    intro own hmem hid
    have hsame := hown (by simp [hset]) fy hfy hfid top htop htid own hmem hid
    rw [← hsame.dated]
    rfl

theorem Dated.deleteFiscalYear (h : Dated d) (hop : deleteFiscalYear k y d = .ok d') : Dated d' := by
  obtain ⟨fy, _, _, _, _, _, rfl⟩ := deleteFiscalYear_ok hop
  have hnodes : d.nodes = d.nodes.filter fun _ => true := by simp
  exact h.filter (h.treed.same rfl le_rfl) hnodes rfl rfl fun _ _ _ _ _ _ => rfl

theorem Dated.setFiscalYearClosed {closed : Bool} {now : ℕ} (h : Dated d) (hop : setFiscalYearClosed k y closed now d = .ok d') :
    Dated d' := by
  obtain ⟨fy, closedAt, hfind, rfl⟩ := setFiscalYearClosed_ok hop
  obtain ⟨hfy, _⟩ := foundYear hfind
  refine h.saveYear { fy with closedAt := closedAt } hfy rfl rfl (h.years fy hfy) ?_ ?_
  · intro top hmem hid
    obtain ⟨top', hmem', hid', _, hdated⟩ := h.own fy hfy
    rw [h.treed.keyed.unique hmem hmem' (hid.trans hid'.symm)]
    exact dated_iff.mpr ((dated_iff (y := fy)).mp hdated)
  · exact fun f hf hb hyear => h.unique f hf fy hfy hb hyear

theorem Dated.handle {r : Request} (h : Dated d) (hown : r.OwnCutoff d) (hop : r.handle env d = .ok d') : Dated d' := by
  have htreed := h.treed.handle hop
  cases r with
  | createNode payload => exact h.createNode hop
  | updateNode k payload => exact h.updateNode hop
  | deleteNode k => exact h.deleteNode hop
  | revertNode n =>
    rcases revertAudit_ok hop with ⟨k, _, hop⟩ | ⟨k, before, _, _, hop⟩
    · exact h.deleteNode hop
    · exact h.updateNode hop
  | createFiscalYear k payload => exact h.createFiscalYear hop
  | updateFiscalYear k y payload => exact h.updateFiscalYear hown hop
  | deleteFiscalYear k y => exact h.deleteFiscalYear hop
  | setFiscalYearClosed k y closed now => exact h.setFiscalYearClosed hop
  | setAllocation k y payload =>
    obtain ⟨_, _, rfl⟩ := allocate_ok hop
    exact h.same htreed rfl rfl le_rfl
  | revertAllocation n =>
    obtain ⟨_, _, rfl⟩ := allocate_ok hop
    exact h.same htreed rfl rfl le_rfl
  | book r =>
    obtain ⟨_, _, rfl⟩ := book_ok hop
    exact h.same htreed rfl rfl le_rfl
  | assignBudget k payload =>
    obtain ⟨_, _, _, _, rfl | ⟨_, _, _, rfl⟩⟩ := assignBudget_ok hop
    · exact h.same htreed rfl rfl le_rfl
    · exact h.same htreed rfl rfl le_rfl
  | moveFiscalYear k y =>
    obtain ⟨_, _, _, _, _, _, _, rfl⟩ := moveFiscalYear_ok hop
    exact h.same htreed rfl rfl le_rfl
  | flowAssign k b fromField =>
    cases hop
    rcases flowAssign_cases env k b fromField d with heq | ⟨_, _, _, _, _, _, heq⟩
    · exact h.same htreed (by rw [heq]) (by rw [heq]) (by rw [heq])
    · exact h.same htreed (by rw [heq]; rfl) (by rw [heq]; rfl) (by rw [heq]; exact le_rfl)
  | createApplication =>
    cases hop
    exact h.same htreed rfl rfl (Nat.le_succ _)
  | deleteApplication k =>
    obtain rfl := deleteApplication_ok hop
    exact h.same htreed rfl rfl le_rfl

/-- A year that is set through a budget with another cutoff has not the dates of its own. -/
theorem ownCutoff_of_calendar (h : Dated d) (hop : updateFiscalYear k y payload d = .ok d') (hcal : Calendar d') :
    (Request.updateFiscalYear k y payload).OwnCutoff d := by
  intro hset fy hfy hfid top htop htid own hown hoid
  obtain ⟨top', fy', redated, active, htop', htid', _, hfind, _, hredated, _, rfl⟩ := updateFiscalYear_ok hop
  obtain ⟨hfy', hfid'⟩ := foundYear hfind
  obtain rfl := h.unique_id hfy' hfy (hfid'.trans hfid.symm)
  obtain rfl := h.treed.keyed.unique htop' htop (htid'.trans htid.symm)
  rcases redated_ok hredated with ⟨hnone, _⟩ | ⟨year, _, _, rfl⟩
  · exact absurd hnone hset
  · have hmem : { ({ fy' with year := year } : FiscalYear).dated top' with active := active } ∈
        Table.modify (fun f : FiscalYear => f.id) fy'.id
          (fun _ => { ({ fy' with year := year } : FiscalYear).dated top' with active := active }) d.years :=
      mem_map.mpr ⟨fy', hfy', if_pos rfl⟩
    obtain ⟨own', hown', hoid', _, hbounds⟩ := hcal.bounds _ hmem
    obtain rfl := h.treed.keyed.unique hown' hown (hoid'.trans hoid.symm)
    have hstart := congrArg Prod.fst (fiscalYearBounds_ok hbounds)
    have hv := h.starts top' htop'
    have hv' := h.starts own' hown'
    simp only [ValidStart, isValidFiscalStart, Bool.and_eq_true, decide_eq_true_eq] at hv hv'
    exact toOrdinal_inj hv.1.1 ⟨hv.1.2, hv.2⟩ hv'.1.1 ⟨hv'.1.2, hv'.2⟩ hstart

end Steps

theorem emptyDb_dated : Dated emptyDb where
  treed := emptyDb_treed
  starts := by simp [emptyDb]
  ids := nodup_nil
  below := by simp [emptyDb]
  own := by simp [emptyDb]
  years := by simp [emptyDb]
  unique := by simp [emptyDb]

/-- Every update of a year goes through its own budget, or through one with the same cutoff. -/
def OwnCutoffs (rs : List (Env × Request)) : Prop := Runs.Guarded (fun p d => p.2.OwnCutoff d) step emptyDb rs

instance (rs : List (Env × Request)) : Decidable (OwnCutoffs rs) :=
  inferInstanceAs (Decidable (Runs.Guarded (fun p d => p.2.OwnCutoff d) step emptyDb rs))

/-- In every run that takes each cutoff from the budget of the year the fiscal years form
a calendar, and a further request breaks it exactly when it takes another cutoff. -/
theorem run_calendar {rs : List (Env × Request)} {d : Db} (hown : OwnCutoffs rs)
    (hrun : Runs.run step emptyDb rs = some d) :
    Calendar d ∧ ∀ env r d', step (env, r) d = some d' → (Calendar d' ↔ r.OwnCutoff d) := by
  have h : Dated d := Runs.guarded_run (fun h hr hop => h.handle hr (toOption_some.mp hop)) emptyDb_dated hown hrun
  refine ⟨h.calendar, fun env r d' hop => ⟨fun hcal => ?_, fun hr => (h.handle hr (toOption_some.mp hop)).calendar⟩⟩
  cases r with
  | updateFiscalYear k y payload => exact ownCutoff_of_calendar h (toOption_some.mp hop) hcal
  | _ => trivial

def twoBudgets : List (Env × Request) :=
  [.createNode { key := text "VS", name := text "union", fiscalStartMonth := 10 }, centre "FS",
    .createFiscalYear 0 { year := 2024 }, .createFiscalYear 1 { year := 2024 }].map fun r => (desk, r)

def moved : List (Env × Request) :=
  twoBudgets ++ [.updateFiscalYear 0 2 { year := some (some 2025) }, .createFiscalYear 0 { year := 2024 },
    .updateNode 0 { fiscalStartMonth := some (some 4) }].map fun r => (desk, r)

theorem moved_calendar : ∃ d, Runs.run step emptyDb moved = some d ∧ Calendar d ∧
    d.years.map (fun y => (y.year, y.startDate, y.endDate)) =
      [(2025, 739342, 739706), (2024, 738886, 739251), (2024, 738977, 739341)] := by
  have hown : OwnCutoffs moved := by decide +kernel
  have hrun : (Runs.run step emptyDb moved).map (fun d => d.years.map fun y => (y.year, y.startDate, y.endDate)) =
      some [(2025, 739342, 739706), (2024, 738886, 739251), (2024, 738977, 739341)] := by decide +kernel
  obtain ⟨d, hd, hyears⟩ := Option.map_eq_some_iff.mp hrun
  exact ⟨d, hd, (run_calendar hown hd).1, hyears⟩

/-- The year of the academic budget, updated under the other one to the year that it is. -/
theorem foreignCutoff_noCalendar : ∃ d, Runs.run step emptyDb
    (twoBudgets ++ [(desk, .updateFiscalYear 1 2 { year := some (some 2024) })]) = some d ∧ ¬ Calendar d := by
  have hrun : (Runs.run step emptyDb (twoBudgets ++ [(desk, .updateFiscalYear 1 2 { year := some (some 2024) })])).map
      (fun d => d.years.all fun y => d.nodes.any fun n =>
        n.id = y.budgetId && y.startDate = toOrdinal y.year n.fiscalStartMonth n.fiscalStartDay) = some false := by
    decide +kernel
  obtain ⟨d, hd, hrows⟩ := Option.map_eq_some_iff.mp hrun
  refine ⟨d, hd, fun hcal => Bool.eq_false_iff.mp hrows (all_eq_true.mpr fun y hy => ?_)⟩
  obtain ⟨top, htop, hid, _, hbounds⟩ := hcal.bounds y hy
  have hstart : y.startDate = toOrdinal y.year top.fiscalStartMonth top.fiscalStartDay :=
    congrArg Prod.fst (fiscalYearBounds_ok hbounds)
  refine any_eq_true.mpr ⟨top, htop, ?_⟩
  simp only [hid, decide_true, Bool.true_and, decide_eq_true_eq]
  exact hstart

end BudgetTree
