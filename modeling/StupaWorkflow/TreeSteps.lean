import StupaWorkflow.BudgetYears
import StupaWorkflow.TreeModel

/-!
What each request of the budget tree does to the tables when it succeeds. Nothing
after this file unfolds a request again.
-/
namespace BudgetTree
open Py hiding Date
open List
open Budget (Uuid Date Problem Patch Application)
open Allocation (isValidKey composePathKey)

theorem foundYear {years : List FiscalYear} {id : Uuid} {fy : FiscalYear} (h : years.find? (fun f => f.id = id) = some fy) :
    fy ∈ years ∧ fy.id = id := Table.of_find h

variable {env : Env} {d d' : Db} {k : Uuid}

section Lookups

theorem getNode_find {n : Node} (h : d.getNode k = .ok n) : d.nodes.find? (fun n => n.id = k) = some n := foundOr_ok h

theorem getNode_ok {n : Node} (h : d.getNode k = .ok n) : n ∈ d.nodes ∧ n.id = k := Table.of_find (getNode_find h)

theorem getFiscalYear_ok {y : FiscalYear} (h : d.getFiscalYear k = .ok y) :
    d.years.find? (fun y => y.id = k) = some y := foundOr_ok h

theorem getApplication_ok {a : Application} (h : d.getApplication k = .ok a) : a ∈ d.applications ∧ a.id = k :=
  Table.of_find (foundOr_ok h)

variable {parentId : Option Uuid}

theorem getParent_ok {parent : Option Node} (h : d.getParent parentId = .ok parent) :
    (parentId = none ∧ parent = none) ∨ ∃ q ∈ d.nodes, parentId = some q.id ∧ parent = some q := by
  cases parentId with
  | none =>
    cases h
    exact .inl ⟨rfl, rfl⟩
  | some p =>
    obtain ⟨q, hq, h⟩ := bind_ok.mp h
    obtain rfl := pure_ok.mp h
    obtain ⟨hmem, rfl⟩ := getNode_ok hq
    exact .inr ⟨q, hmem, rfl, rfl⟩

theorem requireTopLevel_ok {top : Node} (h : d.requireTopLevel k = .ok top) :
    top ∈ d.nodes ∧ top.id = k ∧ top.parentId = none := by
  obtain ⟨node, hnode, h⟩ := bind_ok.mp h
  obtain ⟨_, htop, h⟩ := bind_ok.mp h
  obtain rfl := pure_ok.mp h
  obtain ⟨hmem, hid⟩ := getNode_ok hnode
  exact ⟨hmem, hid, by simpa using htop⟩

theorem siblingExists_false {key : Text} (h : (!d.siblingExists parentId key) = true) :
    ∀ n ∈ d.nodes, n.parentId = parentId → n.key ≠ key := by
  intro n hn hp hk
  simp only [Db.siblingExists, Bool.not_eq_true', any_eq_false] at h
  exact h n hn (by simp [hp, hk])

theorem fiscalYearBounds_ok {year month day : ℕ} {bounds : Date × Date}
    (h : fiscalYearBounds year month day = .ok bounds) :
    bounds = (toOrdinal year month day, toOrdinal (year + 1) month day - 1) := by
  obtain ⟨_, _, h⟩ := bind_ok.mp h
  exact (pure_ok.mp h).symm

end Lookups

section Nodes

def ValidStart (month day : ℕ) : Prop := isValidFiscalStart month day = true

theorem validStart_iff {month day : ℕ} : ValidStart month day ↔ monthField month = .ok () ∧ dayField day = .ok () := by
  simp [ValidStart, isValidFiscalStart, monthField, dayField, and_assoc]

/-- A node as the schemas and the checks of a request admit it. -/
structure Node.Admitted (n : Node) : Prop where
  key : textField (text "key") 64 n.key = .ok ()
  valid : isValidKey n.key = true
  name : textField (text "name") 200 n.name = .ok ()
  start : ValidStart n.fiscalStartMonth n.fiscalStartDay
  currency : n.currency = text "EUR"

theorem createNode_ok {payload : BudgetNodeCreate} (hop : createNode env payload d = .ok d') :
    ∃ parent node, d.getParent payload.parentId = .ok parent ∧ node.Admitted ∧
      (∀ n ∈ d.nodes, n.parentId = node.parentId → n.key ≠ node.key) ∧ node.id = d.next ∧
      node.parentId = payload.parentId ∧ node.pathKey = composePathKey (parent.map Node.pathKey) node.key ∧
      d' = { d with nodes := d.nodes ++ [node], next := d.next + 1, log := d.log ++ [.nodeCreate d.next] } := by
  obtain ⟨_, hcheck, hop⟩ := bind_ok.mp hop
  obtain ⟨_, hkey, hop⟩ := bind_ok.mp hop
  obtain ⟨parent, hparent, hop⟩ := bind_ok.mp hop
  obtain ⟨_, _, hop⟩ := bind_ok.mp hop
  obtain ⟨_, hsib, hop⟩ := bind_ok.mp hop
  obtain ⟨_, _, hop⟩ := bind_ok.mp hop
  obtain rfl := pure_ok.mp hop
  refine ⟨parent, _, hparent, ?_, siblingExists_false (raiseUnless_ok.mp hsib), rfl, rfl, rfl, rfl⟩
  obtain ⟨_, hlength, hcheck⟩ := bind_ok.mp hcheck
  obtain ⟨_, hname, hcheck⟩ := bind_ok.mp hcheck
  obtain ⟨_, hmonth, hday⟩ := bind_ok.mp hcheck
  exact ⟨hlength, raiseUnless_ok.mp hkey, hname, validStart_iff.mpr ⟨hmonth, hday⟩, rfl⟩

/-- A patch leaves the columns of the tree as they are, and the start valid. -/
structure Patched (n changed : Node) : Prop where
  id : changed.id = n.id
  parentId : changed.parentId = n.parentId
  key : changed.key = n.key
  pathKey : changed.pathKey = n.pathKey
  start : ValidStart n.fiscalStartMonth n.fiscalStartDay → ValidStart changed.fiscalStartMonth changed.fiscalStartDay
  name : textField (text "name") 200 n.name = .ok () → textField (text "name") 200 changed.name = .ok ()
  currency : changed.currency = n.currency

variable {n changed node : Node} {payload : BudgetNodeUpdate}

theorem patched_eq (h : n.patched env payload = .ok changed) : changed = { n with
      name := payload.name.writeRequired n.name, active := payload.active.writeRequired n.active
      hiddenInBudget := payload.hiddenInBudget.writeRequired n.hiddenInBudget
      fiscalStartMonth := payload.fiscalStartMonth.writeRequired n.fiscalStartMonth
      fiscalStartDay := payload.fiscalStartDay.writeRequired n.fiscalStartDay, color := payload.color.write n.color
      acceptedStateKeys := payload.acceptedStateKeys.write n.acceptedStateKeys
      deniedStateKeys := payload.deniedStateKeys.write n.deniedStateKeys
      viewGremiumId := payload.viewGremiumId.write n.viewGremiumId
      decisionGremiumId := payload.decisionGremiumId.write n.decisionGremiumId } := by
  obtain ⟨_, _, h⟩ := bind_ok.mp h
  obtain ⟨name, hname, h⟩ := bind_ok.mp h
  obtain ⟨active, hactive, h⟩ := bind_ok.mp h
  obtain ⟨hidden, hhidden, h⟩ := bind_ok.mp h
  obtain ⟨month, hmonth, h⟩ := bind_ok.mp h
  obtain ⟨day, hday, h⟩ := bind_ok.mp h
  obtain ⟨_, _, h⟩ := bind_ok.mp h
  obtain rfl := pure_ok.mp h
  obtain rfl := Budget.column_ok hname
  obtain rfl := Budget.column_ok hactive
  obtain rfl := Budget.column_ok hhidden
  obtain rfl := Budget.column_ok hmonth
  obtain rfl := Budget.column_ok hday
  rfl

theorem patched_ok (hcheck : payload.check = .ok ()) (h : n.patched env payload = .ok changed) : Patched n changed := by
  obtain rfl := patched_eq h
  obtain ⟨_, _, hcheck⟩ := bind_ok.mp hcheck
  obtain ⟨_, hname, hcheck⟩ := bind_ok.mp hcheck
  obtain ⟨_, hmonth, hday⟩ := bind_ok.mp hcheck
  refine ⟨rfl, rfl, rfl, rfl, fun hvalid => ?_, Budget.writeRequired_checked hname, rfl⟩
  obtain ⟨hm, hd⟩ := validStart_iff.mp hvalid
  exact validStart_iff.mpr ⟨Budget.writeRequired_checked hmonth hm, Budget.writeRequired_checked hday hd⟩

theorem renamed_eq (node : Node) (newKey newPath : Text) (n : Node) : node.renamed newKey newPath n =
    { n with
      key := if n.id = node.id then newKey else n.key
      pathKey := (node.renamed newKey newPath n).pathKey } := by
  unfold Node.renamed
  split
  · rfl
  · split <;> rfl

theorem renamed_same (node : Node) (newKey newPath : Text) (n : Node) :
    (node.renamed newKey newPath n).id = n.id ∧ (node.renamed newKey newPath n).parentId = n.parentId ∧
      (node.renamed newKey newPath n).fiscalStartMonth = n.fiscalStartMonth ∧
      (node.renamed newKey newPath n).fiscalStartDay = n.fiscalStartDay := by
  rw [renamed_eq]
  exact ⟨rfl, rfl, rfl, rfl⟩

theorem renameIf_rows {newKey : Option Text} (hop : renameIf newKey node d = .ok d') :
    (∀ key ∈ newKey, isValidKey key = true) ∧ ∃ f : Node → Node, d' = { d with nodes := d.nodes.map f } ∧ ∀ n, f n =
      { n with
        key := if n.id = node.id then newKey.getD n.key else n.key
        pathKey := (f n).pathKey } := by
  unfold renameIf at hop
  split at hop
  next key =>
    obtain ⟨_, hvalid, hop⟩ := bind_ok.mp hop
    obtain ⟨_, _, hop⟩ := bind_ok.mp hop
    obtain ⟨_, _, hop⟩ := bind_ok.mp hop
    obtain rfl := pure_ok.mp hop
    exact ⟨fun _ hk => Option.some.inj hk ▸ raiseUnless_ok.mp hvalid, _, rfl, renamed_eq node key _⟩
  next =>
    cases hop
    exact ⟨fun _ hk => absurd hk (Option.some_ne_none _).symm, id, by rw [map_id], fun n => by rw [Option.getD_none, ite_self]; rfl⟩

theorem renameIf_ok {newKey : Option Text} (hop : renameIf newKey node d = .ok d') :
    ∃ f : Node → Node, d' = { d with nodes := d.nodes.map f } ∧ ∀ n, (f n).id = n.id ∧ (f n).parentId = n.parentId ∧
      (f n).fiscalStartMonth = n.fiscalStartMonth ∧ (f n).fiscalStartDay = n.fiscalStartDay := by
  obtain ⟨_, f, rfl, hf⟩ := renameIf_rows hop
  refine ⟨f, rfl, fun n => ?_⟩
  rw [hf n]
  exact ⟨rfl, rfl, rfl, rfl⟩

def FiscalYear.dated (y : FiscalYear) (node : Node) : FiscalYear :=
  { y with
    startDate := toOrdinal y.year node.fiscalStartMonth node.fiscalStartDay
    endDate := toOrdinal (y.year + 1) node.fiscalStartMonth node.fiscalStartDay - 1 }

theorem redate_ok {ys zs : List FiscalYear} (h : redate node ys = .ok zs) :
    zs = ys.map fun y => if y.budgetId = node.id then y.dated node else y := by
  induction ys generalizing zs with
  | nil =>
    cases h
    rfl
  | cons y ys ih =>
    obtain ⟨bounds, hbounds, h⟩ := bind_ok.mp h
    obtain ⟨rest, hrest, h⟩ := bind_ok.mp h
    obtain rfl := pure_ok.mp h
    rw [map_cons, ih hrest]
    congr 1
    rw [FiscalYear.newBounds] at hbounds
    split
    next hown =>
      rw [if_pos hown] at hbounds
      rw [fiscalYearBounds_ok hbounds]
      rfl
    next hown =>
      rw [if_neg hown] at hbounds
      cases hbounds
      rfl

def redatedIf (restarts : Bool) (node : Node) (years : List FiscalYear) : List FiscalYear :=
  if restarts then years.map fun y => if y.budgetId = node.id then y.dated node else y else years

theorem redateIf_ok {restarts : Bool} (hop : redateIf restarts node d = .ok d') :
    d' = { d with years := redatedIf restarts node d.years } := by
  unfold redateIf at hop
  split at hop
  next hrestarts =>
    obtain ⟨years, hyears, hop⟩ := bind_ok.mp hop
    obtain rfl := pure_ok.mp hop
    rw [redatedIf, if_pos hrestarts, redate_ok hyears]
  next hrestarts =>
    cases hop
    rw [redatedIf, if_neg hrestarts]

theorem updateNode_ok (hop : updateNode env k payload d = .ok d') :
    ∃ node changed d₁ renamed, node ∈ d.nodes ∧ node.id = k ∧ payload.check = .ok () ∧
      node.patched env payload = .ok changed ∧
      renameIf (payload.newKey node) changed
        { d with nodes := Table.modify Node.id k (fun _ => changed) d.nodes } = .ok d₁ ∧
      d₁.nodes.find? (fun n => n.id = k) = some renamed ∧ d' = { d with
        nodes := d₁.nodes, years := redatedIf (node.restarts changed) changed d.years
        log := d.log ++ [.nodeUpdate k (payload.read node) (payload.read renamed)] } := by
  obtain ⟨_, hcheck, hop⟩ := bind_ok.mp hop
  obtain ⟨node, hget, hop⟩ := bind_ok.mp hop
  obtain ⟨changed, hpatched, hop⟩ := bind_ok.mp hop
  obtain ⟨d₁, hrename, hop⟩ := bind_ok.mp hop
  obtain ⟨d₂, hredate, hop⟩ := bind_ok.mp hop
  obtain ⟨renamed, hrenamed, hop⟩ := bind_ok.mp hop
  obtain rfl := pure_ok.mp hop
  obtain ⟨hnode, hid⟩ := getNode_ok hget
  obtain ⟨f, rfl, _⟩ := renameIf_ok hrename
  obtain rfl := redateIf_ok hredate
  exact ⟨node, changed, _, renamed, hnode, hid, hcheck, hpatched, hrename, getNode_find hrenamed, rfl⟩

theorem deleteNode_ok (hop : deleteNode k d = .ok d') :
    (∀ n ∈ d.nodes, n.parentId ≠ some k) ∧ (∀ r ∈ d.books.bookings, r.budgetId ≠ k) ∧
      (∀ a ∈ d.applications, a.budgetId ≠ some k) ∧ (∀ a ∈ d.applications, ∀ y, a.fiscalYearId = some y → d.yearOf k y = false) ∧
      d' = (d.deleteNode k).audit (.nodeDelete k) := by
  obtain ⟨_, _, hop⟩ := bind_ok.mp hop
  obtain ⟨_, hchild, hop⟩ := bind_ok.mp hop
  obtain ⟨_, hbooked, hop⟩ := bind_ok.mp hop
  obtain ⟨_, happs, hop⟩ := bind_ok.mp hop
  obtain ⟨_, hunused, hop⟩ := bind_ok.mp hop
  obtain rfl := pure_ok.mp hop
  simp only [raiseUnless_ok, Bool.not_eq_true', any_eq_false, decide_eq_true_eq] at hchild hbooked happs
  refine ⟨hchild, hbooked, happs, fun a ha y hy => ?_, rfl⟩
  simp only [raiseUnless_ok, Db.yearsUnused, all_eq_true] at hunused
  simpa [hy] using hunused a ha

theorem revertAudit_ok {n : ℕ} (hop : revertAudit env n d = .ok d') :
    (∃ k, d.log[n]? = some (.nodeCreate k) ∧ deleteNode k d = .ok d') ∨
      ∃ k before after, d.log[n]? = some (.nodeUpdate k before after) ∧ updateNode env k before d = .ok d' := by
  rw [revertAudit] at hop
  split at hop
  · cases hop
  next k hentry =>
    obtain ⟨_, _, hop⟩ := bind_ok.mp hop
    exact .inl ⟨k, hentry, hop⟩
  next k before after hentry =>
    obtain ⟨_, _, hop⟩ := bind_ok.mp hop
    obtain ⟨_, _, hop⟩ := bind_ok.mp hop
    obtain ⟨_, _, hop⟩ := bind_ok.mp hop
    exact .inr ⟨k, before, after, hentry, hop⟩
  · cases hop

end Nodes

section FiscalYears

theorem createFiscalYear_ok {payload : FiscalYearCreate} (hop : createFiscalYear k payload d = .ok d') :
    ∃ top fy, top ∈ d.nodes ∧ top.id = k ∧ top.parentId = none ∧ 1900 ≤ fy.year ∧
      (∀ f ∈ d.years, f.budgetId = k → f.year ≠ fy.year) ∧ fy.id = d.next ∧ fy.budgetId = k ∧ fy.closedAt = none ∧
      fy.dated top = fy ∧ d' = { d with years := d.years ++ [fy], next := d.next + 1 } := by
  obtain ⟨_, hyear, hop⟩ := bind_ok.mp hop
  obtain ⟨top, htop, hop⟩ := bind_ok.mp hop
  obtain ⟨bounds, hbounds, hop⟩ := bind_ok.mp hop
  obtain ⟨_, hnone, hop⟩ := bind_ok.mp hop
  obtain rfl := pure_ok.mp hop
  obtain ⟨hmem, hid, hparent⟩ := requireTopLevel_ok htop
  have hyear := raiseUnless_ok.mp hyear
  simp only [Bool.and_eq_true, decide_eq_true_eq] at hyear
  simp only [raiseUnless_ok, Bool.not_eq_true', any_eq_false, Bool.and_eq_true, decide_eq_true_eq, not_and] at hnone
  refine ⟨top, _, hmem, hid, hparent, hyear.1, hnone, rfl, rfl, rfl, ?_, rfl⟩
  rw [fiscalYearBounds_ok hbounds]
  rfl

variable {payload : FiscalYearUpdate}

theorem redated_ok {fy fy' : FiscalYear} {top : Node} (h : fy.redated top payload d = .ok fy') :
    (payload.year = none ∧ fy' = fy) ∨ ∃ year, payload.year = some (some year) ∧ (year = fy.year ∨ fy.closedAt = none) ∧
      fy' = ({ fy with year := year } : FiscalYear).dated top := by
  unfold FiscalYear.redated at h
  split at h
  next hset =>
    cases h
    exact .inl ⟨hset, rfl⟩
  next => cases h
  next year hset =>
    obtain ⟨_, hopen, h⟩ := bind_ok.mp h
    obtain ⟨_, _, h⟩ := bind_ok.mp h
    obtain ⟨bounds, hbounds, h⟩ := bind_ok.mp h
    obtain rfl := pure_ok.mp h
    refine .inr ⟨year, hset, by simpa using hopen, ?_⟩
    rw [fiscalYearBounds_ok hbounds]
    rfl

theorem updateFiscalYear_ok {y : Uuid} (hop : updateFiscalYear k y payload d = .ok d') :
    ∃ top fy redated active, top ∈ d.nodes ∧ top.id = k ∧ top.parentId = none ∧
      d.years.find? (fun f => f.id = y) = some fy ∧ payload.check = .ok () ∧ fy.redated top payload d = .ok redated ∧
      (∀ f ∈ d.years, f.budgetId = redated.budgetId → f.year = redated.year → f.id = redated.id) ∧
      d' = { d with
        years := Table.modify (fun f : FiscalYear => f.id) redated.id (fun _ => { redated with active := active }) d.years } := by
  obtain ⟨_, hcheck, hop⟩ := bind_ok.mp hop
  obtain ⟨top, htop, hop⟩ := bind_ok.mp hop
  obtain ⟨fy, hget, hop⟩ := bind_ok.mp hop
  obtain ⟨redated, hredated, hop⟩ := bind_ok.mp hop
  obtain ⟨active, _, hop⟩ := bind_ok.mp hop
  obtain ⟨_, hunique, hop⟩ := bind_ok.mp hop
  obtain rfl := pure_ok.mp hop
  obtain ⟨hmem, hid, hparent⟩ := requireTopLevel_ok htop
  refine ⟨top, fy, redated, active, hmem, hid, hparent, getFiscalYear_ok hget, hcheck, hredated, ?_, rfl⟩
  intro f hf hb hyear
  simp only [raiseUnless_ok, Bool.not_eq_true', any_eq_false, Bool.and_eq_true, decide_eq_true_eq, not_and,
    not_not] at hunique
  exact hunique f hf ⟨hb, hyear⟩

theorem ownFiscalYear_ok {top : Node} {fy : FiscalYear} (h : d.ownFiscalYear top k = .ok fy) :
    d.years.find? (fun f => f.id = k) = some fy ∧ fy.budgetId = top.id := by
  obtain ⟨fy', hget, h⟩ := bind_ok.mp h
  obtain ⟨_, hown, h⟩ := bind_ok.mp h
  obtain rfl := pure_ok.mp h
  exact ⟨getFiscalYear_ok hget, by simpa using hown⟩

theorem yearBlocker_none (h : (d.yearBlocker k).isNone = true) :
    (∀ r ∈ d.books.bookings, r.fiscalYearId ≠ k) ∧ (∀ a ∈ d.allocations, a.fiscalYearId ≠ k) ∧
      ∀ a ∈ d.applications, a.fiscalYearId ≠ some k := by
  unfold Db.yearBlocker at h
  cases hr : d.books.bookings.any fun r => r.fiscalYearId = k with
  | true => simp [hr, fiscalYearDeleteBlocker] at h
  | false =>
    cases ha : d.allocations.any fun a => a.fiscalYearId = k with
    | true => simp [hr, ha, fiscalYearDeleteBlocker] at h
    | false =>
      cases hp : d.applications.any fun a => a.fiscalYearId = some k with
      | true => simp [hr, ha, hp, fiscalYearDeleteBlocker] at h
      | false =>
        simp only [any_eq_false, decide_eq_true_eq] at hr ha hp
        exact ⟨hr, ha, hp⟩

theorem deleteFiscalYear_ok {y : Uuid} (hop : deleteFiscalYear k y d = .ok d') :
    ∃ fy, d.years.find? (fun f => f.id = y) = some fy ∧ fy.closedAt = none ∧
      (∀ r ∈ d.books.bookings, r.fiscalYearId ≠ y) ∧ (∀ a ∈ d.allocations, a.fiscalYearId ≠ y) ∧
      (∀ a ∈ d.applications, a.fiscalYearId ≠ some y) ∧ d' = { d with years := d.years.filter fun f => f.id ≠ y } := by
  obtain ⟨top, _, hop⟩ := bind_ok.mp hop
  obtain ⟨fy, hown, hop⟩ := bind_ok.mp hop
  obtain ⟨_, hopen, hop⟩ := bind_ok.mp hop
  obtain ⟨_, hfree, hop⟩ := bind_ok.mp hop
  obtain rfl := pure_ok.mp hop
  obtain ⟨hr, ha, hp⟩ := yearBlocker_none (raiseUnless_ok.mp hfree)
  exact ⟨fy, (ownFiscalYear_ok hown).1, Budget.refuseClosed_ok hopen, hr, ha, hp, rfl⟩

theorem setFiscalYearClosed_ok {y : Uuid} {closed : Bool} {now : ℕ} (hop : setFiscalYearClosed k y closed now d = .ok d') :
    ∃ fy closedAt, d.years.find? (fun f => f.id = y) = some fy ∧
      d' = { d with
        years := Table.modify (fun f : FiscalYear => f.id) fy.id (fun _ => { fy with closedAt := closedAt }) d.years } := by
  obtain ⟨top, _, hop⟩ := bind_ok.mp hop
  obtain ⟨fy, hown, hop⟩ := bind_ok.mp hop
  obtain rfl := pure_ok.mp hop
  exact ⟨fy, _, (ownFiscalYear_ok hown).1, rfl⟩

end FiscalYears

section Applications

def Db.Unfrozen (d : Db) (y : Option Uuid) : Prop :=
  ∀ k, y = some k → ∀ fy, d.years.find? (fun f => f.id = k) = some fy → fy.closedAt = none

theorem years_find (d : Db) (k : Uuid) : (d.years.map FiscalYear.toFiscalYear).find? (fun y => y.id = k) =
    (d.years.find? fun y => y.id = k).map FiscalYear.toFiscalYear := by
  rw [find?_map]
  rfl

theorem requireOpen_ok {u : Unit} (h : Budget.requireOpenFiscalYear (d.booksEnv env) k = .ok u) : d.Unfrozen (some k) := by
  intro k' hk fy hfind
  cases hk
  rw [Budget.requireOpenFiscalYear, show (d.booksEnv env).years = d.years.map FiscalYear.toFiscalYear from rfl, years_find,
    hfind] at h
  exact Budget.refuseClosed_ok h

theorem requireOpenFiscalYear_ok {y : Option Uuid} {u : Unit} (h : d.requireOpenFiscalYear env y = .ok u) :
    d.Unfrozen y := by
  cases y with
  | none =>
    intro k hk
    cases hk
  | some k => exact requireOpen_ok h

def Resolved (d : Db) (env : Env) (b y : Uuid) : Prop :=
  ∃ node ∈ d.nodes, node.id = b ∧ ∃ top, Budget.topLevel (d.booksEnv env) node.booking = .ok top ∧
    ∃ fy ∈ d.years, fy.id = y ∧ fy.budgetId = top.id ∧ fy.closedAt = none

theorem resolveFiscalYear_ok {node : Node} (hnode : node ∈ d.nodes) {asked : Option Uuid} {y : Uuid}
    (h : Budget.resolveFiscalYear (d.booksEnv env) node.booking asked = .ok y) : Resolved d env node.id y := by
  obtain ⟨top, htop, fy', hmem, hid, hown, hopen⟩ := Budget.resolve_ok h
  obtain ⟨fy, hfy, rfl⟩ := mem_map.mp hmem
  exact ⟨node, hnode, rfl, top, htop, fy, hfy, hid, hown, hopen⟩

theorem assignBudget_ok {payload : AssignBudgetRequest} (hop : assignBudget env k payload d = .ok d') :
    ∃ app ∈ d.applications, app.id = k ∧ d.Unfrozen app.fiscalYearId ∧
      (d' = d.place k none none ∨ ∃ b y, Resolved d env b y ∧ d' = d.place k (some b) (some y)) := by
  obtain ⟨app, hget, hop⟩ := bind_ok.mp hop
  obtain ⟨_, _, hop⟩ := bind_ok.mp hop
  obtain ⟨_, hopen, hop⟩ := bind_ok.mp hop
  obtain ⟨place, hplace, hop⟩ := bind_ok.mp hop
  obtain rfl := pure_ok.mp hop
  obtain ⟨hmem, hid⟩ := getApplication_ok hget
  refine ⟨app, hmem, hid, requireOpenFiscalYear_ok hopen, ?_⟩
  unfold Db.assignment at hplace
  split at hplace
  · cases hplace
    exact .inl rfl
  · obtain ⟨node, hnode, hplace⟩ := bind_ok.mp hplace
    obtain ⟨fy, hfy, hplace⟩ := bind_ok.mp hplace
    obtain rfl := pure_ok.mp hplace
    exact .inr ⟨node.id, fy, resolveFiscalYear_ok (getNode_ok hnode).1 hfy, rfl⟩

theorem moveFiscalYear_ok {y : Uuid} (hop : moveFiscalYear env k y d = .ok d') :
    ∃ app ∈ d.applications, app.id = k ∧ d.Unfrozen app.fiscalYearId ∧ ∃ b, app.budgetId = some b ∧ Resolved d env b y ∧
      d' = d.place k (some b) (some y) := by
  obtain ⟨app, hget, hop⟩ := bind_ok.mp hop
  obtain ⟨node, hnode, hop⟩ := bind_ok.mp hop
  obtain ⟨top, htop, hop⟩ := bind_ok.mp hop
  obtain ⟨fy, hfy, hop⟩ := bind_ok.mp hop
  obtain ⟨_, hown, hop⟩ := bind_ok.mp hop
  obtain ⟨_, hopen, hop⟩ := bind_ok.mp hop
  obtain ⟨_, hclosed, hop⟩ := bind_ok.mp hop
  obtain rfl := pure_ok.mp hop
  obtain ⟨hmem, hid⟩ := getApplication_ok hget
  obtain ⟨hfymem, rfl⟩ := foundYear (getFiscalYear_ok hfy)
  unfold Db.assignedNode at hnode
  cases hb : app.budgetId with
  | none => simp [hb] at hnode
  | some b =>
    rw [hb] at hnode
    obtain ⟨hnmem, hnid⟩ := getNode_ok hnode
    exact ⟨app, hmem, hid, requireOpenFiscalYear_ok hopen, b, hb,
      ⟨node, hnmem, hnid, top, htop, fy, hfymem, rfl, by simpa using hown, Budget.refuseClosed_ok hclosed⟩, rfl⟩

theorem sitsClosed_false {app : Application} (h : d.sitsClosed app = false) : d.Unfrozen app.fiscalYearId := by
  intro k hk fy hfind
  unfold Db.sitsClosed at h
  simpa [hk, hfind] using h

theorem currentYear_ok {node : Node} {y : Uuid} (h : d.currentYear env node = some y) :
    ∃ fy ∈ d.years, fy.id = y ∧ fy.budgetId = (d.walkUp d.nodes.length [] node).id ∧ fy.closedAt = none := by
  obtain ⟨y, hy, rfl⟩ := Budget.pickFiscalYear_mem h
  obtain ⟨hmem, hcond⟩ := mem_filter.mp hy
  obtain ⟨fy, hfy, rfl⟩ := mem_map.mp hmem
  simp only [Bool.and_eq_true, decide_eq_true_eq, Option.isNone_iff_eq_none] at hcond
  exact ⟨fy, hfy, rfl, hcond.1.1, hcond.2⟩

theorem flowAssign_cases (env : Env) (k b : Uuid) (fromField : Bool) (d : Db) :
    flowAssign env k b fromField d = d ∨
      ∃ app node, d.applications.find? (fun a => a.id = k) = some app ∧ d.nodes.find? (fun n => n.id = b) = some node ∧
        d.flowSkips env app node fromField = false ∧ d.Unfrozen app.fiscalYearId ∧
        flowAssign env k b fromField d = d.place k (some node.id) ((d.currentYear env node).or app.fiscalYearId) := by
  unfold flowAssign
  split
  next app node happ hnode =>
    cases hskip : d.flowSkips env app node fromField with
    | true => exact .inl (by rw [if_pos rfl])
    | false =>
      refine .inr ⟨app, node, happ, hnode, hskip, sitsClosed_false ?_, by simp⟩
      unfold Db.flowSkips at hskip
      simp only [Bool.or_eq_false_iff] at hskip
      exact hskip.1.2
  next => exact .inl rfl

theorem deleteApplication_ok (hop : deleteApplication k d = .ok d') :
    d' = { d with applications := d.applications.filter fun a => a.id ≠ k, books := unbound d.books k } := by
  obtain ⟨_, _, hop⟩ := bind_ok.mp hop
  exact (pure_ok.mp hop).symm

end Applications

section Parts

theorem allocate_ok {op : Allocation.Db → Except Problem Allocation.Db} (hop : d.allocate op = .ok d') :
    ∃ a, op d.allocationDb = .ok a ∧ d' = { d with allocations := a.allocations, allocationLog := a.log } := by
  obtain ⟨a, ha, hop⟩ := bind_ok.mp hop
  exact ⟨a, ha, (pure_ok.mp hop).symm⟩

theorem book_ok {r : Budget.Request} (hop : d.book env r = .ok d') :
    ∃ books, r.handle (d.booksEnv env) d.books = .ok books ∧ d' = { d with books := books } := by
  obtain ⟨books, hbooks, hop⟩ := bind_ok.mp hop
  exact ⟨books, hbooks, (pure_ok.mp hop).symm⟩

end Parts

end BudgetTree
