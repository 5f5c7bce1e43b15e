import StupaWorkflow.BudgetModel

/-!
The cost centres of the budget tree and the amounts allocated to them for each fiscal year.
-/
namespace Allocation
open Py Decimals
open Budget (Uuid Problem FiscalYear refuseClosed)

structure Node where
  id : Uuid
  parentId : Option Uuid
  gremiumId : Option Uuid
  key : Text
  pathKey : Text
  deriving DecidableEq

structure BudgetAllocation where
  budgetId : Uuid
  fiscalYearId : Uuid
  allocated : ℚ
  deriving DecidableEq

/-- The data of a `budget_allocation_set` entry. -/
structure AuditEntry where
  target : Uuid
  fiscalYearId : Uuid
  allocated : Option ℚ
  previousAllocated : Option ℚ
  deriving DecidableEq

/-- `next` is where `uuid4` goes on: it never returns an id twice. -/
structure Db where
  budgets : List Node
  allocations : List BudgetAllocation
  log : List AuditEntry
  next : Uuid
  deriving DecidableEq

def emptyDb : Db := ⟨[], [], [], 0⟩

/-- What a request reads of the other tables: the fiscal years, and whether a cost
centre has bookings or applications and a gremium exists. -/
structure Env where
  years : List FiscalYear
  booked : Uuid → Bool
  assigned : Uuid → Bool
  gremium : Uuid → Bool

structure AllocationSet where
  allocated : ℚ
  deriving DecidableEq

structure BudgetNodeCreate where
  key : Text
  parentId : Option Uuid := none
  gremiumId : Option Uuid := none
  decisionGremiumId : Option Uuid := none
  deriving DecidableEq

section Rules

def asAmount (value : Option ℚ) : ℚ := value.getD 0

def childrenAllocationExceedsParent (parentAllocated : Option ℚ) (siblingsSumExcluding newValue : ℚ) : Bool :=
  siblingsSumExcluding + newValue > asAmount parentAllocated

def parentAllocationBelowChildren (newParentValue childrenSum : ℚ) : Bool := newParentValue < childrenSum

def isAlnum (c : ℕ) : Bool := isDigit c || (65 ≤ c && c ≤ 90) || (97 ≤ c && c ≤ 122)

/-- The `$` of the pattern also matches before a final newline. -/
def isValidKey (key : Text) : Bool :=
  let body := if key.getLast? = some 10 then key.dropLast else key
  key.length ≤ 64 && !body.isEmpty && body.all isAlnum

def composePathKey (parentPath : Option Text) (key : Text) : Text :=
  match parentPath with
  | none => key
  | some path => path ++ 45 :: key

end Rules

section Lookups

def Db.getNode (d : Db) (k : Uuid) : Except Problem Node :=
  ((d.budgets.find? fun b => b.id = k).map .ok).getD (.error (.notFound (text "budget")))

def getFiscalYear (env : Env) (k : Uuid) : Except Problem FiscalYear :=
  ((env.years.find? fun y => y.id = k).map .ok).getD (.error (.notFound (text "fiscal year")))

def Db.topLevel (d : Db) (node : Node) : Except Problem Node :=
  let top := node.pathKey.takeWhile (· ≠ 45)
  ((d.budgets.find? fun b => b.pathKey = top && b.parentId.isNone).map .ok).getD
    (.error (.notFound (text "top-level budget")))

def BudgetAllocation.key (a : BudgetAllocation) : Uuid × Uuid := (a.budgetId, a.fiscalYearId)

def Db.allocation (d : Db) (budgetId fiscalYearId : Uuid) : Option BudgetAllocation :=
  d.allocations.find? fun a => a.key = (budgetId, fiscalYearId)

def Db.childrenAllocSum (d : Db) (parentId fiscalYearId : Uuid) (excludeId : Option Uuid) : ℚ :=
  let rows := (d.budgets.filter fun b => b.parentId = some parentId).flatMap fun b =>
    (d.allocations.filter fun a => a.key = (b.id, fiscalYearId)).map fun a => (b.id, a.allocated)
  ((rows.filter fun row => some row.1 ≠ excludeId).map fun row => row.2).sum

end Lookups

section Allocations

/-- `Field(ge=0, le=_MAX_AMOUNT)`. -/
def AllocationSet.check (payload : AllocationSet) : Except Problem Unit :=
  raiseUnless (0 ≤ payload.allocated && payload.allocated ≤ maxAmount) (.validation (text "allocated"))

def Db.checkFiscalYear (d : Db) (env : Env) (node : Node) (fiscalYearId : Uuid) : Except Problem Unit := do
  let fy ← getFiscalYear env fiscalYearId
  let top ← d.topLevel node
  raiseUnless (fy.budgetId = top.id) (.validation (text "fiscalYearId"))
  refuseClosed fy

def Db.checkParent (d : Db) (node : Node) (fiscalYearId : Uuid) (new : ℚ) : Except Problem Unit :=
  match node.parentId with
  | none => .ok ()
  | some p =>
    let siblings := d.childrenAllocSum p fiscalYearId (some node.id)
    let parentValue := (d.allocation p fiscalYearId).map BudgetAllocation.allocated
    raiseUnless (!childrenAllocationExceedsParent parentValue siblings new) (.validation (text "allocated"))

def Db.checkChildren (d : Db) (node : Node) (fiscalYearId : Uuid) (new : ℚ) : Except Problem Unit :=
  raiseUnless (!parentAllocationBelowChildren new (d.childrenAllocSum node.id fiscalYearId none))
    (.validation (text "allocated"))

/-- The row of an allocation is updated where there is one, else inserted. -/
def Db.write (d : Db) (existing : Option BudgetAllocation) (row : BudgetAllocation) : Db :=
  match existing with
  | some _ => { d with allocations := Table.modify BudgetAllocation.key row.key (fun _ => row) d.allocations }
  | none => { d with allocations := d.allocations ++ [row] }

def Db.audit (d : Db) (entry : AuditEntry) : Db := { d with log := d.log ++ [entry] }

/-- The written row, where the column keeps whole cents, and its audit entry. -/
def Db.record (d : Db) (existing : Option BudgetAllocation) (budgetId fiscalYearId : Uuid) (new : ℚ) : Db :=
  (d.write existing ⟨budgetId, fiscalYearId, cents new⟩).audit
    ⟨budgetId, fiscalYearId, some new, existing.map BudgetAllocation.allocated⟩

def setAllocation (env : Env) (budgetId fiscalYearId : Uuid) (payload : AllocationSet) (d : Db) : Except Problem Db := do
  payload.check
  let node ← d.getNode budgetId
  d.checkFiscalYear env node fiscalYearId
  d.checkParent node fiscalYearId payload.allocated
  d.checkChildren node fiscalYearId payload.allocated
  return d.record (d.allocation budgetId fiscalYearId) budgetId fiscalYearId payload.allocated

end Allocations

section Nodes

def Db.siblingExists (d : Db) (parentId : Option Uuid) (key : Text) : Bool :=
  d.budgets.any fun b => b.parentId = parentId && b.key = key

/-- A missing parent is an error; no parent at all is the top level. -/
def Db.getParent (d : Db) (parentId : Option Uuid) : Except Problem (Option Node) :=
  match parentId with
  | none => .ok none
  | some p => do
      let parent ← d.getNode p
      return some parent

def createNode (env : Env) (payload : BudgetNodeCreate) (d : Db) : Except Problem Db := do
  raiseUnless (!payload.key.isEmpty && payload.key.length ≤ 64) (.validation (text "key"))
  raiseUnless (isValidKey payload.key) (.validation (text "key"))
  let parent ← d.getParent payload.parentId
  raiseUnless (parent.isSome || payload.gremiumId.all env.gremium) (.notFound (text "gremium"))
  raiseUnless (!d.siblingExists payload.parentId payload.key) (.conflict (text "budget_key_exists"))
  raiseUnless (payload.decisionGremiumId.all env.gremium) (.validation (text "decision_gremium_invalid"))
  let node : Node :=
    { id := d.next, parentId := payload.parentId
      gremiumId := (parent.map Node.gremiumId).getD payload.gremiumId
      key := payload.key, pathKey := composePathKey (parent.map Node.pathKey) payload.key }
  return { d with budgets := d.budgets ++ [node], next := d.next + 1 }

def Db.deleteNode (d : Db) (env : Env) (k : Uuid) : Db :=
  let gone := (env.years.filter fun y => y.budgetId = k).map FiscalYear.id
  { d with
    budgets := d.budgets.filter fun b => b.id ≠ k
    allocations := d.allocations.filter fun a => a.budgetId ≠ k && !gone.contains a.fiscalYearId }

def deleteNode (env : Env) (k : Uuid) (d : Db) : Except Problem Db := do
  let _ ← d.getNode k
  raiseUnless (!d.budgets.any fun b => b.parentId = some k) (.conflict (text "budget_has_children"))
  raiseUnless (!env.booked k) (.conflict (text "budget_has_bookings"))
  raiseUnless (!env.assigned k) (.conflict (text "budget_has_applications"))
  return d.deleteNode env k

end Nodes

section Revert

def Db.dropAllocation (d : Db) (budgetId fiscalYearId : Uuid) : Db :=
  { d with allocations := d.allocations.filter fun a => a.key ≠ (budgetId, fiscalYearId) }

/-- `_revert_allocation_set`: the value before, or no row where there was none. -/
def revertAllocationSet (env : Env) (entry : AuditEntry) (d : Db) : Except Problem Db := do
  raiseUnless (match d.allocation entry.target entry.fiscalYearId, entry.allocated with
    | some cur, some setValue => cur.allocated = setValue
    | _, _ => false) (.conflict (text "stale_revert"))
  match entry.previousAllocated with
  | none => return (d.dropAllocation entry.target entry.fiscalYearId).audit ⟨entry.target, entry.fiscalYearId, none, none⟩
  | some previous => setAllocation env entry.target entry.fiscalYearId ⟨previous⟩ d

def revertAudit (env : Env) (auditId : ℕ) (d : Db) : Except Problem Db :=
  match d.log[auditId]? with
  | none => .error (.notFound (text "audit entry"))
  | some entry => revertAllocationSet env entry d

end Revert

inductive Request where
  | setAllocation (budgetId fiscalYearId : Uuid) (payload : AllocationSet)
  | createNode (payload : BudgetNodeCreate)
  | deleteNode (budgetId : Uuid)
  | revertAudit (auditId : ℕ)

def Request.handle (env : Env) : Request → Db → Except Problem Db
  | .setAllocation k fy payload => Allocation.setAllocation env k fy payload
  | .createNode payload => Allocation.createNode env payload
  | .deleteNode k => Allocation.deleteNode env k
  | .revertAudit n => Allocation.revertAudit env n

def step (p : Env × Request) (d : Db) : Option Db := (p.2.handle p.1 d).toOption

end Allocation
