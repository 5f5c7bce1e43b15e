import StupaWorkflow.AllocationModel
import StupaWorkflow.PyCalendar
import StupaWorkflow.PyTime
import StupaWorkflow.Runs

/-!
The budget tree as a whole: cost centres with their path keys, the fiscal years of the top-level
budgets, and the allocations, bookings and applications that hang on both. A date is its ordinal
number.
-/
namespace BudgetTree
open Py hiding Date
open Budget (Uuid Date Problem Patch Application optionalField)
open Allocation (isValidKey composePathKey)

structure Node where
  id : Uuid
  parentId : Option Uuid
  gremiumId : Option Uuid := none
  key : Text
  pathKey : Text
  name : Text
  currency : Text := text "EUR"
  active : Bool := true
  color : Option Text := none
  acceptedStateKeys : Option (List Text) := some []
  deniedStateKeys : Option (List Text) := some []
  hiddenInBudget : Bool := false
  viewGremiumId : Option Uuid := none
  decisionGremiumId : Option Uuid := none
  fiscalStartMonth : ℕ := 1
  fiscalStartDay : ℕ := 1
  deriving DecidableEq

structure FiscalYear extends Budget.FiscalYear where
  year : ℕ
  deriving DecidableEq

structure BudgetNodeCreate where
  key : Text
  name : Text
  parentId : Option Uuid := none
  gremiumId : Option Uuid := none
  decisionGremiumId : Option Uuid := none
  active : Bool := true
  color : Option Text := none
  fiscalStartMonth : ℕ := 1
  fiscalStartDay : ℕ := 1
  deriving DecidableEq

structure BudgetNodeUpdate where
  key : Patch Text := none
  name : Patch Text := none
  active : Patch Bool := none
  color : Patch Text := none
  acceptedStateKeys : Patch (List Text) := none
  deniedStateKeys : Patch (List Text) := none
  hiddenInBudget : Patch Bool := none
  viewGremiumId : Patch Uuid := none
  decisionGremiumId : Patch Uuid := none
  fiscalStartMonth : Patch ℕ := none
  fiscalStartDay : Patch ℕ := none
  deriving DecidableEq

structure FiscalYearCreate where
  year : ℕ
  active : Bool := true
  deriving DecidableEq

structure FiscalYearUpdate where
  year : Patch ℕ := none
  active : Patch Bool := none
  deriving DecidableEq

structure AssignBudgetRequest where
  budgetId : Option Uuid := none
  fiscalYearId : Option Uuid := none
  deriving DecidableEq

inductive AuditEntry where
  | nodeCreate (target : Uuid)
  | nodeUpdate (target : Uuid) (before after : BudgetNodeUpdate)
  | nodeDelete (target : Uuid)
  deriving DecidableEq

/-- The log is kept in three parts, one for each kind of target. `next` is where
`uuid4` goes on: it never returns an id twice. -/
structure Db where
  nodes : List Node
  years : List FiscalYear
  allocations : List Allocation.BudgetAllocation
  applications : List Application
  books : Budget.Db
  log : List AuditEntry
  allocationLog : List Allocation.AuditEntry
  next : Uuid
  deriving DecidableEq

def emptyDb : Db := ⟨[], [], [], [], Budget.emptyDb, [], [], 0⟩

/-- What a request reads outside the tree: the gremien, the invoices, the local day, whether
`Decimal` reads two texts as one number, and whether an application is in a vote whose gremium
comes from its cost centre. -/
structure Env where
  gremium : Uuid → Bool
  invoices : List Uuid
  today : Date
  sameNumber : Text → Text → Bool
  locked : Uuid → Bool

section Rules

def isDescendantPath (ancestorPath nodePath : Text) : Bool := (ancestorPath ++ [45]).isPrefixOf nodePath

def isValidFiscalStart (startMonth startDay : ℕ) : Bool :=
  1 ≤ startMonth && startMonth ≤ 12 && 1 ≤ startDay && startDay ≤ 28

def fiscalYearBounds (year startMonth startDay : ℕ) : Except Problem (Date × Date) := do
  raiseUnless (isValidFiscalStart startMonth startDay) (.validation (text "fiscalStartDay"))
  return (toOrdinal year startMonth startDay, toOrdinal (year + 1) startMonth startDay - 1)

def fiscalYearDisplay (year startMonth startDay : ℕ) : Text :=
  if startMonth = 1 && startDay = 1 then decimal year else decimal year ++ 47 :: digits 2 ((year + 1) % 100)

/-- `Field(ge=1, le=12)`. -/
def monthField (month : ℕ) : Except Problem Unit :=
  raiseUnless (1 ≤ month && month ≤ 12) (.validation (text "fiscalStartMonth"))

/-- `Field(ge=1, le=28)`. -/
def dayField (day : ℕ) : Except Problem Unit := raiseUnless (1 ≤ day && day ≤ 28) (.validation (text "fiscalStartDay"))

/-- `Field(ge=1900, le=2200)`. -/
def yearField (year : ℕ) : Except Problem Unit :=
  raiseUnless (1900 ≤ year && year ≤ 2200) (.validation (text "year"))

/-- `Field(min_length=1, max_length=…)`. -/
def textField (field : Text) (most : ℕ) (s : Text) : Except Problem Unit :=
  raiseUnless (!s.isEmpty && s.length ≤ most) (.validation field)

end Rules

section Reading

def Node.booking (n : Node) : Budget.Node := ⟨n.id, n.parentId, n.pathKey, n.currency⟩

def Node.allocation (n : Node) : Allocation.Node := ⟨n.id, n.parentId, n.gremiumId, n.key, n.pathKey⟩

/-- The tables as the operations on bookings read them. -/
def Db.booksEnv (d : Db) (env : Env) : Budget.Env where
  nodes := d.nodes.map Node.booking
  years := d.years.map FiscalYear.toFiscalYear
  applications := d.applications
  invoices := env.invoices
  today := env.today
  sameNumber := env.sameNumber

/-- The tables as the operations on allocations read them. -/
def Db.allocationEnv (d : Db) (env : Env) : Allocation.Env where
  years := d.years.map FiscalYear.toFiscalYear
  booked k := d.books.bookings.any fun r => r.budgetId = k
  assigned k := d.applications.any fun a => a.budgetId = some k
  gremium := env.gremium

def Db.allocationDb (d : Db) : Allocation.Db := ⟨d.nodes.map Node.allocation, d.allocations, d.allocationLog, d.next⟩

def Db.getNode (d : Db) (k : Uuid) : Except Problem Node :=
  ((d.nodes.find? fun n => n.id = k).map .ok).getD (.error (.notFound (text "budget")))

def Db.getFiscalYear (d : Db) (k : Uuid) : Except Problem FiscalYear :=
  ((d.years.find? fun y => y.id = k).map .ok).getD (.error (.notFound (text "fiscal year")))

def Db.getApplication (d : Db) (k : Uuid) : Except Problem Application :=
  ((d.applications.find? fun a => a.id = k).map .ok).getD (.error (.notFound (text "application")))

/-- `None` and a missing row pass. -/
def Db.requireOpenFiscalYear (d : Db) (env : Env) (k : Option Uuid) : Except Problem Unit :=
  (k.map (Budget.requireOpenFiscalYear (d.booksEnv env))).getD (.ok ())

def Db.requireTopLevel (d : Db) (k : Uuid) : Except Problem Node := do
  let node ← d.getNode k
  raiseUnless node.parentId.isNone (.validation (text "budgetId"))
  return node

def Db.siblingExists (d : Db) (parentId : Option Uuid) (key : Text) : Bool :=
  d.nodes.any fun b => b.parentId = parentId && b.key = key

/-- A missing parent is an error; no parent at all is the top level. -/
def Db.getParent (d : Db) (parentId : Option Uuid) : Except Problem (Option Node) :=
  match parentId with
  | none => .ok none
  | some p => do
      let parent ← d.getNode p
      return some parent

def Db.audit (d : Db) (entry : AuditEntry) : Db := { d with log := d.log ++ [entry] }

end Reading

section Nodes

def BudgetNodeCreate.check (payload : BudgetNodeCreate) : Except Problem Unit := do
  textField (text "key") 64 payload.key
  textField (text "name") 200 payload.name
  monthField payload.fiscalStartMonth
  dayField payload.fiscalStartDay

def createNode (env : Env) (payload : BudgetNodeCreate) (d : Db) : Except Problem Db := do
  payload.check
  raiseUnless (isValidKey payload.key) (.validation (text "key"))
  let parent ← d.getParent payload.parentId
  raiseUnless (parent.isSome || payload.gremiumId.all env.gremium) (.notFound (text "gremium"))
  raiseUnless (!d.siblingExists payload.parentId payload.key) (.conflict (text "budget_key_exists"))
  raiseUnless (payload.decisionGremiumId.all env.gremium) (.validation (text "decision_gremium_invalid"))
  let node : Node :=
    { id := d.next, parentId := payload.parentId, gremiumId := (parent.map Node.gremiumId).getD payload.gremiumId
      key := payload.key, pathKey := composePathKey (parent.map Node.pathKey) payload.key, name := payload.name
      active := payload.active, color := payload.color, decisionGremiumId := payload.decisionGremiumId
      fiscalStartMonth := payload.fiscalStartMonth, fiscalStartDay := payload.fiscalStartDay }
  return { d with nodes := d.nodes ++ [node], next := d.next + 1 }.audit (.nodeCreate d.next)

def BudgetNodeUpdate.check (payload : BudgetNodeUpdate) : Except Problem Unit := do
  optionalField payload.key (textField (text "key") 64)
  optionalField payload.name (textField (text "name") 200)
  optionalField payload.fiscalStartMonth monthField
  optionalField payload.fiscalStartDay dayField

/-- The columns of a node besides its key; a required column refuses null, and a
gremium that is not there breaks a foreign key. -/
def Node.patched (n : Node) (env : Env) (payload : BudgetNodeUpdate) : Except Problem Node := do
  raiseUnless ((payload.decisionGremiumId.getD none).all env.gremium) (.validation (text "decision_gremium_invalid"))
  let name ← payload.name.column n.name
  let active ← payload.active.column n.active
  let hiddenInBudget ← payload.hiddenInBudget.column n.hiddenInBudget
  let fiscalStartMonth ← payload.fiscalStartMonth.column n.fiscalStartMonth
  let fiscalStartDay ← payload.fiscalStartDay.column n.fiscalStartDay
  raiseUnless ((payload.viewGremiumId.getD none).all env.gremium) .integrity
  return { n with
    name := name, active := active, hiddenInBudget := hiddenInBudget, fiscalStartMonth := fiscalStartMonth
    fiscalStartDay := fiscalStartDay, color := payload.color.write n.color
    acceptedStateKeys := payload.acceptedStateKeys.write n.acceptedStateKeys
    deniedStateKeys := payload.deniedStateKeys.write n.deniedStateKeys
    viewGremiumId := payload.viewGremiumId.write n.viewGremiumId
    decisionGremiumId := payload.decisionGremiumId.write n.decisionGremiumId }

/-- The values of a node at the fields that a payload sets; a null key is no field. -/
def BudgetNodeUpdate.read (payload : BudgetNodeUpdate) (n : Node) : BudgetNodeUpdate where
  key := (payload.key.getD none).map fun _ => some n.key
  name := payload.name.map fun _ => some n.name
  active := payload.active.map fun _ => some n.active
  color := payload.color.map fun _ => n.color
  acceptedStateKeys := payload.acceptedStateKeys.map fun _ => n.acceptedStateKeys
  deniedStateKeys := payload.deniedStateKeys.map fun _ => n.deniedStateKeys
  hiddenInBudget := payload.hiddenInBudget.map fun _ => some n.hiddenInBudget
  viewGremiumId := payload.viewGremiumId.map fun _ => n.viewGremiumId
  decisionGremiumId := payload.decisionGremiumId.map fun _ => n.decisionGremiumId
  fiscalStartMonth := payload.fiscalStartMonth.map fun _ => some n.fiscalStartMonth
  fiscalStartDay := payload.fiscalStartDay.map fun _ => some n.fiscalStartDay

def Node.renamed (node : Node) (newKey newPath : Text) (n : Node) : Node :=
  if n.id = node.id then { n with key := newKey, pathKey := newPath }
  else if isDescendantPath node.pathKey n.pathKey then { n with pathKey := newPath ++ n.pathKey.drop node.pathKey.length }
  else n

def renameKey (node : Node) (newKey : Text) (d : Db) : Except Problem Db := do
  raiseUnless (isValidKey newKey) (.validation (text "key"))
  raiseUnless (!d.siblingExists node.parentId newKey) (.conflict (text "budget_key_exists"))
  let parent ← d.getParent node.parentId
  let newPath := composePathKey (parent.map Node.pathKey) newKey
  return { d with nodes := d.nodes.map (node.renamed newKey newPath) }

def BudgetNodeUpdate.newKey (payload : BudgetNodeUpdate) (n : Node) : Option Text :=
  (payload.key.getD none).filter fun key => key ≠ n.key

def renameIf (newKey : Option Text) (node : Node) (d : Db) : Except Problem Db :=
  match newKey with
  | some key => renameKey node key d
  | none => .ok d

def Node.restarts (n changed : Node) : Bool :=
  n.parentId.isNone &&
    (changed.fiscalStartMonth ≠ n.fiscalStartMonth || changed.fiscalStartDay ≠ n.fiscalStartDay)

def FiscalYear.newBounds (y : FiscalYear) (node : Node) : Except Problem (Date × Date) :=
  if y.budgetId = node.id then fiscalYearBounds y.year node.fiscalStartMonth node.fiscalStartDay
  else .ok (y.startDate, y.endDate)

def redate (node : Node) : List FiscalYear → Except Problem (List FiscalYear)
  | [] => .ok []
  | y :: ys => do
      let bounds ← y.newBounds node
      let rest ← redate node ys
      return { y with startDate := bounds.1, endDate := bounds.2 } :: rest

def redateIf (restarts : Bool) (node : Node) (d : Db) : Except Problem Db :=
  if restarts then do
    let years ← redate node d.years
    return { d with years := years }
  else .ok d

def updateNode (env : Env) (budgetId : Uuid) (payload : BudgetNodeUpdate) (d : Db) : Except Problem Db := do
  payload.check
  let node ← d.getNode budgetId
  let changed ← node.patched env payload
  let d₁ ← renameIf (payload.newKey node) changed { d with nodes := Table.modify Node.id budgetId (fun _ => changed) d.nodes }
  let d₂ ← redateIf (node.restarts changed) changed d₁
  let renamed ← d₂.getNode budgetId
  return d₂.audit (.nodeUpdate budgetId (payload.read node) (payload.read renamed))

def withoutYears (books : Budget.Db) (gone : Uuid → Bool) : Budget.Db :=
  let dropped := (books.bookings.filter fun r => gone r.fiscalYearId).map Budget.BudgetExpense.id
  { books with
    bookings := books.bookings.filter fun r => !gone r.fiscalYearId && r.parentExpenseId.all fun p => !dropped.contains p }

def Db.yearOf (d : Db) (k y : Uuid) : Bool := d.years.any fun fy => fy.id = y && fy.budgetId = k

/-- DELETE of a node; the foreign keys remove its allocations and its fiscal years, and
the allocations and bookings of those years. -/
def Db.deleteNode (d : Db) (k : Uuid) : Db :=
  { d with
    nodes := d.nodes.filter fun n => n.id ≠ k
    years := d.years.filter fun y => y.budgetId ≠ k
    allocations := d.allocations.filter fun a => a.budgetId ≠ k && !d.yearOf k a.fiscalYearId
    books := withoutYears d.books (d.yearOf k) }

def Db.yearsUnused (d : Db) (k : Uuid) : Bool :=
  d.applications.all fun a => a.fiscalYearId.all fun y => !d.yearOf k y

def deleteNode (k : Uuid) (d : Db) : Except Problem Db := do
  let _ ← d.getNode k
  raiseUnless (!d.nodes.any fun b => b.parentId = some k) (.conflict (text "budget_has_children"))
  raiseUnless (!d.books.bookings.any fun r => r.budgetId = k) (.conflict (text "budget_has_bookings"))
  raiseUnless (!d.applications.any fun a => a.budgetId = some k) (.conflict (text "budget_has_applications"))
  raiseUnless (d.yearsUnused k) .integrity
  return (d.deleteNode k).audit (.nodeDelete k)

end Nodes

section FiscalYears

def createFiscalYear (budgetId : Uuid) (payload : FiscalYearCreate) (d : Db) : Except Problem Db := do
  yearField payload.year
  let top ← d.requireTopLevel budgetId
  let bounds ← fiscalYearBounds payload.year top.fiscalStartMonth top.fiscalStartDay
  raiseUnless (!d.years.any fun f => f.budgetId = budgetId && f.year = payload.year) (.validation (text "year"))
  let fy : FiscalYear :=
    { id := d.next, budgetId := budgetId, year := payload.year, startDate := bounds.1, endDate := bounds.2
      active := payload.active, closedAt := none }
  return { d with years := d.years ++ [fy], next := d.next + 1 }

def FiscalYearUpdate.check (payload : FiscalYearUpdate) : Except Problem Unit := optionalField payload.year yearField

/-- The year and the dates after a patch. A new year is refused on a closed year and
where the addressed budget has it already; a year that is set computes the dates from
the start of the addressed budget. -/
def FiscalYear.redated (fy : FiscalYear) (top : Node) (payload : FiscalYearUpdate) (d : Db) : Except Problem FiscalYear :=
  match payload.year with
  | none => .ok fy
  | some none => .error .integrity
  | some (some year) => do
      raiseUnless (year = fy.year || fy.closedAt.isNone) (.conflict (text "fiscal_year_closed"))
      raiseUnless (year = fy.year || !d.years.any fun f => f.budgetId = top.id && f.year = year && f.id ≠ fy.id)
        (.validation (text "year"))
      let bounds ← fiscalYearBounds year top.fiscalStartMonth top.fiscalStartDay
      return { fy with year := year, startDate := bounds.1, endDate := bounds.2 }

def Db.saveYear (d : Db) (fy : FiscalYear) : Except Problem Db := do
  raiseUnless (!d.years.any fun f => f.budgetId = fy.budgetId && f.year = fy.year && f.id ≠ fy.id) .integrity
  return { d with years := Table.modify (fun y : FiscalYear => y.id) fy.id (fun _ => fy) d.years }

def updateFiscalYear (budgetId fiscalYearId : Uuid) (payload : FiscalYearUpdate) (d : Db) : Except Problem Db := do
  payload.check
  let top ← d.requireTopLevel budgetId
  let fy ← d.getFiscalYear fiscalYearId
  let redated ← fy.redated top payload d
  let active ← payload.active.column fy.active
  d.saveYear { redated with active := active }

def Db.ownFiscalYear (d : Db) (top : Node) (fiscalYearId : Uuid) : Except Problem FiscalYear := do
  let fy ← d.getFiscalYear fiscalYearId
  raiseUnless (fy.budgetId = top.id) (.notFound (text "fiscal year"))
  return fy

def fiscalYearDeleteBlocker (hasBookings hasAllocations hasApplications : Bool) : Option Text :=
  match hasBookings, hasAllocations, hasApplications with
  | true, _, _ => some (text "bookings")
  | _, true, _ => some (text "allocations")
  | _, _, true => some (text "applications")
  | _, _, _ => none

def Db.yearBlocker (d : Db) (k : Uuid) : Option Text :=
  fiscalYearDeleteBlocker (d.books.bookings.any fun r => r.fiscalYearId = k)
    (d.allocations.any fun a => a.fiscalYearId = k) (d.applications.any fun a => a.fiscalYearId = some k)

def deleteFiscalYear (budgetId fiscalYearId : Uuid) (d : Db) : Except Problem Db := do
  let top ← d.requireTopLevel budgetId
  let fy ← d.ownFiscalYear top fiscalYearId
  Budget.refuseClosed fy.toFiscalYear
  raiseUnless (d.yearBlocker fiscalYearId).isNone (.conflict (text "fiscal_year_in_use"))
  return { d with years := d.years.filter fun y => y.id ≠ fiscalYearId }

def setFiscalYearClosed (budgetId fiscalYearId : Uuid) (closed : Bool) (now : ℕ) (d : Db) : Except Problem Db := do
  let top ← d.requireTopLevel budgetId
  let fy ← d.ownFiscalYear top fiscalYearId
  let closedAt := if closed = fy.closedAt.isSome then fy.closedAt else if closed then some now else none
  return { d with years := Table.modify (fun y : FiscalYear => y.id) fy.id (fun _ => { fy with closedAt := closedAt }) d.years }

end FiscalYears

section Applications

def Db.place (d : Db) (k : Uuid) (budgetId fiscalYearId : Option Uuid) : Db :=
  { d with applications := Table.modify Application.id k (fun a => ⟨a.id, budgetId, fiscalYearId⟩) d.applications }

/-- A new application has no cost centre. -/
def createApplication (d : Db) : Db :=
  { d with applications := d.applications ++ [⟨d.next, none, none⟩], next := d.next + 1 }

def unbound (books : Budget.Db) (k : Uuid) : Budget.Db :=
  { books with
    bookings := books.bookings.map fun r => if r.applicationId = some k then { r with applicationId := none } else r }

def deleteApplication (k : Uuid) (d : Db) : Except Problem Db := do
  let _ ← d.getApplication k
  return { d with applications := d.applications.filter fun a => a.id ≠ k, books := unbound d.books k }

def Db.assignment (d : Db) (env : Env) (payload : AssignBudgetRequest) : Except Problem (Option Uuid × Option Uuid) :=
  match payload.budgetId with
  | none => .ok (none, none)
  | some b => do
      let node ← d.getNode b
      let fy ← Budget.resolveFiscalYear (d.booksEnv env) node.booking payload.fiscalYearId
      return (some node.id, some fy)

def assignBudget (env : Env) (applicationId : Uuid) (payload : AssignBudgetRequest) (d : Db) : Except Problem Db := do
  let app ← d.getApplication applicationId
  raiseUnless (!env.locked applicationId) (.conflict (text "budget_locked_by_vote"))
  d.requireOpenFiscalYear env app.fiscalYearId
  let place ← d.assignment env payload
  return d.place applicationId place.1 place.2

def Db.assignedNode (d : Db) (app : Application) : Except Problem Node :=
  (app.budgetId.map d.getNode).getD (.error (.validation (text "budgetId")))

def moveFiscalYear (env : Env) (applicationId fiscalYearId : Uuid) (d : Db) : Except Problem Db := do
  let app ← d.getApplication applicationId
  let node ← d.assignedNode app
  let top ← Budget.topLevel (d.booksEnv env) node.booking
  let fy ← d.getFiscalYear fiscalYearId
  raiseUnless (fy.budgetId = top.id) (.validation (text "fiscalYearId"))
  d.requireOpenFiscalYear env app.fiscalYearId
  Budget.refuseClosed fy.toFiscalYear
  return d.place applicationId app.budgetId (some fy.id)

def Db.walkUp (d : Db) : ℕ → List Uuid → Node → Node
  | 0, _, node => node
  | fuel + 1, seen, node =>
    match node.parentId.bind fun p => if seen.contains p then none else d.nodes.find? fun n => n.id = p with
    | none => node
    | some parent => d.walkUp fuel (node.id :: seen) parent

def Db.currentYear (d : Db) (env : Env) (node : Node) : Option Uuid :=
  let top := d.walkUp d.nodes.length [] node
  Budget.pickFiscalYear ((d.years.map FiscalYear.toFiscalYear).filter fun y =>
    y.budgetId = top.id && y.active && y.closedAt.isNone) env.today

def Db.sitsClosed (d : Db) (app : Application) : Bool :=
  app.fiscalYearId.any fun k => (d.years.find? fun y => y.id = k).any fun y => y.closedAt.isSome

/-- The flow action leaves the application as it is: it is locked by its vote, sits in a closed
year, has the cost centre already, or a form field names the cost centre and that one is
inactive or the application has another one. -/
def Db.flowSkips (d : Db) (env : Env) (app : Application) (node : Node) (fromField : Bool) : Bool :=
  (fromField && (!node.active || app.budgetId.any fun b => b ≠ node.id)) || env.locked app.id || d.sitsClosed app ||
    app.budgetId = some node.id

/-- `_assign_node` of the flow actions. The fiscal year stays where none is unambiguous. -/
def flowAssign (env : Env) (applicationId budgetId : Uuid) (fromField : Bool) (d : Db) : Db :=
  match d.applications.find? fun a => a.id = applicationId, d.nodes.find? fun n => n.id = budgetId with
  | some app, some node =>
    if d.flowSkips env app node fromField then d
    else d.place applicationId (some node.id) ((d.currentYear env node).or app.fiscalYearId)
  | _, _ => d

end Applications

section Allocations

def Db.allocate (d : Db) (op : Allocation.Db → Except Problem Allocation.Db) : Except Problem Db := do
  let a ← op d.allocationDb
  return { d with allocations := a.allocations, allocationLog := a.log }

def Db.book (d : Db) (env : Env) (r : Budget.Request) : Except Problem Db := do
  let books ← r.handle (d.booksEnv env) d.books
  return { d with books := books }

end Allocations

section Revert

def notStale (env : Budget.Env) (n : Node) (after : BudgetNodeUpdate) : Bool :=
  after.key.all (Budget.textMatches env (some n.key)) && after.name.all (Budget.textMatches env (some n.name)) &&
    after.active.all (· = some n.active) && after.color.all (Budget.textMatches env n.color) &&
    after.acceptedStateKeys.all (· = n.acceptedStateKeys) && after.deniedStateKeys.all (· = n.deniedStateKeys) &&
    after.hiddenInBudget.all (· = some n.hiddenInBudget) && after.viewGremiumId.all (· = n.viewGremiumId) &&
    after.decisionGremiumId.all (· = n.decisionGremiumId) && after.fiscalStartMonth.all (· = some n.fiscalStartMonth) &&
    after.fiscalStartDay.all (· = some n.fiscalStartDay)

def revertNodeCreate (k : Uuid) (d : Db) : Except Problem Db := do
  raiseUnless (d.nodes.any fun n => n.id = k) (.conflict (text "already_reverted"))
  deleteNode k d

def revertNodeUpdate (env : Env) (k : Uuid) (before after : BudgetNodeUpdate) (d : Db) : Except Problem Db := do
  raiseUnless (before ≠ {}) (.conflict (text "not_revertable"))
  let node ← ((d.nodes.find? fun n => n.id = k).map .ok).getD (.error (.conflict (text "already_reverted")))
  raiseUnless (notStale (d.booksEnv env) node after) (.conflict (text "stale_revert"))
  updateNode env k before d

def revertAudit (env : Env) (auditId : ℕ) (d : Db) : Except Problem Db :=
  match d.log[auditId]? with
  | none => .error (.notFound (text "audit entry"))
  | some (.nodeCreate k) => revertNodeCreate k d
  | some (.nodeUpdate k before after) => revertNodeUpdate env k before after d
  | some (.nodeDelete _) => .error (.conflict (text "not_revertable"))

end Revert

inductive Request where
  | createNode (payload : BudgetNodeCreate)
  | updateNode (budgetId : Uuid) (payload : BudgetNodeUpdate)
  | deleteNode (budgetId : Uuid)
  | revertNode (auditId : ℕ)
  | createFiscalYear (budgetId : Uuid) (payload : FiscalYearCreate)
  | updateFiscalYear (budgetId fiscalYearId : Uuid) (payload : FiscalYearUpdate)
  | deleteFiscalYear (budgetId fiscalYearId : Uuid)
  | setFiscalYearClosed (budgetId fiscalYearId : Uuid) (closed : Bool) (now : ℕ)
  | setAllocation (budgetId fiscalYearId : Uuid) (payload : Allocation.AllocationSet)
  | revertAllocation (auditId : ℕ)
  | book (r : Budget.Request)
  | assignBudget (applicationId : Uuid) (payload : AssignBudgetRequest)
  | moveFiscalYear (applicationId fiscalYearId : Uuid)
  | flowAssign (applicationId budgetId : Uuid) (fromField : Bool)
  | createApplication
  | deleteApplication (applicationId : Uuid)

def Request.handle (env : Env) : Request → Db → Except Problem Db
  | .createNode payload, d => BudgetTree.createNode env payload d
  | .updateNode k payload, d => BudgetTree.updateNode env k payload d
  | .deleteNode k, d => BudgetTree.deleteNode k d
  | .revertNode n, d => revertAudit env n d
  | .createFiscalYear k payload, d => BudgetTree.createFiscalYear k payload d
  | .updateFiscalYear k fy payload, d => BudgetTree.updateFiscalYear k fy payload d
  | .deleteFiscalYear k fy, d => BudgetTree.deleteFiscalYear k fy d
  | .setFiscalYearClosed k fy closed now, d => BudgetTree.setFiscalYearClosed k fy closed now d
  | .setAllocation k fy payload, d => d.allocate (Allocation.setAllocation (d.allocationEnv env) k fy payload)
  | .revertAllocation n, d => d.allocate (Allocation.revertAudit (d.allocationEnv env) n)
  | .book r, d => d.book env r
  | .assignBudget k payload, d => BudgetTree.assignBudget env k payload d
  | .moveFiscalYear k fy, d => BudgetTree.moveFiscalYear env k fy d
  | .flowAssign k b fromField, d => .ok (BudgetTree.flowAssign env k b fromField d)
  | .createApplication, d => .ok (BudgetTree.createApplication d)
  | .deleteApplication k, d => BudgetTree.deleteApplication k d

def step (p : Env × Request) (d : Db) : Option Db := (p.2.handle p.1 d).toOption

end BudgetTree
