import StupaWorkflow.Decimals
import StupaWorkflow.PyText
import StupaWorkflow.Tables

/-!
The booking table of the budget tree: expenses and incomes, their sub-bookings, the transfers that
are a pair of bookings, and the audit log from which a booking operation can be reverted.
-/
namespace Budget
open Py Decimals

abbrev Uuid := ℕ
abbrev Date := ℕ

inductive ExpenseKind where
  | expense
  | income
  deriving DecidableEq

inductive PaymentMethod where
  | ueberweisung
  | bar
  | lastschrift
  | karte
  | paypal
  deriving DecidableEq

structure BudgetExpense where
  id : Uuid
  budgetId : Uuid
  fiscalYearId : Uuid
  applicationId : Option Uuid := none
  invoiceId : Option Uuid := none
  transferId : Option Uuid := none
  kind : ExpenseKind
  amount : ℚ
  currency : Text
  description : Text
  actor : Option Text
  invoiceDate : Option Date := none
  paymentDate : Option Date := none
  correspondent : Option Text := none
  note : Option Text := none
  referenceNumber : Option Text := none
  paymentMethod : Option PaymentMethod := none
  category : Option Text := none
  parentExpenseId : Option Uuid := none
  deriving DecidableEq

structure Node where
  id : Uuid
  parentId : Option Uuid
  pathKey : Text
  currency : Text
  deriving DecidableEq

structure FiscalYear where
  id : Uuid
  budgetId : Uuid
  startDate : Date
  endDate : Date
  active : Bool
  closedAt : Option ℕ
  deriving DecidableEq

structure Application where
  id : Uuid
  budgetId : Option Uuid
  fiscalYearId : Option Uuid
  deriving DecidableEq

/-- What a request reads besides the bookings: the other tables as they stand, the
day in the local time zone, and whether `Decimal` reads two texts as one number. -/
structure Env where
  nodes : List Node
  years : List FiscalYear
  applications : List Application
  invoices : List Uuid
  today : Date
  sameNumber : Text → Text → Bool

inductive Problem where
  | notFound (what : Text)
  | validation (code : Text)
  | conflict (code : Text)
  | integrity
  deriving DecidableEq

/-- A patch field that the payload leaves out, sets to null, or sets. -/
abbrev Patch (α : Type) := Option (Option α)

def Patch.write {α : Type} (p : Patch α) (old : Option α) : Option α := p.getD old

def Patch.writeRequired {α : Type} (p : Patch α) (old : α) : α := (p.getD none).getD old

structure ExpenseUpdate where
  amount : Patch ℚ := none
  description : Patch Text := none
  budgetId : Patch Uuid := none
  invoiceDate : Patch Date := none
  paymentDate : Patch Date := none
  correspondent : Patch Text := none
  note : Patch Text := none
  referenceNumber : Patch Text := none
  paymentMethod : Patch PaymentMethod := none
  category : Patch Text := none
  invoiceId : Patch Uuid := none
  deriving DecidableEq

structure TransferCreate where
  fromBudgetId : Uuid
  toBudgetId : Uuid
  fiscalYearId : Uuid
  amount : ℚ
  description : Text
  deriving DecidableEq

structure TransferUpdate where
  amount : Patch ℚ := none
  description : Patch Text := none
  note : Patch Text := none
  invoiceDate : Patch Date := none
  paymentDate : Patch Date := none
  fromBudgetId : Patch Uuid := none
  toBudgetId : Patch Uuid := none
  deriving DecidableEq

structure SubBookingCreate where
  amount : ℚ
  description : Text
  invoiceDate : Option Date := none
  paymentDate : Option Date := none
  correspondent : Option Text := none
  note : Option Text := none
  referenceNumber : Option Text := none
  paymentMethod : Option PaymentMethod := none
  category : Option Text := none
  deriving DecidableEq

structure ExpenseCreate extends SubBookingCreate where
  kind : ExpenseKind := .expense
  budgetId : Option Uuid := none
  fiscalYearId : Option Uuid := none
  applicationId : Option Uuid := none
  invoiceId : Option Uuid := none
  deriving DecidableEq

/-- The audit entries of the booking operations. An update of a booking records the
patched fields before and after; the update of a transfer records its prior values
under another key, so that it has neither. -/
inductive AuditEntry where
  | expenseCreate (target : Uuid)
  | transferCreate (target : Uuid)
  | expenseUpdate (target : Uuid) (states : Option (ExpenseUpdate × ExpenseUpdate))
  | expenseDelete (target : Uuid)
  deriving DecidableEq

/-- `next` is where `uuid4` goes on: it never returns an id twice. -/
structure Db where
  bookings : List BudgetExpense
  log : List AuditEntry
  next : Uuid
  deriving DecidableEq

def emptyDb : Db := ⟨[], [], 0⟩

section Columns

/-- `Field(gt=0, le=_MAX_AMOUNT)`. -/
def amountField (a : ℚ) : Except Problem Unit := raiseUnless (0 < a && a ≤ maxAmount) (.validation (text "amount"))

/-- `Field(min_length=1)`. -/
def descriptionField (s : Text) : Except Problem Unit := raiseUnless (!s.isEmpty) (.validation (text "description"))

def optionalField {α : Type} (p : Patch α) (check : α → Except Problem Unit) : Except Problem Unit :=
  match p with
  | some (some a) => check a
  | _ => .ok ()

def BudgetExpense.stored (r : BudgetExpense) : BudgetExpense := { r with amount := cents r.amount }

def BudgetExpense.checked (r : BudgetExpense) : Except Problem BudgetExpense := do
  raiseUnless (0 < r.stored.amount && r.stored.amount ≤ maxAmount && r.currency == text "EUR") .integrity
  return r.stored

end Columns

section Lookups

def getNode (env : Env) (k : Uuid) : Except Problem Node :=
  ((env.nodes.find? fun n => n.id = k).map .ok).getD (.error (.notFound (text "budget")))

def getFiscalYear (env : Env) (k : Uuid) : Except Problem FiscalYear :=
  ((env.years.find? fun y => y.id = k).map .ok).getD (.error (.notFound (text "fiscal year")))

def refuseClosed (fy : FiscalYear) : Except Problem Unit :=
  raiseUnless fy.closedAt.isNone (.conflict (text "fiscal_year_closed"))

def requireOpenFiscalYear (env : Env) (k : Uuid) : Except Problem Unit :=
  match env.years.find? fun y => y.id = k with
  | some fy => refuseClosed fy
  | none => .ok ()

def topLevel (env : Env) (node : Node) : Except Problem Node :=
  let top := node.pathKey.takeWhile (· ≠ 45)
  ((env.nodes.find? fun n => n.pathKey = top && n.parentId.isNone).map .ok).getD
    (.error (.notFound (text "top-level budget")))

def pickFiscalYear (candidates : List FiscalYear) (today : Date) : Option Uuid :=
  match candidates, candidates.filter fun y => y.startDate ≤ today && today ≤ y.endDate with
  | [only], _ => some only.id
  | _, [only] => some only.id
  | _, _ => none

def resolveFiscalYear (env : Env) (node : Node) (fiscalYearId : Option Uuid) : Except Problem Uuid := do
  let top ← topLevel env node
  match fiscalYearId with
  | some k =>
    let fy ← getFiscalYear env k
    raiseUnless (fy.budgetId = top.id) (.validation (text "fiscalYearId"))
    refuseClosed fy
    return fy.id
  | none =>
    let candidates := env.years.filter fun y => y.budgetId = top.id && y.active && y.closedAt.isNone
    match pickFiscalYear candidates env.today with
    | some k => return k
    | none => .error (.validation (text "fiscalYearId"))

def requireInvoice (env : Env) (k : Uuid) : Except Problem Unit :=
  raiseUnless (env.invoices.contains k) (.notFound (text "invoice"))

def Db.get (d : Db) (k : Uuid) : Option BudgetExpense := d.bookings.find? fun r => r.id = k

def Db.legs (d : Db) (t : Uuid) : List BudgetExpense := d.bookings.filter fun r => r.transferId = some t

def Db.children (d : Db) (k : Uuid) : List BudgetExpense := d.bookings.filter fun r => r.parentExpenseId = some k

end Lookups

section Statements

def Db.insert (d : Db) (r : BudgetExpense) : Except Problem Db := do
  let r ← r.checked
  return { d with bookings := d.bookings ++ [r] }

def Db.save (d : Db) (r : BudgetExpense) : Except Problem Db := do
  let r ← r.checked
  return { d with bookings := Table.modify BudgetExpense.id r.id (fun _ => r) d.bookings }

def Db.delete (d : Db) (k : Uuid) : Db :=
  { d with bookings := d.bookings.filter fun r => r.id ≠ k && r.parentExpenseId ≠ some k }

def Db.deleteAll (d : Db) (rows : List BudgetExpense) : Db := rows.foldl (fun d r => d.delete r.id) d

def Db.audit (d : Db) (entry : AuditEntry) : Db := { d with log := d.log ++ [entry] }

/-- The amount of a booking with sub-bookings is their sum; without any it stays. -/
def Db.recomputeParentAmount (d : Db) (parentId : Uuid) : Except Problem Db :=
  let amount := ((d.children parentId).map BudgetExpense.amount).sum
  match if 0 < amount then d.get parentId else none with
  | some parent => d.save { parent with amount := amount }
  | none => .ok d

end Statements

section Bookings

def bookingTarget (env : Env) (payload : ExpenseCreate) : Except Problem (Node × Uuid) :=
  match payload.applicationId with
  | some k =>
    match env.applications.find? fun a => a.id = k with
    | none => .error (.notFound (text "application"))
    | some app =>
      match app.budgetId, app.fiscalYearId with
      | some b, some fy => do
          let node ← getNode env b
          requireOpenFiscalYear env fy
          return (node, fy)
      | _, _ => .error (.validation (text "applicationId"))
  | none =>
    match payload.budgetId with
    | none => .error (.validation (text "budgetId"))
    | some b => do
        let node ← getNode env b
        let fy ← resolveFiscalYear env node payload.fiscalYearId
        return (node, fy)

def ExpenseCreate.check (payload : ExpenseCreate) : Except Problem Unit := do
  amountField payload.amount
  descriptionField payload.description
  raiseUnless (!(payload.kind = .income && payload.applicationId.isSome)) (.validation (text "applicationId"))

/-- `book_expense`; `create_expense` takes the cost centre from the path. -/
def createExpense (env : Env) (payload : ExpenseCreate) (actor : Text) (d : Db) : Except Problem Db := do
  payload.check
  let (node, fy) ← bookingTarget env payload
  optionalField (some payload.invoiceId) (requireInvoice env)
  let d' ← d.insert {
    id := d.next, budgetId := node.id, fiscalYearId := fy, applicationId := payload.applicationId,
    kind := payload.kind, amount := payload.amount, currency := node.currency,
    description := payload.description, actor := some actor, invoiceDate := payload.invoiceDate,
    paymentDate := payload.paymentDate, correspondent := payload.correspondent, note := payload.note,
    referenceNumber := payload.referenceNumber, paymentMethod := payload.paymentMethod,
    category := payload.category, invoiceId := payload.invoiceId }
  return { d' with next := d.next + 1 }.audit (.expenseCreate d.next)

/-- The row that an expense patch leaves; a move takes the currency of its target over. -/
def BudgetExpense.patched (e : BudgetExpense) (payload : ExpenseUpdate) (target : Option Node) : BudgetExpense :=
  { e with
    amount := payload.amount.writeRequired e.amount
    description := payload.description.writeRequired e.description
    budgetId := (target.map Node.id).getD e.budgetId
    currency := (target.map Node.currency).getD e.currency
    invoiceDate := payload.invoiceDate.write e.invoiceDate
    paymentDate := payload.paymentDate.write e.paymentDate
    correspondent := payload.correspondent.write e.correspondent
    note := payload.note.write e.note
    referenceNumber := payload.referenceNumber.write e.referenceNumber
    paymentMethod := payload.paymentMethod.write e.paymentMethod
    category := payload.category.write e.category
    invoiceId := payload.invoiceId.write e.invoiceId }

def ExpenseUpdate.read (payload : ExpenseUpdate) (e : BudgetExpense) : ExpenseUpdate where
  amount := payload.amount.map fun _ => some e.amount
  description := payload.description.map fun _ => some e.description
  budgetId := payload.budgetId.map fun _ => some e.budgetId
  invoiceDate := payload.invoiceDate.map fun _ => e.invoiceDate
  paymentDate := payload.paymentDate.map fun _ => e.paymentDate
  correspondent := payload.correspondent.map fun _ => e.correspondent
  note := payload.note.map fun _ => e.note
  referenceNumber := payload.referenceNumber.map fun _ => e.referenceNumber
  paymentMethod := payload.paymentMethod.map fun _ => e.paymentMethod
  category := payload.category.map fun _ => e.category
  invoiceId := payload.invoiceId.map fun _ => e.invoiceId

def ExpenseUpdate.check (payload : ExpenseUpdate) : Except Problem Unit := do
  optionalField payload.amount amountField
  optionalField payload.description descriptionField
  raiseUnless (payload ≠ {}) (.validation (text "at least one field required"))

def moveTarget (env : Env) (payload : ExpenseUpdate) (fiscalYearId : Uuid) : Except Problem (Option Node) :=
  match payload.budgetId with
  | some (some b) => do
      let node ← getNode env b
      let _ ← resolveFiscalYear env node (some fiscalYearId)
      return some node
  | _ => .ok none

def updateExpense (env : Env) (expenseId : Uuid) (payload : ExpenseUpdate) (d : Db) : Except Problem Db := do
  payload.check
  match d.get expenseId with
  | none => .error (.notFound (text "budget expense"))
  | some expense =>
    requireOpenFiscalYear env expense.fiscalYearId
    raiseUnless (!((payload.amount.getD none).isSome && !(d.children expenseId).isEmpty))
      (.validation (text "subbooking_parent_amount_readonly"))
    raiseUnless (!(expense.parentExpenseId.isSome && payload.budgetId.isSome))
      (.validation (text "subbooking_inherited_field"))
    let target ← moveTarget env payload expense.fiscalYearId
    optionalField payload.invoiceId (requireInvoice env)
    let changed := expense.patched payload target
    let d' ← d.save changed
    let d'' := d'.audit (.expenseUpdate expenseId (some (payload.read expense, payload.read changed)))
    match expense.parentExpenseId, payload.amount with
    | some parent, some _ => d''.recomputeParentAmount parent
    | _, _ => return d''

def deleteExpense (env : Env) (expenseId : Uuid) (d : Db) : Except Problem Db :=
  match d.get expenseId with
  | none => .error (.notFound (text "budget expense"))
  | some expense => do
      requireOpenFiscalYear env expense.fiscalYearId
      let d' := (match expense.transferId with
        | some t => d.deleteAll (d.legs t)
        | none => d.delete expenseId).audit (.expenseDelete expenseId)
      match expense.parentExpenseId with
      | some parent => d'.recomputeParentAmount parent
      | none => return d'

def createSubBooking (env : Env) (parentId : Uuid) (payload : SubBookingCreate) (actor : Text) (d : Db) :
    Except Problem Db := do
  amountField payload.amount
  descriptionField payload.description
  match d.get parentId with
  | none => .error (.notFound (text "budget expense"))
  | some parent =>
    raiseUnless parent.parentExpenseId.isNone (.validation (text "subbooking_nested"))
    raiseUnless parent.transferId.isNone (.validation (text "subbooking_on_transfer"))
    requireOpenFiscalYear env parent.fiscalYearId
    let d' ← d.insert {
      id := d.next, budgetId := parent.budgetId, fiscalYearId := parent.fiscalYearId, kind := parent.kind,
      currency := parent.currency, parentExpenseId := some parent.id, amount := payload.amount,
      description := payload.description, invoiceDate := payload.invoiceDate, paymentDate := payload.paymentDate,
      correspondent := payload.correspondent, note := payload.note, referenceNumber := payload.referenceNumber,
      paymentMethod := payload.paymentMethod, category := payload.category, actor := some actor }
    let d'' ← { d' with next := d.next + 1 }.recomputeParentAmount parentId
    return d''.audit (.expenseCreate d.next)

end Bookings

section Transfers

def TransferCreate.check (payload : TransferCreate) : Except Problem Unit := do
  amountField payload.amount
  descriptionField payload.description
  raiseUnless (payload.fromBudgetId ≠ payload.toBudgetId) (.validation (text "from and to cost centre must differ"))

def transferLeg (payload : TransferCreate) (actor : Text) (t : Uuid) (k : Uuid) (kind : ExpenseKind) (node : Node)
    (fy : Uuid) : BudgetExpense where
  id := k
  budgetId := node.id
  fiscalYearId := fy
  transferId := some t
  kind := kind
  amount := payload.amount
  currency := node.currency
  description := payload.description
  actor := some actor

def createTransfer (env : Env) (payload : TransferCreate) (actor : Text) (d : Db) : Except Problem Db := do
  payload.check
  let src ← getNode env payload.fromBudgetId
  let dst ← getNode env payload.toBudgetId
  let fySrc ← resolveFiscalYear env src (some payload.fiscalYearId)
  let fyDst ← resolveFiscalYear env dst (some payload.fiscalYearId)
  raiseUnless (fySrc = fyDst) (.validation (text "fiscalYearId"))
  let t := d.next
  let d' ← d.insert (transferLeg payload actor t (t + 1) .expense src fySrc)
  let d'' ← d'.insert (transferLeg payload actor t (t + 2) .income dst fyDst)
  return { d'' with next := t + 3 }.audit (.transferCreate t)

def Db.transferLegs (d : Db) (t : Uuid) : Except Problem (BudgetExpense × BudgetExpense) :=
  match (d.legs t).find? fun r => r.kind = .expense, (d.legs t).find? fun r => r.kind = .income with
  | some out, some income => .ok (out, income)
  | _, _ => .error (.notFound (text "budget transfer"))

def transferPairChanged (currentFrom currentTo : Uuid) (requestedFrom requestedTo : Option Uuid) : Bool :=
  (requestedFrom.isSome && requestedFrom ≠ some currentFrom) || (requestedTo.isSome && requestedTo ≠ some currentTo)

def TransferUpdate.check (payload : TransferUpdate) : Except Problem Unit := do
  optionalField payload.amount amountField
  optionalField payload.description descriptionField
  raiseUnless (payload ≠ {}) (.validation (text "at least one field required"))

def TransferUpdate.applyTo (payload : TransferUpdate) (amount : ℚ) (description : Text) (e : BudgetExpense) :
    BudgetExpense :=
  { e with
    amount := amount
    description := description
    note := payload.note.write e.note
    invoiceDate := payload.invoiceDate.write e.invoiceDate
    paymentDate := payload.paymentDate.write e.paymentDate }

def Patch.column {α : Type} (p : Patch α) (old : α) : Except Problem α :=
  match p with
  | none => .ok old
  | some (some a) => .ok a
  | some none => .error .integrity

def TransferUpdate.patched (payload : TransferUpdate) (e : BudgetExpense) : Except Problem BudgetExpense := do
  let amount ← payload.amount.column e.amount
  let description ← payload.description.column e.description
  return payload.applyTo amount description e

def updateTransfer (env : Env) (t : Uuid) (payload : TransferUpdate) (d : Db) : Except Problem Db := do
  payload.check
  let (out, income) ← d.transferLegs t
  requireOpenFiscalYear env out.fiscalYearId
  raiseUnless (!transferPairChanged out.budgetId income.budgetId (payload.fromBudgetId.getD none)
    (payload.toBudgetId.getD none)) (.conflict (text "transfer_cost_centres_immutable"))
  let out' ← payload.patched out
  let income' ← payload.patched income
  let d' ← d.save out'
  let d'' ← d'.save income'
  return d''.audit (.expenseUpdate t none)

def deleteTransfer (env : Env) (t : Uuid) (d : Db) : Except Problem Db := do
  let (out, income) ← d.transferLegs t
  requireOpenFiscalYear env out.fiscalYearId
  return (d.deleteAll [out, income]).audit (.expenseDelete t)

end Transfers

section Revert

def textMatches (env : Env) (current expected : Option Text) : Bool :=
  current = expected || match current, expected with
    | some a, some b => env.sameNumber a b
    | _, _ => false

def notStale (env : Env) (e : BudgetExpense) (after : ExpenseUpdate) : Bool :=
  after.amount.all (· = some e.amount) && after.description.all (textMatches env (some e.description)) &&
    after.budgetId.all (· = some e.budgetId) && after.invoiceDate.all (· = e.invoiceDate) &&
    after.paymentDate.all (· = e.paymentDate) && after.correspondent.all (textMatches env e.correspondent) &&
    after.note.all (textMatches env e.note) && after.referenceNumber.all (textMatches env e.referenceNumber) &&
    after.paymentMethod.all (· = e.paymentMethod) && after.category.all (textMatches env e.category) &&
    after.invoiceId.all (· = e.invoiceId)

def revertExpenseCreate (env : Env) (expenseId : Uuid) (d : Db) : Except Problem Db :=
  match d.get expenseId with
  | none => .error (.conflict (text "already_reverted"))
  | some expense => do
      requireOpenFiscalYear env expense.fiscalYearId
      return (d.delete expenseId).audit (.expenseDelete expenseId)

def revertTransferCreate (env : Env) (t : Uuid) (d : Db) : Except Problem Db :=
  match d.legs t with
  | [] => .error (.conflict (text "already_reverted"))
  | first :: _ => do
      requireOpenFiscalYear env first.fiscalYearId
      return (d.deleteAll (d.legs t)).audit (.expenseDelete t)

def revertExpenseUpdate (env : Env) (expenseId : Uuid) (states : Option (ExpenseUpdate × ExpenseUpdate)) (d : Db) :
    Except Problem Db :=
  match states with
  | none => .error (.conflict (text "not_revertable"))
  | some (before, after) =>
    match d.get expenseId with
    | none => .error (.conflict (text "already_reverted"))
    | some expense => do
        raiseUnless (notStale env expense after) (.conflict (text "stale_revert"))
        updateExpense env expenseId before d

def revertAudit (env : Env) (auditId : ℕ) (d : Db) : Except Problem Db :=
  match d.log[auditId]? with
  | none => .error (.notFound (text "audit entry"))
  | some (.expenseCreate k) => revertExpenseCreate env k d
  | some (.transferCreate t) => revertTransferCreate env t d
  | some (.expenseUpdate k states) => revertExpenseUpdate env k states d
  | some (.expenseDelete _) => .error (.conflict (text "not_revertable"))

end Revert

inductive Request where
  | createTransfer (payload : TransferCreate) (actor : Text)
  | updateTransfer (t : Uuid) (payload : TransferUpdate)
  | deleteTransfer (t : Uuid)
  | createExpense (payload : ExpenseCreate) (actor : Text)
  | updateExpense (expenseId : Uuid) (payload : ExpenseUpdate)
  | deleteExpense (expenseId : Uuid)
  | createSubBooking (parentId : Uuid) (payload : SubBookingCreate) (actor : Text)
  | revertAudit (auditId : ℕ)

def Request.handle (env : Env) : Request → Db → Except Problem Db
  | .createTransfer payload actor => Budget.createTransfer env payload actor
  | .updateTransfer t payload => Budget.updateTransfer env t payload
  | .deleteTransfer t => Budget.deleteTransfer env t
  | .createExpense payload actor => Budget.createExpense env payload actor
  | .updateExpense k payload => Budget.updateExpense env k payload
  | .deleteExpense k => Budget.deleteExpense env k
  | .createSubBooking k payload actor => Budget.createSubBooking env k payload actor
  | .revertAudit n => Budget.revertAudit env n

def run : List (Env × Request) → Db → Except Problem Db
  | [], d => .ok d
  | (env, r) :: rest, d => r.handle env d >>= run rest

end Budget
