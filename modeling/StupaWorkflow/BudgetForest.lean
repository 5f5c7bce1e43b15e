import Mathlib.Data.List.Sort
import StupaWorkflow.ApplicationAccess
import StupaWorkflow.PathForest
import StupaWorkflow.TreePaths

/-!
The budget tree as it is read: the forest of the cost centres with their figures per fiscal year,
the cut of it for a member of some Gremien, and the same access rule as a check of one node and as
a set of visible ids.
-/
namespace BudgetTree
open Py hiding Date
open Budget (Uuid Problem BudgetExpense)
open Allocation (isValidKey asAmount)
open PathTree (Rose)

/-- The keys of the tree: the rows carry the paths that their keys compose, and every key
is a valid segment. -/
structure PathKeyed (nodes : List Node) : Prop where
  keyed : PathTree.Keyed Node.id Node.parentId Node.key Node.pathKey 45 nodes
  valid : ∀ n ∈ nodes, isValidKey n.key = true

/-- An application in the tables that the view joins; an application has a current state
from its submission on. -/
structure ApplicationRow where
  id : Uuid
  budgetId : Option Uuid := none
  fiscalYearId : Option Uuid := none
  amount : Option ℚ := none
  approvedAmount : Option ℚ := none
  stateKey : Option Text := none
  deriving DecidableEq

structure AllocationView where
  fiscalYearId : Uuid
  allocated : ℚ
  bound : ℚ
  expended : ℚ
  income : ℚ
  committed : ℚ
  requested : ℚ
  available : ℚ
  deriving DecidableEq

structure NodeView extends Node where
  effectiveDecisionGremiumId : Option Uuid
  decisionGremiumSourceId : Option Uuid
  byFiscalYear : List AllocationView
  deriving DecidableEq

section Rollup

def isSelfOrDescendantPath (ancestorPath nodePath : Text) : Bool :=
  nodePath = ancestorPath || isDescendantPath ancestorPath nodePath

/-- A row of a rolled up figure: the year, the path of the cost centre and the amount. -/
abbrev LeafRow := Uuid × Text × Option ℚ

/-- The entries of a dict over nodes and years; the last one of a key counts. -/
abbrev Sums := List ((Uuid × Uuid) × ℚ)

/-- `sums.get((node_id, fy), 0)`. -/
def Sums.at (sums : Sums) (node year : Uuid) : ℚ :=
  ((sums.filter fun e => e.1 = (node, year)).getLast?.map fun e => e.2).getD 0

def rollupCommitted (nodePaths : List (Uuid × Text)) (leafAmounts : List (Text × Option ℚ)) : List (Uuid × ℚ) :=
  nodePaths.map fun n =>
    (n.1, ((leafAmounts.filter fun leaf => isSelfOrDescendantPath n.2 leaf.1).map fun leaf => asAmount leaf.2).sum)

def rollupByFy (nodePaths : List (Uuid × Text)) (rows : List LeafRow) : Sums :=
  (rows.map fun row => row.1).eraseDups.flatMap fun fy =>
    let leaves := (rows.filter fun row => row.1 = fy).map fun row => row.2
    ((rollupCommitted nodePaths leaves).filter fun e => e.2 ≠ 0).map fun e => ((e.1, fy), e.2)

def nodeAvailable (allocated : Option ℚ) (bound expended income : ℚ) : ℚ :=
  asAmount allocated - bound - expended + income

structure Tables where
  allocByNode : Sums
  boundByNode : Sums
  requestedByNode : Sums
  expendedByNode : Sums
  incomeByNode : Sums

def Tables.view (t : Tables) (node fy : Uuid) : AllocationView :=
  let allocated := t.allocByNode.at node fy
  let bound := t.boundByNode.at node fy
  let expended := t.expendedByNode.at node fy
  let income := t.incomeByNode.at node fy
  { fiscalYearId := fy, allocated := allocated, bound := bound, expended := expended, income := income
    committed := bound + expended, requested := t.requestedByNode.at node fy
    available := nodeAvailable (some allocated) bound expended income }

def Tables.years (t : Tables) (node : Uuid) : List Uuid :=
  let entries := t.allocByNode ++ t.boundByNode ++ t.requestedByNode ++ t.expendedByNode ++ t.incomeByNode
  ((entries.filter fun e => e.1.1 = node).map fun e => e.1.2).eraseDups

/-- `_views_for_node`. The texts of two ids stand in the order of the ids. -/
def Tables.viewsForNode (t : Tables) (node : Uuid) : List AllocationView :=
  ((t.years node).insertionSort (· ≤ ·)).map (t.view node)

end Rollup

section Forest

/-- `_decision_from`. Each step has seen one more node, so one step more than there are
nodes is enough. -/
def decisionFrom (nodes : List Node) : ℕ → Option Uuid → List Uuid → Option Uuid × Option Uuid
  | 0, _, _ => (none, none)
  | _ + 1, none, _ => (none, none)
  | steps + 1, some k, seen =>
    if k ∈ seen then (none, none)
    else match nodes.find? fun n => n.id = k with
      | none => (none, none)
      | some n => match n.decisionGremiumId with
        | some g => (some g, some k)
        | none => decisionFrom nodes steps n.parentId (k :: seen)

def resolveDecisionGremium (nodes : List Node) (k : Uuid) : Option Uuid × Option Uuid :=
  decisionFrom nodes (nodes.length + 1) (some k) []

/-- The rows that `build_forest` reads besides the nodes. -/
structure Figures where
  allocations : List (Uuid × Uuid × Option ℚ)
  boundRows : List LeafRow
  requestedRows : List LeafRow := []
  expendedRows : List LeafRow := []
  incomeRows : List LeafRow := []

def Figures.tables (f : Figures) (nodes : List Node) : Tables :=
  let nodePaths := nodes.map fun n => (n.id, n.pathKey)
  { allocByNode := f.allocations.map fun a => ((a.1, a.2.1), asAmount a.2.2)
    boundByNode := rollupByFy nodePaths f.boundRows
    requestedByNode := rollupByFy nodePaths f.requestedRows
    expendedByNode := rollupByFy nodePaths f.expendedRows
    incomeByNode := rollupByFy nodePaths f.incomeRows }

/-- `to_dict` without the children. -/
def nodeView (nodes : List Node) (tables : Tables) (n : Node) : NodeView :=
  { n with
    acceptedStateKeys := some (n.acceptedStateKeys.getD [])
    deniedStateKeys := some (n.deniedStateKeys.getD [])
    effectiveDecisionGremiumId := (resolveDecisionGremium nodes n.id).1
    decisionGremiumSourceId := (resolveDecisionGremium nodes n.id).2
    byFiscalYear := tables.viewsForNode n.id }

def buildForest (nodes : List Node) (f : Figures) (gremiumId : Option Uuid := none) : List (Rose NodeView) :=
  let roots := nodes.filter fun n => n.parentId = none
  (roots.filter fun r => gremiumId = none || r.gremiumId = gremiumId).map
    (PathTree.treeAt Node.id Node.parentId nodes (nodeView nodes (f.tables nodes)))

def NodeView.seenBy (gremiumIds : List Uuid) (v : NodeView) : Bool := v.viewGremiumId.any gremiumIds.contains

def scopeForest (forest : List (Rose NodeView)) (gremiumIds : List Uuid) : List (Rose NodeView) :=
  if gremiumIds.isEmpty then [] else forest.flatMap (Rose.outermost (NodeView.seenBy gremiumIds))

def forestIds (forest : List (Rose NodeView)) : List Uuid := (forest.flatMap Rose.labels).map fun v => v.id

end Forest

section Visibility

def Db.canViewNode (d : Db) (k : Uuid) (memberGremiumIds : List Uuid) : Except Problem Bool :=
  if memberGremiumIds.isEmpty then .ok false
  else do
    let node ← d.getNode k
    let rows := d.nodes.filter fun b => (Auth.pathPrefixes node.pathKey).contains b.pathKey
    return (rows.filterMap fun b => b.viewGremiumId).any memberGremiumIds.contains

def Db.visibleBudgetIds (d : Db) (memberGremiumIds : List Uuid) : List Uuid :=
  if memberGremiumIds.isEmpty then []
  else
    let rootPaths := (d.nodes.filter fun b => b.viewGremiumId.any memberGremiumIds.contains).map fun b => b.pathKey
    let rows := d.nodes.filter fun b =>
      rootPaths.any fun rp => b.pathKey = rp || Auth.like (rp ++ [Auth.pathSep, 37]) b.pathKey
    rows.map fun b => b.id

end Visibility

section View

/-- A segment in the natural order: a number stands before every other segment. -/
inductive Segment where
  | number (n : ℕ)
  | word (s : Text)
  deriving DecidableEq

def Segment.lt : Segment → Segment → Bool
  | .number m, .number n => m < n
  | .number _, .word _ => true
  | .word _, .number _ => false
  | .word s, .word t => s < t

def segmentsLt : List Segment → List Segment → Bool
  | [], [] => false
  | [], _ :: _ => true
  | _ :: _, [] => false
  | a :: as, b :: bs => if a = b then segmentsLt as bs else a.lt b

/-- `_natural_path_key`; `none` is the `ValueError` of `int`. -/
def naturalPathKey (pathKey : Text) : Option (List Segment) :=
  (splitOn 45 pathKey).mapM fun s => if isDigitText s then (intOfDigits s).map .number else some (.word s)

def pathKeyLe (a b : Text) : Bool := !segmentsLt ((naturalPathKey b).getD []) ((naturalPathKey a).getD [])

/-- `sorted(nodes, key=…)`. -/
def naturalOrder (nodes : List Node) : Option (List Node) :=
  if nodes.all fun n => (naturalPathKey n.pathKey).isSome then
    some (nodes.insertionSort fun a b => pathKeyLe a.pathKey b.pathKey)
  else none

/-- A row of the top-level bookings, with the path of its cost centre. -/
structure ExpenseRow where
  path : Text
  fiscalYearId : Uuid
  amount : ℚ
  kind : Budget.ExpenseKind
  applicationId : Option Uuid

def Db.expenseRows (d : Db) : List ExpenseRow :=
  (d.books.bookings.filter fun r => r.parentExpenseId = none).flatMap fun r =>
    (d.nodes.filter fun b => b.id = r.budgetId).map fun b =>
      ⟨b.pathKey, r.fiscalYearId, r.amount, r.kind, r.applicationId⟩

structure AppRow where
  id : Uuid
  path : Text
  fiscalYearId : Uuid
  amount : ℚ
  committed : ℚ
  stateKey : Text

def ApplicationRow.appRow (a : ApplicationRow) (path : Text) : Option AppRow := do
  let fiscalYearId ← a.fiscalYearId
  let amount ← a.amount
  let stateKey ← a.stateKey
  return ⟨a.id, path, fiscalYearId, amount, a.approvedAmount.getD amount, stateKey⟩

def Db.appRows (d : Db) (applications : List ApplicationRow) : List AppRow :=
  d.nodes.flatMap fun b => (applications.filter fun a => a.budgetId = some b.id).filterMap fun a => a.appRow b.pathKey

/-- `_spent_per_app`, read at one application; the rows are grouped by their application. -/
def spentPerApp (rows : List ExpenseRow) (application : Uuid) : ℚ :=
  ((rows.filter fun r => r.kind = .expense && r.applicationId = some application).map fun r => r.amount).sum

inductive Bucket where
  | bound
  | denied
  | requested
  deriving DecidableEq

def topConfig (nodes : List Node) (path : Text) : List Text × List Text :=
  ((nodes.filter fun n => n.parentId = none && n.pathKey = path).getLast?.map fun n =>
    (n.acceptedStateKeys.getD [], n.deniedStateKeys.getD [])).getD ([], [])

/-- `_share`: the bucket and the row of the share that is left. -/
def share (nodes : List Node) (spent : Uuid → ℚ) (row : AppRow) : Bucket × LeafRow :=
  let config := topConfig nodes (row.path.takeWhile (· ≠ 45))
  let bucket : Bucket :=
    if row.stateKey ∈ config.1 then .bound else if row.stateKey ∈ config.2 then .denied else .requested
  let base := if bucket = .bound then row.committed else row.amount
  (bucket, row.fiscalYearId, row.path, some (base - spent row.id))

def positiveRows (shares : List (Bucket × LeafRow)) (bucket : Bucket) : List LeafRow :=
  (shares.filter fun s => s.1 = bucket && asAmount s.2.2.2 > 0).map fun s => s.2

def ExpenseRow.leaf (r : ExpenseRow) : LeafRow := (r.fiscalYearId, r.path, some r.amount)

/-- The rows that the view hands to `build_forest`. -/
def Db.figures (d : Db) (applications : List ApplicationRow) (nodes : List Node) : Figures :=
  let shares := (d.appRows applications).map (share nodes (spentPerApp d.expenseRows))
  { allocations := d.allocations.map fun a => (a.budgetId, a.fiscalYearId, some a.allocated)
    boundRows := positiveRows shares .bound
    requestedRows := positiveRows shares .requested
    expendedRows := (d.expenseRows.filter fun r => r.kind = .expense).map ExpenseRow.leaf
    incomeRows := (d.expenseRows.filter fun r => r.kind = .income).map ExpenseRow.leaf }

/-- The view of the tree; without `visibleGremiumIds` the reader sees all of it. -/
def Db.getTree (d : Db) (applications : List ApplicationRow) (gremiumId : Option Uuid := none)
    (visibleGremiumIds : Option (List Uuid) := none) : Option (List (Rose NodeView)) := do
  let nodes ← naturalOrder d.nodes
  let forest := buildForest nodes (d.figures applications nodes) gremiumId
  return visibleGremiumIds.elim forest (scopeForest forest)

end View

end BudgetTree
