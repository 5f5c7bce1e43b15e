import Mathlib.Data.List.Sort
import StupaWorkflow.PyText
import StupaWorkflow.Tables

/-!
To-do boards: columns in a free order, one of them the done column, and cards that carry the time
of their completion.
-/
namespace Todo
open Py

abbrev Uuid := ℕ
abbrev Time := ℕ

inductive BoardKind where
  | gremium
  | personal
  | team
  deriving DecidableEq

structure TodoBoard where
  id : Uuid
  kind : BoardKind
  ownerId : Option Uuid := none
  gremiumId : Option Uuid := none
  deriving DecidableEq

structure TodoColumn where
  id : Uuid
  boardId : Uuid
  name : Text
  position : ℕ
  isDone : Bool
  deriving DecidableEq

structure TodoCard where
  id : Uuid
  boardId : Uuid
  columnId : Uuid
  completedAt : Option Time
  archivedAt : Option Time := none
  deriving DecidableEq

/-- `next` is where `uuid4` goes on: it never returns an id twice. -/
structure Db where
  boards : List TodoBoard
  columns : List TodoColumn
  cards : List TodoCard
  next : Uuid
  deriving DecidableEq

def emptyDb : Db := ⟨[], [], [], 0⟩

inductive Problem where
  | notFound (what : Text)
  | forbidden (code : Text)
  | validation (code : Text)
  | conflict (code : Text)
  deriving DecidableEq

/-- What a request reads besides the boards: the rights of the caller, the clock, and a refusal of
the parts of the payload that no column depends on (assignees, labels, links, event data,
neighbours in the column). -/
structure Env where
  canRead : Uuid → Bool
  canWrite : Uuid → Bool
  canConfigure : Uuid → Bool
  now : Time
  refused : Option Problem

def Env.accept (env : Env) : Except Problem Unit :=
  match env.refused with
  | none => .ok ()
  | some e => .error e

section Lookups

def Db.getBoard (d : Db) (k : Uuid) : Option TodoBoard := d.boards.find? fun b => b.id = k

def Db.getColumn (d : Db) (k : Uuid) : Option TodoColumn := d.columns.find? fun c => c.id = k

def Db.getCard (d : Db) (k : Uuid) : Option TodoCard := d.cards.find? fun c => c.id = k

/-- `ORDER BY position, id`. -/
def TodoColumn.before (a b : TodoColumn) : Prop := a.position < b.position ∨ (a.position = b.position ∧ a.id ≤ b.id)

instance (a b : TodoColumn) : Decidable (a.before b) :=
  inferInstanceAs (Decidable (a.position < b.position ∨ (a.position = b.position ∧ a.id ≤ b.id)))

def Db.columnsOf (d : Db) (boardId : Uuid) : List TodoColumn :=
  (d.columns.filter fun c => c.boardId = boardId).insertionSort TodoColumn.before

def Db.columnCards (d : Db) (columnId : Uuid) : List TodoCard := d.cards.filter fun c => c.columnId = columnId

def orRaise {α : Type} (x : Option α) (e : Problem) : Except Problem α :=
  match x with
  | some a => .ok a
  | none => .error e

/-- A readable board, else 404; `write` also needs the write right. -/
def Db.board (d : Db) (env : Env) (k : Uuid) (write : Bool) : Except Problem TodoBoard := do
  let board ← orRaise (d.getBoard k) (.notFound (text "board"))
  raiseUnless (env.canRead k) (.notFound (text "board"))
  raiseUnless (!write || env.canWrite k) (.forbidden (text "todo_write_required"))
  return board

def Db.configurable (d : Db) (env : Env) (k : Uuid) : Except Problem TodoBoard := do
  let board ← d.board env k false
  raiseUnless (env.canConfigure k) (.forbidden (text "todo_configure_required"))
  return board

def Db.card (d : Db) (env : Env) (k : Uuid) : Except Problem (TodoCard × TodoBoard) := do
  let card ← orRaise (d.getCard k) (.notFound (text "card"))
  let board ← d.board env card.boardId true
  return (card, board)

def Db.column (d : Db) (board : TodoBoard) (columnId : Uuid) : Except Problem TodoColumn := do
  let column ← orRaise (d.getColumn columnId) (.notFound (text "column"))
  raiseUnless (column.boardId = board.id) (.notFound (text "column"))
  return column

def pickColumn (columns : List TodoColumn) (columnId : Option Uuid) : Except Problem TodoColumn :=
  match columnId with
  | none => orRaise columns.head? (.notFound (text "column"))
  | some k => orRaise (columns.find? fun c => c.id = k) (.validation (text "column_not_on_board"))

end Lookups

section Writes

def Db.mapCards (d : Db) (f : TodoCard → TodoCard) : Db := { d with cards := d.cards.map f }

def Db.setCard (d : Db) (card : TodoCard) : Db :=
  { d with cards := Table.modify TodoCard.id card.id (fun _ => card) d.cards }

/-- `completed_at` of a card that enters a column: a new time, the old one, or none. -/
def TodoCard.enters (card : TodoCard) (column : TodoColumn) (completedAt : Option Time) : TodoCard :=
  { card with columnId := column.id, completedAt := if column.isDone then completedAt else none }

def Db.renumber (d : Db) (boardId : Uuid) (order : List Uuid) : Db :=
  { d with columns := d.columns.map fun c => if c.boardId = boardId then { c with position := order.idxOf c.id } else c }

end Writes

section Boards

/-- `Offen, In Arbeit, Wartet, Erledigt`; the last one is the done column. -/
def defaultColumns (boardId first : Uuid) : List TodoColumn :=
  [⟨first, boardId, text "Offen", 0, false⟩, ⟨first + 1, boardId, text "In Arbeit", 1, false⟩,
    ⟨first + 2, boardId, text "Wartet", 2, false⟩, ⟨first + 3, boardId, text "Erledigt", 3, true⟩]

def Db.addBoard (d : Db) (board : TodoBoard) : Db :=
  { d with boards := d.boards ++ [board], columns := d.columns ++ defaultColumns board.id (d.next + 1)
           next := d.next + 5 }

def ensureGremiumBoard (gremiumId : Uuid) (d : Db) : Except Problem Db :=
  if d.boards.any fun b => b.gremiumId = some gremiumId then .ok d
  else .ok (d.addBoard ⟨d.next, .gremium, none, some gremiumId⟩)

def ensurePersonalBoard (ownerId : Uuid) (d : Db) : Except Problem Db :=
  if d.boards.any fun b => b.ownerId = some ownerId then .ok d
  else .ok (d.addBoard ⟨d.next, .personal, some ownerId, none⟩)

def addTeamBoard (d : Db) : Except Problem Db := .ok (d.addBoard ⟨d.next, .team, none, none⟩)

end Boards

section Columns

/-- `name.strip() or fallback`. -/
def strippedOr (name fallback : Text) : Text := if strip name = [] then fallback else strip name

def addColumn (env : Env) (boardId : Uuid) (name : Text) (d : Db) : Except Problem Db := do
  let board ← d.configurable env boardId
  let columns := d.columnsOf board.id
  let position := match (columns.map TodoColumn.position).max? with
    | some last => last + 1
    | none => 0
  return { d with columns := d.columns ++ [⟨d.next, board.id, strippedOr name name, position, false⟩], next := d.next + 1 }

/-- `is_done = True` moves the flag; the cards of both columns follow, archived ones too. -/
def Db.moveDone (d : Db) (board : TodoBoard) (column : TodoColumn) (now : Time) : Db :=
  let old := (d.columns.filter fun c => c.boardId = board.id && c.isDone).map TodoColumn.id
  let cleared := d.mapCards fun card => if card.columnId ∈ old then { card with completedAt := none } else card
  let flag := fun c : TodoColumn =>
    if c.id = column.id then { c with isDone := true } else if c.id ∈ old then { c with isDone := false } else c
  { cleared with columns := d.columns.map flag }.mapCards fun card =>
    if card.columnId = column.id then { card with completedAt := some (card.completedAt.getD now) } else card

def patchColumn (env : Env) (boardId columnId : Uuid) (name : Option Text) (isDone : Bool) (d : Db) :
    Except Problem Db := do
  let board ← d.configurable env boardId
  let column ← d.column board columnId
  let rename := fun c : TodoColumn => { c with name := name.elim c.name fun new => strippedOr new c.name }
  let renamed := { d with columns := Table.modify TodoColumn.id column.id rename d.columns }
  return if isDone && !column.isDone then renamed.moveDone board column env.now else renamed

def orderColumns (env : Env) (boardId : Uuid) (columnIds : List Uuid) (d : Db) : Except Problem Db := do
  let board ← d.configurable env boardId
  let ids := (d.columnsOf board.id).map TodoColumn.id
  raiseUnless (columnIds.length = ids.length && columnIds.all ids.contains && ids.all columnIds.contains)
    (.validation (text "columnIds"))
  return d.renumber board.id columnIds

def moveCards (env : Env) (board : TodoBoard) (column : TodoColumn) (moveTo : Option Uuid) (d : Db) :
    Except Problem Db :=
  if (d.columnCards column.id).isEmpty then .ok d
  else
    match moveTo with
    | none => .error (.conflict (text "column_not_empty"))
    | some k => do
        let target ← orRaise (d.getColumn k) (.validation (text "moveTo"))
        raiseUnless (target.boardId = board.id && target.id ≠ column.id) (.validation (text "moveTo"))
        return d.mapCards fun card =>
          if card.columnId = column.id then
            { card with
              columnId := target.id
              completedAt := if target.isDone then some (card.completedAt.getD env.now) else card.completedAt }
          else card

def deleteColumn (env : Env) (boardId columnId : Uuid) (moveTo : Option Uuid) (d : Db) : Except Problem Db := do
  let board ← d.configurable env boardId
  let column ← d.column board columnId
  raiseUnless (!column.isDone) (.conflict (text "done_column_required"))
  let moved ← moveCards env board column moveTo d
  let left := { moved with columns := moved.columns.filter fun c => c.id ≠ column.id }
  return left.renumber board.id ((left.columnsOf board.id).map TodoColumn.id)

end Columns

section Cards

def create (env : Env) (boardId : Uuid) (columnId : Option Uuid) (d : Db) : Except Problem Db := do
  let board ← d.board env boardId true
  let column ← pickColumn (d.columnsOf board.id) columnId
  env.accept
  let card : TodoCard := ⟨d.next, board.id, column.id, if column.isDone then some env.now else none, none⟩
  return { d with cards := d.cards ++ [card], next := d.next + 1 }

def move (env : Env) (cardId columnId : Uuid) (d : Db) : Except Problem Db := do
  let (card, board) ← d.card env cardId
  let target ← pickColumn (d.columnsOf board.id) (some columnId)
  env.accept
  return if target.id = card.columnId then d else d.setCard (card.enters target (some env.now))

def transfer (env : Env) (cardId boardId : Uuid) (columnId : Option Uuid) (d : Db) : Except Problem Db := do
  let (card, source) ← d.card env cardId
  raiseUnless (boardId ≠ source.id) (.validation (text "transfer_same_board"))
  let target ← d.board env boardId true
  raiseUnless (source.kind = .personal || target.kind ≠ .personal) (.forbidden (text "transfer_to_personal"))
  raiseUnless card.archivedAt.isNone (.conflict (text "card_archived"))
  let column ← pickColumn (d.columnsOf target.id) columnId
  env.accept
  return d.setCard { card.enters column (some (card.completedAt.getD env.now)) with boardId := target.id }

def complete (env : Env) (cardId : Uuid) (d : Db) : Except Problem Db :=
  match d.getCard cardId with
  | none => .error (.notFound (text "card"))
  | some card =>
    match (d.columnsOf card.boardId).find? TodoColumn.isDone with
    | none => .ok d
    | some done =>
      if card.columnId = done.id || card.archivedAt.isSome then .ok d
      else .ok (d.setCard (card.enters done (some env.now)))

def archiveCard (env : Env) (cardId : Uuid) (d : Db) : Except Problem Db := do
  let (card, _) ← d.card env cardId
  return if card.archivedAt.isNone then d.setCard { card with archivedAt := some env.now } else d

def restoreCard (env : Env) (cardId : Uuid) (d : Db) : Except Problem Db := do
  let (card, _) ← d.card env cardId
  let completedAt := if (d.getColumn card.columnId).any TodoColumn.isDone then some env.now else card.completedAt
  return if card.archivedAt.isSome then d.setCard { card with archivedAt := none, completedAt := completedAt } else d

end Cards

section Merge

def Db.targets (d : Db) (boardId : Uuid) : Except Problem (TodoColumn × TodoColumn) := do
  let columns := d.columnsOf boardId
  let done ← orRaise (columns.find? TodoColumn.isDone) (.notFound (text "done column"))
  let first ← orRaise columns.head? (.notFound (text "column"))
  return (first, done)

/-- `fold_personal_board`: a card in the done column goes to the done column, every other
card to the first one; then the board goes, with its columns. -/
def foldPersonalBoard (sourceId targetId : Uuid) (d : Db) : Except Problem Db := do
  let (first, done) ← d.targets targetId
  let moved := d.mapCards fun card =>
    if card.boardId = sourceId then
      let column := if (d.getColumn card.columnId).any TodoColumn.isDone then done else first
      { card with boardId := targetId, columnId := column.id }
    else card
  return { moved with
    boards := moved.boards.filter fun b => b.id ≠ sourceId
    columns := moved.columns.filter fun c => c.boardId ≠ sourceId }

def Db.personalBoard (d : Db) (owner : Uuid) : Option TodoBoard :=
  d.boards.find? fun b => b.kind = .personal && b.ownerId = some owner

/-- The boards of an account merge: the one of the source changes its owner or is folded. -/
def mergeBoards (source target : Uuid) (d : Db) : Except Problem Db :=
  if source = target then .error (.validation (text "same principal"))
  else
    match d.personalBoard source, d.personalBoard target with
    | none, _ => .ok d
    | some mine, none =>
      .ok { d with boards := Table.modify TodoBoard.id mine.id (fun b => { b with ownerId := some target }) d.boards }
    | some mine, some theirs => foldPersonalBoard mine.id theirs.id d

end Merge

inductive Request where
  | ensureGremiumBoard (gremiumId : Uuid)
  | ensurePersonalBoard (ownerId : Uuid)
  | addTeamBoard
  | addColumn (boardId : Uuid) (name : Text)
  | patchColumn (boardId columnId : Uuid) (name : Option Text) (isDone : Bool)
  | orderColumns (boardId : Uuid) (columnIds : List Uuid)
  | deleteColumn (boardId columnId : Uuid) (moveTo : Option Uuid)
  | create (boardId : Uuid) (columnId : Option Uuid)
  | move (cardId columnId : Uuid)
  | transfer (cardId boardId : Uuid) (columnId : Option Uuid)
  | complete (cardId : Uuid)
  | archiveCard (cardId : Uuid)
  | restoreCard (cardId : Uuid)
  | mergeBoards (source target : Uuid)
  deriving DecidableEq

def Request.handle (env : Env) : Request → Db → Except Problem Db
  | .ensureGremiumBoard g => Todo.ensureGremiumBoard g
  | .ensurePersonalBoard o => Todo.ensurePersonalBoard o
  | .addTeamBoard => Todo.addTeamBoard
  | .addColumn b name => Todo.addColumn env b name
  | .patchColumn b c name isDone => Todo.patchColumn env b c name isDone
  | .orderColumns b ids => Todo.orderColumns env b ids
  | .deleteColumn b c moveTo => Todo.deleteColumn env b c moveTo
  | .create b c => Todo.create env b c
  | .move k c => Todo.move env k c
  | .transfer k b c => Todo.transfer env k b c
  | .complete k => Todo.complete env k
  | .archiveCard k => Todo.archiveCard env k
  | .restoreCard k => Todo.restoreCard env k
  | .mergeBoards s t => Todo.mergeBoards s t

def step (p : Env × Request) (d : Db) : Option Db := (p.2.handle p.1 d).toOption

end Todo
