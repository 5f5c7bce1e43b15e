import StupaWorkflow.LexorankGrowth
import StupaWorkflow.TodoModel

/-!
The places of the cards in their columns.
-/
namespace Todo
open Py Lexorank

structure RankedDb where
  db : Db
  rank : Uuid → Text

/-- What `_rank` raises: what `between` does, or the `RankError` of a rank above `MAX_LENGTH`. -/
inductive RankRaised where
  | between (e : Raised)
  | tooLong
  deriving DecidableEq

/-- `except RankError`. -/
def RankRaised.isRankError : RankRaised → Bool
  | .between e => e.isRankError
  | .tooLong => true

/-- What stops a request: a refusal, or an exception that nothing catches. -/
inductive Stop where
  | problem (e : Problem)
  | raised (e : RankRaised)
  deriving DecidableEq

/-- The tables after an operation and the ranks that it wrote. -/
structure Outcome where
  db : Db
  writes : List (Uuid × Text)

def setRanks (rank : Uuid → Text) (writes : List (Uuid × Text)) : Uuid → Text :=
  fun card => (writes.lookup card).getD (rank card)

def Outcome.after (o : Outcome) (s : RankedDb) : RankedDb := ⟨o.db, setRanks s.rank o.writes⟩

def orStop {α : Type} : Except Problem α → Except Stop α
  | .ok a => .ok a
  | .error e => .error (.problem e)

def orCrash {α : Type} : Except RankRaised α → Except Stop α
  | .ok a => .ok a
  | .error e => .error (.raised e)

section Order

/-- `ORDER BY rank, id` over the collation `C`. -/
def Before (rank : Uuid → Text) (a b : Uuid) : Prop := rank a < rank b ∨ rank a = rank b ∧ a < b

def TodoCard.isLive (card : TodoCard) (columnId : Uuid) : Bool := card.columnId = columnId && card.archivedAt.isNone

variable (s : RankedDb)

def RankedDb.ordered (cards : List TodoCard) : List Uuid :=
  (cards.map TodoCard.id).insertionSort fun a b => s.rank a < s.rank b ∨ s.rank a = s.rank b ∧ a ≤ b

def RankedDb.columnCards (columnId : Uuid) : List Uuid := s.ordered (s.db.cards.filter fun c => c.isLive columnId)

/-- `_column_cards` without one card. -/
def RankedDb.siblings (columnId exclude : Uuid) : List Uuid :=
  s.ordered (s.db.cards.filter fun c => c.isLive columnId && c.id ≠ exclude)

def RankedDb.allColumnCards (columnId : Uuid) : List Uuid := s.ordered (s.db.cards.filter fun c => c.columnId = columnId)

end Order

section Ranks

/-- `_rank`: a rank above `MAX_LENGTH` is a `RankError` too. -/
def rankWithin (low high : Option Text) : Except RankRaised Text := do
  let rank ← (between low high).mapError .between
  raiseUnless (rank.length ≤ maxLength) .tooLong
  return rank

def respread (ordered : List Uuid) : List (Uuid × Text) := ordered.zip (spread ordered.length)

def ranksAfter : Option Text → ℕ → Except RankRaised (List Text) := chain fun low => rankWithin low none

/-- `_append`: the cards come after the live cards of a column. -/
def append (rank : Uuid → Text) (live cards : List Uuid) : Except RankRaised (List (Uuid × Text)) :=
  match ranksAfter (live.getLast?.map rank) cards.length with
  | .ok ranks => .ok (cards.zip ranks)
  | .error e => if e.isRankError then .ok (respread (live ++ cards)) else .error e

/-- `_place`: the card comes at an index of the live cards; the flag tells of a fresh order. -/
def place (rank : Uuid → Text) (live : List Uuid) (index : ℕ) (card : Uuid) : Except RankRaised (List (Uuid × Text) × Bool) :=
  let low := if index > 0 then live[index - 1]?.map rank else none
  let high := live[index]?.map rank
  match rankWithin low high with
  | .ok r => .ok ([(card, r)], false)
  | .error e => if e.isRankError then .ok (respread (live.take index ++ card :: live.drop index), true) else .error e

/-- `at` of `_slot`. -/
def slotOf (siblings : List Uuid) (card : Uuid) : Except Problem ℕ :=
  if card ∈ siblings then .ok (siblings.idxOf card) else .error (.validation (text "rank_neighbors_invalid"))

def slot (siblings : List Uuid) (afterId beforeId : Option Uuid) : Except Problem ℕ :=
  match afterId, beforeId with
  | some a, some b => do
      let above ← slotOf siblings a
      let below ← slotOf siblings b
      raiseUnless (below = above + 1) (.validation (text "rank_neighbors_invalid"))
      return below
  | none, some b => slotOf siblings b
  | some a, none => (slotOf siblings a).map (· + 1)
  | none, none => .ok siblings.length

end Ranks

section Cards

variable (env : Env)

def moveRanked (cardId columnId : Uuid) (afterId beforeId : Option Uuid) (s : RankedDb) : Except Stop Outcome := do
  let db ← orStop (move env cardId columnId s.db)
  let siblings := s.siblings columnId cardId
  let index ← orStop (slot siblings afterId beforeId)
  let (writes, _) ← orCrash (place s.rank siblings index cardId)
  return ⟨db, writes⟩

def transferRanked (cardId boardId : Uuid) (columnId afterId beforeId : Option Uuid) (s : RankedDb) :
    Except Stop Outcome := do
  let db ← orStop (transfer env cardId boardId columnId s.db)
  let column ← orStop (pickColumn (s.db.columnsOf boardId) columnId)
  let live := s.columnCards column.id
  let index ← orStop (slot live afterId beforeId)
  let (writes, _) ← orCrash (place s.rank live index cardId)
  return ⟨db, writes⟩

/-- The done column that `complete` moves a card into. -/
def Db.completion (d : Db) (cardId : Uuid) : Option Uuid := do
  let card ← d.getCard cardId
  let done ← (d.columnsOf card.boardId).find? TodoColumn.isDone
  if card.columnId = done.id || card.archivedAt.isSome then none else some done.id

def completeRanked (cardId : Uuid) (s : RankedDb) : Except Stop Outcome := do
  let db ← orStop (complete env cardId s.db)
  match s.db.completion cardId with
  | none => return ⟨db, []⟩
  | some done =>
    let writes ← orCrash (append s.rank (s.siblings done cardId) [cardId])
    return ⟨db, writes⟩

def deleteColumnRanked (boardId columnId : Uuid) (moveTo : Option Uuid) (s : RankedDb) : Except Stop Outcome := do
  let db ← orStop (deleteColumn env boardId columnId moveTo s.db)
  match s.allColumnCards columnId, moveTo with
  | [], _ => return ⟨db, []⟩
  | _, none => return ⟨db, []⟩
  | cards, some target =>
    let writes ← orCrash (append s.rank (s.columnCards target) cards)
    return ⟨db, writes⟩

end Cards

section Fold

/-- `func.max` of the ranks of a column. -/
def greatest : List Text → Option Text
  | [] => none
  | rank :: ranks => some (ranks.foldl (fun m r => if m < r then r else m) rank)

def RankedDb.last (s : RankedDb) (columnId : Uuid) : Option Text :=
  greatest ((s.db.cards.filter fun c => c.columnId = columnId).map fun c => s.rank c.id)

/-- `ORDER BY position, rank, id` of the cards of a board. -/
def RankedDb.boardCards (s : RankedDb) (boardId : Uuid) : List TodoCard :=
  let position := fun c : TodoCard => ((s.db.getColumn c.columnId).map TodoColumn.position).getD 0
  (s.db.cards.filter fun c => c.boardId = boardId).insertionSort fun a b =>
    position a < position b ∨ position a = position b ∧ (s.rank a.id < s.rank b.id ∨ s.rank a.id = s.rank b.id ∧ a.id ≤ b.id)

def RankedDb.foldColumn (s : RankedDb) (first done : Uuid) (card : TodoCard) : Uuid :=
  if (s.db.getColumn card.columnId).any TodoColumn.isDone then done else first

/-- `_chain` of the merge: the ranks that `between` gives. -/
def mergeChain : Option Text → ℕ → Except Raised (List Text) := chain fun low => between low none

/-- `_appended_ranks` for the cards that come to one column. -/
def RankedDb.foldInto (s : RankedDb) (cards : List TodoCard) (first done columnId : Uuid) :
    Except Raised (List (Uuid × Text)) := do
  let coming := cards.filter fun c => s.foldColumn first done c = columnId
  let ranks ← mergeChain (s.last columnId) coming.length
  return (coming.map TodoCard.id).zip ranks

def foldRanked (sourceId targetId : Uuid) (s : RankedDb) : Except Stop Outcome := do
  let (first, done) ← orStop (s.db.targets targetId)
  let db ← orStop (foldPersonalBoard sourceId targetId s.db)
  let cards := s.boardCards sourceId
  let writes ← orCrash (([first.id, done.id].dedup.mapM (s.foldInto cards first.id done.id)).mapError .between)
  return ⟨db, writes.flatten⟩

end Fold

inductive Placing where
  | move (cardId columnId : Uuid) (afterId beforeId : Option Uuid)
  | transfer (cardId boardId : Uuid) (columnId afterId beforeId : Option Uuid)
  | complete (cardId : Uuid)
  | deleteColumn (boardId columnId : Uuid) (moveTo : Option Uuid)
  | fold (sourceId targetId : Uuid)
  deriving DecidableEq

def Placing.handle (env : Env) : Placing → RankedDb → Except Stop Outcome
  | .move k c a b => moveRanked env k c a b
  | .transfer k board c a b => transferRanked env k board c a b
  | .complete k => completeRanked env k
  | .deleteColumn board c moveTo => deleteColumnRanked env board c moveTo
  | .fold source target => foldRanked source target

end Todo
