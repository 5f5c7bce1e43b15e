import StupaWorkflow.Runs
import StupaWorkflow.TodoModel

/-!
Cards keep in step with the done column: every board has exactly one, and a card is completed when
it sits in it. One operation gets out of step.
-/
namespace Todo
open Py List

/-- Every board has one done column, and a card is completed where its column is it. -/
structure InStep (d : Db) : Prop where
  done : ∀ b ∈ d.boards, (d.columns.filter fun c => c.boardId = b.id && c.isDone).length = 1
  completed : ∀ card ∈ d.cards,
    card.completedAt.isSome ↔ ∃ c ∈ d.columns, c.id = card.columnId ∧ c.boardId = card.boardId ∧ c.isDone

/-- The card sits in a column of its board; a strict fit asks for its completion too. -/
def Fits (strict : Prop) (columns : List TodoColumn) (card : TodoCard) : Prop :=
  ∃ c ∈ columns, c.id = card.columnId ∧ c.boardId = card.boardId ∧ (strict → card.completedAt.isSome = c.isDone)

def doneOf (columns : List TodoColumn) (boardId : Uuid) : List TodoColumn :=
  columns.filter fun c => c.boardId = boardId && c.isDone

structure Kept (strict : Prop) (d : Db) : Prop where
  boardIds : (d.boards.map TodoBoard.id).Nodup
  boardsBelow : ∀ b ∈ d.boards, b.id < d.next
  columnIds : (d.columns.map TodoColumn.id).Nodup
  columnsBelow : ∀ c ∈ d.columns, c.id < d.next ∧ c.boardId < d.next
  done : ∀ b ∈ d.boards, (doneOf d.columns b.id).length = 1
  cardIds : (d.cards.map TodoCard.id).Nodup
  cardsBelow : ∀ card ∈ d.cards, card.id < d.next
  cards : ∀ card ∈ d.cards, Fits strict d.columns card

section Reads

variable {env : Env} {d : Db} {k : Uuid} {write : Bool}
variable {board : TodoBoard}

theorem orRaise_ok {α : Type} {x : Option α} {e : Problem} {a : α} : orRaise x e = .ok a ↔ x = some a := by
  cases x <;> simp [orRaise]

theorem board_ok (h : d.board env k write = .ok board) : board ∈ d.boards ∧ board.id = k := by
  simp only [Db.board, bind_ok, pure_ok, orRaise_ok] at h
  obtain ⟨b, hb, _, _, _, _, rfl⟩ := h
  exact Table.of_find hb

theorem configurable_ok (h : d.configurable env k = .ok board) : board ∈ d.boards ∧ board.id = k := by
  simp only [Db.configurable, bind_ok, pure_ok] at h
  obtain ⟨b, hb, _, _, rfl⟩ := h
  exact board_ok hb

theorem card_ok {r : TodoCard × TodoBoard} (h : d.card env k = .ok r) :
    r.1 ∈ d.cards ∧ r.1.id = k ∧ r.2 ∈ d.boards ∧ r.2.id = r.1.boardId := by
  simp only [Db.card, bind_ok, pure_ok, orRaise_ok] at h
  obtain ⟨card, hcard, board, hboard, rfl⟩ := h
  exact ⟨(Table.of_find hcard).1, (Table.of_find hcard).2, board_ok hboard⟩

theorem column_ok {column : TodoColumn} (h : d.column board k = .ok column) : column ∈ d.columns ∧ column.boardId = board.id := by
  simp only [Db.column, bind_ok, pure_ok, orRaise_ok, raiseUnless_ok] at h
  obtain ⟨c, hc, _, hboard, rfl⟩ := h
  exact ⟨(Table.of_find hc).1, by simpa using hboard⟩

theorem mem_columnsOf {c : TodoColumn} : c ∈ d.columnsOf k ↔ c ∈ d.columns ∧ c.boardId = k := by
  simp [Db.columnsOf, mem_insertionSort, mem_filter]

theorem pickColumn_ok {wanted : Option Uuid} {column : TodoColumn}
    (h : pickColumn (d.columnsOf k) wanted = .ok column) : column ∈ d.columns ∧ column.boardId = k := by
  cases wanted with
  | none => exact mem_columnsOf.mp (mem_of_mem_head? (orRaise_ok.mp h))
  | some j => exact mem_columnsOf.mp (mem_of_find?_eq_some (orRaise_ok.mp h))

end Reads

section Columns

variable {strict : Prop} {columns : List TodoColumn} {card : TodoCard}
variable {f : TodoColumn → TodoColumn}

def Relabels (f : TodoColumn → TodoColumn) : Prop :=
  ∀ c, (f c).id = c.id ∧ (f c).boardId = c.boardId ∧ (f c).isDone = c.isDone

theorem Relabels.doneOf (hf : Relabels f) (columns : List TodoColumn) (k : Uuid) :
    (doneOf (columns.map f) k).length = (doneOf columns k).length := by
  rw [Todo.doneOf, filter_map, length_map, Todo.doneOf]
  congr 2
  funext c
  rw [Function.comp_apply, (hf c).2.1, (hf c).2.2]

theorem Fits.relabel (hf : Relabels f) (h : Fits strict columns card) : Fits strict (columns.map f) card := by
  obtain ⟨c, hc, hid, hboard, hdone⟩ := h
  exact ⟨f c, mem_map_of_mem hc, (hf c).1.trans hid, (hf c).2.1.trans hboard, fun hs => (hdone hs).trans (hf c).2.2.symm⟩

theorem Fits.mono {more : List TodoColumn} (hsub : columns ⊆ more) (h : Fits strict columns card) : Fits strict more card := by
  obtain ⟨c, hc, hfit⟩ := h
  exact ⟨c, hsub hc, hfit⟩

theorem Fits.enters (strict : Prop) {column : TodoColumn} (hc : column ∈ columns) (card : TodoCard) (now : Time) :
    Fits strict columns { card.enters column (some now) with boardId := column.boardId } := by
  refine ⟨column, hc, rfl, rfl, fun _ => ?_⟩
  cases h : column.isDone <;> simp [TodoCard.enters, h]

theorem Fits.column_eq (hids : (columns.map TodoColumn.id).Nodup) (h : Fits strict columns card)
    {c : TodoColumn} (hc : c ∈ columns) (hid : c.id = card.columnId) :
    c.boardId = card.boardId ∧ (strict → card.completedAt.isSome = c.isDone) := by
  obtain ⟨x, hx, hxid, hfit⟩ := h
  rw [inj_on_of_nodup_map hids hc hx (hid.trans hxid.symm)]
  exact hfit

end Columns

section Updates

variable {strict : Prop} {d : Db} {env : Env}

theorem Kept.inStep (h : Kept True d) : InStep d where
  done := h.done
  completed card hcard := by
    constructor
    · intro hsome
      obtain ⟨c, hc, hid, hboard, hdone⟩ := h.cards card hcard
      exact ⟨c, hc, hid, hboard, hdone trivial ▸ hsome⟩
    · rintro ⟨c, hc, hid, _, hdone⟩
      rw [((h.cards card hcard).column_eq h.columnIds hc hid).2 trivial, hdone]

theorem Kept.withCards (h : Kept strict d) {cards : List TodoCard} {next : Uuid} (hnext : d.next ≤ next)
    (hids : (cards.map TodoCard.id).Nodup) (hbelow : ∀ card ∈ cards, card.id < next)
    (hcards : ∀ card ∈ cards, Fits strict d.columns card) : Kept strict { d with cards := cards, next := next } where
  boardIds := h.boardIds
  boardsBelow b hb := (h.boardsBelow b hb).trans_le hnext
  columnIds := h.columnIds
  columnsBelow c hc := ⟨(h.columnsBelow c hc).1.trans_le hnext, (h.columnsBelow c hc).2.trans_le hnext⟩
  done := h.done
  cardIds := hids
  cardsBelow := hbelow
  cards := hcards

theorem map_ids {f : TodoCard → TodoCard} (hf : ∀ card, (f card).id = card.id) (cards : List TodoCard) :
    (cards.map f).map TodoCard.id = cards.map TodoCard.id := by
  rw [map_map]
  exact map_congr_left fun card _ => hf card

theorem Kept.below (h : Kept strict d) {cards : List TodoCard} (hids : cards.map TodoCard.id = d.cards.map TodoCard.id) :
    ∀ card ∈ cards, card.id < d.next := by
  intro card hcard
  obtain ⟨x, hx, hid⟩ := mem_map.mp (hids ▸ mem_map_of_mem hcard)
  exact hid ▸ h.cardsBelow x hx

theorem Kept.mapCards (h : Kept strict d) {f : TodoCard → TodoCard} (hf : ∀ card, (f card).id = card.id)
    (hfits : ∀ card ∈ d.cards, Fits strict d.columns (f card)) : Kept strict (d.mapCards f) := by
  have hids := map_ids hf d.cards
  refine h.withCards le_rfl (hids ▸ h.cardIds) (h.below hids) fun card hcard => ?_
  obtain ⟨x, hx, rfl⟩ := mem_map.mp hcard
  exact hfits x hx

theorem Kept.setCard (h : Kept strict d) {card : TodoCard} (hfit : Fits strict d.columns card) : Kept strict (d.setCard card) := by
  refine h.mapCards (f := fun x => if x.id = card.id then card else x) (fun x => ?_) fun x hx => ?_
  · split
    next heq => exact heq.symm
    next => rfl
  · split
    · exact hfit
    · exact h.cards x hx

theorem Kept.relabel (h : Kept strict d) {f : TodoColumn → TodoColumn} (hf : Relabels f) :
    Kept strict { d with columns := d.columns.map f } where
  boardIds := h.boardIds
  boardsBelow := h.boardsBelow
  columnIds := by
    rw [map_map, show TodoColumn.id ∘ f = TodoColumn.id from funext fun c => (hf c).1]
    exact h.columnIds
  columnsBelow c hc := by
    obtain ⟨x, hx, rfl⟩ := mem_map.mp hc
    rw [(hf x).1, (hf x).2.1]
    exact h.columnsBelow x hx
  done b hb := (hf.doneOf d.columns b.id).trans (h.done b hb)
  cardIds := h.cardIds
  cardsBelow := h.cardsBelow
  cards card hcard := (h.cards card hcard).relabel hf

theorem Kept.renumber (h : Kept strict d) (boardId : Uuid) (order : List Uuid) : Kept strict (d.renumber boardId order) := by
  refine h.relabel fun c => ?_
  split <;> exact ⟨rfl, rfl, rfl⟩

theorem Kept.dropColumn (h : Kept strict d) {k : Uuid} (hopen : ∀ c ∈ d.columns, c.id = k → c.isDone = false)
    (hempty : ∀ card ∈ d.cards, card.columnId ≠ k) : Kept strict { d with columns := d.columns.filter fun c => c.id ≠ k } where
  boardIds := h.boardIds
  boardsBelow := h.boardsBelow
  columnIds := h.columnIds.sublist (filter_sublist.map _)
  columnsBelow c hc := h.columnsBelow c (mem_filter.mp hc).1
  done b hb := by
    rw [← h.done b hb, doneOf, doneOf, filter_filter]
    congr 1
    refine filter_congr fun c hc => ?_
    by_cases hk : c.id = k
    · simp [hopen c hc hk]
    · simp [hk]
  cardIds := h.cardIds
  cardsBelow := h.cardsBelow
  cards card hcard := by
    obtain ⟨c, hc, hid, hfit⟩ := h.cards card hcard
    refine ⟨c, mem_filter.mpr ⟨hc, ?_⟩, hid, hfit⟩
    simpa [hid] using hempty card hcard

theorem Kept.dropBoard (h : Kept strict d) {k : Uuid} (hempty : ∀ card ∈ d.cards, card.boardId ≠ k) :
    Kept strict { d with boards := d.boards.filter fun b => b.id ≠ k
                         columns := d.columns.filter fun c => c.boardId ≠ k } where
  boardIds := h.boardIds.sublist (filter_sublist.map _)
  boardsBelow b hb := h.boardsBelow b (mem_filter.mp hb).1
  columnIds := h.columnIds.sublist (filter_sublist.map _)
  columnsBelow c hc := h.columnsBelow c (mem_filter.mp hc).1
  done b hb := by
    obtain ⟨hb, hbne⟩ := mem_filter.mp hb
    rw [← h.done b hb, doneOf, doneOf, filter_filter]
    congr 1
    refine filter_congr fun c _ => ?_
    by_cases hk : c.boardId = b.id
    · simpa [hk] using fun _ => of_decide_eq_true hbne
    · simp [hk]
  cardIds := h.cardIds
  cardsBelow := h.cardsBelow
  cards card hcard := by
    obtain ⟨c, hc, hid, hcb, hdone⟩ := h.cards card hcard
    refine ⟨c, mem_filter.mpr ⟨hc, ?_⟩, hid, hcb, hdone⟩
    simpa [hcb] using hempty card hcard

end Updates

section Boards

variable {strict : Prop} {d d' : Db} {env : Env}

theorem emptyDb_kept (strict : Prop) : Kept strict emptyDb := by
  constructor <;> simp [emptyDb]

theorem Kept.addBoard (h : Kept strict d) {board : TodoBoard} (hid : board.id = d.next) : Kept strict (d.addBoard board) where
  boardIds := by
    refine Table.nodup_insert h.boardIds fun b hb => ?_
    rw [hid]
    exact (h.boardsBelow b hb).ne
  boardsBelow b hb := by
    rcases mem_append.mp hb with hold | hnew
    · exact (h.boardsBelow b hold).trans_le (Nat.le_add_right _ 5)
    · rw [mem_singleton.mp hnew, hid]
      exact Nat.lt_add_of_pos_right (by decide)
  columnIds := by
    rw [Db.addBoard, map_append]
    refine nodup_append'.mpr ⟨h.columnIds, by simp [defaultColumns], ?_⟩
    intro k hold hnew
    obtain ⟨c, hc, rfl⟩ := mem_map.mp hold
    have hlt : c.id < d.next := (h.columnsBelow c hc).1
    simp only [defaultColumns, map_cons, map_nil, mem_cons, not_mem_nil, or_false] at hnew
    unfold Uuid at *
    omega
  columnsBelow c hc := by
    rcases mem_append.mp hc with hold | hnew
    · exact ⟨(h.columnsBelow c hold).1.trans_le (Nat.le_add_right _ 5),
        (h.columnsBelow c hold).2.trans_le (Nat.le_add_right _ 5)⟩
    · simp only [defaultColumns, mem_cons, not_mem_nil, or_false] at hnew
      rcases hnew with rfl | rfl | rfl | rfl <;> simp [Db.addBoard, hid]
  done b hb := by
    rw [doneOf, Db.addBoard, filter_append, length_append]
    rcases mem_append.mp hb with hold | hnew
    · have hne : d.next ≠ b.id := (h.boardsBelow b hold).ne'
      have hkept : (d.columns.filter fun c => c.boardId = b.id && c.isDone).length = 1 := h.done b hold
      rw [hkept]
      simp [defaultColumns, hid, hne]
    · have hnone : (d.columns.filter fun c => c.boardId = b.id && c.isDone) = [] := by
        refine filter_eq_nil_iff.mpr fun c hc hdone => ?_
        have hlt := (h.columnsBelow c hc).2
        rw [mem_singleton.mp hnew, hid] at hdone
        simp [hlt.ne] at hdone
      rw [hnone, mem_singleton.mp hnew]
      simp [defaultColumns]
  cardIds := h.cardIds
  cardsBelow card hcard := (h.cardsBelow card hcard).trans_le (Nat.le_add_right _ 5)
  cards card hcard := (h.cards card hcard).mono (subset_append_left _ _)

theorem ensureGremiumBoard_kept (h : Kept strict d) {g : Uuid} (hok : ensureGremiumBoard g d = .ok d') : Kept strict d' := by
  rw [ensureGremiumBoard] at hok
  split at hok
  · cases hok
    exact h
  · cases hok
    exact h.addBoard rfl

theorem ensurePersonalBoard_kept (h : Kept strict d) {o : Uuid} (hok : ensurePersonalBoard o d = .ok d') : Kept strict d' := by
  rw [ensurePersonalBoard] at hok
  split at hok
  · cases hok
    exact h
  · cases hok
    exact h.addBoard rfl

theorem addColumn_kept (h : Kept strict d) {k : Uuid} {name : Text} (hok : addColumn env k name d = .ok d') : Kept strict d' := by
  simp only [addColumn, bind_ok, pure_ok] at hok
  obtain ⟨board, hboard, rfl⟩ := hok
  have hbelow := h.boardsBelow board (configurable_ok hboard).1
  refine ⟨h.boardIds, fun b hb => (h.boardsBelow b hb).trans (Nat.lt_succ_self _), ?_, ?_, ?_, h.cardIds,
    fun card hcard => (h.cardsBelow card hcard).trans (Nat.lt_succ_self _), fun card hcard => (h.cards card hcard).mono (subset_append_left _ _)⟩
  · exact Table.nodup_insert h.columnIds fun c hc => (h.columnsBelow c hc).1.ne
  · intro c hc
    rcases mem_append.mp hc with hold | hnew
    · exact ⟨(h.columnsBelow c hold).1.trans (Nat.lt_succ_self _), (h.columnsBelow c hold).2.trans (Nat.lt_succ_self _)⟩
    · rw [mem_singleton.mp hnew]
      exact ⟨Nat.lt_succ_self _, hbelow.trans (Nat.lt_succ_self _)⟩
  · intro b hb
    rw [doneOf, filter_append]
    simpa [doneOf] using h.done b hb

end Boards

section Columns

variable {strict : Prop} {d d' : Db} {env : Env}
variable {c column : TodoColumn}

theorem mem_doneIds (hids : (d.columns.map TodoColumn.id).Nodup) (k : Uuid) (hc : c ∈ d.columns) :
    c.id ∈ (doneOf d.columns k).map TodoColumn.id ↔ c.boardId = k ∧ c.isDone := by
  constructor
  · intro hmem
    obtain ⟨x, hx, hid⟩ := mem_map.mp hmem
    obtain ⟨hx, hdone⟩ := mem_filter.mp hx
    rw [← inj_on_of_nodup_map hids hx hc hid]
    simpa using hdone
  · rintro ⟨hboard, hdone⟩
    exact mem_map_of_mem (mem_filter.mpr ⟨hc, by simp [hboard, hdone]⟩)

def flagged (board : TodoBoard) (column : TodoColumn) (columns : List TodoColumn) (c : TodoColumn) : TodoColumn :=
  if c.id = column.id then { c with isDone := true }
  else if c.id ∈ (doneOf columns board.id).map TodoColumn.id then { c with isDone := false } else c

theorem flagged_id (board : TodoBoard) (column : TodoColumn) (columns : List TodoColumn) (c : TodoColumn) :
    (flagged board column columns c).id = c.id ∧ (flagged board column columns c).boardId = c.boardId := by
  rw [flagged]
  split
  · exact ⟨rfl, rfl⟩
  · split <;> exact ⟨rfl, rfl⟩

theorem flagged_isDone (hids : (d.columns.map TodoColumn.id).Nodup) {board : TodoBoard} (hcolumn : column ∈ d.columns)
    (hboard : column.boardId = board.id) (hc : c ∈ d.columns) :
    (flagged board column d.columns c).isDone = if c.boardId = board.id then decide (c.id = column.id) else c.isDone := by
  by_cases hid : c.id = column.id
  · have hc : c = column := inj_on_of_nodup_map hids hc hcolumn hid
    simp [flagged, hc, hboard]
  · have hold := mem_doneIds hids board.id hc
    rw [flagged, if_neg hid]
    by_cases hb : c.boardId = board.id
    · cases hdone : c.isDone <;> simp [hold, hb, hdone, hid]
    · simp [hold, hb]

theorem moveDone_ids (board : TodoBoard) (column : TodoColumn) (now : Time) :
    (d.moveDone board column now).cards.map TodoCard.id = d.cards.map TodoCard.id := by
  rw [Db.moveDone, Db.mapCards, Db.mapCards, map_ids, map_ids]
  all_goals
    intro card
    split <;> rfl

theorem moveDone_kept (h : Kept strict d) {board : TodoBoard} {column : TodoColumn} (now : Time) (hcolumn : column ∈ d.columns)
    (hboard : column.boardId = board.id) : Kept strict (d.moveDone board column now) where
  boardIds := h.boardIds
  boardsBelow := h.boardsBelow
  columnIds := by
    have hmap : (d.columns.map (flagged board column d.columns)).map TodoColumn.id = d.columns.map TodoColumn.id := by
      rw [map_map]
      exact map_congr_left fun c _ => (flagged_id board column d.columns c).1
    exact (congrArg List.Nodup hmap).mpr h.columnIds
  columnsBelow c hc := by
    obtain ⟨x, hx, rfl⟩ := mem_map.mp hc
    change (flagged board column d.columns x).id < d.next ∧ (flagged board column d.columns x).boardId < d.next
    rw [(flagged_id board column d.columns x).1, (flagged_id board column d.columns x).2]
    exact h.columnsBelow x hx
  done b hb := by
    change (doneOf (d.columns.map (flagged board column d.columns)) b.id).length = 1
    rw [doneOf, filter_map, length_map]
    by_cases hid : b.id = board.id
    · -- on the board itself the flagged column is the only one
      have hone : d.columns.filter ((fun c => c.boardId = b.id && c.isDone) ∘ flagged board column d.columns) =
          d.columns.filter fun c => c.id = column.id := by
        refine filter_congr fun c hc => ?_
        rw [Function.comp_apply, (flagged_id board column d.columns c).2, flagged_isDone h.columnIds hcolumn hboard hc, hid]
        by_cases hk : c.id = column.id
        · have : c = column := inj_on_of_nodup_map h.columnIds hc hcolumn hk
          simp [this, hboard]
        · by_cases hcb : c.boardId = board.id <;> simp [hk, hcb]
      rw [hone, Table.filter_key h.columnIds, Table.find_of_mem h.columnIds hcolumn rfl]
      rfl
    · rw [← h.done b hb, doneOf]
      congr 1
      refine filter_congr fun c hc => ?_
      rw [Function.comp_apply, (flagged_id board column d.columns c).2, flagged_isDone h.columnIds hcolumn hboard hc]
      by_cases hk : c.boardId = b.id
      · simp [hk, hid]
      · simp [hk]
  cardIds := (congrArg List.Nodup (moveDone_ids board column now)).mpr h.cardIds
  cardsBelow := h.below (moveDone_ids board column now)
  cards card hcard := by
    obtain ⟨y, hy, rfl⟩ := mem_map.mp hcard
    obtain ⟨x, hx, rfl⟩ := mem_map.mp hy
    obtain ⟨c, hc, hid, hcb, hdone⟩ := h.cards x hx
    have hflag := flagged_isDone h.columnIds hcolumn hboard hc
    refine ⟨_, mem_map_of_mem hc, ?_⟩
    change (flagged board column d.columns c).id = _ ∧ (flagged board column d.columns c).boardId = _ ∧
      (strict → _ = (flagged board column d.columns c).isDone)
    rw [(flagged_id board column d.columns c).1, (flagged_id board column d.columns c).2, hflag]
    have hold := mem_doneIds h.columnIds board.id hc
    rw [doneOf, hid] at hold
    by_cases hin : x.columnId ∈ (d.columns.filter fun c => c.boardId = board.id && c.isDone).map TodoColumn.id
    · rw [if_pos hin, if_pos (hold.mp hin).1]
      by_cases hk : x.columnId = column.id
      · rw [if_pos hk]
        exact ⟨hid, hcb, fun _ => by simp [hid, hk]⟩
      · rw [if_neg hk]
        exact ⟨hid, hcb, fun _ => by simp [hid, hk]⟩
    · rw [if_neg hin]
      by_cases hk : x.columnId = column.id
      · have hc : c = column := inj_on_of_nodup_map h.columnIds hc hcolumn (hid.trans hk)
        rw [if_pos hk, if_pos (hc ▸ hboard)]
        exact ⟨hid, hcb, fun _ => by simp [hid, hk]⟩
      · rw [if_neg hk]
        refine ⟨hid, hcb, fun hs => (hdone hs).trans ?_⟩
        by_cases hcboard : c.boardId = board.id
        · have hopen : c.isDone = false := by simpa [hcboard] using mt hold.mpr hin
          simp [hcboard, hopen, hid, hk]
        · rw [if_neg hcboard]

theorem patchColumn_kept (h : Kept strict d) {k c : Uuid} {name : Option Text} {isDone : Bool}
    (hok : patchColumn env k c name isDone d = .ok d') : Kept strict d' := by
  simp only [patchColumn, bind_ok, pure_ok] at hok
  obtain ⟨board, _, column, hcolumn, rfl⟩ := hok
  obtain ⟨hmem, hboard⟩ := column_ok hcolumn
  have hrelabel : Relabels fun x : TodoColumn =>
      if x.id = column.id then { x with name := name.elim x.name fun new => strippedOr new x.name } else x := by
    intro x
    dsimp only
    split <;> exact ⟨rfl, rfl, rfl⟩
  have hrenamed := h.relabel hrelabel
  split
  · have hmem := mem_map_of_mem (f := fun x : TodoColumn =>
        if x.id = column.id then { x with name := name.elim x.name fun new => strippedOr new x.name } else x) hmem
    rw [if_pos rfl] at hmem
    have hmoved := @moveDone_kept strict _ hrenamed board _ env.now hmem hboard
    exact hmoved
  · exact hrenamed

theorem orderColumns_kept (h : Kept strict d) {k : Uuid} {ids : List Uuid} (hok : orderColumns env k ids d = .ok d') :
    Kept strict d' := by
  simp only [orderColumns, bind_ok, pure_ok] at hok
  obtain ⟨board, _, _, _, rfl⟩ := hok
  exact h.renumber board.id ids

/-- After the move the column holds no card. -/
theorem moveCards_kept (h : Kept strict d) {board : TodoBoard} {moveTo : Option Uuid} (hcolumn : column ∈ d.columns)
    (hboard : column.boardId = board.id) (hopen : column.isDone = false) (hok : moveCards env board column moveTo d = .ok d') :
    Kept strict d' ∧ d'.columns = d.columns ∧ ∀ card ∈ d'.cards, card.columnId ≠ column.id := by
  unfold moveCards at hok
  split at hok
  next hempty =>
    cases hok
    exact ⟨h, rfl, fun card hcard heq => by simpa [heq] using filter_eq_nil_iff.mp (isEmpty_iff.mp hempty) card hcard⟩
  next =>
    cases moveTo with
    | none => cases hok
    | some k =>
      simp only [bind_ok, pure_ok, orRaise_ok, raiseUnless_ok] at hok
      obtain ⟨target, htarget, _, hgood, rfl⟩ := hok
      obtain ⟨htboard, htne⟩ : target.boardId = board.id ∧ target.id ≠ column.id := by simpa using hgood
      have htmem := (Table.of_find htarget).1
      refine ⟨h.mapCards (fun x => ?_) fun x hx => ?_, rfl, fun card hcard => ?_⟩
      · split <;> rfl
      · split
        next hin =>
          obtain ⟨hxboard, hxdone⟩ := (h.cards x hx).column_eq h.columnIds hcolumn hin.symm
          refine ⟨target, htmem, rfl, htboard.trans (hboard.symm.trans hxboard), fun hs => ?_⟩
          cases htd : target.isDone
          · simpa [hopen] using hxdone hs
          · rfl
        next => exact h.cards x hx
      · obtain ⟨x, _, rfl⟩ := mem_map.mp hcard
        split
        · exact htne
        · assumption

theorem deleteColumn_kept (h : Kept strict d) {k c : Uuid} {moveTo : Option Uuid}
    (hok : deleteColumn env k c moveTo d = .ok d') : Kept strict d' := by
  simp only [deleteColumn, bind_ok, pure_ok, raiseUnless_ok] at hok
  obtain ⟨board, _, column, hcolumn, _, hopen, moved, hmoved, rfl⟩ := hok
  have hopen : column.isDone = false := by simpa using hopen
  obtain ⟨hmem, hboard⟩ := column_ok hcolumn
  obtain ⟨hkept, hcolumns, hempty⟩ := moveCards_kept h hmem hboard hopen hmoved
  refine (hkept.dropColumn (fun x hx hid => ?_) hempty).renumber _ _
  rw [hcolumns] at hx
  rw [inj_on_of_nodup_map h.columnIds hx hmem hid]
  exact hopen

end Columns

section Cards

variable {strict : Prop} {d d' : Db} {env : Env} {k : Uuid}

theorem create_kept (h : Kept strict d) {c : Option Uuid} (hok : create env k c d = .ok d') : Kept strict d' := by
  simp only [create, bind_ok, pure_ok] at hok
  obtain ⟨board, _, column, hcolumn, _, _, rfl⟩ := hok
  obtain ⟨hmem, hboard⟩ := pickColumn_ok hcolumn
  refine h.withCards (Nat.le_succ _) ?_ (fun card hcard => ?_) fun card hcard => ?_
  · exact Table.nodup_insert h.cardIds fun card hcard => (h.cardsBelow card hcard).ne
  · rcases mem_append.mp hcard with hold | hnew
    · exact (h.cardsBelow card hold).trans (Nat.lt_succ_self _)
    · rw [mem_singleton.mp hnew]
      exact Nat.lt_succ_self _
  · rcases mem_append.mp hcard with hold | hnew
    · exact h.cards card hold
    · rw [mem_singleton.mp hnew]
      exact ⟨column, hmem, rfl, hboard, fun _ => by cases column.isDone <;> rfl⟩

theorem move_kept (h : Kept strict d) {c : Uuid} (hok : move env k c d = .ok d') : Kept strict d' := by
  simp only [move, bind_ok, pure_ok] at hok
  obtain ⟨⟨card, board⟩, hcard, target, htarget, _, _, rfl⟩ := hok
  obtain ⟨hmem, hboard⟩ := pickColumn_ok htarget
  obtain ⟨_, _, _, hcb⟩ := card_ok hcard
  split
  · exact h
  · have hfit := Fits.enters strict hmem card env.now
    rw [hboard, hcb] at hfit
    exact h.setCard hfit

theorem transfer_kept (h : Kept strict d) {b : Uuid} {c : Option Uuid} (hok : transfer env k b c d = .ok d') : Kept strict d' := by
  simp only [transfer, bind_ok, pure_ok] at hok
  obtain ⟨⟨card, source⟩, _, _, _, target, _, _, _, _, _, column, hcolumn, _, _, rfl⟩ := hok
  obtain ⟨hmem, hboard⟩ := pickColumn_ok hcolumn
  refine h.setCard ?_
  rw [← hboard]
  exact Fits.enters strict hmem card _

theorem complete_kept (h : Kept strict d) (hok : complete env k d = .ok d') : Kept strict d' := by
  rw [complete] at hok
  split at hok
  · cases hok
  next card hcard =>
    split at hok
    · cases hok
      exact h
    next done hdone =>
      split at hok
      · cases hok
        exact h
      · cases hok
        obtain ⟨hmem, hboard⟩ := mem_columnsOf.mp (mem_of_find?_eq_some hdone)
        have hfit := Fits.enters strict hmem card env.now
        rw [hboard] at hfit
        exact h.setCard hfit

theorem archiveCard_kept (h : Kept strict d) (hok : archiveCard env k d = .ok d') : Kept strict d' := by
  simp only [archiveCard, bind_ok, pure_ok] at hok
  obtain ⟨⟨card, board⟩, hcard, rfl⟩ := hok
  split
  · exact h.setCard (h.cards card (card_ok hcard).1)
  · exact h

theorem restoreCard_kept (h : Kept strict d) (hok : restoreCard env k d = .ok d') : Kept strict d' := by
  simp only [restoreCard, bind_ok, pure_ok] at hok
  obtain ⟨⟨card, board⟩, hcard, rfl⟩ := hok
  split
  · obtain ⟨c, hc, hid, hcb, hdone⟩ := h.cards card (card_ok hcard).1
    have hcol : d.getColumn card.columnId = some c := Table.find_of_mem h.columnIds hc hid
    refine h.setCard ⟨c, hc, hid, hcb, fun hs => ?_⟩
    rw [hcol, Option.any_some]
    cases hd : c.isDone
    · simpa [hd] using hdone hs
    · rfl
  · exact h

end Cards

section Merge

variable {strict : Prop} {d d' : Db}

def OutOfStep (mine theirs : Uuid) (d : Db) : Prop :=
  (d.columnsOf theirs).head?.any TodoColumn.isDone ∧
    ∃ card ∈ d.cards, card.boardId = mine ∧ (d.getColumn card.columnId).any TodoColumn.isDone = false

instance (mine theirs : Uuid) (d : Db) : Decidable (OutOfStep mine theirs d) :=
  inferInstanceAs (Decidable (_ ∧ ∃ card ∈ d.cards, _ ∧ _))

/-- The merge folds no board with open cards into one that starts with its done column. -/
def CarefulMerge (source target : Uuid) (d : Db) : Prop :=
  source ≠ target → ∀ mine ∈ d.personalBoard source, ∀ theirs ∈ d.personalBoard target, ¬ OutOfStep mine.id theirs.id d

instance (source target : Uuid) (d : Db) : Decidable (CarefulMerge source target d) :=
  inferInstanceAs (Decidable (source ≠ target → ∀ mine ∈ d.personalBoard source, ∀ theirs ∈ _, ¬ _))

theorem targets_ok {k : Uuid} {r : TodoColumn × TodoColumn} (h : d.targets k = .ok r) :
    (d.columnsOf k).head? = some r.1 ∧ r.1 ∈ d.columns ∧ r.1.boardId = k ∧
      r.2 ∈ d.columns ∧ r.2.boardId = k ∧ r.2.isDone := by
  simp only [Db.targets, bind_ok, pure_ok, orRaise_ok] at h
  obtain ⟨done, hdone, first, hfirst, rfl⟩ := h
  obtain ⟨hmem, hboard⟩ := mem_columnsOf.mp (mem_of_mem_head? hfirst)
  obtain ⟨hdmem, hdboard⟩ := mem_columnsOf.mp (mem_of_find?_eq_some hdone)
  exact ⟨hfirst, hmem, hboard, hdmem, hdboard, find?_some hdone⟩

theorem foldPersonalBoard_kept (h : Kept strict d) {mine theirs : Uuid} (hne : mine ≠ theirs)
    (hcareful : strict → ¬ OutOfStep mine theirs d) (hok : foldPersonalBoard mine theirs d = .ok d') : Kept strict d' := by
  simp only [foldPersonalBoard, bind_ok, pure_ok] at hok
  obtain ⟨⟨first, done⟩, htargets, rfl⟩ := hok
  obtain ⟨hhead, hfirst, hfboard, hdone, hdboard, hdflag⟩ := targets_ok htargets
  dsimp only at hhead hfirst hfboard hdone hdboard hdflag
  refine (h.mapCards (fun card => ?_) fun x hx => ?_).dropBoard fun card hcard => ?_
  · split <;> rfl
  · obtain ⟨c, hc, hid, hcb, hcd⟩ := h.cards x hx
    have hcol : d.getColumn x.columnId = some c := Table.find_of_mem h.columnIds hc hid
    by_cases hin : x.boardId = mine
    · rw [if_pos hin, hcol, Option.any_some]
      cases hd : c.isDone
      · -- an open card goes to the first column, which is not the done column then
        refine ⟨first, hfirst, rfl, hfboard, fun hs => ?_⟩
        have hfopen : first.isDone = false := by
          by_contra hflag
          refine hcareful hs ⟨by simpa [hhead] using hflag, x, hx, hin, ?_⟩
          rw [hcol, Option.any_some, hd]
        rw [hfopen, ← hd]
        exact hcd hs
      · exact ⟨done, hdone, rfl, hdboard, fun hs => by rw [hdflag, ← hd]; exact hcd hs⟩
    · rw [if_neg hin]
      exact ⟨c, hc, hid, hcb, hcd⟩
  · obtain ⟨x, _, rfl⟩ := mem_map.mp hcard
    split
    · exact hne.symm
    · assumption

theorem personalBoard_ok {owner : Uuid} {b : TodoBoard} (h : d.personalBoard owner = some b) :
    b ∈ d.boards ∧ b.ownerId = some owner := by
  have hgood := find?_some h
  simp only [Bool.and_eq_true, decide_eq_true_eq] at hgood
  exact ⟨mem_of_find?_eq_some h, hgood.2⟩

theorem mergeBoards_kept (h : Kept strict d) {source target : Uuid} (hcareful : strict → CarefulMerge source target d)
    (hok : mergeBoards source target d = .ok d') : Kept strict d' := by
  unfold mergeBoards at hok
  split at hok
  next => cases hok
  next hne =>
    split at hok
    next =>
      cases hok
      exact h
    next mine _ _ =>
      cases hok
      have hids : (Table.modify TodoBoard.id mine.id (fun b => { b with ownerId := some target }) d.boards).map
          TodoBoard.id = d.boards.map TodoBoard.id := Table.modify_keys (f := fun b : TodoBoard => { b with ownerId := some target }) (fun _ => rfl) d.boards
      refine ⟨hids ▸ h.boardIds, fun b hb => ?_, h.columnIds, h.columnsBelow, fun b hb => ?_, h.cardIds, h.cardsBelow, h.cards⟩
      · obtain ⟨x, hx, hxid⟩ := mem_map.mp (hids ▸ mem_map_of_mem (f := TodoBoard.id) hb)
        exact hxid ▸ h.boardsBelow x hx
      · obtain ⟨x, hx, hxid⟩ := mem_map.mp (hids ▸ mem_map_of_mem (f := TodoBoard.id) hb)
        exact hxid ▸ h.done x hx
    next mine theirs hmine htheirs =>
      obtain ⟨hm, hmo⟩ := personalBoard_ok hmine
      obtain ⟨ht, hto⟩ := personalBoard_ok htheirs
      refine foldPersonalBoard_kept h (fun hid => hne ?_) (fun hs => hcareful hs hne mine hmine theirs htheirs) hok
      have hsame := inj_on_of_nodup_map h.boardIds hm ht hid
      exact Option.some.inj (hmo.symm.trans (hsame ▸ hto))

end Merge

def Request.accounts : Request → Option (Uuid × Uuid)
  | .mergeBoards source target => some (source, target)
  | _ => none

/-- The other operations keep in step without a condition. -/
def Careful (p : Env × Request) (d : Db) : Prop := ∀ m ∈ p.2.accounts, CarefulMerge m.1 m.2 d

instance (p : Env × Request) (d : Db) : Decidable (Careful p d) :=
  inferInstanceAs (Decidable (∀ m ∈ p.2.accounts, CarefulMerge m.1 m.2 d))

theorem handle_kept {strict : Prop} {env : Env} {r : Request} {d d' : Db} (h : Kept strict d)
    (hcareful : strict → Careful (env, r) d)
    (hok : r.handle env d = .ok d') : Kept strict d' := by
  cases r with
  | ensureGremiumBoard g => exact ensureGremiumBoard_kept h hok
  | ensurePersonalBoard o => exact ensurePersonalBoard_kept h hok
  | addTeamBoard =>
    cases hok
    exact h.addBoard rfl
  | addColumn b name => exact addColumn_kept h hok
  | patchColumn b c name isDone => exact patchColumn_kept h hok
  | orderColumns b ids => exact orderColumns_kept h hok
  | deleteColumn b c moveTo => exact deleteColumn_kept h hok
  | create b c => exact create_kept h hok
  | move k c => exact move_kept h hok
  | transfer k b c => exact transfer_kept h hok
  | complete k => exact complete_kept h hok
  | archiveCard k => exact archiveCard_kept h hok
  | restoreCard k => exact restoreCard_kept h hok
  | mergeBoards s t => exact mergeBoards_kept h (fun hs => hcareful hs (s, t) rfl) hok

theorem run_kept {rs : List (Env × Request)} {d : Db} (hcareful : Runs.Guarded Careful step emptyDb rs)
    (hrun : Runs.run step emptyDb rs = some d) : Kept True d :=
  Runs.guarded_run (fun h hr hop => handle_kept h (fun _ => hr) (toOption_some.mp hop)) (emptyDb_kept True) hcareful hrun

/-- A run whose merges are careful keeps every card in step with the done column. -/
theorem run_inStep {rs : List (Env × Request)} {d : Db} (hcareful : Runs.Guarded Careful step emptyDb rs)
    (hrun : Runs.run step emptyDb rs = some d) : InStep d := (run_kept hcareful hrun).inStep

section Samples

def member : Env where
  canRead _ := true
  canWrite _ := true
  canConfigure _ := true
  now := 7
  refused := none

/-- Two accounts with a personal board each. On the first one is an open card and a done one. -/
def twoAccounts : List (Env × Request) :=
  [.ensurePersonalBoard 100, .ensurePersonalBoard 200, .create 0 none, .create 0 (some 4)].map (member, ·)

def folded : List (Env × Request) := twoAccounts ++ [(member, .mergeBoards 100 200)]

theorem folded_inStep : ∃ d, Runs.run step emptyDb folded = some d ∧ InStep d := by
  have hsome : (Runs.run step emptyDb folded).isSome := by decide +kernel
  obtain ⟨d, hd⟩ := Option.isSome_iff_exists.mp hsome
  exact ⟨d, hd, run_inStep (by decide +kernel) hd⟩

def doneFirst : List (Env × Request) :=
  twoAccounts ++ [(member, .orderColumns 5 [9, 6, 7, 8]), (member, .mergeBoards 100 200)]

theorem doneFirst_outOfStep : ∃ d, Runs.run step emptyDb doneFirst = some d ∧ ¬ InStep d := by
  have hrun : (Runs.run step emptyDb doneFirst).map (fun d =>
      (d.cards.head?, d.columns.filter TodoColumn.isDone)) =
        some (some ⟨10, 5, 9, none, none⟩, [⟨9, 5, text "Erledigt", 0, true⟩]) := by decide +kernel
  obtain ⟨d, hd, heq⟩ := Option.map_eq_some_iff.mp hrun
  simp only [Prod.mk.injEq] at heq
  refine ⟨d, hd, fun hstep => ?_⟩
  have hdone : (⟨9, 5, text "Erledigt", 0, true⟩ : TodoColumn) ∈ d.columns.filter TodoColumn.isDone := by
    rw [heq.2]
    exact mem_singleton_self _
  have hcard := (hstep.completed _ (mem_of_mem_head? heq.1)).mpr ⟨_, (mem_filter.mp hdone).1, rfl, rfl, rfl⟩
  cases hcard

end Samples

end Todo
