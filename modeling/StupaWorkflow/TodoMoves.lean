import StupaWorkflow.TodoPlacement

/-!
The operations that place cards, from the tables to the order of the columns.
-/
namespace Todo
open Py Lexorank Raises List

section Stops

theorem orStop_ok {α : Type} {x : Except Problem α} {a : α} : orStop x = .ok a ↔ x = .ok a := by
  cases x <;> simp [orStop]

theorem orCrash_ok {α : Type} {x : Except RankRaised α} {a : α} : orCrash x = .ok a ↔ x = .ok a := by
  cases x <;> simp [orCrash]

end Stops

section Tables

variable {d db : Db} {env : Env} {cardId columnId : Uuid} {card card' : TodoCard} {column : TodoColumn}

/-- Every card sits in a column of its board, and the keys are keys. -/
structure Sited (d : Db) : Prop where
  keys : CardKeys d
  columnIds : (d.columns.map TodoColumn.id).Nodup
  sited : ∀ card ∈ d.cards, ∃ c ∈ d.columns, c.id = card.columnId ∧ c.boardId = card.boardId

theorem Sited.board_eq (h : Sited d) (hcard : card ∈ d.cards) (hcolumn : column ∈ d.columns) (hid : column.id = card.columnId) :
    column.boardId = card.boardId := by
  obtain ⟨c, hc, hcid, hboard⟩ := h.sited card hcard
  rw [inj_on_of_nodup_map h.columnIds hcolumn hc (hid.trans hcid.symm)]
  exact hboard

/-- Every run of the requests leaves the cards sited, careful or not. -/
theorem run_sited {rs : List (Env × Request)} (hrun : Runs.run step emptyDb rs = some d)
    (hbits : ∀ card ∈ d.cards, card.id < 2 ^ 128) : Sited d := by
  have hkept : Kept False d :=
    Runs.run_keeps (fun h hop => handle_kept h False.elim (toOption_some.mp hop)) (emptyDb_kept False) hrun
  refine ⟨⟨hkept.cardIds, hbits⟩, hkept.columnIds, fun card hcard => ?_⟩
  obtain ⟨c, hc, hid, hboard, -⟩ := hkept.cards card hcard
  exact ⟨c, hc, hid, hboard⟩

theorem mem_setCard {c : TodoCard} : c ∈ (d.setCard card').cards ↔
    c ∈ d.cards ∧ c.id ≠ card'.id ∨ c = card' ∧ ∃ r ∈ d.cards, r.id = card'.id := by
  rw [Db.setCard, Table.modify, mem_map]
  constructor
  · rintro ⟨r, hr, rfl⟩
    by_cases hid : r.id = card'.id
    · rw [if_pos hid]
      exact .inr ⟨rfl, r, hr, hid⟩
    · rw [if_neg hid]
      exact .inl ⟨hr, hid⟩
  · rintro (⟨hc, hid⟩ | ⟨rfl, r, hr, hid⟩)
    · exact ⟨c, hc, if_neg hid⟩
    · exact ⟨r, hr, if_pos hid⟩

theorem enters_setCard (hcard : card ∈ d.cards) (hid : card'.id = card.id)
    (hlive : card'.isLive columnId) : Enters d (d.setCard card') card.id columnId := by
  constructor
  · rw [Db.setCard, Table.modify, map_map]
    apply map_congr_left
    intro c _
    by_cases hc : c.id = card'.id
    · simp [hc]
    · simp [hc]
  · intro k
    constructor
    · rintro ⟨c, hc, hclive, rfl⟩
      rcases mem_setCard.mp hc with ⟨hold, hne⟩ | ⟨rfl, -⟩
      · exact .inr ⟨fun heq => hne (heq.trans hid.symm), c, hold, hclive, rfl⟩
      · exact .inl hid
    · rintro (rfl | ⟨hne, c, hc, hclive, rfl⟩)
      · exact ⟨card', mem_setCard.mpr (.inr ⟨rfl, card, hcard, hid.symm⟩), hlive, hid⟩
      · exact ⟨c, mem_setCard.mpr (.inl ⟨hc, fun heq => hne (heq.trans hid)⟩), hclive, rfl⟩

theorem enters_self (hcard : card ∈ d.cards) (hlive : card.isLive columnId) : Enters d d card.id columnId := by
  refine ⟨rfl, fun k => ?_⟩
  constructor
  · intro h
    by_cases hk : k = card.id
    · exact .inl hk
    · exact .inr ⟨hk, h⟩
  · rintro (rfl | ⟨-, h⟩)
    · exact ⟨card, hcard, hlive, rfl⟩
    · exact h

theorem isLive_iff {card : TodoCard} : card.isLive columnId ↔ card.columnId = columnId ∧ card.archivedAt = none := by
  simp [TodoCard.isLive, Option.isNone_iff_eq_none]

theorem enters_isLive (card : TodoCard) (column : TodoColumn) (at? : Option Time) (h : card.archivedAt = none) :
    (card.enters column at?).isLive column.id := isLive_iff.mpr ⟨rfl, h⟩

/-- A card and a column that the operation `move` reads. -/
theorem move_reads (hok : move env cardId columnId d = .ok db) : ∃ card ∈ d.cards, card.id = cardId ∧
    ∃ target ∈ d.columns, target.id = columnId ∧ target.boardId = card.boardId ∧
      db = if target.id = card.columnId then d else d.setCard (card.enters target (some env.now)) := by
  simp only [move, bind_ok, pure_ok] at hok
  obtain ⟨⟨card, board⟩, hcard, target, htarget, _, _, rfl⟩ := hok
  obtain ⟨hmem, hid, -, hboard⟩ := card_ok hcard
  obtain ⟨hcolumn, htboard⟩ := pickColumn_ok htarget
  have htid : target.id = columnId := (Table.of_find (orRaise_ok.mp htarget)).2
  exact ⟨card, hmem, hid, target, hcolumn, htid, htboard.trans hboard, rfl⟩

def IsOpen (d : Db) (cardId : Uuid) : Prop := ∀ c ∈ d.cards, c.id = cardId → c.archivedAt = none

theorem move_enters (hok : move env cardId columnId d = .ok db)
    (hopen : IsOpen d cardId) : Enters d db cardId columnId ∧ cardId ∈ d.cards.map TodoCard.id := by
  obtain ⟨card, hcard, rfl, target, -, rfl, -, rfl⟩ := move_reads hok
  have hlive := hopen card hcard rfl
  refine ⟨?_, mem_map_of_mem hcard⟩
  split
  · rename_i heq
    exact enters_self hcard (isLive_iff.mpr ⟨heq.symm, hlive⟩)
  · exact enters_setCard hcard rfl (enters_isLive card target _ hlive)

theorem move_archived (hunique : (d.cards.map TodoCard.id).Nodup) (hok : move env cardId columnId d = .ok db)
    (harchived : ¬ IsOpen d cardId) : ∀ c ∈ db.cards, c.isLive columnId → c.id ≠ cardId := by
  obtain ⟨card, hcard, rfl, target, -, rfl, -, rfl⟩ := move_reads hok
  have hsome : card.archivedAt ≠ none := by
    intro hnone
    refine harchived fun c hc hid => ?_
    rw [inj_on_of_nodup_map hunique hc hcard hid]
    exact hnone
  intro c hc hlive hid
  split at hc
  · rw [inj_on_of_nodup_map hunique hc hcard hid] at hlive
    exact hsome (isLive_iff.mp hlive).2
  · rcases mem_setCard.mp hc with ⟨-, hne⟩ | ⟨rfl, -⟩
    · exact hne hid
    · exact hsome (isLive_iff.mp hlive).2

theorem transfer_enters (h : Sited d) {boardId : Uuid} {wanted : Option Uuid} (hok : transfer env cardId boardId wanted d = .ok db)
    (hcolumn : pickColumn (d.columnsOf boardId) wanted = .ok column) :
    Enters d db cardId column.id ∧ cardId ∈ d.cards.map TodoCard.id ∧ ∀ c ∈ d.cards, c.isLive column.id → c.id ≠ cardId := by
  simp only [transfer, bind_ok, pure_ok, raiseUnless_ok] at hok
  obtain ⟨⟨card, source⟩, hcard, _, hother, target, htarget, _, _, _, hlive, found, hfound, _, _, rfl⟩ := hok
  obtain ⟨hmem, rfl, -, hsource⟩ := card_ok hcard
  obtain ⟨-, rfl⟩ := board_ok htarget
  obtain rfl : found = column := Except.ok.inj (hfound.symm.trans hcolumn)
  have hopen : card.archivedAt = none := Option.isNone_iff_eq_none.mp hlive
  refine ⟨enters_setCard hmem rfl (isLive_iff.mpr ⟨rfl, hopen⟩), mem_map_of_mem hmem, fun c hc hclive hid => ?_⟩
  -- the column is on another board than the card
  obtain ⟨hfmem, hfboard⟩ := pickColumn_ok hcolumn
  have hboard := h.board_eq hc hfmem (isLive_iff.mp hclive).1.symm
  rw [inj_on_of_nodup_map h.keys.unique hc hmem hid] at hboard
  exact of_decide_eq_true hother (hfboard.symm.trans (hboard.trans hsource.symm))

theorem complete_enters (hok : complete env cardId d = .ok db) {done : Uuid}
    (hdone : d.completion cardId = some done) : Enters d db cardId done ∧ cardId ∈ d.cards.map TodoCard.id := by
  unfold complete at hok
  unfold Db.completion at hdone
  cases hcard : d.getCard cardId with
  | none =>
    rw [hcard] at hok
    cases hok
  | some card =>
    obtain ⟨hmem, rfl⟩ := Table.of_find hcard
    rw [hcard] at hok hdone
    simp only [Option.bind_eq_bind, Option.bind_some] at hok hdone
    cases hfind : (d.columnsOf card.boardId).find? TodoColumn.isDone with
    | none =>
      rw [hfind] at hdone
      cases hdone
    | some column =>
      rw [hfind] at hok hdone
      simp only [Option.bind_some] at hok hdone
      split at hdone
      · cases hdone
      · rename_i hmoves
        rw [if_neg hmoves] at hok
        obtain rfl := Option.some.inj hdone
        obtain rfl := Except.ok.inj hok
        have hopen : card.archivedAt = none := by
          by_contra hsome
          refine hmoves ?_
          rw [Bool.or_eq_true, Option.isSome_iff_ne_none]
          exact .inr hsome
        exact ⟨enters_setCard hmem rfl (enters_isLive card column _ hopen), mem_map_of_mem hmem⟩

theorem deleteColumn_reads {boardId : Uuid} {moveTo : Option Uuid} (hok : deleteColumn env boardId columnId moveTo d = .ok db) :
    (d.columnCards columnId = [] ∧ db.cards = d.cards) ∨ d.columnCards columnId ≠ [] ∧ ∃ target, moveTo = some target ∧ target ≠ columnId ∧
      ∃ isDone : Bool, db.cards = d.cards.map fun card => if card.columnId = columnId then
        { card with columnId := target, completedAt := if isDone then some (card.completedAt.getD env.now) else card.completedAt }
        else card := by
  simp only [deleteColumn, bind_ok, pure_ok, raiseUnless_ok] at hok
  obtain ⟨board, _, column, hcolumn, _, _, moved, hmoved, rfl⟩ := hok
  have hid : column.id = columnId := by
    simp only [Db.column, bind_ok, pure_ok, orRaise_ok] at hcolumn
    obtain ⟨c, hc, _, _, rfl⟩ := hcolumn
    exact (Table.of_find hc).2
  subst hid
  change _ ∧ moved.cards = d.cards ∨ _ ∧ ∃ target, _ ∧ _ ∧ ∃ isDone, moved.cards = _
  unfold moveCards at hmoved
  split at hmoved
  · rename_i hempty
    obtain rfl := Except.ok.inj hmoved
    exact .inl ⟨isEmpty_iff.mp hempty, rfl⟩
  · rename_i hfull
    cases moveTo with
    | none => cases hmoved
    | some k =>
      simp only [bind_ok, pure_ok, orRaise_ok, raiseUnless_ok] at hmoved
      obtain ⟨target, htarget, _, hgood, rfl⟩ := hmoved
      have hne : target.id ≠ column.id := (by simpa using hgood : target.boardId = board.id ∧ target.id ≠ column.id).2
      have hid := (Table.of_find htarget).2
      exact .inr ⟨fun hnil => hfull (isEmpty_iff.mpr hnil), k, rfl, hid ▸ hne, target.isDone, by rw [← hid]; rfl⟩

end Tables

section DeleteColumn

variable {s : RankedDb} {db : Db} {env : Env} {columnId target : Uuid} {writes : List (Uuid × Text)}

theorem mem_allColumnCards {k : Uuid} : k ∈ s.allColumnCards columnId ↔ ∃ c ∈ s.db.cards, c.columnId = columnId ∧ c.id = k := by
  rw [RankedDb.allColumnCards, mem_ordered]
  simp only [mem_filter, decide_eq_true_eq, and_assoc]

theorem columnCards_sublist (hkeys : CardKeys s.db) : (s.columnCards columnId).Sublist (s.allColumnCards columnId) := by
  have hsorted : (s.allColumnCards columnId).Pairwise (Before s.rank) := ordered_before (nodup_filter hkeys _)
  have hsame : s.columnCards columnId = (s.allColumnCards columnId).filter (· ∈ s.columnCards columnId) := by
    apply ordered_eq (nodup_filter hkeys _)
    · intro k
      rw [mem_filter, decide_eq_true_eq, mem_allColumnCards, mem_columnCards]
      constructor
      · rintro ⟨-, c, hc, hlive, rfl⟩
        exact ⟨c, mem_filter.mpr ⟨hc, hlive⟩, rfl⟩
      · rintro ⟨c, hc, rfl⟩
        obtain ⟨hc, hlive⟩ := mem_filter.mp hc
        exact ⟨⟨c, hc, (isLive_iff.mp hlive).1, rfl⟩, c, hc, hlive, rfl⟩
    · exact hsorted.filter _
  rw [hsame]
  exact filter_sublist

theorem delete_appended (hkeys : CardKeys s.db) (hne : target ≠ columnId) {f : TodoCard → Option Time}
    (hcards : db.cards = s.db.cards.map fun card =>
      if card.columnId = columnId then { card with columnId := target, completedAt := f card } else card)
    (happend : append s.rank (s.columnCards target) (s.allColumnCards columnId) = .ok writes) :
    WellRanked writes ∧ (Outcome.after ⟨db, writes⟩ s).columnCards target = s.columnCards target ++ s.columnCards columnId := by
  have hlive : (s.columnCards target).Nodup := (perm_insertionSort _ _).nodup_iff.mpr (nodup_filter hkeys _)
  have hall : (s.allColumnCards columnId).Nodup := (perm_insertionSort _ _).nodup_iff.mpr (nodup_filter hkeys _)
  have hnodup : (s.columnCards target ++ s.allColumnCards columnId).Nodup := by
    refine nodup_append.mpr ⟨hlive, hall, ?_⟩
    rintro a ha _ hb rfl
    obtain ⟨c, hc, hclive, hid⟩ := mem_columnCards.mp ha
    obtain ⟨r, hr, hcol, rfl⟩ := mem_allColumnCards.mp hb
    rw [inj_on_of_nodup_map hkeys.unique hc hr hid] at hclive
    exact hne ((isLive_iff.mp hclive).1.symm.trans hcol)
  have hfew : (s.columnCards target ++ s.allColumnCards columnId).length < base ^ maxLength := by
    apply few_uuids hnodup
    intro k hk
    rcases mem_append.mp hk with hk | hk
    · obtain ⟨c, hc, -, rfl⟩ := mem_columnCards.mp hk
      exact hkeys.bits c hc
    · obtain ⟨c, hc, -, rfl⟩ := mem_allColumnCards.mp hk
      exact hkeys.bits c hc
  obtain ⟨hwell, hsorted⟩ := append_sorted happend hnodup (ordered_before (nodup_filter hkeys _)) hfew
  refine ⟨hwell, ordered_eq ?_ (fun k => ?_) (hsorted.sublist ((List.Sublist.refl _).append (columnCards_sublist hkeys)))⟩
  · have hids : db.cards.map TodoCard.id = s.db.cards.map TodoCard.id := by
      rw [hcards, map_map]
      apply map_congr_left
      intro c _
      by_cases hc : c.columnId = columnId <;> simp [hc]
    have hunique : (db.cards.map TodoCard.id).Nodup := hids ▸ hkeys.unique
    exact hunique.sublist (filter_sublist.map _)
  · simp only [mem_append, mem_columnCards, mem_filter, and_assoc]
    change _ ↔ ∃ c ∈ db.cards, c.isLive target ∧ c.id = k
    rw [hcards]
    constructor
    · rintro (⟨c, hc, hclive, rfl⟩ | ⟨c, hc, hclive, rfl⟩)
      · have hout : c.columnId ≠ columnId := fun heq => hne ((isLive_iff.mp hclive).1.symm.trans heq)
        exact ⟨c, mem_map.mpr ⟨c, hc, if_neg hout⟩, hclive, rfl⟩
      · obtain ⟨hin, hopen⟩ := isLive_iff.mp hclive
        exact ⟨_, mem_map.mpr ⟨c, hc, if_pos hin⟩, isLive_iff.mpr ⟨rfl, hopen⟩, rfl⟩
    · rintro ⟨c, hc, hclive, rfl⟩
      obtain ⟨r, hr, rfl⟩ := mem_map.mp hc
      by_cases hin : r.columnId = columnId
      · rw [if_pos hin] at hclive ⊢
        exact .inr ⟨r, hr, isLive_iff.mpr ⟨hin, (isLive_iff.mp hclive).2⟩, rfl⟩
      · rw [if_neg hin] at hclive ⊢
        exact .inl ⟨r, hr, hclive, rfl⟩

end DeleteColumn

section Fold

variable {s : RankedDb}

/-- The ranks of `_chain` are valid, and short exactly when the room after the last rank lasts. -/
theorem mergeChain_fits {last : Option Text} {count : ℕ} {ranks : List Text} (h : mergeChain last count = .ok ranks) :
    (∀ r ∈ ranks, IsRank r) ∧ ((∀ r ∈ ranks, r.length ≤ maxLength) ↔ count ≤ appendRoom (last.getD [])) := by
  have hlast : count = 0 ∨ ∀ r ∈ last, IsRank r := by
    cases count with
    | zero => exact .inl rfl
    | succ count =>
      obtain ⟨r, hr, -⟩ := bind_ok.mp h
      exact .inr (bounds_of_between hr).lowRank
  rcases hlast with rfl | hlast
  · obtain rfl : [] = ranks := Except.ok.inj h
    simp
  · obtain ⟨found, hfound, hvalid, hfits⟩ := chain_fits hlast count
    obtain rfl : found = ranks := Except.ok.inj (hfound.symm.trans h)
    exact ⟨hvalid, hfits⟩

def RankedDb.coming (s : RankedDb) (sourceId first done columnId : Uuid) : List TodoCard :=
  (s.boardCards sourceId).filter fun c => s.foldColumn first done c = columnId

def FoldFits (s : RankedDb) (sourceId targetId : Uuid) : Prop :=
  ∀ first done, s.db.targets targetId = .ok (first, done) → ∀ columnId ∈ [first.id, done.id],
    (s.coming sourceId first.id done.id columnId).length ≤ appendRoom ((s.last columnId).getD [])

theorem foldInto_well {sourceId first done columnId : Uuid} {writes : List (Uuid × Text)}
    (h : s.foldInto (s.boardCards sourceId) first done columnId = .ok writes) :
    WellRanked writes ↔ (s.coming sourceId first done columnId).length ≤ appendRoom ((s.last columnId).getD []) := by
  obtain ⟨ranks, hranks, heq⟩ := bind_ok.mp h
  obtain rfl := Except.ok.inj heq
  obtain ⟨hvalid, hfits⟩ := mergeChain_fits hranks
  have hlen : ranks.length = (s.coming sourceId first done columnId).length := chain_length hranks
  have hsnd : (((s.coming sourceId first done columnId).map TodoCard.id).zip ranks).map Prod.snd = ranks := by
    rw [map_snd_zip]
    rw [hlen, length_map]
  rw [← RankedDb.coming] at hfits
  rw [← hfits, WellRanked]
  constructor
  · intro hwell r hr
    rw [← hsnd] at hr
    obtain ⟨w, hw, rfl⟩ := mem_map.mp hr
    exact (hwell w hw).2
  · intro hshort w hw
    have hmem : w.2 ∈ ranks := (of_mem_zip hw).2
    exact ⟨hvalid _ hmem, hshort _ hmem⟩

theorem foldRanked_well {sourceId targetId : Uuid} {o : Outcome} (h : foldRanked sourceId targetId s = .ok o) :
    WellRanked o.writes ↔ FoldFits s sourceId targetId := by
  obtain ⟨⟨first, done⟩, htargets, h⟩ := bind_ok.mp h
  obtain ⟨db, -, h⟩ := bind_ok.mp h
  obtain ⟨writes, hwrites, heq⟩ := bind_ok.mp h
  obtain rfl := Except.ok.inj heq
  have htargets := orStop_ok.mp htargets
  have hmap : [first.id, done.id].dedup.mapM (s.foldInto (s.boardCards sourceId) first.id done.id) = .ok writes := by
    have hcrash := orCrash_ok.mp hwrites
    cases hcase : [first.id, done.id].dedup.mapM (s.foldInto (s.boardCards sourceId) first.id done.id) with
    | error e =>
      rw [hcase] at hcrash
      cases hcrash
    | ok found =>
      rw [hcase] at hcrash
      exact congrArg Except.ok (Except.ok.inj hcrash)
  have hflat : WellRanked writes.flatten ↔ ∀ w ∈ writes, WellRanked w := forall_mem_flatten
  rw [hflat, mapM_forall hmap]
  constructor
  · intro hwell first' done' htargets' columnId hmem
    obtain ⟨rfl, rfl⟩ := Prod.mk.inj (Except.ok.inj (htargets.symm.trans htargets'))
    obtain ⟨w, -, hw⟩ := mapM_ok hmap columnId (mem_dedup.mpr hmem)
    exact (foldInto_well hw).mp (hwell columnId (mem_dedup.mpr hmem) w hw)
  · intro hfits columnId hmem w hw
    exact (foldInto_well hw).mpr (hfits first done htargets columnId (mem_dedup.mp hmem))

end Fold

section Placings

variable {s : RankedDb} {env : Env}
variable {columnId cardId boardId : Uuid} {o : Outcome}

/-- What a placement promises: the order of the column with the card at its place, and short ranks. -/
def Placing.Kept (s : RankedDb) (o : Outcome) : Placing → Prop
  | .move cardId columnId afterId beforeId =>
    WellRanked o.writes ∧ Inserted (s.siblings columnId cardId) ((o.after s).columnCards columnId) cardId afterId beforeId
  | .transfer cardId boardId columnId afterId beforeId =>
    WellRanked o.writes ∧ ∃ column, pickColumn (s.db.columnsOf boardId) columnId = .ok column ∧
      Inserted (s.columnCards column.id) ((o.after s).columnCards column.id) cardId afterId beforeId
  | .complete cardId =>
    WellRanked o.writes ∧ ∀ done, s.db.completion cardId = some done →
      Inserted (s.siblings done cardId) ((o.after s).columnCards done) cardId none none
  | .deleteColumn _ columnId moveTo =>
    WellRanked o.writes ∧ ∀ target, moveTo = some target →
      (o.after s).columnCards target = s.columnCards target ++ s.columnCards columnId
  | .fold _ _ => WellRanked o.writes

def Placing.Careful (s : RankedDb) : Placing → Prop
  | .move cardId _ _ _ => IsOpen s.db cardId
  | .fold sourceId targetId => FoldFits s sourceId targetId
  | _ => True

theorem columnCards_eq_siblings (h : ∀ c ∈ s.db.cards, c.isLive columnId → c.id ≠ cardId) :
    s.columnCards columnId = s.siblings columnId cardId := by
  have hcards : (s.db.cards.filter fun c => c.isLive columnId) =
      s.db.cards.filter fun c => c.isLive columnId && c.id ≠ cardId := by
    apply filter_congr
    intro c hc
    cases hlive : c.isLive columnId with
    | false => rfl
    | true => simp [h c hc hlive]
  rw [RankedDb.columnCards, hcards]
  rfl

theorem move_kept_iff (h : Sited s.db) {afterId beforeId : Option Uuid}
    (hok : moveRanked env cardId columnId afterId beforeId s = .ok o) :
    (Placing.move cardId columnId afterId beforeId).Kept s o ↔ IsOpen s.db cardId := by
  obtain ⟨db, hdb, hok⟩ := bind_ok.mp hok
  obtain ⟨index, hslot, hok⟩ := bind_ok.mp hok
  obtain ⟨⟨writes, fresh⟩, hplace, heq⟩ := bind_ok.mp hok
  obtain rfl := Except.ok.inj heq
  rw [orStop_ok] at hdb hslot
  rw [orCrash_ok] at hplace
  constructor
  · rintro ⟨-, above, below, -, hnew, -⟩
    by_contra harchived
    have hmem : cardId ∈ (Outcome.after ⟨db, writes⟩ s).columnCards columnId := by
      rw [hnew]
      simp
    obtain ⟨c, hc, hlive, hid⟩ := mem_columnCards.mp hmem
    exact move_archived h.keys.unique hdb harchived c hc hlive hid
  · intro hopen
    obtain ⟨henters, hcard⟩ := move_enters hdb hopen
    exact henters.placed h.keys hcard hslot hplace

theorem transfer_promise (h : Sited s.db) {columnId afterId beforeId : Option Uuid}
    (hok : transferRanked env cardId boardId columnId afterId beforeId s = .ok o) :
    (Placing.transfer cardId boardId columnId afterId beforeId).Kept s o := by
  obtain ⟨db, hdb, hok⟩ := bind_ok.mp hok
  obtain ⟨column, hcolumn, hok⟩ := bind_ok.mp hok
  obtain ⟨index, hslot, hok⟩ := bind_ok.mp hok
  obtain ⟨⟨writes, fresh⟩, hplace, heq⟩ := bind_ok.mp hok
  obtain rfl := Except.ok.inj heq
  rw [orStop_ok] at hdb hcolumn hslot
  rw [orCrash_ok] at hplace
  obtain ⟨henters, hcard, hout⟩ := transfer_enters h hdb hcolumn
  have hlive := columnCards_eq_siblings hout
  rw [hlive] at hslot hplace
  obtain ⟨hwell, hinserted⟩ := henters.placed h.keys hcard hslot hplace
  rw [← hlive] at hinserted
  exact ⟨hwell, column, hcolumn, hinserted⟩

theorem complete_promise (h : Sited s.db) (hok : completeRanked env cardId s = .ok o) : (Placing.complete cardId).Kept s o := by
  obtain ⟨db, hdb, hok⟩ := bind_ok.mp hok
  rw [orStop_ok] at hdb
  cases hdone : s.db.completion cardId with
  | none =>
    rw [hdone] at hok
    obtain rfl := Except.ok.inj hok
    refine ⟨by simp [WellRanked], fun done hsome => ?_⟩
    rw [hdone] at hsome
    cases hsome
  | some done =>
    rw [hdone] at hok
    obtain ⟨writes, happend, heq⟩ := bind_ok.mp hok
    obtain rfl := Except.ok.inj heq
    obtain ⟨henters, hcard⟩ := complete_enters hdb hdone
    obtain ⟨hwell, hinserted⟩ := henters.appended h.keys hcard (orCrash_ok.mp happend)
    refine ⟨hwell, fun other hother => ?_⟩
    obtain rfl : done = other := Option.some.inj (hdone.symm.trans hother)
    exact hinserted

theorem deleteColumn_promise (h : Sited s.db) {moveTo : Option Uuid}
    (hok : deleteColumnRanked env boardId columnId moveTo s = .ok o) :
    (Placing.deleteColumn boardId columnId moveTo).Kept s o := by
  obtain ⟨db, hdb, hok⟩ := bind_ok.mp hok
  rw [orStop_ok] at hdb
  rcases deleteColumn_reads hdb with ⟨hnone, hcards⟩ | ⟨hfull, target, rfl, hne, isDone, hcards⟩
  · have hall : s.allColumnCards columnId = [] := congrArg s.ordered hnone
    rw [hall] at hok
    obtain rfl := Except.ok.inj hok
    refine ⟨by simp [WellRanked], fun target _ => ?_⟩
    have hlive : s.columnCards columnId = [] := sublist_nil.mp (hall ▸ columnCards_sublist h.keys)
    have hsame : (Outcome.after ⟨db, []⟩ s).columnCards target = s.columnCards target := by
      unfold RankedDb.columnCards Outcome.after
      simp only [hcards]
      rfl
    rw [hsame, hlive, append_nil]
  · have hall : s.allColumnCards columnId ≠ [] := by
      obtain ⟨c, hc⟩ := exists_mem_of_ne_nil _ hfull
      obtain ⟨hc, hcol⟩ := mem_filter.mp hc
      exact ne_nil_of_mem (mem_allColumnCards.mpr ⟨c, hc, of_decide_eq_true hcol, rfl⟩)
    obtain ⟨first, rest, hcons⟩ := exists_cons_of_ne_nil hall
    rw [hcons] at hok
    obtain ⟨writes, happend, heq⟩ := bind_ok.mp hok
    obtain rfl := Except.ok.inj heq
    rw [orCrash_ok, ← hcons] at happend
    obtain ⟨hwell, hcolumn⟩ := delete_appended h.keys hne hcards happend
    refine ⟨hwell, fun other hother => ?_⟩
    obtain rfl : target = other := Option.some.inj hother
    exact hcolumn

/-- A placement keeps its promise exactly where a move moves no archived card and a fold has the room. -/
theorem placing_kept_iff (h : Sited s.db) (p : Placing) {o : Outcome} (hok : p.handle env s = .ok o) :
    p.Kept s o ↔ p.Careful s := by
  cases p with
  | move cardId columnId afterId beforeId => exact move_kept_iff h hok
  | transfer cardId boardId columnId afterId beforeId => exact iff_of_true (transfer_promise h hok) trivial
  | complete cardId => exact iff_of_true (complete_promise h hok) trivial
  | deleteColumn boardId columnId moveTo => exact iff_of_true (deleteColumn_promise h hok) trivial
  | fold sourceId targetId => exact foldRanked_well hok

end Placings

section Boards

def twoBoards : Db where
  boards := [⟨0, .personal, some 100, none⟩, ⟨5, .personal, some 200, none⟩]
  columns := defaultColumns 0 1 ++ defaultColumns 5 6
  cards := [⟨10, 0, 1, none, none⟩, ⟨11, 5, 6, none, none⟩]
  next := 12

theorem twoBoards_sited : Sited twoBoards where
  keys := ⟨by decide, by decide⟩
  columnIds := by decide
  sited := by decide

def lastRank : Text := List.replicate maxLength topDigit

theorem lastRank_isRank : IsRank lastRank := ⟨by decide, by decide, by decide⟩

def fullColumn : RankedDb := ⟨twoBoards, fun card => if card = 11 then lastRank else text "i"⟩

theorem fold_beyond_last : Sited fullColumn.db ∧ ∃ o, Placing.handle member (.fold 0 5) fullColumn = .ok o ∧
    ¬ Placing.Kept fullColumn o (.fold 0 5) := by
  have htargets : fullColumn.db.targets 5 = .ok (⟨6, 5, text "Offen", 0, false⟩, ⟨9, 5, text "Erledigt", 3, true⟩) := by
    decide
  have hchain : mergeChain (some lastRank) 1 = .ok [appended lastRank] := by
    have hnext : between (some lastRank) none = .ok (appended lastRank) :=
      between_append (by rintro _ ⟨⟩; exact lastRank_isRank)
    rw [mergeChain, chain, hnext]
    rfl
  have hfirst : fullColumn.foldInto (fullColumn.boardCards 0) 6 9 6 = .ok [(10, appended lastRank)] := by
    have hcoming : (fullColumn.boardCards 0).filter (fun c => fullColumn.foldColumn 6 9 c = 6) = [⟨10, 0, 1, none, none⟩] := by
      decide
    have hlast : fullColumn.last 6 = some lastRank := by decide
    simp only [RankedDb.foldInto, hcoming, hlast]
    change mergeChain (some lastRank) 1 >>= _ = _
    rw [hchain]
    rfl
  have hdone : fullColumn.foldInto (fullColumn.boardCards 0) 6 9 9 = .ok [] := by
    have hcoming : (fullColumn.boardCards 0).filter (fun c => fullColumn.foldColumn 6 9 c = 9) = [] := by decide
    simp only [RankedDb.foldInto, hcoming]
    rfl
  have hok : ∃ o, Placing.handle member (.fold 0 5) fullColumn = .ok o := by
    obtain ⟨db, hdb⟩ : ∃ db, foldPersonalBoard 0 5 fullColumn.db = .ok db := ⟨_, rfl⟩
    refine ⟨⟨db, [(10, appended lastRank)]⟩, bind_ok.mpr ⟨_, orStop_ok.mpr htargets, bind_ok.mpr ⟨db, orStop_ok.mpr hdb,
      bind_ok.mpr ⟨[[(10, appended lastRank)], []], orCrash_ok.mpr ?_, rfl⟩⟩⟩⟩
    change Except.mapError _ (List.mapM (fullColumn.foldInto (fullColumn.boardCards 0) 6 9) [6, 9]) = _
    rw [mapM_cons, hfirst, mapM_cons, hdone]
    rfl
  obtain ⟨o, ho⟩ := hok
  refine ⟨twoBoards_sited, o, ho, fun hkept => ?_⟩
  have hfits := (foldRanked_well ho).mp hkept _ _ htargets 6 (by decide)
  revert hfits
  decide

/-- Two cards of one rank in the first column, and a third card beside them. -/
def evenColumn : RankedDb where
  db := { twoBoards with cards := [⟨10, 0, 1, none, none⟩, ⟨12, 0, 1, none, none⟩, ⟨13, 0, 2, none, none⟩], next := 14 }
  rank _ := text "i"

theorem evenColumn_sited : Sited evenColumn.db where
  keys := ⟨by decide, by decide⟩
  columnIds := by decide
  sited := by decide

/-- The third card comes between the two: no rank lies there, and the column gets fresh ones. -/
theorem placing_kept_between : ∃ o, Placing.handle member (.move 13 1 (some 10) (some 12)) evenColumn = .ok o ∧
    o.writes.map Prod.fst = [10, 13, 12] ∧ Placing.Kept evenColumn o (.move 13 1 (some 10) (some 12)) := by
  obtain ⟨db, hdb⟩ : ∃ db, move member 13 1 evenColumn.db = .ok db := ⟨_, rfl⟩
  have hsiblings : evenColumn.siblings 1 13 = [10, 12] := by decide
  have hslot : slot (evenColumn.siblings 1 13) (some 10) (some 12) = .ok 1 := by decide
  have hplace : place evenColumn.rank (evenColumn.siblings 1 13) 1 13 = .ok (respread [10, 13, 12], true) := by
    obtain ⟨e, he, hkind⟩ : ∃ e, rankWithin (some (text "i")) (some (text "i")) = .error e ∧ e.isRankError = true := ⟨_, rfl, rfl⟩
    have hrank : evenColumn.rank = fun _ => text "i" := rfl
    simp [hsiblings, place, hrank, he, hkind]
  have ho : Placing.handle member (.move 13 1 (some 10) (some 12)) evenColumn = .ok ⟨db, respread [10, 13, 12]⟩ :=
    bind_ok.mpr ⟨db, orStop_ok.mpr hdb, bind_ok.mpr ⟨1, orStop_ok.mpr hslot, bind_ok.mpr ⟨_, orCrash_ok.mpr hplace, rfl⟩⟩⟩
  refine ⟨_, ho, ?_, (placing_kept_iff evenColumn_sited _ ho).mpr (by unfold Placing.Careful IsOpen; decide)⟩
  exact map_fst_zip (by simp [spread])

end Boards

end Todo
