import Mathlib.Data.Finset.Card
import StupaWorkflow.TodoRanks
import StupaWorkflow.TodoRuns

/-!
Where a placed card stands.
-/
namespace Todo
open Py Lexorank Raises List

section Order

variable (rank : Uuid → Text)

/-- `ORDER BY rank, id` as an order of the cards. -/
def NotAfter (a b : Uuid) : Prop := rank a < rank b ∨ rank a = rank b ∧ a ≤ b

instance : DecidableRel (NotAfter rank) := fun a b => inferInstanceAs (Decidable (rank a < rank b ∨ rank a = rank b ∧ a ≤ b))

instance : Std.Total (NotAfter rank) where
  total a b := by
    rcases lt_trichotomy (rank a) (rank b) with hlt | heq | hgt
    · exact .inl (.inl hlt)
    · exact (Nat.le_total a b).imp (fun hle => .inr ⟨heq, hle⟩) fun hle => .inr ⟨heq.symm, hle⟩
    · exact .inr (.inl hgt)

instance : IsTrans Uuid (NotAfter rank) where
  trans a b c := by
    rintro (hab | ⟨hab, hle⟩) (hbc | ⟨hbc, hle'⟩)
    · exact .inl (hab.trans hbc)
    · exact .inl (hbc ▸ hab)
    · exact .inl (hab ▸ hbc)
    · exact .inr ⟨hab.trans hbc, hle.trans hle'⟩

theorem notAfter_antisymm {a b : Uuid} (hab : NotAfter rank a b) (hba : NotAfter rank b a) : a = b := by
  rcases hab with hab | ⟨hab, hle⟩
  · rcases hba with hba | ⟨hba, -⟩
    · exact absurd hba hab.not_gt
    · exact absurd hab (hba ▸ lt_irrefl _)
  · rcases hba with hba | ⟨-, hle'⟩
    · exact absurd hba (hab ▸ lt_irrefl _)
    · exact Nat.le_antisymm hle hle'

theorem before_iff {a b : Uuid} : Before rank a b ↔ NotAfter rank a b ∧ a ≠ b := by
  constructor
  · rintro (hlt | ⟨heq, hlt⟩)
    · exact ⟨.inl hlt, fun hab => lt_irrefl (rank a) (hab ▸ hlt)⟩
    · exact ⟨.inr ⟨heq, hlt.le⟩, hlt.ne⟩
  · rintro ⟨hlt | ⟨heq, hle⟩, hne⟩
    · exact .inl hlt
    · exact .inr ⟨heq, lt_of_le_of_ne hle hne⟩

variable {s : RankedDb} {cards : List TodoCard}

theorem ordered_before (h : (cards.map TodoCard.id).Nodup) : (s.ordered cards).Pairwise (Before s.rank) := by
  have hsorted : (s.ordered cards).Pairwise (NotAfter s.rank) := pairwise_insertionSort (NotAfter s.rank) _
  have hnodup : (s.ordered cards).Nodup := (perm_insertionSort _ _).nodup_iff.mpr h
  exact (hsorted.and hnodup).imp fun hab => (before_iff s.rank).mpr hab

theorem mem_ordered {k : Uuid} : k ∈ s.ordered cards ↔ ∃ c ∈ cards, c.id = k := by
  rw [RankedDb.ordered, mem_insertionSort, mem_map]

theorem ordered_eq (h : (cards.map TodoCard.id).Nodup) {ids : List Uuid} (hmem : ∀ k, k ∈ ids ↔ ∃ c ∈ cards, c.id = k)
    (hids : ids.Pairwise (Before s.rank)) : s.ordered cards = ids := by
  have hnodup : ids.Nodup := hids.imp fun hab => ((before_iff s.rank).mp hab).2
  have hold : (s.ordered cards).Nodup := (perm_insertionSort _ _).nodup_iff.mpr h
  have hperm : (s.ordered cards).Perm ids := by
    rw [perm_ext_iff_of_nodup hold hnodup]
    intro k
    rw [mem_ordered, hmem]
  refine List.Perm.eq_of_pairwise (fun a b _ _ hab hba => notAfter_antisymm s.rank hab hba) ?_ ?_ hperm
  · exact pairwise_insertionSort (NotAfter s.rank) _
  · exact hids.imp fun hab => ((before_iff s.rank).mp hab).1

end Order

section Writes

variable {rank : Uuid → Text} {ids : List Uuid} {ranks : List Text}

theorem setRanks_off {writes : List (Uuid × Text)} {card : Uuid} (h : card ∉ writes.map Prod.fst) :
    setRanks rank writes card = rank card := by
  have hnone : writes.lookup card = none := by
    rw [lookup_eq_none_iff]
    intro p hp
    rw [bne_iff_ne]
    rintro rfl
    exact h (mem_map_of_mem hp)
  rw [setRanks, hnone, Option.getD_none]

theorem setRanks_cons (card : Uuid) (r : Text) (writes : List (Uuid × Text)) (other : Uuid) :
    setRanks rank ((card, r) :: writes) other = if other = card then r else setRanks rank writes other := by
  unfold setRanks
  rw [lookup_cons]
  by_cases h : other = card
  · rw [if_pos h, h, beq_self_eq_true]
    rfl
  · rw [if_neg h, beq_false_of_ne h]

theorem setRanks_zip (hids : ids.Nodup) (hlen : ids.length = ranks.length) : ids.map (setRanks rank (ids.zip ranks)) = ranks := by
  induction ids generalizing ranks with
  | nil => exact (eq_nil_of_length_eq_zero hlen.symm).symm
  | cons card ids ih =>
    cases ranks with
    | nil => cases hlen
    | cons r ranks =>
      obtain ⟨hcard, hids⟩ := nodup_cons.mp hids
      have hrest : ids.map (setRanks rank ((card, r) :: ids.zip ranks)) = ids.map (setRanks rank (ids.zip ranks)) := by
        apply map_congr_left
        intro other hother
        rw [setRanks_cons, if_neg (ne_of_mem_of_not_mem hother hcard)]
      rw [zip_cons_cons, map_cons, hrest, ih hids (Nat.succ.inj hlen), setRanks_cons, if_pos rfl]

theorem before_of_ascending (h : (ids.map rank).Pairwise (· < ·)) : ids.Pairwise (Before rank) := by
  rw [pairwise_map] at h
  exact h.imp .inl

theorem fst_zip_subset {card : Uuid} (h : card ∈ (ids.zip ranks).map Prod.fst) : card ∈ ids := by
  obtain ⟨⟨k, r⟩, hmem, rfl⟩ := mem_map.mp h
  exact (of_mem_zip hmem).1

end Writes

section Ranks

variable {rank : Uuid → Text} {live cards : List Uuid} {card : Uuid}
variable {writes : List (Uuid × Text)}

def WellRanked (writes : List (Uuid × Text)) : Prop := ∀ w ∈ writes, IsRank w.2 ∧ w.2.length ≤ maxLength

theorem rankWithin_ok {low high : Option Text} {r : Text} (h : rankWithin low high = .ok r) :
    Inside low high r ∧ r.length ≤ maxLength := by
  obtain ⟨found, hfound, h⟩ := bind_ok.mp h
  obtain ⟨_, hlen, heq⟩ := bind_ok.mp h
  obtain rfl : found = r := Except.ok.inj heq
  have hbetween : between low high = .ok found := by
    cases hcase : between low high with
    | error e =>
      rw [hcase] at hfound
      cases hfound
    | ok x =>
      rw [hcase] at hfound
      exact congrArg Except.ok (Except.ok.inj hfound)
  exact ⟨inside_of_between hbetween, of_decide_eq_true (raiseUnless_ok.mp hlen)⟩

theorem respread_well {ordered : List Uuid} (h : ordered.length < base ^ maxLength) : WellRanked (respread ordered) := by
  intro w hw
  have hmem : w.2 ∈ spread ordered.length := (of_mem_zip hw).2
  exact ⟨(spread_ranks ordered.length).2.1 _ hmem, spread_length h _ hmem⟩

theorem respread_before {ordered : List Uuid} (h : ordered.Nodup) : ordered.Pairwise (Before (setRanks rank (respread ordered))) := by
  apply before_of_ascending
  obtain ⟨hlen, -, hsorted, -⟩ := spread_ranks ordered.length
  rw [respread, setRanks_zip h hlen.symm]
  exact hsorted

theorem ranksAfter_ok {last : Option Text} {count : ℕ} {ranks : List Text} (h : ranksAfter last count = .ok ranks) :
    ranks.length = count ∧ (∀ r ∈ ranks, IsRank r ∧ r.length ≤ maxLength) ∧ ranks.Pairwise (· < ·) ∧
      ∀ l ∈ last, ∀ r ∈ ranks, l < r := by
  induction count generalizing last ranks with
  | zero =>
    obtain rfl : [] = ranks := Except.ok.inj h
    simp
  | succ count ih =>
    obtain ⟨r, hr, h⟩ := bind_ok.mp h
    obtain ⟨rest, hrest, heq⟩ := bind_ok.mp h
    obtain rfl : r :: rest = ranks := Except.ok.inj heq
    obtain ⟨hlen, hwell, hsorted, habove⟩ := ih hrest
    obtain ⟨hinside, hfits⟩ := rankWithin_ok hr
    have hup : ∀ q ∈ rest, r < q := habove r rfl
    refine ⟨by rw [length_cons, hlen], ?_, pairwise_cons.mpr ⟨hup, hsorted⟩, fun l hl q hq => ?_⟩
    · exact forall_mem_cons.mpr ⟨⟨hinside.isRank, hfits⟩, hwell⟩
    · rcases mem_cons.mp hq with rfl | hq
      · exact hinside.above l hl
      · exact lt_trans (hinside.above l hl) (hup q hq)

theorem lt_of_last {r : Text} (h : live.Pairwise (Before rank)) (hlast : ∀ l ∈ live.getLast?.map rank, l < r) :
    ∀ a ∈ live, rank a < r := by
  rcases eq_nil_or_concat' live with rfl | ⟨front, last, rfl⟩
  · simp
  · have hr : rank last < r := hlast _ (by simp)
    rw [pairwise_append] at h
    intro a ha
    rcases mem_append.mp ha with hfront | hsingle
    · rcases h.2.2 a hfront last (by simp) with hlt | ⟨heq, -⟩
      · exact lt_trans hlt hr
      · exact heq ▸ hr
    · rwa [mem_singleton.mp hsingle]

theorem lt_of_first {r : Text} (h : live.Pairwise (Before rank)) (hfirst : ∀ d ∈ live.head?.map rank, r < d) :
    ∀ b ∈ live, r < rank b := by
  cases live with
  | nil => simp
  | cons first live =>
    have hr : r < rank first := hfirst _ rfl
    intro b hb
    rcases mem_cons.mp hb with rfl | hb
    · exact hr
    · rcases (pairwise_cons.mp h).1 b hb with hlt | ⟨heq, -⟩
      · exact lt_trans hr hlt
      · exact heq ▸ hr

theorem before_off (h : live.Pairwise (Before rank)) (hoff : ∀ k ∈ live, k ∉ writes.map Prod.fst) :
    live.Pairwise (Before (setRanks rank writes)) := by
  refine h.imp_of_mem fun {a b} ha hb hab => ?_
  unfold Before
  rw [setRanks_off (hoff a ha), setRanks_off (hoff b hb)]
  exact hab

/-- `_append` puts the cards after the live ones, and leaves the order of both. -/
theorem append_sorted (hok : append rank live cards = .ok writes) (hnodup : (live ++ cards).Nodup)
    (h : live.Pairwise (Before rank)) (hfew : (live ++ cards).length < base ^ maxLength) :
    WellRanked writes ∧ (live ++ cards).Pairwise (Before (setRanks rank writes)) := by
  unfold append at hok
  split at hok
  case h_1 ranks hranks =>
    obtain rfl := Except.ok.inj hok
    obtain ⟨hlen, hwell, hsorted, habove⟩ := ranksAfter_ok hranks
    obtain ⟨-, hcards, hapart⟩ := nodup_append.mp hnodup
    have hoff : ∀ k ∈ live, k ∉ (cards.zip ranks).map Prod.fst := fun k hk hmem => hapart k hk k (fst_zip_subset hmem) rfl
    have hnew : cards.map (setRanks rank (cards.zip ranks)) = ranks := setRanks_zip hcards hlen.symm
    refine ⟨fun w hw => hwell _ (of_mem_zip hw).2, pairwise_append.mpr ⟨before_off h hoff, ?_, fun a ha c hc => ?_⟩⟩
    · apply before_of_ascending
      rw [hnew]
      exact hsorted
    · have hmem := mem_map_of_mem (f := setRanks rank (cards.zip ranks)) hc
      rw [hnew] at hmem
      left
      rw [setRanks_off (hoff a ha)]
      exact lt_of_last h (fun l hl => habove l hl _ hmem) a ha
  case h_2 e _ =>
    split at hok
    · obtain rfl := Except.ok.inj hok
      exact ⟨respread_well hfew, respread_before hnodup⟩
    · cases hok

theorem take_last {index : ℕ} (h : index ≤ live.length) :
    (live.take index).getLast? = if index > 0 then live[index - 1]? else none := by
  rw [getLast?_take]
  by_cases hzero : index = 0
  · rw [if_pos hzero, if_neg (by omega)]
  · have hlt : index - 1 < live.length := by omega
    rw [if_neg hzero, if_pos (by omega), getElem?_eq_getElem hlt]
    rfl

/-- `_place` puts the card at the index, and leaves the order of the others. -/
theorem place_sorted {index : ℕ} {fresh : Bool} (hok : place rank live index card = .ok (writes, fresh))
    (hindex : index ≤ live.length) (hnodup : live.Nodup) (hcard : card ∉ live) (h : live.Pairwise (Before rank))
    (hfew : live.length + 1 < base ^ maxLength) :
    WellRanked writes ∧ (live.take index ++ card :: live.drop index).Pairwise (Before (setRanks rank writes)) := by
  have hwhole := take_append_drop index live
  have hnodup' : (live.take index ++ card :: live.drop index).Nodup := by
    rw [perm_middle.nodup_iff, hwhole]
    exact nodup_cons.mpr ⟨hcard, hnodup⟩
  unfold place at hok
  simp only at hok
  split at hok
  case h_1 r hr =>
    obtain ⟨rfl, -⟩ := Prod.mk.inj (Except.ok.inj hok)
    obtain ⟨hinside, hfits⟩ := rankWithin_ok hr
    rw [← hwhole, pairwise_append] at h
    obtain ⟨habove, hbelow, hcross⟩ := h
    have hlow : ∀ a ∈ live.take index, rank a < r := by
      apply lt_of_last habove
      rw [take_last hindex]
      intro l hl
      apply hinside.above l
      split at hl
      · rwa [if_pos ‹_›]
      · cases hl
    have hhigh : ∀ b ∈ live.drop index, r < rank b := by
      apply lt_of_first hbelow
      rw [head?_drop]
      exact hinside.below
    have hself : setRanks rank [(card, r)] card = r := by rw [setRanks_cons, if_pos rfl]
    have hoff : ∀ k ∈ live, k ∉ [(card, r)].map Prod.fst := by
      intro k hk hmem
      obtain rfl : k = card := by simpa using hmem
      exact hcard hk
    refine ⟨?_, pairwise_append.mpr ⟨before_off habove fun k hk => hoff k (mem_of_mem_take hk), ?_, ?_⟩⟩
    · intro w hw
      rw [mem_singleton.mp hw]
      exact ⟨hinside.isRank, hfits⟩
    · refine pairwise_cons.mpr ⟨fun b hb => .inl ?_, before_off hbelow fun k hk => hoff k (mem_of_mem_drop hk)⟩
      rw [hself, setRanks_off (hoff b (mem_of_mem_drop hb))]
      exact hhigh b hb
    · intro a ha b hb
      rcases mem_cons.mp hb with rfl | hb
      · left
        rw [hself, setRanks_off (hoff a (mem_of_mem_take ha))]
        exact hlow a ha
      · unfold Before
        rw [setRanks_off (hoff a (mem_of_mem_take ha)), setRanks_off (hoff b (mem_of_mem_drop hb))]
        exact hcross a ha b hb
  case h_2 e _ =>
    split at hok
    · obtain ⟨rfl, -⟩ := Prod.mk.inj (Except.ok.inj hok)
      refine ⟨respread_well ?_, respread_before hnodup'⟩
      rw [perm_middle.length_eq, length_cons, hwhole]
      exact hfew
    · cases hok

end Ranks

section Slots

variable {siblings : List Uuid} {card : Uuid} {index : ℕ}

theorem slotOf_ok (h : slotOf siblings card = .ok index) : index < siblings.length ∧ siblings[index]? = some card := by
  unfold slotOf at h
  split at h
  case isTrue hmem =>
    obtain rfl := Except.ok.inj h
    have hlt := idxOf_lt_length_of_mem hmem
    exact ⟨hlt, by rw [getElem?_eq_getElem hlt, getElem_idxOf]⟩
  case isFalse => cases h

def Inserted (old new : List Uuid) (card : Uuid) (afterId beforeId : Option Uuid) : Prop :=
  ∃ above below, old = above ++ below ∧ new = above ++ card :: below ∧
    (∀ a, afterId = some a → above.getLast? = some a) ∧ (∀ b, beforeId = some b → below.head? = some b) ∧
    (afterId = none → beforeId = none → below = [])

theorem last_of_slot {a : Uuid} (h : index < siblings.length) (hat : siblings[index]? = some a) :
    (siblings.take (index + 1)).getLast? = some a := by
  rw [take_last (Nat.succ_le_of_lt h), if_pos (Nat.succ_pos index)]
  exact hat

theorem slot_inserted {afterId beforeId : Option Uuid} (h : slot siblings afterId beforeId = .ok index) (card : Uuid) :
    index ≤ siblings.length ∧
      Inserted siblings (siblings.take index ++ card :: siblings.drop index) card afterId beforeId := by
  cases afterId with
  | none =>
    cases beforeId with
    | none =>
      obtain rfl := Except.ok.inj h
      refine ⟨le_rfl, _, _, (take_append_drop _ _).symm, rfl, by simp, by simp, fun _ _ => drop_length⟩
    | some b =>
      obtain ⟨hlt, hat⟩ := slotOf_ok h
      refine ⟨hlt.le, _, _, (take_append_drop _ _).symm, rfl, by simp, ?_, by simp⟩
      rintro _ ⟨⟩
      rw [head?_drop]
      exact hat
  | some a =>
    cases beforeId with
    | none =>
      cases hcase : slotOf siblings a with
      | error e =>
        rw [slot, hcase] at h
        cases h
      | ok above =>
        rw [slot, hcase] at h
        obtain rfl : above + 1 = index := Except.ok.inj h
        obtain ⟨hlt, hat⟩ := slotOf_ok hcase
        refine ⟨hlt, _, _, (take_append_drop _ _).symm, rfl, ?_, by simp, by simp⟩
        rintro _ ⟨⟩
        exact last_of_slot hlt hat
    | some b =>
      obtain ⟨above, habove, h⟩ := bind_ok.mp h
      obtain ⟨below, hbelow, h⟩ := bind_ok.mp h
      obtain ⟨_, hnext, heq⟩ := bind_ok.mp h
      obtain rfl : below = index := Except.ok.inj heq
      obtain rfl : below = above + 1 := of_decide_eq_true (raiseUnless_ok.mp hnext)
      obtain ⟨hlt, hat⟩ := slotOf_ok habove
      obtain ⟨-, hatBelow⟩ := slotOf_ok hbelow
      refine ⟨hlt, _, _, (take_append_drop _ _).symm, rfl, ?_, ?_, by simp⟩
      · rintro _ ⟨⟩
        exact last_of_slot hlt hat
      · rintro _ ⟨⟩
        rw [head?_drop]
        exact hatBelow

end Slots

section Columns

variable {s : RankedDb} {db : Db} {cardId columnId : Uuid} {writes : List (Uuid × Text)}

/-- The rows of the cards: their keys are UUIDs of 128 bits, each once. -/
structure CardKeys (d : Db) : Prop where
  unique : (d.cards.map TodoCard.id).Nodup
  bits : ∀ card ∈ d.cards, card.id < 2 ^ 128

theorem few_uuids {ids : List Uuid} (hnodup : ids.Nodup) (hbits : ∀ k ∈ ids, k < 2 ^ 128) : ids.length < base ^ maxLength := by
  have hsub : ids.toFinset ⊆ Finset.range (2 ^ 128) := by
    intro k hk
    rw [mem_toFinset] at hk
    exact Finset.mem_range.mpr (hbits k hk)
  have hcard := Finset.card_le_card hsub
  rw [toFinset_card_of_nodup hnodup, Finset.card_range] at hcard
  exact hcard.trans_lt (by decide)

theorem nodup_filter {d : Db} (h : CardKeys d) (p : TodoCard → Bool) : ((d.cards.filter p).map TodoCard.id).Nodup :=
  h.unique.sublist (filter_sublist.map _)

theorem mem_columnCards {k : Uuid} : k ∈ s.columnCards columnId ↔ ∃ c ∈ s.db.cards, c.isLive columnId ∧ c.id = k := by
  rw [RankedDb.columnCards, mem_ordered]
  simp only [mem_filter, and_assoc]

theorem mem_siblings {k : Uuid} :
    k ∈ s.siblings columnId cardId ↔ k ≠ cardId ∧ ∃ c ∈ s.db.cards, c.isLive columnId ∧ c.id = k := by
  rw [RankedDb.siblings, mem_ordered]
  simp only [mem_filter, Bool.and_eq_true, decide_eq_true_eq]
  constructor
  · rintro ⟨c, ⟨hc, hlive, hne⟩, rfl⟩
    exact ⟨hne, c, hc, hlive, rfl⟩
  · rintro ⟨hne, c, hc, hlive, rfl⟩
    exact ⟨c, ⟨hc, hlive, hne⟩, rfl⟩

/-- A card comes to a column, where the other live cards stay. -/
structure Enters (d db : Db) (cardId columnId : Uuid) : Prop where
  ids : db.cards.map TodoCard.id = d.cards.map TodoCard.id
  live : ∀ k, (∃ c ∈ db.cards, c.isLive columnId ∧ c.id = k) ↔
    k = cardId ∨ k ≠ cardId ∧ ∃ c ∈ d.cards, c.isLive columnId ∧ c.id = k

theorem Enters.unique (h : Enters s.db db cardId columnId) (hkeys : CardKeys s.db) : (db.cards.map TodoCard.id).Nodup :=
  h.ids ▸ hkeys.unique

theorem Enters.columnCards_eq (h : Enters s.db db cardId columnId) (hkeys : CardKeys s.db) {ids : List Uuid}
    (hmem : ∀ k, k ∈ ids ↔ k = cardId ∨ k ∈ s.siblings columnId cardId) (hids : ids.Pairwise (Before (setRanks s.rank writes))) :
    (Outcome.after ⟨db, writes⟩ s).columnCards columnId = ids := by
  apply ordered_eq
  · exact (h.unique hkeys).sublist (filter_sublist.map _)
  · intro k
    simp only [mem_filter, and_assoc]
    rw [hmem, mem_siblings]
    exact (h.live k).symm
  · exact hids

theorem siblings_keys (columnId : Uuid) (hkeys : CardKeys s.db) (hcard : cardId ∈ s.db.cards.map TodoCard.id) :
    (s.siblings columnId cardId).Nodup ∧ cardId ∉ s.siblings columnId cardId ∧
      (s.siblings columnId cardId).Pairwise (Before s.rank) ∧
      (s.siblings columnId cardId).length + 1 < base ^ maxLength := by
  have hnodup : (s.siblings columnId cardId).Nodup := (perm_insertionSort _ _).nodup_iff.mpr (nodup_filter hkeys _)
  have hout : cardId ∉ s.siblings columnId cardId := fun hmem => (mem_siblings.mp hmem).1 rfl
  refine ⟨hnodup, hout, ordered_before (nodup_filter hkeys _), ?_⟩
  rw [← length_cons (a := cardId)]
  apply few_uuids (nodup_cons.mpr ⟨hout, hnodup⟩)
  intro k hk
  rcases mem_cons.mp hk with rfl | hk
  · obtain ⟨c, hc, rfl⟩ := mem_map.mp hcard
    exact hkeys.bits c hc
  · obtain ⟨-, c, hc, -, rfl⟩ := mem_siblings.mp hk
    exact hkeys.bits c hc

theorem Enters.placed (h : Enters s.db db cardId columnId) (hkeys : CardKeys s.db) (hcard : cardId ∈ s.db.cards.map TodoCard.id)
    {afterId beforeId : Option Uuid} {index : ℕ} {fresh : Bool}
    (hslot : slot (s.siblings columnId cardId) afterId beforeId = .ok index)
    (hplace : place s.rank (s.siblings columnId cardId) index cardId = .ok (writes, fresh)) :
    WellRanked writes ∧ Inserted (s.siblings columnId cardId) ((Outcome.after ⟨db, writes⟩ s).columnCards columnId)
      cardId afterId beforeId := by
  obtain ⟨hnodup, hout, hsorted, hfew⟩ := siblings_keys columnId hkeys hcard
  obtain ⟨hindex, hinserted⟩ := slot_inserted hslot cardId
  obtain ⟨hwell, hnew⟩ := place_sorted hplace hindex hnodup hout hsorted hfew
  refine ⟨hwell, ?_⟩
  rw [h.columnCards_eq hkeys (fun k => ?_) hnew]
  · exact hinserted
  · rw [perm_middle.mem_iff, take_append_drop, mem_cons]

/-- A card that `complete` appends stands at the end. -/
theorem Enters.appended (h : Enters s.db db cardId columnId) (hkeys : CardKeys s.db) (hcard : cardId ∈ s.db.cards.map TodoCard.id)
    (happend : append s.rank (s.siblings columnId cardId) [cardId] = .ok writes) :
    WellRanked writes ∧ Inserted (s.siblings columnId cardId) ((Outcome.after ⟨db, writes⟩ s).columnCards columnId)
      cardId none none := by
  obtain ⟨hnodup, hout, hsorted, hfew⟩ := siblings_keys columnId hkeys hcard
  have hall : (s.siblings columnId cardId ++ [cardId]).Nodup :=
    nodup_append.mpr ⟨hnodup, nodup_singleton _, fun a ha b hb hab => by
      obtain rfl : b = cardId := mem_singleton.mp hb
      exact hout (hab ▸ ha)⟩
  obtain ⟨hwell, hnew⟩ := append_sorted happend hall hsorted (by simpa using hfew)
  refine ⟨hwell, ?_⟩
  rw [h.columnCards_eq hkeys (fun k => ?_) hnew]
  · exact ⟨_, [], (append_nil _).symm, rfl, by simp, by simp, fun _ _ => rfl⟩
  · rw [mem_append, mem_singleton, or_comm]

end Columns

end Todo
