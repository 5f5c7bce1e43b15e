import StupaWorkflow.VoteBlocks

/-!
What the replacement of the callouts leaves: the body falls into single lines and assigned
blocks, each block gives way to the form of its vote, and the lines stay.
-/
namespace PublicMinutes
open Py Callout Rationing
open List hiding splitOn splitOn_ne_nil

section Blocks
variable {lines : List Text}
variable {start i : ℕ}

theorem blockEnd_gt (lines : List Text) (start : ℕ) : start < blockEnd lines start := by
  unfold blockEnd
  omega

theorem blockEnd_le (h : start < lines.length) : blockEnd lines start ≤ lines.length := by
  have hlen := (takeWhile_sublist continues (l := lines.drop (start + 1))).length_le
  rw [length_drop] at hlen
  unfold blockEnd
  omega

theorem continues_of_inside (hlo : start < i) (hhi : i < blockEnd lines start) : continues (lines.getD i []) := by
  have hlt : i - (start + 1) < ((lines.drop (start + 1)).takeWhile continues).length := by
    unfold blockEnd at hhi
    omega
  have hget : ((lines.drop (start + 1)).takeWhile continues)[i - (start + 1)] = lines.getD i [] := by
    have hpre := (List.takeWhile_prefix continues (l := lines.drop (start + 1))).getElem hlt
    have hi : i < lines.length := by
      have hlen := (takeWhile_sublist continues (l := lines.drop (start + 1))).length_le
      rw [length_drop] at hlen
      omega
    rw [hpre, getElem_drop]
    simp only [getD_eq_getElem?_getD, getElem?_eq_getElem hi, Option.getD_some]
    congr 1
    omega
  rw [← hget]
  exact mem_takeWhile_imp (getElem_mem hlt)

theorem isQuote_of_continues {line : Text} (h : continues line) : isQuote line := by
  unfold continues at h
  exact (Bool.and_eq_true _ _ ▸ h).1

theorem not_startsBlock_inside (hstart : startsBlock lines start) (hlo : start < i) (hhi : i < blockEnd lines start) :
    startsBlock lines i = false := by
  have hprev : isQuote (lines.getD (i - 1) []) := by
    rcases (Nat.le_sub_one_of_lt hlo).eq_or_lt with heq | hlt
    · rw [← heq]
      unfold startsBlock at hstart
      exact (Bool.and_eq_true _ _ ▸ hstart).1
    · exact isQuote_of_continues (continues_of_inside hlt (by omega))
  have hpos : decide (i > 0) = true := decide_eq_true (by omega)
  simp only [startsBlock, continues_of_inside hlo hhi, hprev, hpos, Bool.and_self, Bool.not_true, Bool.and_false]

theorem mem_quoteBlocks {b : ℕ × ℕ} :
    b ∈ quoteBlocks lines ↔ (b.1 < lines.length ∧ startsBlock lines b.1) ∧ b.2 = blockEnd lines b.1 := by
  rw [quoteBlocks, mem_map]
  constructor
  · rintro ⟨start, hmem, rfl⟩
    rw [mem_filter, mem_range] at hmem
    exact ⟨hmem, rfl⟩
  · rintro ⟨hstart, hend⟩
    refine ⟨b.1, ?_, ?_⟩
    · rw [mem_filter, mem_range]
      exact hstart
    · rw [← hend]

theorem quoteBlocks_nodup (lines : List Text) : (quoteBlocks lines).Nodup := by
  apply List.Nodup.map
  · intro a b h
    exact congrArg Prod.fst h
  · exact (nodup_range).filter _

theorem marker_starts {i : ℕ} (h : text "> [!" <+: strip (lines.getD i [])) : startsBlock lines i := by
  have hpre : strip (lines.getD i []) <+: lstrip (lines.getD i []) :=
    rdropWhile_prefix isSpace (lstrip (lines.getD i []))
  have hmarker : (text "> [!").isPrefixOf (lstrip (lines.getD i [])) := isPrefixOf_iff_prefix.mpr (h.trans hpre)
  have hquote : isQuote (lines.getD i []) := by
    have hsign : text ">" <+: text "> [!" := isPrefixOf_iff_prefix.mp rfl
    exact isPrefixOf_iff_prefix.mpr (hsign.trans (h.trans hpre))
  simp only [startsBlock, continues, hquote, hmarker, Bool.not_true, Bool.and_false, Bool.not_false, Bool.and_self]

theorem head_blockText {b : ℕ × ℕ} (h : b ∈ quoteBlocks lines) :
    (blockText lines b).head? = some (strip (lines.getD b.1 [])) := by
  obtain ⟨⟨hlt, -⟩, hend⟩ := mem_quoteBlocks.mp h
  have hgt := blockEnd_gt lines b.1
  have hfirst : ((lines.take b.2).drop b.1).head? = some (lines.getD b.1 []) := by
    rw [head?_drop, getElem?_take, if_pos (hend ▸ hgt), getD_eq_getElem?_getD, getElem?_eq_getElem hlt]
    rfl
  rw [blockText, head?_map, hfirst]
  rfl

theorem headBlocks_blockTexts (body : Text) {head : Text} (h : text "> [!" <+: head) :
    headBlocks (blockTexts body) head = headCount body head := by
  have hlines : (splitOn 10 body).map strip = (List.range (splitOn 10 body).length).map
      fun i => strip ((splitOn 10 body).getD i []) := by
    apply ext_getElem
    · simp
    · intro i hi _
      have hlt : i < (splitOn 10 body).length := by simpa using hi
      simp [hlt]
  have hheads : (blockTexts body).map List.head? =
      ((List.range (splitOn 10 body).length).filter (startsBlock (splitOn 10 body))).map
        fun i => some (strip ((splitOn 10 body).getD i [])) := by
    rw [blockTexts, map_map]
    simp only [quoteBlocks, map_map]
    apply map_congr_left
    intro i hi
    have hmem := mem_filter.mp hi
    exact head_blockText (mem_quoteBlocks.mpr ⟨⟨mem_range.mp hmem.1, hmem.2⟩, rfl⟩)
  rw [headBlocks, hheads, headCount, hlines, List.count, List.count, countP_map, countP_map, countP_filter]
  apply countP_congr
  intro i _
  simp only [Function.comp, Bool.and_eq_true, beq_iff_eq, Option.some.injEq]
  exact ⟨fun hcase => hcase.1, fun heq => ⟨heq, marker_starts (heq ▸ h)⟩⟩

end Blocks

section Pieces

/-- A line of the body that stays, or an assigned block with the number of its vote. -/
inductive Piece where
  | line (i : ℕ)
  | block (b : ℕ × ℕ) (n : ℕ)
  deriving DecidableEq

namespace Piece
open List hiding splitOn splitOn_ne_nil

def places : Piece → List ℕ
  | line i => [i]
  | block b _ => List.range' b.1 (b.2 - b.1)

def assigned? : Piece → Option ((ℕ × ℕ) × ℕ)
  | line _ => none
  | block b n => some (b, n)

def output (lines : List Text) (pairs : List (Text × Text)) : Piece → List Text
  | line i => [lines.getD i []]
  | block _ n => splitOn 10 ((pairs[n]?.map Prod.snd).getD [])

end Piece

/-- Blocks of a text of `n` lines that lie apart. -/
structure Apart (n : ℕ) (assigned : List ((ℕ × ℕ) × ℕ)) : Prop where
  bounds : ∀ x ∈ assigned, x.1.1 < x.1.2 ∧ x.1.2 ≤ n
  disjoint : ∀ x ∈ assigned, ∀ y ∈ assigned, x.1.1 < y.1.1 → x.1.2 ≤ y.1.1
  unique : ∀ x ∈ assigned, ∀ y ∈ assigned, x.1.1 = y.1.1 → x = y
  nodup : assigned.Nodup

def hidden (assigned : List ((ℕ × ℕ) × ℕ)) (i : ℕ) : Bool := assigned.any fun x => x.1.1 < i && i < x.1.2

def pieceAt (assigned : List ((ℕ × ℕ) × ℕ)) (i : ℕ) : Option Piece :=
  if hidden assigned i then none
  else match assigned.find? fun x => x.1.1 = i with
    | some x => some (.block x.1 x.2)
    | none => some (.line i)

variable {assigned : List ((ℕ × ℕ) × ℕ)} {n : ℕ}

theorem hidden_iff {i : ℕ} : hidden assigned i ↔ ∃ x ∈ assigned, x.1.1 < i ∧ i < x.1.2 := by
  simp [hidden]

theorem Apart.not_hidden (h : Apart n assigned) {x : (ℕ × ℕ) × ℕ} (hx : x ∈ assigned) : hidden assigned x.1.1 = false := by
  rw [Bool.eq_false_iff, Ne, hidden_iff]
  rintro ⟨y, hy, hlo, hhi⟩
  have hapart := h.disjoint y hy x hx hlo
  omega

theorem Apart.find_start (h : Apart n assigned) {x : (ℕ × ℕ) × ℕ} (hx : x ∈ assigned) :
    assigned.find? (fun y => y.1.1 = x.1.1) = some x := by
  cases hfind : assigned.find? (fun y => y.1.1 = x.1.1) with
  | none =>
    have hno := find?_eq_none.mp hfind x hx
    simp at hno
  | some y =>
    have hsame : y.1.1 = x.1.1 := by simpa using find?_some hfind
    rw [h.unique y (mem_of_find?_eq_some hfind) x hx hsame]

theorem Apart.pieceAt_start (h : Apart n assigned) {x : (ℕ × ℕ) × ℕ} (hx : x ∈ assigned) :
    pieceAt assigned x.1.1 = some (.block x.1 x.2) := by
  rw [pieceAt, h.not_hidden hx, h.find_start hx]
  rfl

theorem pieceAt_hidden {i : ℕ} (hi : hidden assigned i) : pieceAt assigned i = none := if_pos hi

theorem pieceAt_line {i : ℕ} (hi : ¬ hidden assigned i) (hstart : ∀ x ∈ assigned, x.1.1 ≠ i) :
    pieceAt assigned i = some (.line i) := by
  have hfind : assigned.find? (fun x => x.1.1 = i) = none := by
    rw [find?_eq_none]
    intro x hx
    simpa using hstart x hx
  rw [pieceAt, if_neg hi, hfind]

/-- The pieces up to a line that no block hides take exactly the lines before it. -/
theorem Apart.places_range (h : Apart n assigned) (m : ℕ) (hm : ¬ hidden assigned m) :
    ((List.range m).filterMap (pieceAt assigned)).flatMap Piece.places = List.range m := by
  induction m using Nat.strong_induction_on with
  | h m ih =>
    cases m with
    | zero => rfl
    | succ m =>
      by_cases hblock : ∃ x ∈ assigned, x.1.1 ≤ m ∧ m < x.1.2
      case pos =>
        -- the last line belongs to a block, which ends here: the pieces up to its start, then the block
        obtain ⟨x, hx, hlo, hhi⟩ := hblock
        have hend : x.1.2 = m + 1 := by
          by_contra hne
          exact hm (hidden_iff.mpr ⟨x, hx, by omega, by omega⟩)
        have hsplit : List.range (m + 1) = List.range x.1.1 ++ x.1.1 :: List.range' (x.1.1 + 1) (m - x.1.1) :=
          calc List.range (m + 1) = List.range' 0 (x.1.1 + (m - x.1.1 + 1)) := by
                rw [range_eq_range']
                congr 1
                omega
            _ = List.range' 0 x.1.1 ++ List.range' (0 + x.1.1) (m - x.1.1 + 1) := range'_append_1.symm
            _ = List.range x.1.1 ++ x.1.1 :: List.range' (x.1.1 + 1) (m - x.1.1) := by
                rw [Nat.zero_add, range'_succ, range_eq_range']
        have hinside : (List.range' (x.1.1 + 1) (m - x.1.1)).filterMap (pieceAt assigned) = [] := by
          rw [filterMap_eq_nil_iff]
          intro i hi
          rw [mem_range'_1] at hi
          exact pieceAt_hidden (hidden_iff.mpr ⟨x, hx, by omega, by omega⟩)
        have hbefore := ih x.1.1 (by omega) (by simp [h.not_hidden hx])
        have hplaces : x.1.1 :: List.range' (x.1.1 + 1) (m - x.1.1) = List.range' x.1.1 (x.1.2 - x.1.1) := by
          rw [← range'_succ]
          congr 1
          omega
        rw [hsplit, filterMap_append, filterMap_cons, h.pieceAt_start hx, hinside, flatMap_append, hbefore]
        simp only [flatMap_cons, flatMap_nil, append_nil, Piece.places]
        rw [hplaces]
      case neg =>
        have hline : pieceAt assigned m = some (.line m) := by
          apply pieceAt_line
          · rw [hidden_iff]
            rintro ⟨x, hx, hlo, hhi⟩
            exact hblock ⟨x, hx, hlo.le, hhi⟩
          · intro x hx heq
            have hbounds := (h.bounds x hx).1
            exact hblock ⟨x, hx, heq.le, by omega⟩
        have hfree : ¬ hidden assigned m := by
          rw [hidden_iff]
          rintro ⟨x, hx, hlo, hhi⟩
          exact hblock ⟨x, hx, hlo.le, hhi⟩
        rw [range_succ, filterMap_append, flatMap_append, ih m (Nat.lt_succ_self m) hfree]
        simp [hline, Piece.places]

namespace Piece
open List hiding splitOn splitOn_ne_nil

def start : Piece → ℕ
  | line i => i
  | block b _ => b.1

end Piece

theorem start_pieceAt {i : ℕ} {piece : Piece} (h : pieceAt assigned i = some piece) : piece.start = i := by
  unfold pieceAt at h
  split at h
  · exact absurd h (Option.some_ne_none piece).symm
  · split at h
    case h_1 x hfind =>
      have hat : x.1.1 = i := by simpa using find?_some hfind
      rw [← Option.some.inj h]
      exact hat
    case h_2 =>
      rw [← Option.some.inj h]
      rfl

theorem Apart.perm_pieces (h : Apart n assigned) :
    (((List.range n).filterMap (pieceAt assigned)).filterMap Piece.assigned?).Perm assigned := by
  have hpieces : ((List.range n).filterMap (pieceAt assigned)).Nodup := by
    apply List.Nodup.filterMap _ nodup_range
    intro i j piece hi hj
    rw [← start_pieceAt hi, ← start_pieceAt hj]
  have hblocks : (((List.range n).filterMap (pieceAt assigned)).filterMap Piece.assigned?).Nodup := by
    apply List.Nodup.filterMap _ hpieces
    intro p q x hp hq
    cases p with
    | line i => exact absurd hp (Option.some_ne_none x).symm
    | block b k =>
      cases q with
      | line i => exact absurd hq (Option.some_ne_none x).symm
      | block c l =>
        have hsame := (Option.some.inj hp).trans (Option.some.inj hq).symm
        rw [(Prod.mk.inj hsame).1, (Prod.mk.inj hsame).2]
  rw [perm_ext_iff_of_nodup hblocks h.nodup]
  intro x
  rw [mem_filterMap]
  constructor
  · rintro ⟨piece, hpiece, hx⟩
    obtain ⟨i, -, hat⟩ := mem_filterMap.mp hpiece
    unfold pieceAt at hat
    split at hat
    · exact absurd hat (Option.some_ne_none piece).symm
    · split at hat
      case h_1 y hfind =>
        rw [← Option.some.inj hat] at hx
        rw [← Option.some.inj hx]
        exact mem_of_find?_eq_some hfind
      case h_2 =>
        rw [← Option.some.inj hat] at hx
        exact absurd hx (Option.some_ne_none x).symm
  · intro hx
    have hbounds := h.bounds x hx
    refine ⟨.block x.1 x.2, mem_filterMap.mpr ⟨x.1.1, mem_range.mpr (by omega), h.pieceAt_start hx⟩, rfl⟩

theorem flatMap_output (lines : List Text) (pairs : List (Text × Text)) :
    ((List.range lines.length).filterMap (pieceAt (assignedBlocks lines (pairs.map Prod.fst)))).flatMap (Piece.output lines pairs) =
      (List.range lines.length).flatMap (lineOutput lines pairs) := by
  have hpiece : ∀ i, ((pieceAt (assignedBlocks lines (pairs.map Prod.fst)) i).map (Piece.output lines pairs)).getD [] =
      lineOutput lines pairs i := by
    intro i
    unfold pieceAt lineOutput hidden
    simp only
    split
    · rfl
    · cases (assignedBlocks lines (pairs.map Prod.fst)).find? fun x => x.1.1 = i with
      | some x => rfl
      | none => rfl
  induction List.range lines.length with
  | nil => rfl
  | cons i rest ih =>
    rw [filterMap_cons, flatMap_cons, ← ih, ← hpiece i]
    cases pieceAt (assignedBlocks lines (pairs.map Prod.fst)) i with
    | none => rfl
    | some piece => rfl

theorem mem_assignedBlocks {lines snippets : List Text} {x : (ℕ × ℕ) × ℕ} : x ∈ assignedBlocks lines snippets ↔
    ∃ k, (k, x.2) ∈ assignBlocks ((quoteBlocks lines).map (blockText lines)) snippets ∧ (quoteBlocks lines)[k]? = some x.1 := by
  unfold assignedBlocks
  rw [mem_filterMap]
  constructor
  · rintro ⟨⟨k, m⟩, hmem, hx⟩
    obtain ⟨b, hb, rfl⟩ := Option.map_eq_some_iff.mp hx
    exact ⟨k, hmem, hb⟩
  · rintro ⟨k, hmem, hb⟩
    exact ⟨(k, x.2), hmem, Option.map_eq_some_iff.mpr ⟨x.1, hb, rfl⟩⟩

theorem apart_assignedBlocks (lines snippets : List Text) : Apart lines.length (assignedBlocks lines snippets) := by
  have hpass := headBlocks_all ((quoteBlocks lines).map (blockText lines)) snippets
  have hblock : ∀ x ∈ assignedBlocks lines snippets, x.1 ∈ quoteBlocks lines := by
    intro x hx
    obtain ⟨k, -, hk⟩ := mem_assignedBlocks.mp hx
    exact mem_of_getElem? hk
  have hindex : ∀ {k l : ℕ} {b : ℕ × ℕ}, (quoteBlocks lines)[k]? = some b → (quoteBlocks lines)[l]? = some b → k = l := by
    intro k l b hk hl
    obtain ⟨hlt, -⟩ := List.getElem?_eq_some_iff.mp hk
    exact (List.getElem?_inj hlt (quoteBlocks_nodup lines)).mp (hk.trans hl.symm)
  refine ⟨fun x hx => ?_, fun x hx y hy hlt => ?_, fun x hx y hy heq => ?_, ?_⟩
  · obtain ⟨⟨hlt, -⟩, hend⟩ := mem_quoteBlocks.mp (hblock x hx)
    rw [hend]
    exact ⟨blockEnd_gt lines x.1.1, blockEnd_le hlt⟩
  · obtain ⟨⟨-, hstart⟩, hend⟩ := mem_quoteBlocks.mp (hblock x hx)
    obtain ⟨⟨-, hother⟩, -⟩ := mem_quoteBlocks.mp (hblock y hy)
    by_contra hle
    rw [not_startsBlock_inside hstart hlt (by omega)] at hother
    exact Bool.false_ne_true hother
  · have hsame : x.1 = y.1 := by
      have hx' := (mem_quoteBlocks.mp (hblock x hx)).2
      have hy' := (mem_quoteBlocks.mp (hblock y hy)).2
      exact Prod.ext heq (by rw [hx', hy', heq])
    obtain ⟨k, hxk, hk⟩ := mem_assignedBlocks.mp hx
    obtain ⟨l, hyl, hl⟩ := mem_assignedBlocks.mp hy
    have hkl := hindex (hsame ▸ hk) hl
    subst hkl
    have hvotes := inj_on_of_nodup_map hpass.blocks hxk hyl rfl
    exact Prod.ext hsame (Prod.mk.inj hvotes).2
  · apply List.Nodup.filterMap _ (List.Nodup.of_map _ hpass.blocks)
    intro p q x hp hq
    obtain ⟨b, hb, rfl⟩ := Option.map_eq_some_iff.mp hp
    obtain ⟨c, hc, heq⟩ := Option.map_eq_some_iff.mp hq
    have hbc : c = b := (Prod.mk.inj heq).1
    exact Prod.ext (hindex hb (hbc ▸ hc)) (Prod.mk.inj heq).2.symm

end Pieces

section Agreement
variable (body : Text) (snippets : List Text)
variable {i : ℕ} {head : Text}

theorem mem_assignment : i ∈ (assignment body snippets).map Prod.snd ↔
    i < snippets.length ∧ i ∈ given (blockTexts body) snippets (headLine (snippetAt snippets i)) := by
  rw [assignment, (headBlocks_all _ _).votes, (exactBlocks_all _ _).votes, mem_append, mem_filter, mem_filter,
    mem_range, decide_eq_true_eq, decide_eq_true_eq, lateVotes, Finset.mem_filter, Finset.mem_range]
  constructor
  · rintro (⟨hi, hexact⟩ | ⟨hi, -, -, hgiven⟩)
    · exact ⟨hi, mem_served.mpr (.inl ((mem_withHead snippets).mpr ⟨hexact, rfl⟩))⟩
    · exact ⟨hi, hgiven⟩
  · rintro ⟨hi, hgiven⟩
    by_cases hexact : i ∈ exactVotes (blockTexts body) snippets
    · exact .inl ⟨hi, hexact⟩
    · exact .inr ⟨hi, hi, hexact, hgiven⟩

theorem assignment_votes_nodup : ((assignment body snippets).map Prod.snd).Nodup := by
  rw [assignment, (headBlocks_all _ _).votes, (exactBlocks_all _ _).votes, nodup_append]
  refine ⟨nodup_range.filter _, nodup_range.filter _, fun i hi j hj hij => ?_⟩
  have hexact := of_decide_eq_true (mem_filter.mp hi).2
  have hlate := of_decide_eq_true (mem_filter.mp hj).2
  exact (Finset.mem_filter.mp hlate).2.1 (hij ▸ hexact)

theorem exact_assigned (lines : List Text) (i : ℕ) :
    (∃ k, (k, i) ∈ assignment body snippets ∧ blockAt (blockTexts body) k = lines ∧ strippedLines (snippetAt snippets i) = lines) ↔
      i ∈ first (votesBy strippedLines snippets lines) ((blockTexts body).count lines) := by
  rw [first, Finset.mem_filter, mem_votesBy]
  constructor
  · rintro ⟨k, hmem, hblock, hsnippet⟩
    have hexact := ((headBlocks_all _ _).other _ hmem).resolve_right (not_not.mpr (hblock.trans hsnippet.symm))
    have hvote := mem_map_of_mem (f := Prod.snd) hexact
    rw [(exactBlocks_all _ _).votes, mem_filter, decide_eq_true_eq, mem_exactVotes, hsnippet] at hvote
    exact ⟨⟨hvote.2.1, hsnippet⟩, hvote.2.2⟩
  · rintro ⟨⟨hi, hsnippet⟩, hrank⟩
    have hvote : i ∈ (assignExact (blockTexts body) snippets).map Prod.snd := by
      rw [(exactBlocks_all _ _).votes, mem_filter, decide_eq_true_eq, mem_exactVotes, hsnippet]
      exact ⟨mem_range.mpr hi, hi, hrank⟩
    obtain ⟨⟨k, j⟩, hmem, rfl⟩ := mem_map.mp hvote
    exact ⟨k, (headBlocks_all _ _).old _ hmem, ((exactBlocks_all _ _).same _ hmem).trans hsnippet, hsnippet⟩

theorem card_exact (lines : List Text) :
    ((assignment body snippets).filter fun x =>
        blockAt (blockTexts body) x.1 = lines ∧ strippedLines (snippetAt snippets x.2) = lines).length =
      min ((blockTexts body).count lines) ((snippets.map strippedLines).count lines) := by
  have hnodup : (((assignment body snippets).filter fun x =>
      blockAt (blockTexts body) x.1 = lines ∧ strippedLines (snippetAt snippets x.2) = lines).map Prod.snd).Nodup :=
    (assignment_votes_nodup body snippets).sublist (filter_sublist.map _)
  have hset : (((assignment body snippets).filter fun x => blockAt (blockTexts body) x.1 = lines ∧
      strippedLines (snippetAt snippets x.2) = lines).map Prod.snd).toFinset =
        first (votesBy strippedLines snippets lines) ((blockTexts body).count lines) := by
    ext i
    rw [mem_toFinset, ← exact_assigned, mem_map]
    constructor
    · rintro ⟨⟨k, j⟩, hmem, rfl⟩
      rw [mem_filter, decide_eq_true_eq] at hmem
      exact ⟨k, hmem⟩
    · rintro ⟨k, hmem, hcase⟩
      exact ⟨(k, i), mem_filter.mpr ⟨hmem, decide_eq_true hcase⟩, rfl⟩
  rw [← length_map (f := Prod.snd), ← toFinset_card_of_nodup hnodup, hset, card_first, card_votesBy, Nat.min_comm]

/-- The votes reported in the body are the ones that get a block; a block goes to one vote and a
vote gets one block; as many votes as possible get a block of their exact text; and the lines
outside the assigned blocks stay as they are. -/
structure BlocksMatched : Prop where
  flags : votesInBody body snippets =
    (List.range snippets.length).map fun i => decide (i ∈ (assignment body snippets).map Prod.snd)
  blockOnce : ((assignment body snippets).map Prod.fst).Nodup
  voteOnce : ((assignment body snippets).map Prod.snd).Nodup
  exact : ∀ lines, ((assignment body snippets).filter fun x =>
      blockAt (blockTexts body) x.1 = lines ∧ strippedLines (snippetAt snippets x.2) = lines).length =
    min ((blockTexts body).count lines) ((snippets.map strippedLines).count lines)
  kept : ∀ pairs : List (Text × Text), pairs.map Prod.fst = snippets → ∃ pieces : List Piece,
    pieces.flatMap Piece.places = List.range (splitOn 10 body).length ∧
    (pieces.filterMap Piece.assigned?).Perm (assignedBlocks (splitOn 10 body) snippets) ∧
    replaceVoteBlocks body pairs = joinLines (pieces.flatMap (Piece.output (splitOn 10 body) pairs))

variable {body snippets}

theorem replaceVoteBlocks_pieces (body : Text) (pairs : List (Text × Text)) : ∃ pieces : List Piece,
    pieces.flatMap Piece.places = List.range (splitOn 10 body).length ∧
    (pieces.filterMap Piece.assigned?).Perm (assignedBlocks (splitOn 10 body) (pairs.map Prod.fst)) ∧
    replaceVoteBlocks body pairs = joinLines (pieces.flatMap (Piece.output (splitOn 10 body) pairs)) := by
  have hapart := apart_assignedBlocks (splitOn 10 body) (pairs.map Prod.fst)
  refine ⟨_, hapart.places_range _ ?_, hapart.perm_pieces, ?_⟩
  · rw [hidden_iff]
    rintro ⟨x, hx, -, hhi⟩
    have hbounds := hapart.bounds x hx
    omega
  · rw [flatMap_output]
    rfl

theorem matched_iff_flags : BlocksMatched body snippets ↔ votesInBody body snippets =
    (List.range snippets.length).map fun i => decide (i ∈ (assignment body snippets).map Prod.snd) := by
  refine ⟨fun h => h.flags, fun h => ⟨h, (headBlocks_all _ _).blocks, assignment_votes_nodup _ _, card_exact _ _, ?_⟩⟩
  rintro pairs rfl
  exact replaceVoteBlocks_pieces body pairs

theorem splitOn_prefix {sep : ℕ} {p : Text} (h : sep ∉ p) (rest : Text) :
    (splitOn sep (p ++ rest)).headD [] = p ++ (splitOn sep rest).headD [] := by
  induction p with
  | nil => rfl
  | cons c p ih =>
    simp only [mem_cons, not_or] at h
    obtain ⟨part, parts, hparts⟩ := exists_cons_of_ne_nil (splitOn_ne_nil sep (p ++ rest))
    have hpart : part = p ++ (splitOn sep rest).headD [] := by
      rw [← ih h.2, hparts]
      rfl
    rw [cons_append, splitOn, if_neg (Ne.symm h.1), hparts]
    exact congrArg (c :: ·) hpart

theorem marker_headLine {snippet : Text} (h : text "> [!abstimmung]" <+: snippet) : text "> [!" <+: headLine snippet := by
  have hsign : text "> [!" <+: text "> [!abstimmung]" := isPrefixOf_iff_prefix.mp rfl
  obtain ⟨rest, rfl⟩ := hsign.trans h
  have hline : headLine (text "> [!" ++ rest) = rstrip (text "> [" ++ 33 :: (splitOn 10 rest).headD []) := by
    rw [headLine, splitOn_prefix (by decide)]
    rfl
  rw [hline, rstrip_append _ rfl]
  exact prefix_append (text "> [!") _

theorem mem_votesOf_byBlock (hi : i ∈ votesOf snippets head) :
    i ∈ withHead snippets (byBlock body snippets) head ↔ i ∈ byBlock body snippets := by
  rw [mem_withHead]
  exact ⟨fun h => h.1, fun h => ⟨h, ((mem_votesBy snippets).mp hi).2⟩⟩

/-- The votes of a head line that are reported are the ones that get a block, where the finds
are the blocks from some place on. -/
theorem serve_alike {head : Text} (h : text "> [!" <+: head) :
    given (blockTexts body) snippets head = reported body snippets head ↔
      ∃ p, (∀ i ∈ votesOf snippets head, p ≤ i → (i ∈ byBlock body snippets ↔ i ∈ byCount body snippets)) ∧
        (upTo (votesOf snippets head) (byBlock body snippets) p).card =
          min (votesOf snippets head).card (headCount body head) := by
  have hlines := headBlocks_blockTexts body h
  have hblocks := card_exactVotes_le (blockTexts body) snippets head
  have hcount : (withHead snippets (byCount body snippets) head).card ≤ headCount body head := by
    rw [card_byCount]
    exact Nat.min_le_right _ _
  rw [hlines] at hblocks
  rw [given, reported, hlines, served_eq_iff (withHead_subset (fun i hi => exactVotes_lt hi) head)
    (withHead_subset (fun i hi => byCount_lt hi) head) hblocks hcount]
  apply exists_congr
  intro p
  have hupTo : upTo (votesOf snippets head) (withHead snippets (byBlock body snippets) head) p =
      upTo (votesOf snippets head) (byBlock body snippets) p := by
    apply Finset.filter_congr
    intro i hi
    rw [mem_votesOf_byBlock hi]
  have hplaces : (∀ i ∈ votesOf snippets head, p ≤ i → (i ∈ withHead snippets (byBlock body snippets) head ↔
      i ∈ withHead snippets (byCount body snippets) head)) ↔
        ∀ i ∈ votesOf snippets head, p ≤ i → (i ∈ byBlock body snippets ↔ i ∈ byCount body snippets) := by
    apply forall₂_congr
    intro i hi
    rw [mem_votesOf_byBlock hi, mem_withHead, and_iff_left ((mem_votesBy snippets).mp hi).2]
  exact and_congr hplaces (by rw [← hupTo]; rfl)

theorem given_lt (hi : i ∈ given (blockTexts body) snippets head) :
    i < snippets.length ∧ headLine (snippetAt snippets i) = head :=
  (mem_votesBy snippets).mp (served_subset (withHead_subset (fun _ h => exactVotes_lt h) head) hi)

theorem reported_lt (hi : i ∈ reported body snippets head) : i < snippets.length ∧ headLine (snippetAt snippets i) = head :=
  (mem_votesBy snippets).mp (served_subset (withHead_subset (fun _ h => byCount_lt h) head) hi)

theorem flags_iff : (votesInBody body snippets =
    (List.range snippets.length).map fun i => decide (i ∈ (assignment body snippets).map Prod.snd)) ↔
      ∀ i < snippets.length, given (blockTexts body) snippets (headLine (snippetAt snippets i)) =
        reported body snippets (headLine (snippetAt snippets i)) := by
  rw [votesInBody_eq, map_inj_left]
  simp only [decide_eq_decide, mem_assignment, mem_range]
  constructor
  · intro hflags i _
    ext j
    constructor
    · intro hj
      obtain ⟨hlt, hhead⟩ := given_lt hj
      exact hhead ▸ (hflags j hlt).mpr ⟨hlt, hhead.symm ▸ hj⟩
    · intro hj
      obtain ⟨hlt, hhead⟩ := reported_lt hj
      exact hhead ▸ ((hflags j hlt).mp (hhead.symm ▸ hj)).2
  · intro hsame i hi
    rw [hsame i hi]
    exact ⟨fun hmem => ⟨hi, hmem⟩, fun hmem => hmem.2⟩

theorem marker_snippetAt (h : ∀ s ∈ snippets, text "> [!abstimmung]" <+: s) (hi : i < snippets.length) :
    text "> [!" <+: headLine (snippetAt snippets i) := by
  rw [snippetAt_eq snippets hi]
  exact marker_headLine (h _ (getElem_mem hi))

theorem countsFollow_iff (h : ∀ s ∈ snippets, text "> [!abstimmung]" <+: s) : CountsFollowBlocks body snippets ↔
    ∀ i < snippets.length, given (blockTexts body) snippets (headLine (snippetAt snippets i)) =
      reported body snippets (headLine (snippetAt snippets i)) := by
  constructor
  · intro hcounts i hi
    exact (serve_alike (marker_snippetAt h hi)).mpr (hcounts _)
  · intro hsame head
    rcases (votesOf snippets head).eq_empty_or_nonempty with hnone | ⟨i, hi⟩
    · refine ⟨0, fun i hi => absurd (hnone ▸ hi) (Finset.notMem_empty i), ?_⟩
      rw [hnone]
      simp [upTo]
    · obtain ⟨hlt, rfl⟩ := (mem_votesBy snippets).mp hi
      exact (serve_alike (marker_snippetAt h hlt)).mp (hsame i hlt)

/-- The two algorithms match alike exactly when the finds of `str.count` that matter are blocks. -/
theorem blocks_matched_iff (body : Text) (snippets : List Text) (h : ∀ s ∈ snippets, text "> [!abstimmung]" <+: s) :
    BlocksMatched body snippets ↔ CountsFollowBlocks body snippets := by
  rw [matched_iff_flags, flags_iff, countsFollow_iff h]

/-- An open vote whose snippet is the head line of the block of another vote. -/
theorem votes_of_one_question : (∀ s ∈ [text "> [!abstimmung] **Q**", text "> [!abstimmung] **Q**\n> Ja: 1"],
    text "> [!abstimmung]" <+: s) ∧ ¬ BlocksMatched (text "> [!abstimmung] **Q**\n> Ja: 1")
      [text "> [!abstimmung] **Q**", text "> [!abstimmung] **Q**\n> Ja: 1"] := by
  refine ⟨by decide, fun h => ?_⟩
  have hflags := h.flags
  revert hflags
  decide

theorem countsFollow_of_lines (h : ∀ s ∈ snippets, (votesOf snippets (headLine s)).card ≤ headCount body (headLine s)) :
    CountsFollowBlocks body snippets := by
  intro head
  have hall : upTo (votesOf snippets head) (byBlock body snippets) snippets.length = votesOf snippets head :=
    Finset.filter_true_of_mem fun i hi => .inl ((mem_votesBy snippets).mp hi).1
  refine ⟨snippets.length, fun i hi hle => absurd ((mem_votesBy snippets).mp hi).1 (not_lt.mpr hle), ?_⟩
  rw [hall]
  rcases (votesOf snippets head).eq_empty_or_nonempty with hnone | ⟨i, hi⟩
  · simp [hnone]
  · obtain ⟨hlt, rfl⟩ := (mem_votesBy snippets).mp hi
    rw [snippetAt_eq snippets hlt]
    exact (Nat.min_eq_left (h _ (getElem_mem hlt))).symm

theorem blocks_matched_both : BlocksMatched (text "> [!abstimmung] **Q**\nText\n> [!abstimmung] **Q**\n> Ja: 1")
    [text "> [!abstimmung] **Q**", text "> [!abstimmung] **Q**\n> Ja: 1"] :=
  (blocks_matched_iff _ _ (by decide)).mpr (countsFollow_of_lines (by decide))

end Agreement

end PublicMinutes
