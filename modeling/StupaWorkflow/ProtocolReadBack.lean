import Mathlib.Data.List.Nodup
import Mathlib.Tactic.IntervalCases
import StupaWorkflow.ProtocolHeader

/-!
What the header's reader gives back. A quoted text scans to itself exactly when it is
quotable; from this the whole header, over the lines of the block, and the body.
-/
namespace ProtocolHeader
open Py Yaml List

section Scalars

def special (c : ℕ) : Bool := c < 32 || c == 34 || c == 92

variable {c d : ℕ} {s t : Text}

attribute [local simp] scan

theorem yamlChar_plain (h : special c = false) : yamlChar c = [c] := by
  simp only [special, Bool.or_eq_false_iff, decide_eq_false_iff_not, beq_eq_false_iff_ne] at h
  have hlookup : yamlEscapes.lookup c = none := by
    rw [lookup_eq_none_iff]
    simp only [yamlEscapes, mem_cons, not_mem_nil, or_false]
    rintro p (rfl | rfl | rfl | rfl | rfl) <;> simp only [bne_iff_ne, ne_eq] <;> omega
  rw [yamlChar, hlookup, Option.getD_none, if_neg h.1.1]

theorem yamlChar_special (h : special c = true) :
    ∃ t, yamlChar c = 92 :: t ∧ t ≠ [] ∧ (∀ d ∈ t, 32 ≤ d) ∧ (∀ e, delimited (92 :: t ++ e) = delimited e) ∧
      ∀ e, scan .escape (t ++ e) = (scan .text e).map (c :: ·) := by
  simp only [special, Bool.or_eq_true, decide_eq_true_eq, beq_iff_eq] at h
  rcases h with (h | rfl) | rfl
  · interval_cases c <;> exact ⟨_, rfl, by decide, by decide, fun _ => rfl, fun _ => rfl⟩
  · exact ⟨_, rfl, by decide, by decide, fun _ => rfl, fun _ => rfl⟩
  · exact ⟨_, rfl, by decide, by decide, fun _ => rfl, fun _ => rfl⟩

theorem special_not_break (h : special c = true) : c ≠ 32 ∧ isBreak c = false := by
  simp only [special, Bool.or_eq_true, decide_eq_true_eq, beq_iff_eq] at h
  simp only [isBreak, Bool.or_eq_false_iff, beq_eq_false_iff_ne]
  omega

@[simp] theorem escape_nil : escape [] = [] := rfl

theorem escape_cons (c : ℕ) (s : Text) : escape (c :: s) = yamlChar c ++ escape s := rfl

theorem escape_head (h : escape s = d :: t) (hd : d ≠ 92) : ∃ s', s = d :: s' ∧ t = escape s' := by
  cases s with
  | nil => cases h
  | cons c s =>
    rw [escape_cons] at h
    cases hc : special c with
    | true =>
      obtain ⟨u, hu, _⟩ := yamlChar_special hc
      rw [hu] at h
      exact absurd (List.cons.inj h).1.symm hd
    | false =>
      rw [yamlChar_plain hc] at h
      obtain ⟨rfl, rfl⟩ := List.cons.inj h
      exact ⟨s, rfl, rfl⟩

theorem escape_plain (h : special c = false) (s : Text) : escape (c :: s) = c :: escape s := by
  rw [escape_cons, yamlChar_plain h]
  rfl

theorem isSeparator_iff : isSeparator s = true ↔
    ∃ d c r, (d = 45 ∨ d = 46) ∧ (c = 32 ∨ isBreak c = true) ∧ s = d :: d :: d :: c :: r := by
  constructor
  · intro h
    unfold isSeparator at h
    split at h
    · next c r => exact ⟨45, c, r, .inl rfl, by simpa using h, rfl⟩
    · next c r => exact ⟨46, c, r, .inr rfl, by simpa using h, rfl⟩
    · cases h
  · rintro ⟨d, c, r, rfl | rfl, hc, rfl⟩ <;> simpa [isSeparator] using hc

theorem isSeparator_escape (s : Text) : isSeparator (escape s) = isSeparator s := by
  rw [Bool.eq_iff_iff, isSeparator_iff, isSeparator_iff]
  constructor
  · rintro ⟨d, c, r, hd, hc, h⟩
    have hne : d ≠ 92 := by omega
    obtain ⟨s₁, rfl, h₁⟩ := escape_head h hne
    obtain ⟨s₂, rfl, h₂⟩ := escape_head h₁.symm hne
    obtain ⟨s₃, rfl, h₃⟩ := escape_head h₂.symm hne
    have hcne : c ≠ 92 := by
      rintro rfl
      revert hc
      decide
    obtain ⟨s₄, rfl, _⟩ := escape_head h₃.symm hcne
    exact ⟨d, c, s₄, hd, hc, rfl⟩
  · rintro ⟨d, c, r, hd, hc, rfl⟩
    have hplain : special d = false := by rcases hd with rfl | rfl <;> decide
    have hcplain : special c = false := by
      by_contra hspecial
      obtain ⟨h32, hbreak⟩ := special_not_break (Bool.eq_true_of_not_eq_false hspecial)
      rcases hc with rfl | hc
      · exact h32 rfl
      · rw [hbreak] at hc
        cases hc
    refine ⟨d, c, escape r, hd, hc, ?_⟩
    rw [escape_plain hplain, escape_plain hplain, escape_plain hplain, escape_plain hcplain]

theorem scan_text_cons (c : ℕ) (s : Text) : scan .text (escape (c :: s)) =
    if isBreak c then
      if isSeparator s then none
      else if c = 0x85 then scan (.skip true) (escape s)
      else (scan (.skip false) (escape s)).map (c :: ·)
    else if c = 32 && startsBreak (escape s) then scan .text (escape s)
    else (scan .text (escape s)).map (c :: ·) := by
  cases hc : special c with
  | true =>
    obtain ⟨t, ht, _, _, _, hscan⟩ := yamlChar_special hc
    obtain ⟨h32, hbreak⟩ := special_not_break hc
    rw [escape_cons, ht, cons_append, scan, if_pos rfl, hscan, hbreak, if_neg Bool.false_ne_true, if_neg]
    simp [h32]
  | false =>
    have hne : c ≠ 92 ∧ c ≠ 34 := by
      simp only [special, Bool.or_eq_false_iff, beq_eq_false_iff_ne] at hc
      exact ⟨hc.2, hc.1.2⟩
    rw [escape_plain hc, scan, if_neg hne.1, if_neg hne.2, isSeparator_escape]

theorem scan_skip_cons (owed : Bool) (c : ℕ) (s : Text) : scan (.skip owed) (escape (c :: s)) =
    if c = 32 then scan (.skip owed) (escape s)
    else if isBreak c then
      if isSeparator s then none else (scan (.skip false) (escape s)).map (normal c :: ·)
    else (scan .text (escape s)).map (lead owed ++ c :: ·) := by
  cases hc : special c with
  | true =>
    obtain ⟨t, ht, _, _, _, hscan⟩ := yamlChar_special hc
    obtain ⟨h32, hbreak⟩ := special_not_break hc
    rw [escape_cons, ht, cons_append, scan, if_neg (by decide), if_neg (by decide), if_pos rfl, hscan, hbreak,
      if_neg h32, if_neg Bool.false_ne_true, Option.map_map]
    rfl
  | false =>
    have hne : c ≠ 92 ∧ c ≠ 34 := by
      simp only [special, Bool.or_eq_false_iff, beq_eq_false_iff_ne] at hc
      exact ⟨hc.2, hc.1.2⟩
    rw [escape_plain hc, scan, if_neg hne.1, if_neg hne.2, isSeparator_escape]

theorem scan_length (s : Text) : (∀ t, scan .text (escape s) = some t → t.length ≤ s.length) ∧
    ∀ owed t, scan (.skip owed) (escape s) = some t → t.length ≤ s.length + (lead owed).length := by
  induction s with
  | nil =>
    refine ⟨fun t h => ?_, fun owed t h => ?_⟩
    · cases h
      exact Nat.le_refl _
    · cases h
      exact Nat.le_add_left _ _
  | cons c s ih =>
    obtain ⟨htext, hskip⟩ := ih
    have hmap : ∀ {m : Option Text} {n : ℕ} {f : Text} {t : Text}, (∀ u, m = some u → u.length ≤ n) →
        m.map (f ++ ·) = some t → t.length ≤ f.length + n := by
      intro m n f t hm h
      obtain ⟨u, hu, rfl⟩ := Option.map_eq_some_iff.mp h
      rw [length_append]
      exact Nat.add_le_add_left (hm u hu) _
    constructor
    · intro t h
      rw [scan_text_cons] at h
      rw [length_cons]
      split at h
      · split at h
        · cases h
        · split at h
          · exact (hskip true t h).trans (by simp [lead])
          · exact (hmap (f := [c]) (hskip false) h).trans (by simp [lead]; omega)
      · split at h
        · exact (htext t h).trans (Nat.le_succ _)
        · exact (hmap (f := [c]) htext h).trans (by simp; omega)
    · intro owed t h
      rw [scan_skip_cons] at h
      rw [length_cons]
      split at h
      · exact (hskip owed t h).trans (by omega)
      · split at h
        · split at h
          · cases h
          · exact (hmap (f := [normal c]) (hskip false) h).trans (by simp [lead]; omega)
        · have hadd : (scan .text (escape s)).map ((lead owed ++ [c]) ++ ·) = some t := by simpa using h
          exact (hmap htext hadd).trans (by simp; omega)

theorem scan_owed_head (h : scan (.skip true) (escape s) = some (c :: t)) : c ≠ 0x85 := by
  induction s with
  | nil =>
    cases h
    decide
  | cons d s ih =>
    rw [scan_skip_cons] at h
    split at h
    · exact ih h
    · split at h
      · split at h
        · cases h
        · obtain ⟨u, _, hu⟩ := Option.map_eq_some_iff.mp h
          rw [← (List.cons.inj hu).1, normal]
          split
          · decide
          · next hd => exact hd
      · obtain ⟨u, _, hu⟩ := Option.map_eq_some_iff.mp h
        rw [← (List.cons.inj hu).1]
        decide

theorem head_break_startsBreak (h : s.head?.any isBreak = true) : startsBreak (escape s) = true := by
  cases s with
  | nil => cases h
  | cons c s =>
    have hc : isBreak c = true := h
    have hplain : special c = false := by
      by_contra hspecial
      rw [(special_not_break (Bool.eq_true_of_not_eq_false hspecial)).2] at hc
      cases hc
    have h32 : (c == 32) = false := by
      rw [beq_eq_false_iff_ne]
      rintro rfl
      revert hc
      decide
    rw [escape_plain hplain, startsBreak, dropWhile_cons, h32]
    exact hc

theorem startsBreak_broken (h : startsBreak (escape s) = true) : unbroken (32 :: s) = false := by
  induction s with
  | nil => cases h
  | cons c s ih =>
    by_cases hc : c = 32
    · subst hc
      have hrest : unbroken (32 :: s) = false := by
        refine ih ?_
        rw [escape_plain (by decide), startsBreak, dropWhile_cons] at h
        exact h
      rw [unbroken, hrest, Bool.and_false]
    · have hhead : isBreak c = true := by
        cases hspecial : special c with
        | true =>
          obtain ⟨t, ht, _⟩ := yamlChar_special hspecial
          rw [escape_cons, ht] at h
          cases h
        | false =>
          have h32 : (c == 32) = false := by simpa using hc
          rw [escape_plain hspecial, startsBreak, dropWhile_cons, h32] at h
          exact h
      rw [unbroken]
      simp [hhead]

/-- A text scans to itself exactly when no break in it is folded or loses a blank. -/
theorem scan_escape_iff (s : Text) : (scan .text (escape s) = some s ↔ unbroken s = true) ∧
    (scan (.skip false) (escape s) = some s ↔ s.head? ≠ some 32 ∧ unbroken s = true) := by
  induction s with
  | nil => simp [scan, unbroken, lead]
  | cons c s ih =>
    obtain ⟨htext, hskip⟩ := ih
    have hcons : ∀ {m : Option Text}, m.map (c :: ·) = some (c :: s) ↔ m = some s := by
      intro m
      simp
    -- a break at the head, read in the text or right after another break
    have hbreak : isBreak c = true → c ≠ 0x85 →
        ((if isSeparator s then none else (scan (.skip false) (escape s)).map (c :: ·)) = some (c :: s) ↔
          unbroken (c :: s) = true) := by
      intro hc h85
      have h32 : c ≠ 32 := by
        rintro rfl
        revert hc
        decide
      rw [unbroken]
      by_cases hsep : isSeparator s = true
      · simp [hsep, hc]
      · rw [if_neg hsep, hcons, hskip]
        simp [hsep, hc, h85, h32]
    constructor
    · rw [scan_text_cons]
      by_cases hc : isBreak c = true
      · rw [if_pos hc]
        by_cases h85 : c = 0x85
        · subst h85
          refine iff_of_false ?_ (by simp [unbroken])
          split
          · simp
          · rw [if_pos rfl]
            exact fun h => scan_owed_head h rfl
        · rw [if_neg h85]
          exact hbreak hc h85
      · rw [if_neg hc]
        by_cases hdrop : c = 32 && startsBreak (escape s)
        · rw [if_pos hdrop]
          simp only [Bool.and_eq_true, decide_eq_true_eq] at hdrop
          obtain ⟨rfl, hstart⟩ := hdrop
          refine iff_of_false (fun h => ?_) (by simp [startsBreak_broken hstart])
          have := (scan_length s).1 _ h
          simp at this
        · rw [if_neg hdrop, hcons, htext, unbroken]
          have h85 : c ≠ 0x85 := by
            rintro rfl
            exact hc rfl
          have hkeep : ¬ (c = 32 ∧ s.head?.any isBreak = true) := by
            rintro ⟨rfl, hhead⟩
            exact hdrop (by simp [head_break_startsBreak hhead])
          simp only [Bool.not_eq_true] at hc
          by_cases h32 : c = 32
          · have hhead : s.head?.any isBreak = false := by simpa [h32] using hkeep
            simp [h85, hc, hhead]
          · simp [h85, hc, h32]
    · rw [scan_skip_cons, List.head?_cons]
      by_cases h32 : c = 32
      · subst h32
        refine iff_of_false (fun h => ?_) (by simp)
        rw [if_pos rfl] at h
        have := (scan_length s).2 false _ h
        simp [lead] at this
      · rw [if_neg h32]
        have hne : some c ≠ some 32 := by simpa using h32
        rw [and_iff_right hne]
        by_cases hc : isBreak c = true
        · rw [if_pos hc]
          by_cases h85 : c = 0x85
          · subst h85
            refine iff_of_false ?_ (by simp [unbroken])
            split
            · simp
            · simp [normal]
          · rw [normal, if_neg h85]
            exact hbreak hc h85
        · rw [if_neg hc, lead, if_neg Bool.false_ne_true]
          simp only [nil_append]
          rw [hcons, htext, unbroken]
          have h85 : c ≠ 0x85 := by
            rintro rfl
            exact hc rfl
          simp only [Bool.not_eq_true] at hc
          simp [h85, hc, h32]

theorem delimited_escape (s : Text) : delimited (escape s) = true := by
  induction s with
  | nil => rfl
  | cons c s ih =>
    cases hc : special c with
    | true =>
      obtain ⟨t, ht, _, _, hdelimited, _⟩ := yamlChar_special hc
      rw [escape_cons, ht, hdelimited]
      exact ih
    | false =>
      have hne : c ≠ 92 ∧ c ≠ 34 := by
        simp only [special, Bool.or_eq_false_iff, beq_eq_false_iff_ne] at hc
        exact ⟨hc.2, hc.1.2⟩
      rw [escape_plain hc, delimited]
      · exact ih
      · exact fun h => absurd h hne.1
      · exact fun _ _ h => absurd h hne.1
      · exact hne.2

theorem mem_escape (h : d ∈ escape s) : (32 ≤ d ∧ d < 127) ∨ (d ∈ s ∧ 32 ≤ d) := by
  obtain ⟨c, hc, hd⟩ := mem_flatMap.mp h
  cases hspecial : special c with
  | true =>
    simp only [special, Bool.or_eq_true, decide_eq_true_eq, beq_iff_eq] at hspecial
    left
    rcases hspecial with (hlt | rfl) | rfl
    · have hall : ∀ c < 32, ∀ d ∈ yamlChar c, 32 ≤ d ∧ d < 127 := by decide
      exact hall c hlt d hd
    · have hall : ∀ d ∈ yamlChar 34, 32 ≤ d ∧ d < 127 := by decide
      exact hall d hd
    · have hall : ∀ d ∈ yamlChar 92, 32 ≤ d ∧ d < 127 := by decide
      exact hall d hd
  | false =>
    rw [yamlChar_plain hspecial] at hd
    rw [mem_singleton.mp hd]
    simp only [special, Bool.or_eq_false_iff, decide_eq_false_iff_not] at hspecial
    exact .inr ⟨hc, by omega⟩

theorem closed_escape (s : Text) : Closed (escape s) :=
  ⟨delimited_escape s, fun _ hd => (mem_escape hd).elim (·.1) (·.2)⟩

theorem printable_escape_iff (s : Text) :
    (∀ d ∈ escape s, printable d = true) ↔ ∀ c ∈ s, c < 32 ∨ printable c = true := by
  constructor
  · intro h c hc
    by_cases hlt : c < 32
    · exact .inl hlt
    · right
      by_cases hspecial : special c = true
      · simp only [special, Bool.or_eq_true, decide_eq_true_eq, beq_iff_eq] at hspecial
        rcases hspecial with (h32 | rfl) | rfl
        · exact absurd h32 hlt
        · decide
        · decide
      · refine h c (mem_flatMap.mpr ⟨c, hc, ?_⟩)
        rw [yamlChar_plain (Bool.not_eq_true _ ▸ hspecial)]
        exact mem_singleton.mpr rfl
  · intro h d hd
    have hascii : 32 ≤ d ∧ d < 127 → printable d = true := by
      intro hd
      simp only [printable, Bool.or_eq_true, Bool.and_eq_true, decide_eq_true_eq, beq_iff_eq]
      omega
    rcases mem_escape hd with hd | ⟨hmem, hge⟩
    · exact hascii hd
    · exact (h d hmem).resolve_left (by omega)

theorem quotable_iff (s : Text) :
    Quotable s ↔ (∀ d ∈ escape s, printable d = true) ∧ scan .text (escape s) = some s := by
  rw [Quotable, printable_escape_iff, (scan_escape_iff s).1]

end Scalars

section Block

theorem texts_mapTexts (f : Text → Text) (b : Block) : (b.mapTexts f).texts = b.texts.map f := by
  have hrecord : ∀ r : Record, (r.mapTexts f).fields.map Prod.snd = (r.fields.map Prod.snd).map f := by
    intro r
    simp [Record.mapTexts, Record.fields, Function.comp_def]
  have hnode : ∀ n : Node, (n.mapTexts f).texts = n.texts.map f := by
    intro n
    cases n with
    | plain s => rfl
    | quoted s => rfl
    | words first rest => rfl
    | records first rest =>
      change ((first :: rest).map (Record.mapTexts f)).flatMap _ = _
      rw [flatMap_map, Node.texts, map_flatMap]
      exact flatMap_congr fun r _ => hrecord r
  rw [Block.texts, Block.mapTexts, flatMap_map, Block.texts, map_flatMap]
  exact flatMap_congr fun e _ => hnode e.2

theorem mapTexts_mapTexts (f g : Text → Text) (b : Block) : (b.mapTexts f).mapTexts g = b.mapTexts (g ∘ f) := by
  have hnode : ∀ n : Node, (n.mapTexts f).mapTexts g = n.mapTexts (g ∘ f) := by
    intro n
    cases n with
    | plain s => rfl
    | quoted s => rfl
    | words first rest => simp [Node.mapTexts]
    | records first rest => simp [Node.mapTexts, Record.mapTexts, Function.comp_def]
  rw [Block.mapTexts, Block.mapTexts, map_map, Block.mapTexts]
  refine map_congr_left fun e _ => ?_
  simp [hnode]

/-- What the reader's `_coerce` makes of the values of a block. -/
theorem coerce_values {b : Block} (hkeys : (b.map Prod.fst).Nodup) :
    coerce (.mapping (b.map fun e => (e.1, e.2.value))) = (metaValues b, recordValues b) := by
  have hrows : ∀ n : Node, (if rowsOf n.value = [] then none else some (rowsOf n.value)) = listOf n := by
    intro n
    cases n with
    | plain s => rfl
    | quoted s => rfl
    | words first rest =>
      have hnone : ∀ ws : List Text, (ws.map Item.text).filterMap recordOf = [] := by
        intro ws
        simp [recordOf]
      rw [Node.value, rowsOf, hnone]
      rfl
    | records first rest =>
      have hsome : ∀ rs : List Record, (rs.map Record.item).filterMap recordOf = rs.map Record.fields := by
        intro rs
        rw [filterMap_map, ← filterMap_eq_map]
        refine filterMap_congr fun r _ => ?_
        simp [recordOf, Record.item, filterMap_map]
      rw [Node.value, rowsOf, hsome]
      rfl
  have hplain : ∀ n : Node, listOf n = none → plainOf n.value = metaOf n := by
    intro n hn
    cases n with
    | plain s => rfl
    | quoted s => rfl
    | words first rest =>
      have htexts : ∀ ws : List Text, (ws.map Item.text).filterMap textOf = ws := by
        intro ws
        simp [filterMap_map, textOf, Function.comp_def]
      rw [Node.value, plainOf, htexts]
      rfl
    | records first rest => cases hn
  have hrecords : (b.map fun e => (e.1, e.2.value)).filterMap
      (fun p => if rowsOf p.2 = [] then none else some (p.1, rowsOf p.2)) = recordValues b := by
    rw [filterMap_map, recordValues]
    refine filterMap_congr fun e _ => ?_
    rw [← hrows]
    simp only [Function.comp_apply]
    split <;> rfl
  have hmem : ∀ e ∈ b, e.1 ∈ (recordValues b).map Prod.fst ↔ (listOf e.2).isSome = true := by
    intro e he
    rw [recordValues, mem_map]
    constructor
    · rintro ⟨p, hp, hkey⟩
      obtain ⟨e', he', hp⟩ := mem_filterMap.mp hp
      obtain ⟨v, hv, rfl⟩ := Option.map_eq_some_iff.mp hp
      rw [← inj_on_of_nodup_map hkeys he' he hkey, hv]
      rfl
    · intro hsome
      obtain ⟨v, hv⟩ := Option.isSome_iff_exists.mp hsome
      exact ⟨(e.1, v), mem_filterMap.mpr ⟨e, he, by rw [hv]; rfl⟩, rfl⟩
  rw [coerce, hrecords]
  refine Prod.ext ?_ rfl
  rw [filterMap_map, metaValues]
  refine filterMap_congr fun e he => ?_
  simp only [Function.comp_apply, hmem e he]
  cases hlist : listOf e.2 with
  | none => rw [if_neg (by simp), hplain e.2 hlist]
  | some v =>
    rw [if_pos (by simp)]
    cases hnode : e.2 with
    | records first rest => rfl
    | plain s => simp [hnode, listOf] at hlist
    | quoted s => simp [hnode, listOf] at hlist
    | words first rest => simp [hnode, listOf] at hlist

theorem values_mapTexts_iff (f : Text → Text) (b : Block) :
    (metaValues (b.mapTexts f), recordValues (b.mapTexts f)) = (metaValues b, recordValues b) ↔
      ∀ s ∈ b.texts, f s = s := by
  have hrecord : ∀ r : Record, (r.mapTexts f).fields = r.fields ↔ ∀ p ∈ r.fields, f p.2 = p.2 := by
    intro r
    have hall : ∀ ps : List (Text × Text), ps.map (fun p => (p.1, f p.2)) = ps ↔ ∀ p ∈ ps, f p.2 = p.2 := by
      intro ps
      conv_lhs => rhs; rw [← map_id ps]
      rw [map_inj_left]
      exact forall₂_congr fun p _ => by simp [Prod.ext_iff]
    exact hall r.fields
  have hcons : ∀ {α : Type} (xs ys : Option α) (as bs : List α), xs.isSome = ys.isSome →
      (xs.toList ++ as = ys.toList ++ bs ↔ xs = ys ∧ as = bs) := by
    intro α xs ys as bs hsome
    cases xs <;> cases ys <;> simp at hsome ⊢
  have hfilterMap : ∀ {α β : Type} (g : α → Option β) (x : α) (xs : List α),
      (x :: xs).filterMap g = (g x).toList ++ xs.filterMap g := by
    intro α β g x xs
    cases hx : g x <;> simp [hx]
  induction b with
  | nil => simp [Block.mapTexts, Block.texts, metaValues, recordValues]
  | cons e b ih =>
    obtain ⟨key, n⟩ := e
    have hmap : Block.mapTexts f ((key, n) :: b) = (key, n.mapTexts f) :: Block.mapTexts f b := rfl
    have htexts : Block.texts ((key, n) :: b) = n.texts ++ Block.texts b := rfl
    have hnode : (metaOf (n.mapTexts f) = metaOf n ∧ listOf (n.mapTexts f) = listOf n) ↔ ∀ s ∈ n.texts, f s = s := by
      cases n with
      | plain s => simp [Node.mapTexts, metaOf, listOf, Node.texts]
      | quoted s => simp [Node.mapTexts, metaOf, listOf, Node.texts]
      | words first rest =>
        have hall : rest.map f = rest ↔ ∀ s ∈ rest, f s = s := by
          conv_lhs => rhs; rw [← map_id rest]
          rw [map_inj_left]
          rfl
        simp [Node.mapTexts, metaOf, listOf, Node.texts, hall]
      | records first rest =>
        have hall : (rest.map (Record.mapTexts f)).map Record.fields = rest.map Record.fields ↔
            ∀ r ∈ rest, ∀ p ∈ r.fields, f p.2 = p.2 := by
          rw [map_map, map_inj_left]
          exact forall₂_congr fun r _ => hrecord r
        have htext : (∀ s ∈ (Node.records first rest).texts, f s = s) ↔
            ∀ r ∈ first :: rest, ∀ p ∈ r.fields, f p.2 = p.2 := by
          simp only [Node.texts, mem_flatMap, mem_map]
          constructor
          · exact fun h r hr p hp => h p.2 ⟨r, hr, p, hp, rfl⟩
          · rintro h s ⟨r, hr, p, hp, rfl⟩
            exact h r hr p hp
        rw [htext, forall_mem_cons, ← hrecord first, ← hall]
        simp [Node.mapTexts, metaOf, listOf]
    have hsome : ((metaOf (n.mapTexts f)).map fun v => (key, v)).isSome = ((metaOf n).map fun v => (key, v)).isSome ∧
        ((listOf (n.mapTexts f)).map fun v => (key, v)).isSome = ((listOf n).map fun v => (key, v)).isSome := by
      cases n <;> exact ⟨rfl, rfl⟩
    have hpair : ∀ {α : Type} (x y : Option α), (x.map fun v => (key, v)) = (y.map fun v => (key, v)) ↔ x = y := by
      intro α x y
      cases x <;> cases y <;> simp
    rw [hmap, htexts, forall_mem_append]
    refine Iff.trans ?_ (and_congr hnode ih)
    rw [metaValues, metaValues, recordValues, recordValues, hfilterMap, hfilterMap, hfilterMap, hfilterMap,
      Prod.mk.injEq, hcons _ _ _ _ hsome.1, hcons _ _ _ _ hsome.2, hpair, hpair, Prod.mk.injEq]
    exact and_and_and_comm

end Block

section Document

def written (b : Block) : List Text := (b.mapTexts escape).lines.map Line.text

theorem written_append (a b : Block) : written (a ++ b) = written a ++ written b := by
  simp [written, Block.mapTexts, Block.lines]

theorem yamlEntry_written (key : Text) (value : Option Text) : yamlEntry key value = written (entryOf key value) := by
  cases value with
  | none => rfl
  | some v =>
    rw [yamlEntry, entryOf]
    by_cases hv : v = []
    · rw [if_pos hv, if_pos hv]
      rfl
    · rw [if_neg hv, if_neg hv]
      change [key ++ [58, 32] ++ yamlScalar v] = [key ++ 58 :: 32 :: yamlScalar v]
      rw [append_assoc]
      rfl

theorem yamlList_written (key : Text) (items : List Text) : yamlList key items = written (wordsOf key items) := by
  cases items with
  | nil => rfl
  | cons first rest =>
    rw [yamlList, if_neg (cons_ne_nil first rest), wordsOf]
    simp only [written, Block.mapTexts, map_cons, map_nil, Node.mapTexts, Block.lines, flatMap_cons,
      flatMap_nil, append_nil, Node.lines, map_map]
    rfl

theorem keeper_present {keeper : KeeperLine} (h : keeper.name ≠ []) :
    keeper.present = (text "name", keeper.name) :: keeper.others := by
  simp only [KeeperLine.present, filterMap_cons, Option.bind_some, if_neg h]
  rfl

theorem yamlKeeper_written {keeper : KeeperLine} (h : keeper.name ≠ []) :
    yamlKeeper keeper = ((keeper.record.mapTexts escape).lines).map Line.text := by
  rw [yamlKeeper, keeper_present h, KeeperLine.record, Record.mapTexts, Record.lines]
  simp only [map_cons, map_map, Function.comp_def, append_assoc]
  rfl

theorem yamlKeepers_written {keepers : List KeeperLine} (h : ∀ k ∈ keepers, k.name ≠ []) :
    yamlKeepers keepers = written (recordsOf (text "keepers") (keepers.map KeeperLine.record)) := by
  cases keepers with
  | nil => rfl
  | cons first rest =>
    rw [yamlKeepers, if_neg (cons_ne_nil first rest), flatMap_congr fun k hk => yamlKeeper_written (h k hk)]
    simp only [written, Block.mapTexts, map_cons, recordsOf, Node.mapTexts, Block.lines, Node.lines,
      flatMap_cons, map_append, map_flatMap, flatMap_map, map_map]
    simp
    rfl

variable {doc : ProtocolDoc}

theorem frontmatter_eq (h : ∀ k ∈ doc.keepers, k.name ≠ []) : frontmatter doc = [fence] ++ (written doc.values ++ [fence]) := by
  have hhead : [fence, text "title: " ++ yamlScalar doc.title, text "typ: protokoll"] =
      [fence] ++ written [(text "title", .quoted doc.title), (text "typ", .plain (text "protokoll"))] := rfl
  have hvalues : written doc.values = _ := congrArg written (ProtocolDoc.values.eq_1 doc)
  simp only [written_append] at hvalues
  rw [frontmatter, hhead, hvalues]
  simp only [yamlEntry_written, yamlList_written, yamlKeepers_written h, append_assoc]

theorem entryOf_keys (key : Text) (value : Option Text) : ((entryOf key value).map Prod.fst).Sublist [key] := by
  unfold entryOf
  split
  · simp
  · split <;> simp

theorem wordsOf_keys (key : Text) (items : List Text) : ((wordsOf key items).map Prod.fst).Sublist [key] := by
  cases items <;> simp [wordsOf]

theorem recordsOf_keys (key : Text) (rs : List Record) : ((recordsOf key rs).map Prod.fst).Sublist [key] := by
  cases rs <;> simp [recordsOf]

def headerKeys : List Text :=
  [text "title", text "typ", text "gremium", text "cd", text "datum", text "date", text "beginn", text "ende",
   text "started_at", text "protokoll", text "keepers", text "anwesend", text "entschuldigt", text "abwesend",
   text "beschlussfaehigkeit", text "datalines", text "unterschriften"]

theorem values_keys (doc : ProtocolDoc) : (doc.values.map Prod.fst).Sublist headerKeys := by
  rw [ProtocolDoc.values]
  simp only [map_append]
  have hhead : ([(text "title", Node.quoted doc.title), (text "typ", Node.plain (text "protokoll"))].map
      Prod.fst).Sublist [text "title", text "typ"] := List.Sublist.refl _
  exact hhead.append (entryOf_keys _ _) |>.append (entryOf_keys _ _) |>.append (entryOf_keys _ _)
    |>.append (entryOf_keys _ _) |>.append (entryOf_keys _ _) |>.append (entryOf_keys _ _)
    |>.append (entryOf_keys _ _) |>.append (entryOf_keys _ _) |>.append (recordsOf_keys _ _)
    |>.append (wordsOf_keys _ _) |>.append (wordsOf_keys _ _) |>.append (wordsOf_keys _ _)
    |>.append (entryOf_keys _ _) |>.append (wordsOf_keys _ _) |>.append (wordsOf_keys _ _)

def isWordCheck (s : Text) : Bool :=
  s ≠ [] && (s.all fun c => (65 ≤ c && c ≤ 90) || (97 ≤ c && c ≤ 122) || c == 95) && s.length ≤ 1024

theorem isWordCheck_iff {s : Text} : isWordCheck s = true ↔ IsWord s := by
  simp [isWordCheck, IsWord, or_assoc, and_assoc]

theorem record_keys (keeper : KeeperLine) :
    keeper.record.keys.Sublist [text "name", text "from", text "to", text "from_top", text "to_top"] := by
  have hothers : (keeper.others.map Prod.fst).Sublist [text "from", text "to", text "from_top", text "to_top"] := by
    have hfields : ∀ ps : List (Text × Option Text), ((ps.filterMap fun p =>
        p.2.bind fun v => if v = [] then none else some (p.1, v)).map Prod.fst).Sublist (ps.map Prod.fst) := by
      intro ps
      induction ps with
      | nil => exact List.Sublist.refl _
      | cons p ps ih =>
        rw [filterMap_cons]
        cases hp : (p.2.bind fun v => if v = [] then none else some (p.1, v)) with
        | none => exact ih.cons _
        | some q =>
          obtain ⟨v, _, hq⟩ := Option.bind_eq_some_iff.mp hp
          split at hq
          · cases hq
          · cases hq
            exact ih.cons_cons _
    exact hfields _
  exact hothers.cons_cons _

theorem mapTexts_keys (f : Text → Text) (b : Block) : (b.mapTexts f).map Prod.fst = b.map Prod.fst := by
  simp [Block.mapTexts, Function.comp_def]

theorem values_nodup (doc : ProtocolDoc) : (doc.values.map Prod.fst).Nodup :=
  (show headerKeys.Nodup by decide).sublist (values_keys doc)

theorem values_cases (doc : ProtocolDoc) : ∀ e ∈ doc.values, e.2 = .plain (text "protokoll") ∨ (∃ s, e.2 = .quoted s) ∨
    (∃ first rest, e.2 = .words first rest) ∨
      ∃ first rest, e.2 = .records first rest ∧ first :: rest = doc.keepers.map KeeperLine.record := by
  have hentry : ∀ key value, ∀ e ∈ entryOf key value, ∃ s, e.2 = Node.quoted s := by
    intro key value e he
    unfold entryOf at he
    split at he
    · cases he
    · split at he
      · cases he
      · rw [mem_singleton.mp he]
        exact ⟨_, rfl⟩
  have hwords : ∀ key items, ∀ e ∈ wordsOf key items, ∃ first rest, e.2 = Node.words first rest := by
    intro key items e he
    cases items with
    | nil => cases he
    | cons first rest =>
      rw [mem_singleton.mp he]
      exact ⟨first, rest, rfl⟩
  have hrecords : ∀ e ∈ recordsOf (text "keepers") (doc.keepers.map KeeperLine.record),
      ∃ first rest, e.2 = Node.records first rest ∧ first :: rest = doc.keepers.map KeeperLine.record := by
    intro e he
    cases hk : doc.keepers.map KeeperLine.record with
    | nil =>
      rw [hk] at he
      cases he
    | cons first rest =>
      rw [hk, recordsOf, mem_singleton] at he
      exact ⟨first, rest, by rw [he], rfl⟩
  intro e he
  rw [ProtocolDoc.values] at he
  simp only [mem_append, or_assoc] at he
  rcases he with he | he | he | he | he | he | he | he | he | he | he | he | he | he | he | he
  · rcases mem_cons.mp he with rfl | he
    · exact .inr (.inl ⟨_, rfl⟩)
    · rw [mem_singleton.mp he]
      exact .inl rfl
  case inr.inr.inr.inr.inr.inr.inr.inr.inr.inl => exact .inr (.inr (.inr (hrecords e he)))
  all_goals
    first
    | exact .inr (.inl (hentry _ _ e he))
    | exact .inr (.inr (.inl (hwords _ _ e he)))

theorem headerKeys_words : ∀ k ∈ headerKeys, IsWord k := by
  have hall : ∀ k ∈ headerKeys, isWordCheck k = true := by decide
  exact fun k hk => isWordCheck_iff.mp (hall k hk)

def recordKeys : List Text := [text "name", text "from", text "to", text "from_top", text "to_top"]

theorem recordKeys_words : ∀ k ∈ recordKeys, IsWord k := by
  have hall : ∀ k ∈ recordKeys, isWordCheck k = true := by decide
  exact fun k hk => isWordCheck_iff.mp (hall k hk)

theorem escaped_record (keeper : KeeperLine) :
    (keeper.record.mapTexts escape).keys.Nodup ∧ ∀ k ∈ (keeper.record.mapTexts escape).keys, IsWord k := by
  have hsame : (keeper.record.mapTexts escape).keys = keeper.record.keys := by
    simp [Record.keys, Record.fields, Record.mapTexts, Function.comp_def]
  have hkeys : keeper.record.keys.Sublist recordKeys := record_keys keeper
  have hnodup : recordKeys.Nodup := by decide
  rw [hsame]
  exact ⟨hnodup.sublist hkeys, fun k hk => recordKeys_words k (hkeys.subset hk)⟩

theorem escaped_node (doc : ProtocolDoc) {e : Text × Node} (he : e ∈ doc.values) : (e.2.mapTexts escape).Simple := by
  have hclosed : ∀ s ∈ (e.2.mapTexts escape).texts, Closed s := by
    intro s hs
    have hmem : s ∈ (doc.values.mapTexts escape).texts :=
      mem_flatMap.mpr ⟨(e.1, e.2.mapTexts escape), mem_map_of_mem he, hs⟩
    rw [texts_mapTexts] at hmem
    obtain ⟨t, _, rfl⟩ := mem_map.mp hmem
    exact closed_escape t
  rcases values_cases doc e he with h | ⟨t, h⟩ | ⟨t, ts, h⟩ | ⟨t, ts, h, hkeepers⟩
  · rw [h] at hclosed ⊢
    refine ⟨fun s hs => ?_, hclosed, fun _ _ hnode => (by cases hnode)⟩
    rw [Node.mapTexts, Node.plain.injEq] at hs
    subst hs
    exact isWordCheck_iff.mp (by decide)
  · rw [h] at hclosed ⊢
    exact ⟨fun _ hs => (by cases hs), hclosed, fun _ _ hnode => (by cases hnode)⟩
  · rw [h] at hclosed ⊢
    exact ⟨fun _ hs => (by cases hs), hclosed, fun _ _ hnode => (by cases hnode)⟩
  · rw [h] at hclosed ⊢
    refine ⟨fun _ hs => (by cases hs), hclosed, fun first rest hnode r hr => ?_⟩
    rw [Node.mapTexts, Node.records.injEq] at hnode
    obtain ⟨rfl, rfl⟩ := hnode
    obtain ⟨q, hq, rfl⟩ := mem_map.mp (show r ∈ (t :: ts).map (Record.mapTexts escape) from hr)
    rw [hkeepers] at hq
    obtain ⟨keeper, _, rfl⟩ := mem_map.mp hq
    exact escaped_record keeper

theorem values_simple (doc : ProtocolDoc) : (doc.values.mapTexts escape).Simple where
  nonempty := by
    intro hnil
    have htitle : (text "title", Node.quoted doc.title) ∈ doc.values := by simp [ProtocolDoc.values]
    have hmem := mem_map_of_mem (f := fun e : Text × Node => (e.1, e.2.mapTexts escape)) htitle
    rw [Block.mapTexts] at hnil
    rw [hnil] at hmem
    cases hmem
  keys := by
    rw [mapTexts_keys]
    exact values_nodup doc
  words := by
    intro e he
    have hkey : e.1 ∈ (doc.values.mapTexts escape).map Prod.fst := mem_map_of_mem he
    rw [mapTexts_keys] at hkey
    exact headerKeys_words e.1 ((values_keys doc).subset hkey)
  nodes := by
    intro e he
    obtain ⟨x, hx, rfl⟩ := mem_map.mp he
    exact escaped_node doc hx

theorem strip_line {l : Line} (h : l.Good) : strip l.text ≠ fence ∧ strip l.text ≠ text "..." := by
  have hmark : ∃ c ∈ l.text, c = 58 ∨ c = 34 := by
    cases l with
    | plain key value => exact ⟨58, by simp [Line.text], .inl rfl⟩
    | entry key s => exact ⟨58, by simp [Line.text], .inl rfl⟩
    | opener key => exact ⟨58, by simp [Line.text], .inl rfl⟩
    | item s => exact ⟨34, by simp [Line.text, quote], .inr rfl⟩
    | itemEntry key s => exact ⟨58, by simp [Line.text], .inl rfl⟩
    | field key s => exact ⟨58, by simp [Line.text], .inl rfl⟩
  obtain ⟨c, hc, hmark⟩ := hmark
  have hspace : isSpace c = false := by rcases hmark with rfl | rfl <;> decide
  have hmem := mem_strip hc hspace
  constructor
  · intro heq
    rw [heq] at hmem
    rcases hmark with rfl | rfl <;> revert hmem <;> decide
  · intro heq
    rw [heq] at hmem
    rcases hmark with rfl | rfl <;> revert hmem <;> decide

theorem splitFence_append {ls : List Text} (h : ∀ l ∈ ls, strip l ≠ fence ∧ strip l ≠ text "...") (rest : List Text) :
    splitFence (ls ++ fence :: rest) = some (ls, rest) := by
  induction ls with
  | nil =>
    have hfence : strip fence = fence := by decide
    rw [nil_append, splitFence, if_pos (.inl hfence)]
  | cons l ls ih =>
    have hl := h l mem_cons_self
    rw [cons_append, splitFence, if_neg (by simp [hl.1, hl.2]), ih fun m hm => h m (mem_cons_of_mem l hm)]
    rfl

def below (sanitized : Text) : Text :=
  let body := rstrip (stripWith isNewline sanitized)
  if body = [] then [] else 10 :: (body ++ [10])

theorem document_eq {sanitize : Text → Text} (h : ∀ k ∈ doc.keepers, k.name ≠ []) : buildProtocolDocument sanitize doc =
      joinLines ([fence] ++ (written doc.values ++ [fence])) ++ 10 :: below (sanitize doc.markdown) := by
  have hlast : ∃ front, joinLines ([fence] ++ (written doc.values ++ [fence])) = front ++ [45] := by
    refine ⟨joinLines ([fence] ++ written doc.values) ++ [10, 45, 45], ?_⟩
    rw [← append_assoc, joinLines_append (by simp) (by simp), append_assoc]
    rfl
  obtain ⟨front, hfront⟩ := hlast
  have hdash : isSpace 45 = false := by decide
  have hbreak : isSpace 10 = true := by decide
  rw [buildProtocolDocument, frontmatter_eq h, below]
  generalize stripWith isNewline (sanitize doc.markdown) = body
  have hjoin : ∀ tail : List Text, joinLines ([fence] ++ (written doc.values ++ [fence]) ++ [[]] ++ tail) =
      front ++ 45 :: 10 :: joinLines ([] :: tail) := by
    intro tail
    rw [append_assoc _ [[]] tail, joinLines_append (by simp) (by simp), hfront, append_assoc]
    rfl
  rw [hjoin, hfront, rstrip_append _ hdash, rstrip_cons 10 hbreak]
  by_cases hbody : body = []
  · subst hbody
    rw [if_pos rfl]
    have hnil : rstrip (joinLines [[]]) = [] := by decide
    have hnil' : rstrip [] = [] := by decide
    simp [hnil, hnil']
  · rw [if_neg hbody]
    have hjoin' : joinLines ([] :: [body]) = 10 :: body := rfl
    rw [hjoin', rstrip_cons 10 hbreak]
    by_cases hempty : rstrip body = []
    · simp [hempty]
    · simp [hempty]

theorem below_body (sanitized : Text) : (below sanitized).dropWhile isNewline = bodyText sanitized := by
  rw [below, bodyText]
  by_cases hbody : rstrip (stripWith isNewline sanitized) = []
  · simp [hbody]
  · simp only [if_neg hbody]
    have hne : stripWith isNewline sanitized ≠ [] := by
      intro hnil
      rw [hnil] at hbody
      exact hbody (by decide)
    obtain ⟨⟨c, rest, hc, hhead⟩, _⟩ := Filenames.stripWith_ends hne
    obtain ⟨d, more, hd⟩ := exists_cons_of_ne_nil hbody
    -- what is cut off is at the end, so the first character is the one of the stripped text
    have hsame : d = c := by
      have hstart : rstrip (stripWith isNewline sanitized) <+: stripWith isNewline sanitized := rdropWhile_prefix _ _
      rw [hd, hc] at hstart
      exact (cons_prefix_cons.mp hstart).1
    rw [hd, cons_append, dropWhile_cons, dropWhile_cons, hsame, hhead]
    rfl

theorem parse_document {load : Text → Option Loaded} (hload : Reads load) (sanitize : Text → Text)
    (h : ∀ k ∈ doc.keepers, k.name ≠ []) : parseFrontmatter load (buildProtocolDocument sanitize doc) =
      match (doc.values.mapTexts escape).load with
      | none => .error .invalidYaml
      | some raw => .ok ((coerce raw).1, (coerce raw).2, bodyText (sanitize doc.markdown)) := by
  have hsimple := values_simple doc
  have hwritten : ∀ l ∈ written doc.values, 10 ∉ l ∧ strip l ≠ fence ∧ strip l ≠ text "..." := by
    intro l hl
    obtain ⟨m, hm, rfl⟩ := mem_map.mp hl
    have hgood := hsimple.lines_good m hm
    exact ⟨Line.one_line hgood, strip_line hgood⟩
  have hlines : ∀ l ∈ [fence] ++ (written doc.values ++ [fence]), 10 ∉ l := by
    have hfence : 10 ∉ fence := by decide
    intro l hl
    simp only [mem_append, mem_singleton] at hl
    rcases hl with rfl | hl | rfl
    · exact hfence
    · exact (hwritten l hl).1
    · exact hfence
  have hstart : ∀ t : Text, joinLines ([fence] ++ (written doc.values ++ [fence])) ++ t =
      45 :: (text "--" ++ 10 :: (joinLines (written doc.values ++ [fence]) ++ t)) := by
    intro t
    rw [joinLines_append (by simp) (by simp), append_assoc]
    rfl
  have hdrop : ∀ t : Text, ((joinLines ([fence] ++ (written doc.values ++ [fence])) ++ t).dropWhile (· == 0xFEFF)).dropWhile
      isNewline = joinLines ([fence] ++ (written doc.values ++ [fence])) ++ t := by
    intro t
    rw [hstart]
    rfl
  have hfence : strip fence = fence := by decide
  rw [document_eq h, parseFrontmatter, hdrop, splitOn_joinLines_append (by simp) hlines, append_assoc,
    singleton_append]
  simp only [hfence, ne_eq, not_true_eq_false, if_false]
  rw [append_assoc, singleton_append, splitFence_append fun l hl => (hwritten l hl).2]
  simp only [joinLines_splitOn, below_body]
  rw [show joinLines (written doc.values) = (doc.values.mapTexts escape).text from rfl]
  have hread := hload _ hsimple
  cases hraw : (doc.values.mapTexts escape).load with
  | none =>
    rw [hraw] at hread
    simp only [hread]
  | some raw =>
    rw [hraw] at hread
    simp only [hread]

/-- The reader gives back the written values and the body exactly when every text of the
header is quotable. -/
theorem header_read_back_iff {load : Text → Option Loaded} (hload : Reads load) (sanitize : Text → Text)
    (doc : ProtocolDoc) (h : ∀ k ∈ doc.keepers, k.name ≠ []) :
    parseFrontmatter load (buildProtocolDocument sanitize doc) =
        .ok (metaValues doc.values, recordValues doc.values, bodyText (sanitize doc.markdown)) ↔ doc.Readable := by
  have hsimple := values_simple doc
  have hprintable : (doc.values.mapTexts escape).text.all printable = true ↔
      ∀ s ∈ doc.values.texts, ∀ d ∈ escape s, printable d = true := by
    rw [hsimple.printable, texts_mapTexts, forall_mem_map]
  have hscan : ((doc.values.mapTexts escape).texts.all fun s => (scan .text s).isSome) = true ↔
      ∀ s ∈ doc.values.texts, (scan .text (escape s)).isSome = true := by
    rw [all_eq_true, texts_mapTexts, forall_mem_map]
  rw [parse_document hload sanitize h, Block.load]
  by_cases hcond : (doc.values.mapTexts escape).text.all printable &&
      (doc.values.mapTexts escape).texts.all fun s => (scan .text s).isSome
  · rw [if_pos hcond]
    rw [Bool.and_eq_true, hprintable, hscan] at hcond
    have hkeys : (((doc.values.mapTexts escape).mapTexts fun s => (scan .text s).getD []).map Prod.fst).Nodup := by
      rw [mapTexts_keys, mapTexts_keys]
      exact values_nodup doc
    have hvalues := coerce_values hkeys
    simp only [hvalues, Except.ok.injEq]
    rw [mapTexts_mapTexts, ← Prod.mk.eta (p := (metaValues doc.values, recordValues doc.values, _))]
    have hpair : ∀ {α β γ : Type} (a a' : α) (b b' : β) (c : γ), (a, b, c) = (a', b', c) ↔ (a, b) = (a', b') := by
      simp
    rw [hpair, values_mapTexts_iff]
    refine forall₂_congr fun s hs => ?_
    rw [quotable_iff, and_iff_right (hcond.1 s hs)]
    obtain ⟨t, ht⟩ := Option.isSome_iff_exists.mp (hcond.2 s hs)
    simp [ht]
  · rw [if_neg hcond]
    refine iff_of_false (by simp) fun hreadable => hcond ?_
    rw [Bool.and_eq_true, hprintable, hscan]
    have hquotable := fun s hs => (quotable_iff s).mp (hreadable s hs)
    exact ⟨fun s hs => (hquotable s hs).1, fun s hs => by rw [(hquotable s hs).2]; rfl⟩

def titled (title : Text) : ProtocolDoc :=
  { title, gremiumName := some (text "StuPa"), cdVariant := none, date := some ⟨2026, 5, 1⟩,
    markdown := text "# TOP 1\n---\n", startTime := some ⟨18, 30, 0, 0⟩,
    keepers := [⟨text "A: \"B\"", some (text "18:30"), none, some 1, none⟩], present := [text "--- # [C]"] }

example : (titled (text "1\n2")).Readable := by decide +kernel

/-- A delete character makes the header unreadable, and a next-line character comes back
as a blank. -/
theorem header_not_read_back :
    parseFrontmatter read (buildProtocolDocument id (titled (text "Sitzung" ++ [0x7F]))) = .error .invalidYaml ∧
      ∃ found records body, parseFrontmatter read (buildProtocolDocument id (titled (text "1" ++ [0x85] ++ text "2"))) =
          .ok (found, records, body) ∧ (text "title", .text (text "1 2")) ∈ found := by
  have herror : (parseFrontmatter read (buildProtocolDocument id (titled (text "Sitzung" ++ [0x7F])))).toOption.isNone =
      true := by decide +kernel
  have hfolded : (parseFrontmatter read (buildProtocolDocument id (titled (text "1" ++ [0x85] ++ text "2")))).toOption.any
      (fun p => decide ((text "title", MetaValue.text (text "1 2")) ∈ p.1)) = true := by decide +kernel
  constructor
  · cases hparse : parseFrontmatter read (buildProtocolDocument id (titled (text "Sitzung" ++ [0x7F]))) with
    | error e =>
      cases e
      rfl
    | ok p =>
      rw [hparse] at herror
      cases herror
  · obtain ⟨⟨found, records, body⟩, hp, hmem⟩ := (Option.any_eq_true _ _).mp hfolded
    exact ⟨found, records, body, toOption_some.mp hp, of_decide_eq_true hmem⟩

theorem header_read_back_quotes :
    (titled (text "Sitzung \"1\"\n---")).Readable ∧
      parseFrontmatter read (buildProtocolDocument id (titled (text "Sitzung \"1\"\n---"))) =
        .ok (metaValues (titled (text "Sitzung \"1\"\n---")).values, recordValues (titled (text "Sitzung \"1\"\n---")).values,
          text "# TOP 1\n---\n") := by
  have hreadable : (titled (text "Sitzung \"1\"\n---")).Readable := by decide +kernel
  have hnames : ∀ k ∈ (titled (text "Sitzung \"1\"\n---")).keepers, k.name ≠ [] := by decide
  have hbody : bodyText (text "# TOP 1\n---\n") = text "# TOP 1\n---\n" := by decide
  have hparse := (header_read_back_iff read_reads id _ hnames).mpr hreadable
  exact ⟨hreadable, hbody ▸ hparse⟩

end Document

end ProtocolHeader
