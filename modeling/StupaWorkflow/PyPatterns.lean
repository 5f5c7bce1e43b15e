import StupaWorkflow.Filenames

/-!
Pieces of Python text patterns: a literal at the start, a run of decimal digits,
parts between marks with space around them, and one replacement by nothing.
-/
namespace Py
open Filenames (splitLast)
open List

/-- `sep.join(parts)`. -/
def joined (sep : Text) : List Text → Text
  | [] => []
  | [s] => s
  | s :: t :: rest => s ++ sep ++ joined sep (t :: rest)

def afterPrefix (p s : Text) : Option Text := if p.isPrefixOf s then some (s.drop p.length) else none

/-- `\d`. -/
def isDecimal (c : ℕ) : Bool := (decimalValue c).isSome

/-- `int(s)` of decimal digits. No number of a callout reaches the digit limit of `int`. -/
def decimalsValue (s : Text) : ℕ := (s.filterMap decimalValue).foldl (fun n d => 10 * n + d) 0

/-- `(\d+)` at the start: the number and what follows it. -/
def leadingNumber (s : Text) : Option (ℕ × Text) :=
  if s.takeWhile isDecimal = [] then none
  else some (decimalsValue (s.takeWhile isDecimal), s.dropWhile isDecimal)

/-- `s.replace(p, "", 1)`. -/
def cutOnce (p : Text) : Text → Text
  | [] => []
  | c :: s => if p.isPrefixOf (c :: s) then (c :: s).drop p.length else c :: cutOnce p s

def gapAt (mark : ℕ) (s : Text) : Option Text :=
  match s.dropWhile isSpace with
  | [] => none
  | c :: rest =>
    if c = mark ∧ s.head?.any isSpace ∧ rest.head?.any isSpace then some (rest.dropWhile isSpace) else none

def firstGap (mark : ℕ) : Text → Option (Text × Text)
  | [] => none
  | c :: s =>
    ((gapAt mark (c :: s)).map fun rest => ([], rest)).or
      ((firstGap mark s).map fun found => (c :: found.1, found.2))

def splitGapsWith (mark : ℕ) : ℕ → Text → List Text
  | 0, s => [s]
  | fuel + 1, s =>
    match firstGap mark s with
    | none => [s]
    | some found => found.1 :: splitGapsWith mark fuel found.2

/-- `re.split(r"\s+mark\s+", s)`. -/
def splitGaps (mark : ℕ) (s : Text) : List Text := splitGapsWith mark s.length s

def NoGap (mark : ℕ) (s : Text) : Prop :=
  ∀ a x y b, s = a ++ x :: mark :: y :: b → isSpace x = true → isSpace y = true → False

/-- A text that `strip` leaves alone. -/
structure Trimmed (s : Text) : Prop where
  head : ∀ c ∈ s.head?, isSpace c = false
  last : ∀ c ∈ s.getLast?, isSpace c = false

section Strip

variable {s t : Text}

attribute [local simp] splitGapsWith joined leadingNumber stripWith decimalValue isDecimal gapAt decimalsValue cutOnce

theorem Trimmed.dropWhile (h : Trimmed s) : s.dropWhile isSpace = s := by
  cases s with
  | nil => rfl
  | cons c s => exact dropWhile_cons_of_neg (by simp [h.head c rfl])

theorem Trimmed.strip (h : Trimmed s) : strip s = s := by
  have hback : s.reverse.dropWhile isSpace = s.reverse := by
    cases hs : s.reverse with
    | nil => rfl
    | cons c rest =>
      have hlast : s.getLast? = some c := by rw [← head?_reverse, hs, head?_cons]
      exact dropWhile_cons_of_neg (by simp [h.last c hlast])
  rw [Py.strip, stripWith, h.dropWhile, hback, reverse_reverse]

theorem Trimmed.strip_space (h : Trimmed s) : Py.strip (32 :: s) = s := by
  rw [Py.strip, stripWith, dropWhile_cons_of_pos (by decide)]
  exact h.strip

theorem Trimmed.append (hs : Trimmed s) (ht : Trimmed t) (m : Text) (hne : s ≠ []) (hnt : t ≠ []) :
    Trimmed (s ++ m ++ t) := by
  refine ⟨?_, ?_⟩
  · intro c hc
    rw [append_assoc, head?_append_of_ne_nil _ hne] at hc
    exact hs.head c hc
  · intro c hc
    rw [getLast?_append_of_ne_nil _ hnt] at hc
    exact ht.last c hc

end Strip

section Numbers

theorem isDecimal_isDigit {c : ℕ} (h : isDigit c = true) : decimalValue c = some (c - 48) := by
  simp only [isDigit, Bool.and_eq_true, decide_eq_true_eq] at h
  have hfirst : decimalZeros.find? (fun z => decide (z ≤ c) && decide (c < z + 10)) = some 48 :=
    find?_cons_of_pos (by simp; omega)
  rw [decimalValue, hfirst]
  rfl

theorem not_isSpace_of_isDecimal {c : ℕ} (h : isDecimal c = true) : isSpace c = false := by
  obtain ⟨z, hz, hfound⟩ : ∃ z ∈ decimalZeros, z ≤ c ∧ c < z + 10 := by
    rw [isDecimal, decimalValue, Option.isSome_map, find?_isSome] at h
    obtain ⟨z, hz, hin⟩ := h
    exact ⟨z, hz, by simpa using hin⟩
  have hall : ∀ z ∈ decimalZeros, ∀ k < 10, isSpace (z + k) = false := by decide
  have := hall z hz (c - z) (by omega)
  rwa [Nat.add_sub_cancel' hfound.1] at this

theorem isDecimal_decimal (n : ℕ) : ∀ c ∈ decimal n, isDecimal c = true := by
  intro c hc
  rw [isDecimal, isDecimal_isDigit (decimal_isDigit n c hc)]
  rfl

theorem decimalsValue_decimal (n : ℕ) : decimalsValue (decimal n) = n := by
  have hmap : ∀ s : Text, (∀ c ∈ s, isDigit c = true) → s.filterMap decimalValue = s.map (· - 48) := by
    intro s hs
    induction s with
    | nil => rfl
    | cons c s ih =>
      rw [filterMap_cons_some (isDecimal_isDigit (hs c (by simp))), ih fun d hd => hs d (mem_cons_of_mem _ hd)]
      rfl
  rw [decimalsValue, hmap _ (decimal_isDigit n), foldl_map]
  exact digitsValue_decimal n

theorem leadingNumber_decimal (n : ℕ) (rest : Text) (h : ∀ c ∈ rest.head?, isDecimal c = false) :
    leadingNumber (decimal n ++ rest) = some (n, rest) := by
  have htake : rest.takeWhile isDecimal = [] := by
    cases rest with
    | nil => rfl
    | cons c rest => exact takeWhile_cons_of_neg (by simp [h c rfl])
  have hdrop : rest.dropWhile isDecimal = rest := by
    cases rest with
    | nil => rfl
    | cons c rest => exact dropWhile_cons_of_neg (by simp [h c rfl])
  rw [leadingNumber, takeWhile_append_of_pos (isDecimal_decimal n), dropWhile_append_of_pos (isDecimal_decimal n),
    htake, hdrop, append_nil, if_neg (decimal_ne_nil n), decimalsValue_decimal]

theorem leadingNumber_some {s rest : Text} {n : ℕ} (h : leadingNumber s = some (n, rest)) :
    ∃ ds, ds ≠ [] ∧ (∀ c ∈ ds, isDecimal c = true) ∧ s = ds ++ rest := by
  unfold leadingNumber at h
  split at h
  · cases h
  next hne =>
    obtain ⟨-, rfl⟩ := Prod.mk.inj (Option.some.inj h)
    exact ⟨s.takeWhile isDecimal, hne, fun c hc => mem_takeWhile_imp hc, takeWhile_append_dropWhile.symm⟩

theorem leadingNumber_none {s : Text} (h : ∀ c ∈ s.head?, isDecimal c = false) : leadingNumber s = none := by
  cases s with
  | nil => rfl
  | cons c s => rw [leadingNumber, takeWhile_cons_of_neg (by simp [h c rfl]), if_pos rfl]

theorem decimal_head?_isDecimal {n c : ℕ} (rest : Text) (h : c ∈ (decimal n ++ rest).head?) : isDecimal c = true := by
  rw [head?_append_of_ne_nil _ (decimal_ne_nil n)] at h
  exact isDecimal_decimal n c (mem_of_mem_head? h)

theorem trimmed_decimal (n : ℕ) : Trimmed (decimal n) :=
  ⟨fun c hc => not_isSpace_of_isDecimal (isDecimal_decimal n c (mem_of_mem_head? hc)),
    fun c hc => not_isSpace_of_isDecimal (isDecimal_decimal n c (mem_of_getLast? hc))⟩

end Numbers

section Joined

variable {sep : Text}
variable {parts : List Text}

theorem joined_cons (s : Text) {rest : List Text} (h : rest ≠ []) : joined sep (s :: rest) = s ++ sep ++ joined sep rest := by
  cases rest with
  | nil => exact absurd rfl h
  | cons t rest => rfl

theorem joined_append (parts : List Text) (h : parts ≠ []) (last : Text) :
    joined sep (parts ++ [last]) = joined sep parts ++ sep ++ last := by
  induction parts with
  | nil => exact absurd rfl h
  | cons s parts ih =>
    by_cases hne : parts = []
    · subst hne
      rfl
    · rw [cons_append, joined_cons s (by simp), ih hne, joined_cons s hne]
      simp

theorem joined_ne_nil (hne : parts ≠ []) (h : ∀ s ∈ parts, s ≠ []) : joined sep parts ≠ [] := by
  cases parts with
  | nil => exact absurd rfl hne
  | cons s parts =>
    by_cases hrest : parts = []
    · subst hrest
      exact h s (by simp)
    · rw [joined_cons s hrest]
      simp [h s (by simp)]

theorem mem_joined {c : ℕ} (h : c ∈ joined sep parts) : c ∈ sep ∨ ∃ s ∈ parts, c ∈ s := by
  induction parts with
  | nil => cases h
  | cons s parts ih =>
    by_cases hne : parts = []
    · subst hne
      exact .inr ⟨s, by simp, h⟩
    · rw [joined_cons s hne, mem_append, mem_append] at h
      obtain (h | h) | h := h
      · exact .inr ⟨s, by simp, h⟩
      · exact .inl h
      · exact (ih h).imp_right fun ⟨t, ht, hc⟩ => ⟨t, mem_cons_of_mem s ht, hc⟩

theorem trimmed_joined (hne : ∀ s ∈ parts, s ≠ []) (h : ∀ s ∈ parts, Trimmed s) : Trimmed (joined sep parts) := by
  induction parts with
  | nil => exact ⟨by simp [joined], by simp [joined]⟩
  | cons s parts ih =>
    by_cases hnil : parts = []
    · subst hnil
      exact h s (by simp)
    · have hrest : ∀ t ∈ parts, t ≠ [] := fun t ht => hne t (mem_cons_of_mem s ht)
      rw [joined_cons s hnil]
      exact (h s (by simp)).append (ih hrest fun t ht => h t (mem_cons_of_mem s ht)) sep (hne s (by simp))
        (joined_ne_nil hnil hrest)

theorem joined_split {a b : Text} {c : ℕ} (h : joined sep parts = a ++ c :: b) (hc : c ∉ sep) :
    ∃ u r s v, r ++ c :: s ∈ parts ∧ a = u ++ r ∧ b = s ++ v ∧ (u = [] ∨ sep <:+ u) ∧ (v = [] ∨ sep <+: v) := by
  induction parts generalizing a with
  | nil => simp [joined] at h
  | cons p parts ih =>
    by_cases hnil : parts = []
    · subst hnil
      exact ⟨[], a, b, [], by rw [← h]; simp [joined], rfl, by simp, .inl rfl, .inl rfl⟩
    · rw [joined_cons p hnil] at h
      rw [append_assoc] at h
      obtain ⟨m, ha, hrest⟩ | ⟨m, hp, hrest⟩ := append_eq_append_iff.mp h
      · -- the character stands behind the first part
        obtain ⟨k, hm, htail⟩ | ⟨k, hsep, htail⟩ := append_eq_append_iff.mp hrest
        · obtain ⟨u, r, s, v, hmem, hk, hb, hu, hv⟩ := ih htail
          refine ⟨p ++ sep ++ u, r, s, v, mem_cons_of_mem p hmem, ?_, hb, .inr ?_, hv⟩
          · rw [ha, hm, hk]
            simp
          · rcases hu with rfl | hu
            · rw [append_nil]
              exact suffix_append p sep
            · exact hu.trans (suffix_append _ _)
        · cases k with
          | nil =>
            rw [append_nil] at hsep
            rw [nil_append] at htail
            obtain ⟨u, r, s, v, hmem, hk, hb, hu, hv⟩ := ih (a := []) htail.symm
            have hu' : u = [] := (append_eq_nil_iff.mp hk.symm).1
            have hr' : r = [] := (append_eq_nil_iff.mp hk.symm).2
            subst hu' hr'
            refine ⟨p ++ sep, [], s, v, mem_cons_of_mem p hmem, ?_, hb, .inr (suffix_append p sep), hv⟩
            rw [ha, hsep]
            simp
          | cons d k =>
            obtain ⟨rfl, -⟩ := cons_eq_cons.mp htail
            exact absurd (by rw [hsep]; simp) hc
      · cases m with
        | nil =>
          rw [append_nil] at hp
          rw [nil_append] at hrest
          cases sep with
          | nil =>
            obtain ⟨u, r, s, v, hmem, hk, hb, hu, hv⟩ := ih (a := []) hrest.symm
            have hu' : u = [] := (append_eq_nil_iff.mp hk.symm).1
            have hr' : r = [] := (append_eq_nil_iff.mp hk.symm).2
            subst hu' hr'
            exact ⟨p, [], s, v, mem_cons_of_mem p hmem, by simp [hp], hb, .inr nil_suffix, hv⟩
          | cons d sep =>
            rw [cons_append] at hrest
            obtain ⟨rfl, -⟩ := cons_eq_cons.mp hrest
            exact absurd (by simp) hc
        | cons d m =>
          rw [cons_append] at hrest
          obtain ⟨rfl, hb⟩ := cons_eq_cons.mp hrest
          exact ⟨[], a, m, sep ++ joined sep parts, by rw [← hp]; simp, rfl, hb, .inl rfl,
            .inr (prefix_append sep _)⟩

end Joined

section Gaps

variable {mark : ℕ} {s : Text}
variable {rest p q : Text} {c fuel : ℕ}

theorem gapAt_some (h : gapAt mark s = some rest) :
    ∃ w x y t, s = w ++ x :: mark :: y :: t ∧ (∀ c ∈ w, isSpace c = true) ∧ isSpace x = true ∧ isSpace y = true ∧
      rest = t.dropWhile isSpace := by
  unfold gapAt at h
  split at h
  · cases h
  next c u hdrop =>
    split at h
    next hgap =>
      obtain ⟨rfl, hx, hy⟩ := hgap
      obtain ⟨y, hys, hysp⟩ := Option.any_eq_true .. |>.mp hy
      obtain ⟨u, rfl⟩ := head?_eq_some_iff.mp hys
      obtain ⟨x, hxs, hxsp⟩ := Option.any_eq_true .. |>.mp hx
      have hrun : s.takeWhile isSpace ≠ [] := by
        obtain ⟨s, rfl⟩ := head?_eq_some_iff.mp hxs
        simp [hxsp]
      refine ⟨(s.takeWhile isSpace).dropLast, (s.takeWhile isSpace).getLast hrun, y, u, ?_,
        fun d hd => mem_takeWhile_imp (dropLast_subset _ hd), mem_takeWhile_imp (getLast_mem hrun), hysp, ?_⟩
      · rw [append_cons, dropLast_append_getLast, ← hdrop, takeWhile_append_dropWhile]
      · rw [dropWhile_cons_of_pos hysp] at h
        exact (Option.some.inj h).symm
    · cases h

theorem gapAt_cons {x y : ℕ} (t : Text) (hmark : isSpace mark = false) (hx : isSpace x = true) (hy : isSpace y = true) :
    gapAt mark (x :: mark :: y :: t) = some (t.dropWhile isSpace) := by
  have hdrop : (x :: mark :: y :: t).dropWhile isSpace = mark :: y :: t := by
    rw [dropWhile_cons_of_pos hx, dropWhile_cons_of_neg (by simp [hmark])]
  rw [gapAt, hdrop]
  simp [hx, hy]

theorem firstGap_here (h : gapAt mark (c :: s) = some rest) : firstGap mark (c :: s) = some ([], rest) := by
  show Option.or _ _ = _
  rw [h]
  rfl

theorem firstGap_later (h : gapAt mark (c :: s) = none) :
    firstGap mark (c :: s) = (firstGap mark s).map fun found => (c :: found.1, found.2) := by
  show Option.or _ _ = _
  rw [h]
  rfl

theorem NoGap.of_infix {t : Text} (h : NoGap mark s) (hts : t <:+: s) : NoGap mark t := by
  obtain ⟨u, v, huv⟩ := hts
  intro a x y b hab hx hy
  refine h (u ++ a) x y (b ++ v) ?_ hx hy
  rw [← huv, hab]
  simp

theorem noGap_of_not_mem (h : mark ∉ s) : NoGap mark s := by
  intro a x y b hab _ _
  exact h (by rw [hab]; simp)

theorem firstGap_none (hmark : isSpace mark = false) (h : firstGap mark s = none) : NoGap mark s := by
  induction s with
  | nil =>
    intro a x y b hab _ _
    simp at hab
  | cons c s ih =>
    cases hgap : gapAt mark (c :: s) with
    | some rest =>
      rw [firstGap_here hgap] at h
      cases h
    | none =>
      rw [firstGap_later hgap] at h
      intro a x y b hab hx hy
      cases a with
      | nil =>
        rw [nil_append] at hab
        rw [hab, gapAt_cons b hmark hx hy] at hgap
        cases hgap
      | cons d a => exact ih (Option.map_eq_none_iff.mp h) a x y b (cons_eq_cons.mp hab).2 hx hy

theorem firstGap_some (hmark : isSpace mark = false) (h : firstGap mark s = some (p, rest)) :
    NoGap mark p ∧ ∃ w x y t, s = p ++ (w ++ x :: mark :: y :: t) ∧ (∀ c ∈ w, isSpace c = true) ∧ isSpace x = true ∧
      isSpace y = true ∧ rest = t.dropWhile isSpace := by
  induction s generalizing p with
  | nil => cases h
  | cons c s ih =>
    cases hgap : gapAt mark (c :: s) with
    | some found =>
      rw [firstGap_here hgap] at h
      cases h
      exact ⟨noGap_of_not_mem (by simp), gapAt_some hgap⟩
    | none =>
      rw [firstGap_later hgap] at h
      obtain ⟨⟨q, r⟩, hfound, heq⟩ := Option.map_eq_some_iff.mp h
      cases heq
      obtain ⟨hfree, w, x, y, t, rfl, hw, hx, hy, hrest⟩ := ih hfound
      refine ⟨?_, w, x, y, t, rfl, hw, hx, hy, hrest⟩
      intro a x' y' b hab hx' hy'
      cases a with
      | nil =>
        rw [nil_append] at hab
        rw [← cons_append, hab, cons_append, cons_append, cons_append,
          gapAt_cons _ hmark hx' hy'] at hgap
        cases hgap
      | cons d a => exact hfree a x' y' b (cons_eq_cons.mp hab).2 hx' hy'

/-- The gap behind a part that ends in a visible character other than the mark does not begin inside the part. -/
theorem gapAt_part (hp : NoGap mark p) {z : ℕ} (hz : p.getLast? = some z) (hspace : isSpace z = false) (hz' : z ≠ mark) :
    gapAt mark (p ++ 32 :: mark :: 32 :: q) = none := by
  by_contra hsome
  obtain ⟨rest, hrest⟩ := Option.ne_none_iff_exists'.mp hsome
  obtain ⟨w, x, y, t, heq, hw, hx, hy, -⟩ := gapAt_some hrest
  have hrun : ∀ d ∈ w ++ [x], isSpace d = true := fun d hd => by
    rcases mem_append.mp hd with hd | hd
    · exact hw d hd
    · rwa [mem_singleton.mp hd]
  have heq : p ++ 32 :: mark :: 32 :: q = (w ++ [x]) ++ mark :: y :: t := by rw [heq, append_cons]
  obtain ⟨k, hk, -⟩ | ⟨k, hk, hmk⟩ := append_eq_append_iff.mp heq
  · have := hrun z (by rw [hk]; exact mem_append_left k (mem_of_getLast? hz))
    rw [hspace] at this
    cases this
  · cases k with
    | nil =>
      have := hrun z (by rw [← append_nil (w ++ [x]), ← hk]; exact mem_of_getLast? hz)
      rw [hspace] at this
      cases this
    | cons d k =>
      obtain ⟨rfl, htail⟩ := cons_eq_cons.mp hmk
      cases k with
      | nil =>
        rw [hk, getLast?_append_of_ne_nil _ (cons_ne_nil _ _)] at hz
        exact hz' (Option.some.inj hz).symm
      | cons e k =>
        obtain ⟨rfl, -⟩ := cons_eq_cons.mp htail
        exact hp w x y k (by rw [hk]; simp) hx hy

/-- A part without a gap that ends in a visible character other than the mark is cut off whole. -/
theorem firstGap_append (hmark : isSpace mark = false) (hp : NoGap mark p)
    (hlast : ∀ c ∈ p.getLast?, isSpace c = false ∧ c ≠ mark) (hq : ∀ c ∈ q.head?, isSpace c = false) :
    firstGap mark (p ++ 32 :: mark :: 32 :: q) = some (p, q) := by
  induction p with
  | nil =>
    have hdrop : q.dropWhile isSpace = q := by
      cases q with
      | nil => rfl
      | cons c q => exact dropWhile_cons_of_neg (by simp [hq c rfl])
    have hgap : gapAt mark (32 :: mark :: 32 :: q) = some q := by
      rw [gapAt_cons q hmark (by decide) (by decide), hdrop]
    exact firstGap_here hgap
  | cons c p ih =>
    have hz := getLast?_eq_some_getLast (cons_ne_nil c p)
    have hnone := gapAt_part (q := q) hp hz (hlast _ hz).1 (hlast _ hz).2
    have hrec : firstGap mark (p ++ 32 :: mark :: 32 :: q) = some (p, q) := by
      refine ih (hp.of_infix ((suffix_cons c p).isInfix)) fun d hd => hlast d ?_
      cases p with
      | nil => cases hd
      | cons e p => simpa using hd
    rw [cons_append] at hnone ⊢
    rw [firstGap_later hnone, hrec]
    rfl

theorem firstGap_noGap (hmark : isSpace mark = false) (h : NoGap mark s) : firstGap mark s = none := by
  by_contra hsome
  obtain ⟨found, hfound⟩ := Option.ne_none_iff_exists'.mp hsome
  obtain ⟨-, w, x, y, t, heq, -, hx, hy, -⟩ := firstGap_some hmark hfound
  exact h (found.1 ++ w) x y t (by rw [heq]; simp) hx hy

theorem splitGapsWith_joined (hmark : isSpace mark = false) {parts : List Text} (hne : parts ≠ [])
    (hfree : ∀ p ∈ parts, NoGap mark p) (htrim : ∀ p ∈ parts, Trimmed p) (hpart : ∀ p ∈ parts, p ≠ [])
    (hlast : ∀ p ∈ parts, ∀ c ∈ p.getLast?, c ≠ mark) (hfuel : (joined [32, mark, 32] parts).length ≤ fuel) :
    splitGapsWith mark fuel (joined [32, mark, 32] parts) = parts := by
  induction parts generalizing fuel with
  | nil => exact absurd rfl hne
  | cons p parts ih =>
    by_cases hnil : parts = []
    · subst hnil
      cases fuel with
      | zero => rfl
      | succ fuel =>
        show splitGapsWith mark (fuel + 1) p = [p]
        rw [splitGapsWith, firstGap_noGap hmark (hfree p (by simp))]
    · have hrest : ∀ q ∈ parts, q ∈ p :: parts := fun q hq => mem_cons_of_mem p hq
      have hjoin : joined [32, mark, 32] (p :: parts) = p ++ 32 :: mark :: 32 :: joined [32, mark, 32] parts := by
        rw [joined_cons p hnil]
        simp
      rw [hjoin] at hfuel ⊢
      cases fuel with
      | zero => simp at hfuel
      | succ fuel =>
        have hfirst := firstGap_append (q := joined [32, mark, 32] parts) hmark (hfree p (by simp))
          (fun c hc => ⟨(htrim p (by simp)).last c hc, hlast p (by simp) c hc⟩)
          (trimmed_joined (fun q hq => hpart q (hrest q hq)) fun q hq => htrim q (hrest q hq)).head
        rw [splitGapsWith, hfirst]
        refine congrArg (p :: ·) (ih hnil (fun q hq => hfree q (hrest q hq)) (fun q hq => htrim q (hrest q hq))
          (fun q hq => hpart q (hrest q hq)) (fun q hq => hlast q (hrest q hq)) ?_)
        simp only [length_append, length_cons] at hfuel
        omega

theorem splitGaps_joined (hmark : isSpace mark = false) {parts : List Text} (hne : parts ≠ [])
    (hfree : ∀ p ∈ parts, NoGap mark p) (htrim : ∀ p ∈ parts, Trimmed p) (hpart : ∀ p ∈ parts, p ≠ [])
    (hlast : ∀ p ∈ parts, ∀ c ∈ p.getLast?, c ≠ mark) :
    splitGaps mark (joined [32, mark, 32] parts) = parts :=
  splitGapsWith_joined hmark hne hfree htrim hpart hlast le_rfl

theorem splitGapsWith_ne_nil (fuel : ℕ) (s : Text) : splitGapsWith mark fuel s ≠ [] := by
  cases fuel with
  | zero => simp [splitGapsWith]
  | succ fuel =>
    rw [splitGapsWith]
    split <;> simp

theorem splitGapsWith_parts (mark : ℕ) (hmark : isSpace mark = false) (hfuel : s.length ≤ fuel) :
    (∀ p ∈ splitGapsWith mark fuel s, NoGap mark p) ∧
      ∀ p ∈ (splitGapsWith mark fuel s).dropLast, ∃ a w x y t, s = a ++ p ++ (w ++ x :: mark :: y :: t) ∧
        (∀ c ∈ w, isSpace c = true) ∧ isSpace x = true ∧ isSpace y = true := by
  induction fuel generalizing s with
  | zero =>
    have hnil : s = [] := eq_nil_of_length_eq_zero (by omega)
    subst hnil
    refine ⟨?_, by simp [splitGapsWith]⟩
    intro p hp
    rw [splitGapsWith, mem_singleton] at hp
    subst hp
    exact noGap_of_not_mem (by simp)
  | succ fuel ih =>
    unfold splitGapsWith
    split
    next hnone =>
      refine ⟨?_, by simp⟩
      intro p hp
      rw [mem_singleton.mp hp]
      exact firstGap_none hmark hnone
    next found hfound =>
      obtain ⟨hfree, w, x, y, t, heq, hw, hx, hy, hrest⟩ := firstGap_some hmark hfound
      have hlen : found.2.length ≤ fuel := by
        have := (dropWhile_sublist isSpace (l := t)).length_le
        rw [hrest]
        rw [heq] at hfuel
        simp only [length_append, length_cons] at hfuel
        omega
      obtain ⟨hparts, htail⟩ := ih hlen
      refine ⟨?_, ?_⟩
      · intro p hp
        rcases mem_cons.mp hp with rfl | hp
        · exact hfree
        · exact hparts p hp
      · intro p hp
        rw [dropLast_cons_of_ne_nil (splitGapsWith_ne_nil fuel _)] at hp
        rcases mem_cons.mp hp with rfl | hp
        · exact ⟨[], w, x, y, t, by simpa using heq, hw, hx, hy⟩
        · obtain ⟨a, w', x', y', t', htext, hw', hx', hy'⟩ := htail p hp
          refine ⟨found.1 ++ (w ++ x :: mark :: y :: t.takeWhile isSpace) ++ a, w', x', y', t', ?_, hw', hx', hy'⟩
          have hsplit : t = t.takeWhile isSpace ++ found.2 := by rw [hrest, takeWhile_append_dropWhile]
          rw [heq]
          conv_lhs => rw [hsplit, htext]
          simp

theorem splitGapsWith_within (mark : ℕ) (hmark : isSpace mark = false) (fuel : ℕ) (h : p ∈ splitGapsWith mark fuel s) :
    p <:+: s := by
  induction fuel generalizing s with
  | zero => exact mem_singleton.mp h ▸ infix_refl p
  | succ fuel ih =>
    unfold splitGapsWith at h
    split at h
    next => exact mem_singleton.mp h ▸ infix_refl p
    next found hfound =>
      obtain ⟨-, w, x, y, t, heq, -, -, -, hrest⟩ := firstGap_some hmark hfound
      rcases mem_cons.mp h with rfl | h
      · exact ⟨[], w ++ x :: mark :: y :: t, by simp [heq]⟩
      · have htail : t <:+: s := ⟨found.1 ++ (w ++ [x, mark, y]), [], by simp [heq]⟩
        exact (ih h).trans (hrest ▸ (dropWhile_suffix isSpace).isInfix.trans htail)

end Gaps

section Cut

variable {p s : Text}

theorem cutOnce_absent (h : ¬ p <:+: s) : cutOnce p s = s := by
  induction s with
  | nil => rfl
  | cons c s ih =>
    have hhead : p.isPrefixOf (c :: s) = false := by
      rw [Bool.eq_false_iff]
      exact fun hp => h (List.isPrefixOf_iff_prefix.mp hp).isInfix
    rw [cutOnce, hhead, if_neg (by simp), ih fun htail => h (htail.trans (suffix_cons c s).isInfix)]

end Cut

end Py
