import Mathlib.Tactic

/-!
A stock is given out among demands that stand in a row: first to the ones that hold a claim, then
to the others in their order while it lasts. Only the claims of the late demands matter.
-/
namespace Rationing

section Rank
variable {ι : Type*} [LinearOrder ι]

/-- How many of `W` stand before `i`. -/
def rank (W : Finset ι) (i : ι) : ℕ := (W.filter (· < i)).card

theorem rank_mono (W : Finset ι) {i j : ι} (h : i ≤ j) : rank W i ≤ rank W j := by
  apply Finset.card_le_card
  intro k hk
  rw [Finset.mem_filter] at hk ⊢
  exact ⟨hk.1, lt_of_lt_of_le hk.2 h⟩

theorem rank_insert_before {W : Finset ι} {a i : ι} (h : i ≤ a) : rank (insert a W) i = rank W i := by
  rw [rank, Finset.filter_insert, if_neg (not_lt.mpr h)]
  rfl

theorem rank_of_max {W : Finset ι} {a : ι} (h : ∀ x ∈ W, x < a) : rank W a = W.card :=
  congrArg Finset.card (Finset.filter_true_of_mem h)

theorem rank_succ (W : Finset ℕ) (i : ℕ) : rank W (i + 1) = rank W i + if i ∈ W then 1 else 0 := by
  have hstep : W.filter (· < i + 1) = W.filter (· < i) ∪ W.filter (· = i) := by
    ext j
    simp only [Finset.mem_filter, Finset.mem_union, ← and_or_left, Nat.lt_succ_iff_lt_or_eq]
  have hdisjoint : Disjoint (W.filter (· < i)) (W.filter (· = i)) := by
    apply Finset.disjoint_filter.mpr
    intro j _ hlt heq
    exact hlt.ne heq
  have hself : (W.filter (· = i)).card = if i ∈ W then 1 else 0 := by
    rw [Finset.filter_eq' W i]
    split <;> simp
  rw [rank, hstep, Finset.card_union_of_disjoint hdisjoint, hself]
  rfl

/-- The first `m` of `W`. -/
def first (W : Finset ι) (m : ℕ) : Finset ι := W.filter fun i => rank W i < m

theorem first_subset (W : Finset ι) (m : ℕ) : first W m ⊆ W := Finset.filter_subset _ _

theorem card_first (W : Finset ι) (m : ℕ) : (first W m).card = min W.card m := by
  induction W using Finset.induction_on_max with
  | empty => simp [first]
  | insert a W hmax ih =>
    have hnew : a ∉ W := fun ha => lt_irrefl a (hmax a ha)
    have hold : (W.filter fun i => rank (insert a W) i < m) = first W m := by
      apply Finset.filter_congr
      intro i hi
      rw [rank_insert_before (hmax i hi).le]
    have hlast : rank (insert a W) a = W.card := by rw [rank_insert_before le_rfl, rank_of_max hmax]
    rw [first, Finset.filter_insert, hold, hlast, Finset.card_insert_of_notMem hnew]
    split
    · rw [Finset.card_insert_of_notMem (fun ha => hnew (first_subset W m ha)), ih]
      omega
    · rw [ih]
      omega

end Rank

section Served
variable {ι : Type*} [LinearOrder ι]

/-- The demands `V` that a stock of `n` serves when the ones of `X` hold a claim. -/
def served (V X : Finset ι) (n : ℕ) : Finset ι := X ∪ first (V \ X) (n - X.card)

variable {V X Y : Finset ι} {n : ℕ}

theorem mem_served {i : ι} : i ∈ served V X n ↔ i ∈ X ∨ i ∈ V ∧ i ∉ X ∧ rank (V \ X) i < n - X.card := by
  simp [served, first, and_assoc]

theorem served_subset (hX : X ⊆ V) : served V X n ⊆ V :=
  Finset.union_subset hX ((first_subset _ _).trans Finset.sdiff_subset)

theorem card_served (hX : X ⊆ V) (hn : X.card ≤ n) : (served V X n).card = min V.card n := by
  have hdisjoint : Disjoint X (first (V \ X) (n - X.card)) :=
    Finset.disjoint_sdiff.mono_right (first_subset _ _)
  rw [served, Finset.card_union_of_disjoint hdisjoint, card_first, Finset.card_sdiff_of_subset hX]
  have hcard := Finset.card_le_card hX
  omega

/-- The demands before `p` and the claims from `p` on. -/
def upTo (V X : Finset ι) (p : ι) : Finset ι := V.filter fun i => i < p ∨ i ∈ X

theorem served_eq_upTo (hX : X ⊆ V) (hn : X.card ≤ n) {p : ι} (hp : (upTo V X p).card = min V.card n) :
    served V X n = upTo V X p := by
  symm
  apply Finset.eq_of_subset_of_card_le
  · intro i hi
    obtain ⟨hV, hcase⟩ := Finset.mem_filter.mp hi
    rw [mem_served]
    by_cases hiX : i ∈ X
    · exact .inl hiX
    have hlt : i < p := hcase.resolve_right hiX
    -- the demands up to `i` without a claim, and all claims, are among the ones before `p`
    have hsub : insert i ((V \ X).filter (· < i)) ∪ X ⊆ upTo V X p := by
      intro j hj
      simp only [Finset.mem_union, Finset.mem_insert, Finset.mem_filter, Finset.mem_sdiff] at hj
      rw [upTo, Finset.mem_filter]
      rcases hj with (rfl | ⟨⟨hjV, -⟩, hji⟩) | hjX
      · exact ⟨hV, .inl hlt⟩
      · exact ⟨hjV, .inl (hji.trans hlt)⟩
      · exact ⟨hX hjX, .inr hjX⟩
    have hdisjoint : Disjoint (insert i ((V \ X).filter (· < i))) X := by
      rw [Finset.disjoint_left]
      intro j hj hjX
      rcases Finset.mem_insert.mp hj with rfl | hj
      · exact hiX hjX
      · exact (Finset.mem_sdiff.mp (Finset.mem_filter.mp hj).1).2 hjX
    have hcard := Finset.card_le_card hsub
    rw [Finset.card_union_of_disjoint hdisjoint, Finset.card_insert_of_notMem (by simp), hp] at hcard
    refine .inr ⟨hV, hiX, ?_⟩
    change ((V \ X).filter (· < i)).card < n - X.card
    omega
  · rw [card_served hX hn, hp]

theorem served_of_missed {p : ι} (hX : X ⊆ V) (hp : p ∈ V) (hmiss : p ∉ served V X n)
    (hfirst : ∀ i ∈ V, i < p → i ∈ served V X n) : served V X n = upTo V X p := by
  ext i
  rw [upTo, Finset.mem_filter]
  refine ⟨fun hi => ⟨served_subset hX hi, ?_⟩, fun ⟨hV, hcase⟩ => ?_⟩
  · rcases mem_served.mp hi with hiX | ⟨-, -, hlt⟩
    · exact .inr hiX
    · refine .inl (lt_of_not_ge fun hge => hmiss (mem_served.mpr (.inr ⟨hp, fun hpX => ?_, ?_⟩)))
      · exact hmiss (mem_served.mpr (.inl hpX))
      · exact (rank_mono _ hge).trans_lt hlt
  · rcases hcase with hlt | hiX
    · exact hfirst i hV hlt
    · exact mem_served.mpr (.inl hiX)

end Served

section Places

variable {V X Y : Finset ℕ} {n : ℕ}

theorem exists_upTo (hX : X ⊆ V) :
    ∃ p, served V X n = upTo V X p ∧ ∀ i ∈ V, p ≤ i → p ∈ V ∧ p ∉ served V X n := by
  by_cases hall : V ⊆ served V X n
  · have hlast : ∀ i ∈ V, i < V.sup id + 1 := fun i hi => Nat.lt_succ_of_le (Finset.le_sup (f := id) hi)
    refine ⟨V.sup id + 1, ?_, fun i hi hle => absurd (hlast i hi) (not_lt.mpr hle)⟩
    ext i
    rw [upTo, Finset.mem_filter]
    exact ⟨fun hi => ⟨served_subset hX hi, .inl (hlast i (served_subset hX hi))⟩, fun hi => hall hi.1⟩
  · have hex : ∃ p, p ∈ V ∧ p ∉ served V X n := Finset.not_subset.mp hall
    have hfound := Nat.find_spec hex
    refine ⟨Nat.find hex, served_of_missed hX hfound.1 hfound.2 fun i hi hlt => ?_, fun _ _ _ => hfound⟩
    by_contra hno
    exact Nat.find_min hex hlt ⟨hi, hno⟩

theorem served_eq_iff (hX : X ⊆ V) (hY : Y ⊆ V) (hXn : X.card ≤ n) (hYn : Y.card ≤ n) :
    served V X n = served V Y n ↔
      ∃ p, (∀ i ∈ V, p ≤ i → (i ∈ X ↔ i ∈ Y)) ∧ (upTo V X p).card = min V.card n := by
  constructor
  · intro heq
    obtain ⟨p, hserved, hmiss⟩ := exists_upTo (n := n) hX
    refine ⟨p, fun i hi hpi => ?_, by rw [← hserved, card_served hX hXn]⟩
    have hpast : ∀ Z : Finset ℕ, i ∈ upTo V Z p ↔ i ∈ Z := by
      intro Z
      rw [upTo, Finset.mem_filter]
      exact ⟨fun h => h.2.resolve_left (not_lt.mpr hpi), fun h => ⟨hi, .inr h⟩⟩
    -- the place that goes empty under the one set goes empty under the other, so both end there
    have hother : served V Y n = upTo V Y p := by
      apply served_of_missed hY (hmiss i hi hpi).1
      · rw [← heq]
        exact (hmiss i hi hpi).2
      · intro j hj hlt
        rw [← heq, hserved, upTo, Finset.mem_filter]
        exact ⟨hj, .inl hlt⟩
    rw [← hpast X, ← hpast Y, ← hserved, ← hother, heq]
  · rintro ⟨p, hagree, hcard⟩
    have hsame : upTo V X p = upTo V Y p := by
      apply Finset.filter_congr
      intro i hi
      rcases lt_or_ge i p with hlt | hge
      · exact ⟨fun _ => .inl hlt, fun _ => .inl hlt⟩
      · rw [hagree i hi hge]
    rw [served_eq_upTo hX hXn hcard, served_eq_upTo hY hYn (hsame ▸ hcard), hsame]

end Places

section Row

theorem foldl_places {σ α : Type*} (f : σ → α → σ) (xs : List α) (P : ℕ → σ → Prop) {s : σ} (h0 : P 0 s)
    (hstep : ∀ (i : ℕ) (hi : i < xs.length) (t : σ), P i t → P (i + 1) (f t xs[i])) : P xs.length (xs.foldl f s) := by
  induction xs generalizing P s with
  | nil => exact h0
  | cons x xs ih =>
    apply ih (fun i => P (i + 1)) (hstep 0 (Nat.zero_lt_succ _) s h0)
    intro i hi t ht
    exact hstep (i + 1) (Nat.succ_lt_succ hi) t ht

theorem card_places {α κ : Type*} [DecidableEq κ] [BEq κ] [LawfulBEq κ] (key : α → κ) (xs : List α) (d : α) (v : κ) :
    ((Finset.range xs.length).filter fun i => key (xs.getD i d) = v).card = (xs.map key).count v := by
  have hmap : xs.map key = (List.range xs.length).map fun i => key (xs.getD i d) := by
    apply List.ext_getElem
    · simp
    · intro i hi _
      have hlt : i < xs.length := by simpa using hi
      simp [hlt]
  rw [hmap, List.count, List.countP_map, List.countP_eq_length_filter]
  change ((List.range xs.length).filter _).length = _
  congr 1
  apply List.filter_congr
  intro i _
  simp [beq_eq_decide]

end Row

end Rationing
