import Mathlib.Data.List.GetD
import Mathlib.Data.List.Sort

/-!
Lists without repeats and lists in the order of a ranking.
-/
namespace Ranking
open List

section Distinct

variable {α : Type*} [BEq α] [LawfulBEq α] {x : α} {l front back : List α}

theorem nodup_eraseDups (l : List α) : l.eraseDups.Nodup := by
  induction hn : l.length using Nat.strongRecOn generalizing l with
  | _ n ih =>
    cases l with
    | nil => simp
    | cons x l =>
      rw [eraseDups_cons, nodup_cons]
      refine ⟨fun hmem => ?_, ih _ ?_ _ rfl⟩
      · simpa using mem_filter.mp (mem_eraseDups.mp hmem)
      · rw [← hn, length_cons]
        exact Nat.lt_succ_of_le (length_filter_le _ _)

theorem eraseDups_of_nodup (h : l.Nodup) : l.eraseDups = l := by
  induction l with
  | nil => simp
  | cons x l ih =>
    obtain ⟨hx, hl⟩ := nodup_cons.mp h
    have hkeep : (l.filter fun b => !b == x) = l := by
      rw [filter_eq_self]
      intro y hy
      simpa using fun hyx : y = x => hx (hyx ▸ hy)
    rw [eraseDups_cons, hkeep, ih hl]

theorem filter_eraseDups (p : α → Bool) (l : List α) : l.eraseDups.filter p = (l.filter p).eraseDups := by
  induction hn : l.length using Nat.strongRecOn generalizing l with
  | _ n ih =>
    cases l with
    | nil => simp
    | cons x l =>
      have hrest := ih _ (by
        rw [← hn, length_cons]
        exact Nat.lt_succ_of_le (length_filter_le (fun b => !b == x) l)) (l.filter fun b => !b == x) rfl
      have hcomm : (l.filter fun b => !b == x).filter p = (l.filter p).filter fun b => !b == x := by
        simp only [filter_filter, Bool.and_comm]
      cases hx : p x with
      | true =>
        rw [eraseDups_cons, filter_cons_of_pos hx, filter_cons_of_pos hx, eraseDups_cons, hrest,
          hcomm]
      | false =>
        have hfree : ((l.filter p).filter fun b => !b == x) = l.filter p := by
          rw [filter_eq_self]
          intro y hy
          have hpy := (mem_filter.mp hy).2
          simpa using fun hyx : y = x => by simp [hyx, hx] at hpy
        rw [eraseDups_cons, filter_cons_of_neg (by simp [hx]), filter_cons_of_neg (by simp [hx]), hrest,
          hcomm, hfree]

theorem eraseDups_repeated (h : x ∈ front) : (front ++ x :: back).eraseDups = (front ++ back).eraseDups := by
  have hdiff : (x :: back).removeAll front = back.removeAll front := by
    simp [List.removeAll, h]
  rw [eraseDups_append, eraseDups_append, hdiff]

end Distinct

section Sorted

variable {α : Type*} {r : α → α → Prop} [DecidableRel r] {l : List α}

theorem stable (p : α → Bool) (hp : ∀ a b, p a = true → p b = true → r a b) :
    (l.insertionSort r).filter p = l.filter p := by
  have hkind : (l.filter p).Pairwise r := pairwise_of_forall_mem_list fun a ha b hb =>
    hp a b (mem_filter.mp ha).2 (mem_filter.mp hb).2
  have hsub := (sublist_insertionSort hkind filter_sublist).filter p
  rw [filter_filter] at hsub
  simp only [Bool.and_self] at hsub
  exact (hsub.eq_of_length_le ((perm_insertionSort r l).filter p).length_eq.le).symm

variable [Std.Total r] [IsTrans α r]

theorem head_ranks {first : α} (h : (l.insertionSort r).head? = some first) : ∀ a ∈ l, r first a := by
  obtain ⟨rest, hrest⟩ := List.head?_eq_some_iff.mp h
  have hsorted := pairwise_insertionSort r l
  rw [hrest, pairwise_cons] at hsorted
  intro a ha
  have hmem : a ∈ first :: rest := hrest ▸ (mem_insertionSort r).mpr ha
  rcases mem_cons.mp hmem with rfl | hmem
  · exact (Std.Total.total a a).elim id id
  · exact hsorted.1 a hmem

theorem maximal_iff {first : α} (h : (l.insertionSort r).head? = some first) {a : α} :
    (∀ b ∈ l, r a b) ↔ r a first := by
  have hmem : first ∈ l := (mem_insertionSort r).mp (mem_of_head? h)
  exact ⟨fun hall => hall first hmem, fun ha b hb => IsTrans.trans a first b ha (head_ranks h b hb)⟩

end Sorted

section Groups

variable {κ α : Type*} [LinearOrder κ]

def groupby : List (κ × α) → List (κ × List α)
  | [] => []
  | (k, a) :: rest =>
    match groupby rest with
    | [] => [(k, [a])]
    | (k', as) :: groups => if k = k' then (k, a :: as) :: groups else (k, [a]) :: (k', as) :: groups

theorem groupby_head (p : κ × α) (rest : List (κ × α)) : ∃ as groups, groupby (p :: rest) = (p.1, as) :: groups := by
  obtain ⟨k, a⟩ := p
  rw [groupby]
  split
  · exact ⟨[a], [], rfl⟩
  · next k' as groups _ =>
      split
      · exact ⟨a :: as, groups, rfl⟩
      · exact ⟨[a], (k', as) :: groups, rfl⟩

theorem groupby_sorted {l : List (κ × α)} (hsorted : l.Pairwise fun p q => p.1 ≤ q.1) (k : κ) :
    (groupby l).filter (fun g => g.1 = k) =
      if (l.filter fun p => p.1 = k) = [] then [] else [(k, (l.filter fun p => p.1 = k).map Prod.snd)] := by
  induction l with
  | nil => rfl
  | cons p rest ih =>
    obtain ⟨k₀, a⟩ := p
    obtain ⟨hfirst, hrest⟩ := pairwise_cons.mp hsorted
    have hold := ih hrest
    cases rest with
    | nil =>
      by_cases hk : k₀ = k <;> simp [groupby, hk]
    | cons q rest =>
      obtain ⟨as, groups, hgroups⟩ := groupby_head q rest
      rw [hgroups] at hold
      have hcons : groupby ((k₀, a) :: q :: rest) =
          if k₀ = q.1 then (k₀, a :: as) :: groups else (k₀, [a]) :: (q.1, as) :: groups := by
        rw [groupby, hgroups]
      rw [hcons]
      by_cases hk : k₀ = k
      · subst hk
        by_cases hq : k₀ = q.1
        · have hmem : (q :: rest).filter (fun p => p.1 = k₀) ≠ [] := by
            simp [← hq]
          rw [if_neg hmem, filter_cons_of_pos (by simpa using hq.symm)] at hold
          obtain ⟨hgroup, hnone⟩ := List.cons.inj hold
          have hrun : as = ((q :: rest).filter fun p => p.1 = k₀).map Prod.snd := (Prod.ext_iff.mp hgroup).2
          rw [if_pos hq, filter_cons_of_pos (by simp), hnone, filter_cons_of_pos (by simp), if_neg (cons_ne_nil _ _),
            map_cons, ← hrun]
        · -- The key is below the one of the next run, so no later entry has it.
          have hbelow : ∀ r ∈ q :: rest, k₀ < r.1 := by
            have hnext : k₀ < q.1 := lt_of_le_of_ne (hfirst q mem_cons_self) hq
            intro r hr
            rcases mem_cons.mp hr with rfl | hlater
            · exact hnext
            · exact hnext.trans_le ((pairwise_cons.mp hrest).1 r hlater)
          have hnone : (q :: rest).filter (fun p => p.1 = k₀) = [] := by
            rw [filter_eq_nil_iff]
            intro r hr hkey
            exact (hbelow r hr).ne' (of_decide_eq_true hkey)
          rw [if_pos hnone] at hold
          rw [if_neg hq, filter_cons_of_pos (by simp), hold, filter_cons_of_pos (by simp), hnone,
            if_neg (cons_ne_nil _ _)]
          rfl
      · rw [filter_cons_of_neg (by simpa using hk)]
        by_cases hq : k₀ = q.1
        · rw [← hold, if_pos hq, filter_cons_of_neg (by simpa using hk), filter_cons_of_neg (by simpa [← hq] using hk)]
        · rw [if_neg hq, filter_cons_of_neg (by simpa using hk), hold]

end Groups

section Places

variable {α κ : Type*} [LinearOrder κ] {votes : α → κ} {l : List α} {n : ℕ} {a first : α}

theorem le_of_mem_take (hs : l.Pairwise fun a b => votes b ≤ votes a) (hn : n < l.length) (h : a ∈ l.take (n + 1)) :
    votes (l.getD n first) ≤ votes a := by
  rw [getD_eq_getElem _ _ hn]
  rw [take_succ_eq_append_getElem hn, mem_append, mem_singleton] at h
  rcases h with hbefore | rfl
  · obtain ⟨i, hi, rfl⟩ := mem_iff_getElem.mp hbefore
    rw [length_take] at hi
    rw [getElem_take]
    exact pairwise_iff_getElem.mp hs i n _ hn (by omega)
  · exact le_refl _

theorem le_of_mem_drop (hs : l.Pairwise fun a b => votes b ≤ votes a) (h : a ∈ l.drop n) :
    votes a ≤ votes (l.getD n first) := by
  obtain ⟨i, hi, rfl⟩ := mem_iff_getElem.mp h
  rw [length_drop] at hi
  rw [getElem_drop, getD_eq_getElem _ _ (show n < l.length by omega)]
  rcases Nat.eq_zero_or_pos i with rfl | hpos
  · exact le_refl _
  · exact pairwise_iff_getElem.mp hs n (n + i) _ _ (by omega)

theorem getD_succ_le (hs : l.Pairwise fun a b => votes b ≤ votes a) (hn : n + 1 < l.length) (first : α) :
    votes (l.getD (n + 1) first) ≤ votes (l.getD n first) := by
  rw [getD_eq_getElem _ _ hn, getD_eq_getElem _ _ (Nat.lt_of_succ_lt hn)]
  exact pairwise_iff_getElem.mp hs n (n + 1) _ _ (Nat.lt_succ_self n)

theorem lt_of_step {b : α} (hs : l.Pairwise fun a b => votes b ≤ votes a) (hn : n < l.length)
    (hstep : votes (l.getD (n + 1) first) < votes (l.getD n first)) (ha : a ∈ l.take (n + 1)) (hb : b ∈ l.drop (n + 1)) :
    votes b < votes a :=
  (le_of_mem_drop hs hb).trans_lt (hstep.trans_le (le_of_mem_take hs hn ha))

theorem length_above_le (hs : l.Pairwise fun a b => votes b ≤ votes a) (n : ℕ) (first : α) :
    (l.filter fun a => votes (l.getD n first) < votes a).length ≤ n := by
  have hbehind : (l.drop n).filter (fun a => votes (l.getD n first) < votes a) = [] := by
    rw [filter_eq_nil_iff]
    intro a ha
    simpa using le_of_mem_drop hs ha
  have hsplit : l.filter (fun a => votes (l.getD n first) < votes a) =
      (l.take n).filter fun a => votes (l.getD n first) < votes a := by
    conv_lhs => rw [← take_append_drop n l, filter_append]
    rw [take_append_drop, hbehind, append_nil]
  rw [hsplit]
  exact (length_filter_le _ _).trans (length_take_le n l)

end Places

end Ranking
