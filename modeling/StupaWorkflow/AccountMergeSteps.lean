import Mathlib.Algebra.Group.Pi.Lemmas
import StupaWorkflow.AccountMergeModel

/-!
What each step of an account merge writes and counts. A combine counts the same in the preview as
in the merge, and so does a list of rewrites of different columns.
-/
namespace AccountMerge
open Py Columns List

section Tallies

theorem tally_add (a : Area) (k : Count) (m n : ℕ) : tally a k (m + n) = tally a k m + tally a k n := by
  rw [tally, tally, tally, Pi.single_add, Pi.single_add]

@[simp] theorem tally_zero (a : Area) (k : Count) : tally a k 0 = 0 := by
  rw [tally, Pi.single_zero, Pi.single_zero]

theorem tally_eq_zero {a : Area} {k : Count} {n : ℕ} : tally a k n = 0 ↔ n = 0 := by
  constructor
  · intro h
    have hn := congrFun (congrFun h a) k
    simpa [tally] using hn
  · rintro rfl
    exact tally_zero a k

theorem out_inj {t t' : Tally} : t.out = t'.out ↔ t = t' := by
  constructor
  · intro h
    have hall := map_inj_left.mp h
    funext a k
    have harea := hall a (by cases a <;> decide)
    simp only [AreaOut.mk.injEq, true_and] at harea
    cases k with
    | rewritten => exact harea.1
    | combined => exact harea.2.1
    | removed => exact harea.2.2
  · exact fun h => h ▸ rfl

theorem sum_eq_zero {s t : Tally} : s + t = 0 ↔ s = 0 ∧ t = 0 := by
  constructor
  · intro h
    have hpoint : ∀ a k, s a k = 0 ∧ t a k = 0 := fun a k => Nat.add_eq_zero_iff.mp (congrFun (congrFun h a) k)
    exact ⟨funext fun a => funext fun k => (hpoint a k).1, funext fun a => funext fun k => (hpoint a k).2⟩
  · rintro ⟨rfl, rfl⟩
    rfl

end Tallies

section Sequences

variable {d : Db} {source target : Row}
variable {xs : List (Area × Column)}

@[simp] theorem inOrder_nil : inOrder [] d = (d, 0) := rfl

@[simp] theorem inOrder_cons (s : Step) (rest : List Step) :
    inOrder (s :: rest) d = ((inOrder rest (s d).1).1, (s d).2 + (inOrder rest (s d).1).2) := rfl

theorem inOrder_append (xs ys : List Step) :
    inOrder (xs ++ ys) d = ((inOrder ys (inOrder xs d).1).1, (inOrder xs d).2 + (inOrder ys (inOrder xs d).1).2) := by
  induction xs generalizing d with
  | nil => simp
  | cons s xs ih => simp only [cons_append, inOrder_cons, ih, add_assoc]

def rewrites (old : Value) (xs : List (Area × Column)) (d : Db) : Tally :=
  (xs.map fun x => tally x.1 .rewritten (count d x.2.table (x.2.holds old))).sum

theorem rewrites_congr {old : Value} {d' : Db}
    (h : ∀ x ∈ xs, count d x.2.table (x.2.holds old) = count d' x.2.table (x.2.holds old)) :
    rewrites old xs d = rewrites old xs d' := by
  rw [rewrites, rewrites, map_congr_left fun x hx => congrArg (tally x.1 .rewritten) (h x hx)]

theorem rewrites_add {old : Value} {d' : Db} (extra : Column → ℕ)
    (h : ∀ x ∈ xs, count d x.2.table (x.2.holds old) = count d' x.2.table (x.2.holds old) + extra x.2) :
    rewrites old xs d = rewrites old xs d' + (xs.map fun x => tally x.1 .rewritten (extra x.2)).sum := by
  rw [rewrites, rewrites, ← sum_map_add]
  refine congrArg List.sum (map_congr_left fun x hx => ?_)
  rw [h x hx, tally_add]

theorem rewrite_count (old new : Value) (xs : List (Area × Column)) :
    inOrder (xs.map fun x => rewriteColumn x.1 x.2 old new false) d = (d, rewrites old xs d) := by
  induction xs with
  | nil => rfl
  | cons x xs ih =>
    rw [map_cons, inOrder_cons]
    simp only [rewriteColumn, Bool.false_eq_true, if_false] at ih ⊢
    rw [ih, rewrites, rewrites, map_cons, sum_cons]

theorem rewrite_apply (old new : Value) (h : (xs.map Prod.snd).Nodup) :
    inOrder (xs.map fun x => rewriteColumn x.1 x.2 old new true) d =
      (rewriteAll old new (xs.map Prod.snd) d, rewrites old xs d) := by
  induction xs generalizing d with
  | nil => rfl
  | cons x xs ih =>
    obtain ⟨hx, hxs⟩ := nodup_cons.mp h
    rw [map_cons, inOrder_cons, ih hxs]
    have hrest : rewrites old xs (rewriteColumn x.1 x.2 old new true d).1 = rewrites old xs d := by
      refine rewrites_congr fun y hy => ?_
      have hother : y.2 ∉ [x.2] := fun hmem => hx (mem_singleton.mp hmem ▸ mem_map_of_mem hy)
      exact count_rewriteAll hother
    rw [hrest]
    rfl

end Sequences

section Combine

variable {area : Area} {c : Column} {old new : Value} {duplicate : Db → Row → Bool} {extra : Row → Row} {apply : Bool}
  {d d' : Db}

def combined (area : Area) (c : Column) (old : Value) (duplicate : Db → Row → Bool) (d : Db) : Tally :=
  tally area .rewritten (count d c.table fun r => c.holds old r && !duplicate d r) +
    tally area .combined (count d c.table fun r => c.holds old r && duplicate d r)

theorem combine_tally : (combine area c old new duplicate extra apply d).2 = combined area c old duplicate d := by
  have hrest : (fun r => c.holds old r && (c.holds old r && duplicate d r)) =
      fun r => c.holds old r && duplicate d r := by
    funext r
    rw [← Bool.and_assoc, Bool.and_self]
  have hsplit := count_delete (d := d) (t := c.table) (p := fun r => c.holds old r && duplicate d r) (c.holds old)
  rw [hrest] at hsplit
  have hleft : count (delete d c.table fun r => c.holds old r && duplicate d r) c.table (c.holds old) =
      count d c.table fun r => c.holds old r && !duplicate d r := by
    refine count_filter delete_self fun r _ => ?_
    cases c.holds old r <;> cases duplicate d r <;> rfl
  cases apply with
  | false =>
    rw [combined, ← hleft, combine, if_neg Bool.false_ne_true]
    simp only [hsplit, Nat.add_sub_cancel]
  | true => rw [combined, ← hleft, combine, if_pos rfl]

theorem combine_count : (combine area c old new duplicate extra false d).1 = d := rfl

theorem combine_other {t : Table} (h : t ≠ c.table) : (combine area c old new duplicate extra apply d).1 t = d t := by
  cases apply with
  | false => rfl
  | true =>
    rw [combine, if_pos rfl]
    exact (change_other h).trans (delete_other h)

theorem combine_rows (area : Area) : (combine area c old new duplicate extra true d).1 c.table =
    ((d c.table).filter fun r => !(c.holds old r && duplicate d r)).map fun r =>
      if c.holds old r then c.set new (extra r) else r := by
  rw [combine, if_pos rfl]
  exact change_self.trans (congrArg _ delete_self)

theorem combined_congr (hrows : d c.table = d' c.table) (hdup : duplicate d = duplicate d') :
    combined area c old duplicate d = combined area c old duplicate d' := by
  rw [combined, combined, count_congr hrows, count_congr hrows, hdup]

theorem dropSelfEntries_other {t : Table} (h : t ≠ .delegationSubstitute) :
    (dropSelfEntries old new apply d).1 t = d t := by
  cases apply with
  | false => rfl
  | true => exact delete_other h

end Combine

section Plain

variable {d d' : Db} {source target : Row} {t : Table}

def combinedTableList : List Table :=
  [.notificationPreference, .meetingAttendance, .delegationSubstitute, .todoAssignee, .ticketSenderBlock]

theorem combinedTables_other (h : t ∉ combinedTableList) : (combinedTables source target true d).1 t = d t := by
  simp only [combinedTableList, mem_cons, not_mem_nil, or_false, not_or] at h
  obtain ⟨hnp, hatt, hds, hta, htsb⟩ := h
  simp only [combinedTables, inOrder_cons, inOrder_nil]
  rw [combine_other hds, combine_other htsb, combine_other hta, combine_other hds, dropSelfEntries_other hds,
    combine_other hatt, combine_other hnp]

def removedTally (old : Value) (d : Db) : Tally :=
  (removedRows.map fun x => tally x.1 .removed (count d x.2.table (x.2.holds old))).sum

def withoutRemoved (old : Value) (d : Db) : Db :=
  removedRows.foldl (fun d x => delete d x.2.table (x.2.holds old)) d

theorem withoutRemoved_other {old : Value} (h : t ∉ removedRows.map fun x => x.2.table) :
    withoutRemoved old d t = d t := by
  simp only [removedRows, map_cons, map_nil, mem_cons, not_mem_nil, or_false, not_or] at h
  obtain ⟨hra, hses, hcode, htoken⟩ := h
  simp only [withoutRemoved, removedRows, foldl_cons, foldl_nil]
  rw [delete_other htoken, delete_other hcode, delete_other hses, delete_other hra]

theorem withoutRemoved_roles {old : Value} : withoutRemoved old d .roleAssignment =
    (d .roleAssignment).filter fun r => !decide (r .principalId = old) := by
  simp only [withoutRemoved, removedRows, foldl_cons, foldl_nil]
  rw [delete_other (by decide), delete_other (by decide), delete_other (by decide), delete_self]
  rfl

theorem plainColumns_count : plainColumns source target false d =
    (d, removedTally (source .id) d + rewrites (source .sub) subColumns d + rewrites (source .id) idColumns d) := by
  have hremoved : inOrder (removedRows.map fun x => remove x.1 x.2 (source .id) false) d =
      (d, removedTally (source .id) d) := by
    simp [removedRows, remove, removedTally]
  rw [plainColumns, inOrder_append, inOrder_append, hremoved, rewrite_count, rewrite_count]

/-- An id column is no `sub` column, so its rewrite counts what it would count first. -/
theorem plainColumns_apply : plainColumns source target true d =
    (rewriteAll (source .id) (target .id) (idColumns.map Prod.snd)
      (rewriteAll (source .sub) (target .sub) (subColumns.map Prod.snd) (withoutRemoved (source .id) d)),
      removedTally (source .id) d + rewrites (source .sub) subColumns (withoutRemoved (source .id) d) +
        rewrites (source .id) idColumns (withoutRemoved (source .id) d)) := by
  have hremoved : inOrder (removedRows.map fun x => remove x.1 x.2 (source .id) true) d =
      (withoutRemoved (source .id) d, removedTally (source .id) d) := by
    simp only [removedRows, map_cons, map_nil, inOrder_cons, inOrder_nil, remove, if_true, withoutRemoved,
      foldl_cons, foldl_nil, removedTally, sum_cons, sum_nil]
    refine congrArg (Prod.mk _) (congrArg₂ (· + ·) rfl (congrArg₂ (· + ·) ?_ (congrArg₂ (· + ·) ?_
      (congrArg₂ (· + ·) ?_ rfl))))
    · exact congrArg (tally _ _) (count_congr (delete_other (by decide)))
    · exact congrArg (tally _ _) (count_congr ((delete_other (by decide)).trans (delete_other (by decide))))
    · exact congrArg (tally _ _) (count_congr ((delete_other (by decide)).trans
        ((delete_other (by decide)).trans (delete_other (by decide)))))
  have hids : rewrites (source .id) idColumns (rewriteAll (source .sub) (target .sub) (subColumns.map Prod.snd)
      (withoutRemoved (source .id) d)) = rewrites (source .id) idColumns (withoutRemoved (source .id) d) :=
    rewrites_congr fun x hx => count_rewriteAll (by revert x; decide)
  rw [plainColumns, inOrder_append, inOrder_append, hremoved, rewrite_apply _ _ (by decide),
    rewrite_apply _ _ (by decide), hids]

def moveRow (source target : Row) (t : Table) (r : Row) : Row :=
  swapRow (source .id) (target .id) (idColumns.map Prod.snd) t
    (swapRow (source .sub) (target .sub) (subColumns.map Prod.snd) t r)

theorem moveRow_other {f : Field} (hsub : ⟨t, f⟩ ∉ subColumns.map Prod.snd) (hid : ⟨t, f⟩ ∉ idColumns.map Prod.snd)
    (r : Row) : moveRow source target t r f = r f := by
  rw [moveRow, swapRow, if_neg hid, swapRow, if_neg hsub]

theorem moveRow_sub {f : Field} (hsub : ⟨t, f⟩ ∈ subColumns.map Prod.snd) (hid : ⟨t, f⟩ ∉ idColumns.map Prod.snd)
    (r : Row) : moveRow source target t r f = swap (source .sub) (target .sub) (r f) := by
  rw [moveRow, swapRow, if_neg hid, swapRow, if_pos hsub]

theorem moveRow_id {f : Field} (hsub : ⟨t, f⟩ ∉ subColumns.map Prod.snd) (hid : ⟨t, f⟩ ∈ idColumns.map Prod.snd)
    (r : Row) : moveRow source target t r f = swap (source .id) (target .id) (r f) := by
  rw [moveRow, swapRow, if_pos hid, swapRow, if_neg hsub]

def rewritten (source target : Row) (d : Db) : Db :=
  (plainColumns source target true (combinedTables source target true d).1).1

theorem rewritten_eq : rewritten source target d = rewriteAll (source .id) (target .id) (idColumns.map Prod.snd)
    (rewriteAll (source .sub) (target .sub) (subColumns.map Prod.snd)
      (withoutRemoved (source .id) (combinedTables source target true d).1)) :=
  congrArg Prod.fst plainColumns_apply

theorem rewritten_rows (hcombined : t ∉ combinedTableList) (hremoved : t ∉ removedRows.map fun x => x.2.table) :
    rewritten source target d t = (d t).map (moveRow source target t) := by
  rw [rewritten_eq, rewriteAll_table, rewriteAll_table, withoutRemoved_other hremoved,
    combinedTables_other hcombined, map_map]
  rfl

theorem rewritten_other (hcombined : t ∉ combinedTableList) (hremoved : t ∉ removedRows.map fun x => x.2.table)
    (hsub : t ∉ subColumns.map fun x => x.2.table) (hid : t ∉ idColumns.map fun x => x.2.table) :
    rewritten source target d t = d t := by
  rw [rewritten_eq, rewriteAll_other, rewriteAll_other, withoutRemoved_other hremoved,
    combinedTables_other hcombined]
  · rwa [map_map]
  · rwa [map_map]

end Plain

section Boards

variable {d d' : Db} {source target : Row} {t : Table}

theorem rewriteMentions_other {area : Area} {u : Table} {old new : Value} {apply : Bool} (h : t ≠ u) :
    (rewriteMentions area u old new apply d).1 t = d t := by
  cases apply with
  | false => rfl
  | true => exact change_other h

def todoTableList : List Table := [.todoComment, .todoBoard, .todoColumn, .todoCard]

theorem foldPersonalBoard_ok {mine theirs : Value} {r : Db × ℕ} (h : foldPersonalBoard mine theirs d = some r) :
    r.2 = count d .todoCard (boardCard d mine) ∧ ∀ t ∉ todoTableList, r.1 t = d t := by
  rw [foldPersonalBoard] at h
  obtain ⟨⟨first, done⟩, _, h⟩ := Option.bind_eq_some_iff.mp h
  cases h
  refine ⟨rfl, fun t ht => ?_⟩
  simp only [todoTableList, mem_cons, not_mem_nil, or_false, not_or] at ht
  exact (delete_other ht.2.2.1).trans ((delete_other ht.2.1).trans (change_other ht.2.2.2))

theorem todos_other {tl : Tally} (h : todos source target true d = some (d', tl)) (ht : t ∉ todoTableList) :
    d' t = d t := by
  have hne : ∀ u ∈ todoTableList, t ≠ u := fun u hu heq => ht (heq ▸ hu)
  have hmentions : (rewriteMentions .todos .todoComment (source .id) (target .id) true d).1 t = d t :=
    rewriteMentions_other (hne _ (by decide))
  unfold todos at h
  dsimp only at h
  split at h
  · cases h
    exact hmentions
  · cases h
    exact (change_other (hne _ (by decide))).trans hmentions
  · rw [if_pos rfl] at h
    obtain ⟨r, hr, h⟩ := Option.bind_eq_some_iff.mp h
    cases h
    exact ((foldPersonalBoard_ok hr).2 t ht).trans hmentions

theorem mergeTables_ok {env : Env} {tl : Tally} (h : mergeTables source target env d = some (d', tl)) : ∃ d₃ t₃,
    todos source target true (rewritten source target d) = some (d₃, t₃) ∧
    tl = (combinedTables source target true d).2 +
      (plainColumns source target true (combinedTables source target true d).1).2 + t₃ +
        (chatMentions source target true d₃).2 +
          (sourceRow source target env.now true (chatMentions source target true d₃).1).2 ∧
    d' = (sourceRow source target env.now true (chatMentions source target true d₃).1).1 := by
  obtain ⟨⟨d₃, t₃⟩, htodos, h⟩ := Option.bind_eq_some_iff.mp h
  have heq := Prod.mk.inj (Option.some.inj h)
  exact ⟨d₃, t₃, htodos, heq.2.symm, heq.1.symm⟩

end Boards

end AccountMerge
