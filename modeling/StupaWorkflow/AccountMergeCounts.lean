import Mathlib.Tactic.Abel
import StupaWorkflow.AccountMergeSteps

/-!
What the preview of an account merge counts is what the merge counts, and on top of it
the rows that the merge has taken away before it comes to a later column: the pool entries
between the accounts, and what goes and also names the source as its author.
-/
namespace AccountMerge
open Py Columns
open List hiding count

def goes (old new : Value) (d : Db) (r : Row) : Bool :=
  selfEntry old new r || (r .memberPrincipalId = old && samePoolMember new d r) ||
    (r .substitutePrincipalId = old && samePoolSubstitute new d r)

section Pool

abbrev memberColumn : Column := ⟨.delegationSubstitute, .memberPrincipalId⟩

abbrev substituteColumn : Column := ⟨.delegationSubstitute, .substitutePrincipalId⟩

abbrev SelfDropped (old new : Value) (d e : Db) : Prop :=
  e .delegationSubstitute = (d .delegationSubstitute).filter fun r => !selfEntry old new r

/-- The rows of the account without their duplicates are the other account's. -/
abbrev Moved (c : Column) (same : Db → Row → Bool) (old new : Value) (d e : Db) : Prop :=
  e c.table = ((d c.table).filter fun r => !(c.holds old r && same d r)).map fun r => if c.holds old r then c.set new r else r

def Distinct (d : Db) : Prop := ∀ r ∈ d .delegationSubstitute, r .memberPrincipalId ≠ r .substitutePrincipalId

instance (d : Db) : Decidable (Distinct d) :=
  inferInstanceAs (Decidable (∀ r ∈ d .delegationSubstitute, r .memberPrincipalId ≠ r .substitutePrincipalId))

variable {d e₁ e₂ e₃ : Db} {old new : Value}

theorem eqSql_iff {a b : Value} : a.eqSql b = true ↔ a = b ∧ a ≠ .null := by
  simp [Value.eqSql]

theorem samePoolMember_kept (h₁ : SelfDropped old new d e₁)
    {r : Row} (hold : r .substitutePrincipalId ≠ old) (hnew : r .substitutePrincipalId ≠ new) :
    samePoolMember new e₁ r = samePoolMember new d r := by
  rw [samePoolMember, samePoolMember, hasRow, hasRow, h₁, any_filter]
  congr 1
  funext x
  cases hx : (x .gremiumId).eqSql (r .gremiumId) && x .memberPrincipalId = new &&
      (x .substitutePrincipalId).eqSql (r .substitutePrincipalId) with
  | false => simp
  | true =>
    simp only [Bool.and_eq_true, decide_eq_true_eq] at hx
    have hsub : x .substitutePrincipalId = r .substitutePrincipalId := (eqSql_iff.mp hx.2).1
    simp [selfEntry, hsub, hold, hnew]

/-- Rows between the accounts are no duplicates and go first; what the step finds are the others. -/
theorem combined_between {c : Column} {same : Db → Row → Bool} {crossing : Row → Bool} {e : Db} (between : Row → Bool)
    (hcrossing : ∀ r, crossing r = (c.holds old r && between r)) (hself : ∀ r ∈ d c.table, between r = true → same d r = false)
    (hfound : ∀ b, (count e c.table fun r => c.holds old r && same e r == b) =
      count d c.table fun r => c.holds old r && (same d r == b && !between r)) :
    combined .substitutes c old same d =
      combined .substitutes c old same e + tally .substitutes .rewritten (count d c.table crossing) := by
  have hrewritten : (count d c.table fun r => c.holds old r && !same d r) =
      (count e c.table fun r => c.holds old r && !same e r) + count d c.table crossing := by
    have hfound := hfound false
    simp only [beq_false] at hfound
    rw [count_split between, hfound]
    refine congrArg₂ (· + ·) (countP_congr fun r _ => by simp [and_assoc]) (countP_congr fun r hr => ?_)
    cases hb : between r with
    | false => simp [hcrossing, hb]
    | true => simp [hcrossing, hb, hself r hr hb]
  have hcombined : (count d c.table fun r => c.holds old r && same d r) =
      count e c.table fun r => c.holds old r && same e r := by
    have hfound := hfound true
    simp only [beq_true] at hfound
    rw [hfound]
    refine countP_congr fun r hr => ?_
    cases hb : between r with
    | false => simp
    | true => simp [hself r hr hb]
  rw [combined, combined, hcombined, hrewritten, tally_add]
  exact add_right_comm _ _ _

theorem member_counts (hdistinct : Distinct d) (hne : old ≠ new)
    (h₁ : SelfDropped old new d e₁) :
    combined .substitutes memberColumn old (samePoolMember new) d =
      combined .substitutes memberColumn old (samePoolMember new) e₁ +
        tally .substitutes .rewritten (count d .delegationSubstitute fun r =>
          r .memberPrincipalId = old && r .substitutePrincipalId = new) := by
  refine combined_between (fun r => r .substitutePrincipalId = new) (fun _ => rfl) (fun r _ hs => ?_) fun b => ?_
  · rw [samePoolMember, hasRow, any_eq_false]
    intro x hx hall
    simp only [Bool.and_eq_true, decide_eq_true_eq] at hall hs
    exact hdistinct x hx (hall.1.2.trans ((eqSql_iff.mp hall.2).1.trans hs).symm)
  · refine count_filter h₁ fun r hr => ?_
    by_cases hm : r .memberPrincipalId = old
    · by_cases hs : r .substitutePrincipalId = new
      · simp [selfEntry, hm, hs]
      · have hold : r .substitutePrincipalId ≠ old := fun hs => hdistinct r hr (hm.trans hs.symm)
        simp [selfEntry, Column.holds, hm, hs, hne, samePoolMember_kept h₁ hold hs]
    · simp [Column.holds, hm]

/-- The entries that the member step leaves: none between the accounts, no duplicate, and
the rest moved. -/
theorem member_rows (h₁ : SelfDropped old new d e₁)
    (h₂ : Moved memberColumn (samePoolMember new) old new e₁ e₂) {p p' : Row → Bool}
    (hmoved : ∀ r ∈ d .delegationSubstitute, r .memberPrincipalId = old → p (memberColumn.set new r) = false ∧ p' r = false)
    (hleft : ∀ r ∈ d .delegationSubstitute, r .memberPrincipalId ≠ old → (!selfEntry old new r && p r) = p' r) :
    count e₂ .delegationSubstitute p = count d .delegationSubstitute p' := by
  rw [count, count, h₂, h₁, countP_map, countP_filter, countP_filter]
  refine countP_congr fun r hr => ?_
  by_cases hm : r .memberPrincipalId = old
  · obtain ⟨hp, hp'⟩ := hmoved r hr hm
    simp [Column.holds, hm, hp, hp']
  · rw [← hleft r hr hm]
    cases selfEntry old new r <;> simp [Column.holds, hm]

theorem samePoolSubstitute_kept
    (h₁ : SelfDropped old new d e₁)
    (h₂ : Moved memberColumn (samePoolMember new) old new e₁ e₂)
    {r : Row} (hold : r .memberPrincipalId ≠ old) (hnew : r .memberPrincipalId ≠ new) :
    samePoolSubstitute new e₂ r = samePoolSubstitute new d r := by
  rw [samePoolSubstitute, samePoolSubstitute, hasRow, hasRow, h₂, h₁, any_map, any_filter, any_filter]
  congr 1
  funext x
  by_cases hm : x .memberPrincipalId = old
  · have hx : x .memberPrincipalId ≠ r .memberPrincipalId := fun heq => hold (heq ▸ hm)
    simp [Column.holds, Column.set, hm, Ne.symm hold, Ne.symm hnew]
  · by_cases hx : x .memberPrincipalId = r .memberPrincipalId
    · simp [Column.holds, selfEntry, hx, hold, hnew]
    · simp [Column.holds, hm, hx]

theorem substitute_counts (hdistinct : Distinct d)
    (h₁ : SelfDropped old new d e₁)
    (h₂ : Moved memberColumn (samePoolMember new) old new e₁ e₂) :
    combined .substitutes substituteColumn old (samePoolSubstitute new) d =
      combined .substitutes substituteColumn old (samePoolSubstitute new) e₂ +
        tally .substitutes .rewritten (count d .delegationSubstitute fun r =>
          r .memberPrincipalId = new && r .substitutePrincipalId = old) := by
  refine combined_between (fun r => r .memberPrincipalId = new) (fun _ => Bool.and_comm ..) (fun r _ hm => ?_) fun b => ?_
  · rw [samePoolSubstitute, hasRow, any_eq_false]
    intro x hx hall
    simp only [Bool.and_eq_true, decide_eq_true_eq] at hall hm
    exact hdistinct x hx ((hall.1.2.trans hm).trans hall.2.symm)
  · refine member_rows h₁ h₂ (fun r hr hm => ?_) fun r hr hm => ?_
    · have hs : r .substitutePrincipalId ≠ old := fun hs => hdistinct r hr (hm.trans hs.symm)
      simp [Column.holds, Column.set, hs]
    · by_cases hn : r .memberPrincipalId = new
      · by_cases hs : r .substitutePrincipalId = old <;> simp [Column.holds, selfEntry, hn, hs]
      · simp [Column.holds, selfEntry, hn, hm, samePoolSubstitute_kept h₁ h₂ hm hn]

theorem pool_authors (hdistinct : Distinct d) (hne : old ≠ new)
    (h₁ : SelfDropped old new d e₁)
    (h₂ : Moved memberColumn (samePoolMember new) old new e₁ e₂)
    (h₃ : Moved substituteColumn (samePoolSubstitute new) old new e₂ e₃) (sub : Value) :
    (count e₃ .delegationSubstitute fun r => r .createdBy = sub) =
      count d .delegationSubstitute fun r => r .createdBy = sub && !goes old new d r := by
  have hlast : (count e₃ .delegationSubstitute fun r => r .createdBy = sub) =
      count e₂ .delegationSubstitute fun r =>
        r .createdBy = sub && !(substituteColumn.holds old r && samePoolSubstitute new e₂ r) := by
    rw [count, count, h₃, countP_map, countP_filter]
    refine countP_congr fun r _ => ?_
    by_cases hs : r .substitutePrincipalId = old <;> simp [Column.holds, Column.set, hs]
  rw [hlast, count, count, h₂, h₁, countP_map, countP_filter, countP_filter]
  refine countP_congr fun r hr => ?_
  by_cases hm : r .memberPrincipalId = old
  · have hs : r .substitutePrincipalId ≠ old := fun hs => hdistinct r hr (hm.trans hs.symm)
    by_cases hn : r .substitutePrincipalId = new
    · simp [goes, selfEntry, hm, hn]
    · simp [goes, selfEntry, Column.holds, Column.set, hm, hs, hn, hne, samePoolMember_kept h₁ hs hn]
  · by_cases hn : r .memberPrincipalId = new
    · by_cases hs : r .substitutePrincipalId = old
      · simp [goes, selfEntry, hn, hs]
      · simp [goes, selfEntry, Column.holds, hn, hs, hne.symm]
    · simp [goes, selfEntry, Column.holds, hm, hn, samePoolSubstitute_kept h₁ h₂ hm hn]

end Pool

section Combined

variable {d : Db} {source target : Row}

theorem sameOf_congr {d' : Db} {t : Table} {f : Field} {new : Value} (h : d t = d' t) : sameOf t f new d = sameOf t f new d' := by
  funext r
  rw [sameOf, sameOf, hasRow, hasRow, h]

theorem blocked_congr {d' : Db} {new : Value} (h : d .ticketSenderBlock = d' .ticketSenderBlock) :
    blocked new d = blocked new d' := by
  funext r
  rw [blocked, blocked, hasRow, hasRow, h]

/-- What the combined tables count, with the pool as the member and the substitute step find it. -/
def combinedTally (old new : Value) (d e₁ e₂ : Db) : Tally :=
  combined .notifications ⟨.notificationPreference, .principalId⟩ old (sameOf .notificationPreference .kind new) d +
    (combined .attendance ⟨.meetingAttendance, .principalId⟩ old (sameOf .meetingAttendance .meetingId new) d +
      (tally .substitutes .combined (count d .delegationSubstitute (selfEntry old new)) +
        (combined .substitutes memberColumn old (samePoolMember new) e₁ +
          (combined .todos ⟨.todoAssignee, .principalId⟩ old (sameOf .todoAssignee .cardId new) d +
            (combined .tickets ⟨.ticketSenderBlock, .principalId⟩ old (blocked new) d +
              combined .substitutes substituteColumn old (samePoolSubstitute new) e₂)))))

theorem combinedTables_count : combinedTables source target false d = (d, combinedTally (source .id) (target .id) d d d) := by
  simp only [combinedTables, inOrder_cons, inOrder_nil, combine_count, combine_tally, add_zero]
  rfl

abbrev blockColumn : Column := ⟨.ticketSenderBlock, .principalId⟩

/-- The merge finds each table but the pool as it was, and the pool as the steps before have left it. -/
theorem combinedTables_apply (source target : Row) (d : Db) : ∃ e₁ e₂ : Db,
    SelfDropped (source .id) (target .id) d e₁ ∧
    Moved memberColumn (samePoolMember (target .id)) (source .id) (target .id) e₁ e₂ ∧
    Moved substituteColumn (samePoolSubstitute (target .id)) (source .id) (target .id) e₂ (combinedTables source target true d).1 ∧
    Moved blockColumn (blocked (target .id)) (source .id) (target .id) d (combinedTables source target true d).1 ∧
    (combinedTables source target true d).2 = combinedTally (source .id) (target .id) d e₁ e₂ := by
  let old := source .id
  let new := target .id
  let d₁ := (combine .notifications ⟨.notificationPreference, .principalId⟩ old new
    (sameOf .notificationPreference .kind new) id true d).1
  let d₂ := (combine .attendance ⟨.meetingAttendance, .principalId⟩ old new
    (sameOf .meetingAttendance .meetingId new) leadEntry true d₁).1
  let e₁ := (dropSelfEntries old new true d₂).1
  let d₄ := (combine .substitutes memberColumn old new (samePoolMember new) id true e₁).1
  let d₅ := (combine .todos ⟨.todoAssignee, .principalId⟩ old new (sameOf .todoAssignee .cardId new) id true d₄).1
  let e₂ := (combine .tickets ⟨.ticketSenderBlock, .principalId⟩ old new (blocked new) id true d₅).1
  have hother₁ : ∀ t, t ≠ .notificationPreference → d₁ t = d t := fun t ht => combine_other ht
  have hother₂ : ∀ t, t ≠ .notificationPreference → t ≠ .meetingAttendance → d₂ t = d t := fun t h₁ h₂ =>
    (combine_other h₂).trans (hother₁ t h₁)
  have hother₄ : ∀ t, t ≠ .notificationPreference → t ≠ .meetingAttendance → t ≠ .delegationSubstitute → d₄ t = d t :=
    fun t h₁ h₂ h₃ => (combine_other h₃).trans ((dropSelfEntries_other h₃).trans (hother₂ t h₁ h₂))
  have hpool₂ : d₂ .delegationSubstitute = d .delegationSubstitute := hother₂ _ (by decide) (by decide)
  have hblocks : d₅ .ticketSenderBlock = d .ticketSenderBlock :=
    (combine_other (by decide)).trans (hother₄ _ (by decide) (by decide) (by decide))
  have hpool : (combine .substitutes substituteColumn old new (samePoolSubstitute new) id true e₂).1
      .delegationSubstitute = _ := combine_rows .substitutes
  refine ⟨e₁, e₂, delete_self.trans (congrArg _ hpool₂),
    ((combine_other (by decide)).trans (combine_other (by decide))).trans (combine_rows .substitutes), hpool, ?_, ?_⟩
  · have hlast : (combine .substitutes substituteColumn old new (samePoolSubstitute new) id true e₂).1
        .ticketSenderBlock = e₂ .ticketSenderBlock := combine_other (by decide)
    refine Eq.trans hlast ((combine_rows .tickets (c := blockColumn)).trans ?_)
    change ((d₅ .ticketSenderBlock).filter fun r => !(blockColumn.holds old r && blocked new d₅ r)).map _ = _
    rw [blocked_congr hblocks, hblocks]
    rfl
  change (combine .notifications _ old new _ id true d).2 + ((combine .attendance _ old new _ leadEntry true d₁).2 +
    ((dropSelfEntries old new true d₂).2 + ((combine .substitutes memberColumn old new _ id true e₁).2 +
      ((combine .todos _ old new _ id true d₄).2 + ((combine .tickets _ old new _ id true d₅).2 +
        ((combine .substitutes substituteColumn old new _ id true e₂).2 + 0)))))) = _
  simp only [combine_tally, add_zero]
  rw [combinedTally]
  refine congrArg₂ _ rfl (congrArg₂ _ ?_ (congrArg₂ _ ?_ (congrArg₂ _ rfl (congrArg₂ _ ?_ (congrArg₂ _ ?_ rfl)))))
  · exact combined_congr (hother₁ _ (by decide)) (sameOf_congr (hother₁ _ (by decide)))
  · exact congrArg (tally .substitutes .combined) (count_congr hpool₂)
  · exact combined_congr (hother₄ _ (by decide) (by decide) (by decide))
      (sameOf_congr (hother₄ _ (by decide) (by decide) (by decide)))
  · exact combined_congr hblocks (blocked_congr hblocks)

theorem block_authors (v : Value) :
    (count (combinedTables source target true d).1 .ticketSenderBlock fun r => r .createdBy = v) =
      count d .ticketSenderBlock fun r =>
        r .createdBy = v && !(r .principalId = source .id && blocked (target .id) d r) := by
  obtain ⟨_, _, _, _, _, hblocks, _⟩ := combinedTables_apply source target d
  rw [count, count, hblocks, countP_map, countP_filter]
  refine countP_congr fun r _ => ?_
  by_cases hp : r .principalId = source .id <;> simp [Column.holds, Column.set, hp]

end Combined

section Surplus

variable {d d' : Db} {source target : Row}

def surplus (source target : Row) (d : Db) : Tally :=
  tally .substitutes .rewritten
      ((count d .delegationSubstitute fun r => r .memberPrincipalId = source .id && r .substitutePrincipalId = target .id) +
        (count d .delegationSubstitute fun r => r .memberPrincipalId = target .id && r .substitutePrincipalId = source .id) +
        count d .delegationSubstitute fun r => r .createdBy = source .sub && goes (source .id) (target .id) d r) +
    tally .tickets .rewritten (count d .ticketSenderBlock fun r =>
      r .createdBy = source .id && (r .principalId = source .id && blocked (target .id) d r)) +
    tally .roles .rewritten (count d .roleAssignment fun r => r .grantedBy = source .sub && r .principalId = source .id)

/-- No row that the merge takes away also names the source in a rewritten column. -/
structure CountedOnce (source target : Row) (d : Db) : Prop where
  pool : ∀ r ∈ d .delegationSubstitute, selfEntry (source .id) (target .id) r = false
  authors : ∀ r ∈ d .delegationSubstitute, goes (source .id) (target .id) d r → r .createdBy ≠ source .sub
  blocks : ∀ r ∈ d .ticketSenderBlock, r .principalId = source .id → blocked (target .id) d r →
    r .createdBy ≠ source .id
  grants : ∀ r ∈ d .roleAssignment, r .principalId = source .id → r .grantedBy ≠ source .sub

theorem surplus_zero : surplus source target d = 0 ↔ CountedOnce source target d := by
  simp only [surplus, sum_eq_zero, tally_eq_zero, Nat.add_eq_zero_iff, count, countP_eq_zero, Bool.and_eq_true,
    decide_eq_true_eq, not_and]
  constructor
  · rintro ⟨⟨⟨⟨hmember, hsubstitute⟩, hauthors⟩, hblocks⟩, hgrants⟩
    refine ⟨fun r hr => ?_, fun r hr hgoes hby => hauthors r hr hby hgoes,
      fun r hr hp hb hby => hblocks r hr hby hp hb, fun r hr hp hby => hgrants r hr hby hp⟩
    have hm := hmember r hr
    have hs := hsubstitute r hr
    simp only [selfEntry, Bool.or_eq_false_iff, Bool.and_eq_false_iff, decide_eq_false_iff_not]
    exact ⟨not_and_or.mp fun h => hm h.1 h.2, not_and_or.mp fun h => hs h.1 h.2⟩
  · intro h
    have hself : ∀ r ∈ d .delegationSubstitute, ¬ selfEntry (source .id) (target .id) r = true := fun r hr hself => by
      rw [h.pool r hr] at hself
      cases hself
    simp only [selfEntry, Bool.or_eq_true, Bool.and_eq_true, decide_eq_true_eq, not_or, not_and] at hself
    exact ⟨⟨⟨⟨fun r hr => (hself r hr).1, fun r hr => (hself r hr).2⟩, fun r hr hby hgoes => h.authors r hr hgoes hby⟩,
      fun r hr hby hp hb => h.blocks r hr hp hb hby⟩, fun r hr hby hp => h.grants r hr hp hby⟩

theorem combined_surplus (hdistinct : Distinct d) (hne : source .id ≠ target .id) :
    (combinedTables source target false d).2 = (combinedTables source target true d).2 + tally .substitutes .rewritten
      ((count d .delegationSubstitute fun r => r .memberPrincipalId = source .id && r .substitutePrincipalId = target .id) +
        count d .delegationSubstitute fun r =>
          r .memberPrincipalId = target .id && r .substitutePrincipalId = source .id) := by
  obtain ⟨e₁, e₂, h₁, h₂, _, _, htally⟩ := combinedTables_apply source target d
  rw [combinedTables_count, htally, tally_add]
  simp only [combinedTally, member_counts hdistinct hne h₁, substitute_counts hdistinct h₁ h₂]
  abel

theorem sub_tables : ∀ x ∈ subColumns, x.2 = ⟨.delegationSubstitute, .createdBy⟩ ∨ x.2 = ⟨.roleAssignment, .grantedBy⟩ ∨
    (x.2.table ∉ combinedTableList ∧ x.2.table ∉ removedRows.map fun y => y.2.table) := by decide

theorem id_tables : ∀ x ∈ idColumns, x.2 = ⟨.ticketSenderBlock, .createdBy⟩ ∨
    (x.2.table ∉ combinedTableList ∧ x.2.table ∉ removedRows.map fun y => y.2.table) := by decide

def subExtra (m n : ℕ) (c : Column) : ℕ :=
  if c = ⟨.delegationSubstitute, .createdBy⟩ then m else if c = ⟨.roleAssignment, .grantedBy⟩ then n else 0

def idExtra (m : ℕ) (c : Column) : ℕ := if c = ⟨.ticketSenderBlock, .createdBy⟩ then m else 0

theorem subExtra_sum (m n : ℕ) : (subColumns.map fun x => tally x.1 .rewritten (subExtra m n x.2)).sum =
    tally .substitutes .rewritten m + tally .roles .rewritten n := by
  simp [subColumns, subExtra]

theorem idExtra_sum (m : ℕ) : (idColumns.map fun x => tally x.1 .rewritten (idExtra m x.2)).sum =
    tally .tickets .rewritten m := by
  simp [idColumns, idExtra]

theorem sub_surplus (hdistinct : Distinct d) (hne : source .id ≠ target .id) :
    rewrites (source .sub) subColumns d =
      rewrites (source .sub) subColumns (withoutRemoved (source .id) (combinedTables source target true d).1) +
        (tally .substitutes .rewritten (count d .delegationSubstitute fun r =>
            r .createdBy = source .sub && goes (source .id) (target .id) d r) +
          tally .roles .rewritten (count d .roleAssignment fun r =>
            r .grantedBy = source .sub && r .principalId = source .id)) := by
  rw [rewrites_add (subExtra (count d .delegationSubstitute fun r =>
    r .createdBy = source .sub && goes (source .id) (target .id) d r) (count d .roleAssignment fun r =>
      r .grantedBy = source .sub && r .principalId = source .id)) fun x hx => ?_, subExtra_sum]
  rcases sub_tables x hx with hpool | hroles | ⟨hcombined, hremoved⟩
  · obtain ⟨e₁, e₂, h₁, h₂, h₃, _⟩ := combinedTables_apply source target d
    have hauthors := pool_authors hdistinct hne h₁ h₂ h₃ (source .sub)
    rw [hpool, subExtra, if_pos rfl]
    rw [count_split (goes (source .id) (target .id) d)]
    refine congrArg₂ (· + ·) ?_ rfl
    exact hauthors.symm.trans (count_congr (withoutRemoved_other (by decide)).symm)
  · rw [hroles, subExtra, if_neg (by decide), if_pos rfl]
    rw [count_split fun r => decide (r .principalId = source .id)]
    refine congrArg₂ (· + ·) (count_filter (withoutRemoved_roles.trans ?_) fun r _ => Bool.and_comm ..).symm rfl
    rw [combinedTables_other (by decide)]
  · have hpool : x.2 ≠ ⟨.delegationSubstitute, .createdBy⟩ := fun heq => hcombined (by rw [heq]; decide)
    have hroles : x.2 ≠ ⟨.roleAssignment, .grantedBy⟩ := fun heq => hremoved (by rw [heq]; decide)
    rw [subExtra, if_neg hpool, if_neg hroles, add_zero]
    exact count_congr ((withoutRemoved_other hremoved).trans (combinedTables_other hcombined)).symm

theorem id_surplus (source target : Row) (d : Db) : rewrites (source .id) idColumns d =
    rewrites (source .id) idColumns (withoutRemoved (source .id) (combinedTables source target true d).1) +
      tally .tickets .rewritten (count d .ticketSenderBlock fun r =>
        r .createdBy = source .id && (r .principalId = source .id && blocked (target .id) d r)) := by
  rw [rewrites_add (idExtra (count d .ticketSenderBlock fun r =>
    r .createdBy = source .id && (r .principalId = source .id && blocked (target .id) d r))) fun x hx => ?_, idExtra_sum]
  rcases id_tables x hx with hblock | ⟨hcombined, hremoved⟩
  · rw [hblock, idExtra, if_pos rfl]
    rw [count_split fun r => r .principalId = source .id && blocked (target .id) d r]
    refine congrArg₂ (· + ·) ?_ rfl
    exact (block_authors (source .id)).symm.trans (count_congr (withoutRemoved_other (by decide)).symm)
  · have hblock : x.2 ≠ ⟨.ticketSenderBlock, .createdBy⟩ := fun heq => hcombined (by rw [heq]; decide)
    rw [idExtra, if_neg hblock, add_zero]
    exact count_congr ((withoutRemoved_other hremoved).trans (combinedTables_other hcombined)).symm

end Surplus

section Later

variable {d d' : Db} {source target : Row} {t : Table}
variable {e : Db} {tl : Tally}

def Placed (d : Db) : Prop := ∀ r ∈ d .todoCard, (columnOf d r).isSome

instance (d : Db) : Decidable (Placed d) := inferInstanceAs (Decidable (∀ r ∈ d .todoCard, (columnOf d r).isSome))

theorem rewritten_count {p : Row → Bool} (hcombined : t ∉ combinedTableList)
    (hremoved : t ∉ removedRows.map fun x => x.2.table) (hp : ∀ r, p (moveRow source target t r) = p r) :
    count (rewritten source target d) t p = count d t p := by
  rw [count, count, rewritten_rows hcombined hremoved, countP_map]
  exact countP_congr fun r _ => by rw [Function.comp_apply, hp]

theorem mentioned_count (ht : t ∈ [Table.todoComment, .comment, .ticketNote]) :
    count (rewritten source target d) t (mentioned (source .id)) = count d t (mentioned (source .id)) := by
  refine rewritten_count ?_ ?_ fun r => ?_
  · revert t
    decide
  · revert t
    decide
  · rw [mentioned, mentioned, moveRow_other]
    · revert t
      decide
    · revert t
      decide

theorem removedTally_kept : removedTally (source .id) (combinedTables source target true d).1 = removedTally (source .id) d := by
  rw [removedTally, removedTally]
  refine congrArg List.sum (map_congr_left fun x hx => congrArg (tally x.1 .removed) (count_congr ?_))
  refine combinedTables_other ?_
  revert x
  decide

theorem columnOf_congr (h : e .todoColumn = d .todoColumn) {r r' : Row} (hc : r .columnId = r' .columnId) :
    columnOf e r = columnOf d r' := by
  rw [columnOf, columnOf, h, hc]

theorem personalBoard_congr (h : e .todoBoard = d .todoBoard) (owner : Value) :
    personalBoard e owner = personalBoard d owner := by
  rw [personalBoard, personalBoard, h]

theorem todos_agree (hplaced : Placed d) (h : todos source target true (rewritten source target d) = some (d', tl)) :
    todos source target false d = some (d, tl) := by
  let e := rewritten source target d
  let e₁ := (rewriteMentions .todos .todoComment (source .id) (target .id) true e).1
  have hmentions : (rewriteMentions .todos .todoComment (source .id) (target .id) true e).2 =
      (rewriteMentions .todos .todoComment (source .id) (target .id) false d).2 :=
    congrArg (tally .todos .rewritten) (mentioned_count (by decide))
  have hboards : e₁ .todoBoard = d .todoBoard :=
    (rewriteMentions_other (by decide)).trans (rewritten_other (by decide) (by decide) (by decide) (by decide))
  have hcolumns : e₁ .todoColumn = d .todoColumn :=
    (rewriteMentions_other (by decide)).trans (rewritten_other (by decide) (by decide) (by decide) (by decide))
  have hcards (mine : Value) : count e₁ .todoCard (boardCard e₁ mine) = count d .todoCard fun r => r .boardId = mine := by
    have hrows : e₁ .todoCard = (d .todoCard).map (moveRow source target .todoCard) :=
      (rewriteMentions_other (by decide)).trans (rewritten_rows (by decide) (by decide))
    rw [count, count, hrows, countP_map]
    refine countP_congr fun r hr => ?_
    have hcolumn : columnOf e₁ (moveRow source target .todoCard r) = columnOf d r :=
      columnOf_congr hcolumns (moveRow_other (by decide) (by decide) r)
    rw [Function.comp_apply, boardCard, hcolumn, moveRow_other (by decide) (by decide), hplaced r hr, Bool.and_true]
  unfold todos at h ⊢
  dsimp only at h ⊢
  have hpreview : (rewriteMentions .todos .todoComment (source .id) (target .id) false d).1 = d := rfl
  rw [personalBoard_congr hboards, personalBoard_congr hboards, hmentions] at h
  rw [hpreview]
  cases hmine : personalBoard d (source .id) with
  | none =>
    simp only [hmine] at h ⊢
    cases h
    rfl
  | some mine =>
    cases htheirs : personalBoard d (target .id) with
    | none =>
      simp only [hmine, htheirs] at h ⊢
      cases h
      rfl
    | some theirs =>
      simp only [hmine, htheirs, if_true, Bool.false_eq_true, if_false] at h ⊢
      obtain ⟨r, hr, h⟩ := Option.bind_eq_some_iff.mp h
      cases h
      rw [(foldPersonalBoard_ok hr).1, hcards]
      rfl

theorem chat_agree (hcomment : e .comment = rewritten source target d .comment)
    (hnote : e .ticketNote = rewritten source target d .ticketNote) :
    (chatMentions source target true e).2 = (chatMentions source target false d).2 := by
  have hcomments : count e .comment (mentioned (source .id)) = count d .comment (mentioned (source .id)) :=
    (count_congr hcomment).trans (mentioned_count (by decide))
  have hnotes : count (rewriteMentions .comments .comment (source .id) (target .id) true e).1 .ticketNote
      (mentioned (source .id)) = count d .ticketNote (mentioned (source .id)) :=
    (count_congr ((rewriteMentions_other (by decide)).trans hnote)).trans (mentioned_count (by decide))
  exact congrArg₂ (· + ·) (congrArg (tally .comments .rewritten) hcomments)
    (congrArg₂ (· + ·) (congrArg (tally .tickets .rewritten) hnotes) rfl)

theorem chat_other (hcomment : t ≠ .comment) (hnote : t ≠ .ticketNote) : (chatMentions source target true e).1 t = e t := by
  simp only [chatMentions, inOrder_cons, inOrder_nil]
  rw [rewriteMentions_other hnote, rewriteMentions_other hcomment]

theorem previewTally_some {env : Env} (h : todos source target false d = some (d, tl)) :
    previewTally source target env d = some ((plainColumns source target false d).2 +
      (combinedTables source target false d).2 + tl + (chatMentions source target false d).2 +
        (sourceRow source target env.now false d).2) := by
  simp only [previewTally, plainColumns_count, combinedTables_count, h, Option.bind_eq_bind, Option.bind_some]
  rfl

theorem regroup (r s i t b c m pool authors roles blocks : Tally) :
    r + (s + (authors + roles)) + (i + blocks) + (t + pool) + b + c + m =
      t + (r + s + i) + b + c + m + (pool + authors + blocks + roles) := by
  abel

theorem previewTally_eq (hdistinct : Distinct d) (hplaced : Placed d) (hne : source .id ≠ target .id) (env' : Env) {env : Env}
    (h : mergeTables source target env d = some (d', tl)) :
    previewTally source target env' d = some (tl + surplus source target d) := by
  obtain ⟨d₃, t₃, htodos, rfl, _⟩ := mergeTables_ok h
  have hkept (t : Table) (ht : t ∉ todoTableList) : d₃ t = rewritten source target d t := todos_other htodos ht
  have hmembers : (sourceRow source target env.now true (chatMentions source target true d₃).1).2 =
      (sourceRow source target env'.now false d).2 := by
    have hrows : (chatMentions source target true d₃).1 .gremiumMembership = d .gremiumMembership :=
      (chat_other (by decide) (by decide)).trans ((hkept _ (by decide)).trans
        (rewritten_other (by decide) (by decide) (by decide) (by decide)))
    exact congrArg₂ (· + ·) (congrArg (tally .memberships .removed) (count_congr hrows)) rfl
  have hplain : (plainColumns source target true (combinedTables source target true d).1).2 =
      removedTally (source .id) d +
        rewrites (source .sub) subColumns (withoutRemoved (source .id) (combinedTables source target true d).1) +
          rewrites (source .id) idColumns (withoutRemoved (source .id) (combinedTables source target true d).1) := by
    rw [plainColumns_apply, removedTally_kept]
  have hpreview : (plainColumns source target false d).2 =
      removedTally (source .id) d + rewrites (source .sub) subColumns d + rewrites (source .id) idColumns d := by
    rw [plainColumns_count]
  rw [previewTally_some (todos_agree hplaced htodos), hpreview, hplain,
    chat_agree (hkept .comment (by decide)) (hkept .ticketNote (by decide)), hmembers, combined_surplus hdistinct hne,
    sub_surplus hdistinct hne, id_surplus source target, surplus]
  simp only [tally_add]
  exact congrArg some (regroup ..)

end Later

section Results

variable {d d' : Db} {source target : Row} {sourceId targetId : Uuid} {env env' : Env} {out : List AreaOut}

theorem getPrincipal_ok {k : Uuid} {r : Row} (h : getPrincipal d k = .ok r) : r ∈ d .principal ∧ r .id = .id k := by
  unfold getPrincipal at h
  split at h
  next x hfind =>
    cases h
    exact ⟨mem_of_find?_eq_some hfind, by simpa using List.find?_some hfind⟩
  next => cases h

theorem load_ok (h : load sourceId targetId d = .ok (source, target)) :
    source ∈ d .principal ∧ target ∈ d .principal ∧ source .id = .id sourceId ∧ target .id = .id targetId ∧
      source .id ≠ target .id := by
  simp only [load, bind_ok, pure_ok, raiseUnless_ok, Prod.mk.injEq] at h
  obtain ⟨_, hne, s, hs, t, ht, _, _, _, _, _, _, _, _, rfl, rfl⟩ := h
  obtain ⟨hsmem, hsid⟩ := getPrincipal_ok hs
  obtain ⟨htmem, htid⟩ := getPrincipal_ok ht
  refine ⟨hsmem, htmem, hsid, htid, fun heq => ?_⟩
  have hsame : sourceId = targetId := Value.id.inj (hsid.symm.trans (heq.trans htid))
  simp [hsame] at hne

theorem merge_ok (h : merge sourceId targetId env d = .ok (d', out)) : ∃ source target t,
    load sourceId targetId d = .ok (source, target) ∧ conflicts source target d = [] ∧
      mergeTables source target env d = some (d', t) ∧ out = t.out := by
  simp only [merge, bind_ok, pure_ok, raiseUnless_ok, Prod.mk.injEq] at h
  obtain ⟨⟨source, target⟩, hload, _, _, _, hconflicts, _, _, ⟨d₁, t⟩, htables, rfl, rfl⟩ := h
  refine ⟨source, target, t, hload, isEmpty_iff.mp hconflicts, ?_, rfl⟩
  cases hm : mergeTables source target env d with
  | none =>
    rw [hm] at htables
    cases htables
  | some r =>
    rw [hm] at htables
    cases htables
    rfl

/-- The counts of the preview are those of the merge exactly where no row is counted twice. -/
theorem preview_eq_merge (hdistinct : Distinct d) (hplaced : Placed d)
    (hload : load sourceId targetId d = .ok (source, target)) (hmerge : merge sourceId targetId env d = .ok (d', out)) :
    ∃ p, preview sourceId targetId env' d = .ok p ∧ (p.areas = out ↔ CountedOnce source target d) := by
  obtain ⟨s, t, tl, hload', _, htables, rfl⟩ := merge_ok hmerge
  obtain ⟨rfl, rfl⟩ := Prod.mk.inj (Except.ok.inj (hload.symm.trans hload'))
  have htally := previewTally_eq hdistinct hplaced (load_ok hload).2.2.2.2 env' htables
  refine ⟨⟨(tl + surplus source target d).out, conflicts source target d,
    (conflicts source target d).isEmpty && env'.covered⟩, ?_, ?_⟩
  · rw [preview, hload]
    change (orFail (previewTally source target env' d)).bind _ = _
    rw [htally]
    rfl
  · rw [out_inj, ← surplus_zero, add_eq_left]

section Samples

def oldAccount : Row := rowOf [(.id, .id 1), (.sub, .text (text "old")), (.active, .bool true)]

def newAccount : Row := rowOf [(.id, .id 2), (.sub, .text (text "new")), (.active, .bool true)]

def admin : Env := ⟨text "admin", true, 7⟩

def twoAccounts (pool : List Row) : Db :=
  dbOf [(.principal, [oldAccount, newAccount]), (.application, [rowOf [(.createdBy, .text (text "old"))]]),
    (.vote, [rowOf [(.id, .id 5)]]), (.votedMarker, [rowOf [(.voteId, .id 5), (.voterSub, .text (text "old"))]]),
    (.delegationSubstitute, pool)]

def poolEntry (member substitute : Uuid) : Row :=
  rowOf [(.gremiumId, .id 9), (.memberPrincipalId, .id member), (.substitutePrincipalId, .id substitute),
    (.createdBy, .text (text "lead"))]

theorem twoAccounts_agree : ∃ p d' out, preview 1 2 admin (twoAccounts [poolEntry 1 3]) = .ok p ∧
    merge 1 2 admin (twoAccounts [poolEntry 1 3]) = .ok (d', out) ∧ p.areas = out := by
  have hsome : (merge 1 2 admin (twoAccounts [poolEntry 1 3])).toOption.isSome := by decide +kernel
  obtain ⟨⟨d', out⟩, hmerge⟩ := Option.isSome_iff_exists.mp hsome
  have hload : load 1 2 (twoAccounts [poolEntry 1 3]) = .ok (oldAccount, newAccount) := rfl
  obtain ⟨p, hpreview, hareas⟩ := preview_eq_merge (by decide) (by decide) hload (toOption_some.mp hmerge)
  exact ⟨p, d', out, hpreview, toOption_some.mp hmerge, hareas.mpr ⟨by decide, by decide, by decide, by decide⟩⟩

/-- The entry between the accounts is combined, and the preview also counts it as rewritten. -/
theorem selfEntry_differs : ∃ p d' out, preview 1 2 admin (twoAccounts [poolEntry 1 2]) = .ok p ∧
    merge 1 2 admin (twoAccounts [poolEntry 1 2]) = .ok (d', out) ∧ p.areas ≠ out := by
  have hareas : ((preview 1 2 admin (twoAccounts [poolEntry 1 2])).toOption.map PreviewOut.areas) ≠
      (merge 1 2 admin (twoAccounts [poolEntry 1 2])).toOption.map Prod.snd := by decide +kernel
  have hpreview : (preview 1 2 admin (twoAccounts [poolEntry 1 2])).toOption.isSome := by decide +kernel
  have hmerge : (merge 1 2 admin (twoAccounts [poolEntry 1 2])).toOption.isSome := by decide +kernel
  obtain ⟨p, hp⟩ := Option.isSome_iff_exists.mp hpreview
  obtain ⟨⟨d', out⟩, hm⟩ := Option.isSome_iff_exists.mp hmerge
  refine ⟨p, d', out, toOption_some.mp hp, toOption_some.mp hm, fun heq => hareas ?_⟩
  rw [hp, hm]
  exact congrArg some heq

end Samples

end Results

end AccountMerge
