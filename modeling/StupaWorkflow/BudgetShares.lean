import StupaWorkflow.BudgetFits
import StupaWorkflow.Ranking

/-!
What an application binds in the budget tree.
-/
namespace BudgetTree
open Py hiding Date
open List
open Budget (Uuid)
open Allocation (asAmount)

section Spent

variable {rows : List ExpenseRow}

/-- The pairs of an application and an amount. The texts of two ids stand in the order of the ids. -/
def spentPairs (rows : List ExpenseRow) : List (Uuid × ℚ) :=
  (rows.filterMap fun r => if r.kind = .expense then r.applicationId.map fun k => (k, r.amount) else none).insertionSort
    fun p q => p.1 ≤ q.1

/-- `_spent_per_app`: the sums of the runs. -/
def groupedSpent (rows : List ExpenseRow) : List (Uuid × ℚ) :=
  (Ranking.groupby (spentPairs rows)).map fun group => (group.1, group.2.sum)

/-- `spent_per_app.get(app_id, 0)`; the last entry of a key counts. -/
def spentOn (rows : List ExpenseRow) (application : Uuid) : ℚ :=
  (((groupedSpent rows).filter fun e => e.1 = application).getLast?.map Prod.snd).getD 0

theorem filter_spentPairs (rows : List ExpenseRow) (k : Uuid) :
    ((spentPairs rows).filter fun p => p.1 = k).map Prod.snd =
      (rows.filter fun r => r.kind = .expense && r.applicationId = some k).map ExpenseRow.amount := by
  rw [spentPairs, Ranking.stable _ fun a b ha hb => (of_decide_eq_true ha).trans (of_decide_eq_true hb).symm |>.le]
  induction rows with
  | nil => rfl
  | cons r rows ih =>
    rcases r with ⟨path, year, amount, kind, application⟩
    rw [filterMap_cons, filter_cons]
    cases application with
    | none => simpa using ih
    | some k' =>
      by_cases hkind : kind = .expense <;> by_cases hk : k' = k <;> simpa [hkind, hk] using ih

theorem spentOn_eq (rows : List ExpenseRow) : spentOn rows = spentPerApp rows := by
  funext k
  have hsorted : (spentPairs rows).Pairwise fun p q => p.1 ≤ q.1 := pairwise_insertionSort _ _
  have hgroup : (groupedSpent rows).filter (fun e => e.1 = k) =
      ((Ranking.groupby (spentPairs rows)).filter fun g => g.1 = k).map fun group => (group.1, group.2.sum) := by
    rw [groupedSpent, filter_map]
    rfl
  rw [spentOn, hgroup, Ranking.groupby_sorted hsorted, spentPerApp, ← filter_spentPairs]
  split
  · next hnone => rw [hnone]; rfl
  · rfl

end Spent

section Shares

variable {nodes : List Node} {apps apps' : List AppRow} {expenses expenses' : List ExpenseRow} {a : AppRow} {bucket : Bucket}
  {k year : Uuid} {path : Text}

def bucketRows (nodes : List Node) (expenses : List ExpenseRow) (bucket : Bucket) (apps : List AppRow) : List LeafRow :=
  positiveRows (apps.map (share nodes (spentOn expenses))) bucket

def kindRows (kind : Budget.ExpenseKind) (expenses : List ExpenseRow) : List LeafRow :=
  (expenses.filter fun r => r.kind = kind).map ExpenseRow.leaf

def total (rows : List LeafRow) : ℚ := (rows.map fun row => asAmount row.2.2).sum

def shareOf (nodes : List Node) (expenses : List ExpenseRow) (apps : List AppRow) (bucket : Bucket) (k : Uuid) : ℚ :=
  total (bucketRows nodes expenses bucket (apps.filter fun a => a.id = k))

def expendedOn (expenses : List ExpenseRow) (k : Uuid) : ℚ :=
  total (kindRows .expense (expenses.filter fun r => r.applicationId = some k))

def AppRow.config (nodes : List Node) (a : AppRow) : List Text × List Text := topConfig nodes (a.path.takeWhile (· ≠ 45))

def AppRow.bucketIn (nodes : List Node) (a : AppRow) : Bucket :=
  if a.stateKey ∈ (a.config nodes).1 then .bound else if a.stateKey ∈ (a.config nodes).2 then .denied else .requested

def AppRow.base (a : AppRow) : Bucket → ℚ
  | .bound => a.committed
  | _ => a.amount

theorem share_eq (spent : Uuid → ℚ) (a : AppRow) :
    share nodes spent a = (a.bucketIn nodes, a.fiscalYearId, a.path, some (a.base (a.bucketIn nodes) - spent a.id)) := by
  have hbase : (if a.bucketIn nodes = .bound then a.committed else a.amount) = a.base (a.bucketIn nodes) := by
    cases a.bucketIn nodes <;> rfl
  rw [← hbase]
  rfl

theorem expendedOn_eq (expenses : List ExpenseRow) (k : Uuid) : expendedOn expenses k = spentOn expenses k := by
  rw [spentOn_eq, expendedOn, total, kindRows, spentPerApp, filter_filter, map_map]
  rfl

theorem bucketRows_cons (a : AppRow) (apps : List AppRow) :
    bucketRows nodes expenses bucket (a :: apps) =
      (if a.bucketIn nodes = bucket ∧ 0 < a.base bucket - spentOn expenses a.id then
        [(a.fiscalYearId, a.path, some (a.base bucket - spentOn expenses a.id))] else []) ++
      bucketRows nodes expenses bucket apps := by
  rw [bucketRows, bucketRows, map_cons, share_eq, positiveRows, filter_cons]
  by_cases hbucket : a.bucketIn nodes = bucket
  · subst hbucket
    by_cases hpos : 0 < a.base (a.bucketIn nodes) - spentOn expenses a.id <;> simp [asAmount, hpos, positiveRows]
  · simp [hbucket, positiveRows]

theorem mem_bucketRows {row : LeafRow} :
    row ∈ bucketRows nodes expenses bucket apps ↔ ∃ a ∈ apps, a.bucketIn nodes = bucket ∧
      0 < a.base bucket - spentOn expenses a.id ∧ row = (a.fiscalYearId, a.path, some (a.base bucket - spentOn expenses a.id)) := by
  induction apps with
  | nil => simp [bucketRows, positiveRows]
  | cons a apps ih =>
    rw [bucketRows_cons, mem_append, ih]
    split
    · next h => simp [h.1, sub_pos.mp h.2]
    · next h =>
        simp only [not_mem_nil, false_or, mem_cons, exists_eq_or_imp]
        constructor
        · exact .inr
        · rintro (⟨hbucket, hpos, -⟩ | hrest)
          · exact absurd ⟨hbucket, hpos⟩ h
          · exact hrest

theorem filter_id (hdistinct : (apps.map AppRow.id).Nodup) (ha : a ∈ apps) : apps.filter (fun b => b.id = a.id) = [a] := by
  rw [Table.filter_key hdistinct, Table.find_of_mem hdistinct ha rfl]
  rfl

theorem shareOf_eq (hdistinct : (apps.map AppRow.id).Nodup) (ha : a ∈ apps) :
    shareOf nodes expenses apps bucket a.id =
      if a.bucketIn nodes = bucket then max (a.base bucket - spentOn expenses a.id) 0 else 0 := by
  rw [shareOf, filter_id hdistinct ha, bucketRows_cons]
  by_cases hbucket : a.bucketIn nodes = bucket
  · by_cases hpos : 0 < a.base bucket - spentOn expenses a.id
    · rw [if_pos ⟨hbucket, hpos⟩, if_pos hbucket, max_eq_left hpos.le]
      simp [total, bucketRows, positiveRows, asAmount]
    · rw [if_neg fun h => hpos h.2, if_pos hbucket, max_eq_right (not_lt.mp hpos)]
      rfl
  · rw [if_neg fun h => hbucket h.1, if_neg hbucket]
    rfl

theorem shareOf_add (hdistinct : (apps.map AppRow.id).Nodup) (ha : a ∈ apps) (hbucket : a.bucketIn nodes = bucket) :
    shareOf nodes expenses apps bucket a.id + expendedOn expenses a.id = max (a.base bucket) (expendedOn expenses a.id) := by
  rw [shareOf_eq hdistinct ha, if_pos hbucket, expendedOn_eq, ← max_add_add_right, sub_add_cancel, zero_add]

theorem bucketRows_flatMap (hdistinct : (apps.map AppRow.id).Nodup) :
    bucketRows nodes expenses bucket apps =
      apps.flatMap fun a => bucketRows nodes expenses bucket (apps.filter fun b => b.id = a.id) := by
  have hsingle : apps.flatMap (fun a => bucketRows nodes expenses bucket (apps.filter fun b => b.id = a.id)) =
      apps.flatMap fun a => bucketRows nodes expenses bucket [a] :=
    flatMap_congr fun a ha => by rw [filter_id hdistinct ha]
  rw [hsingle]
  clear hsingle hdistinct
  induction apps with
  | nil => rfl
  | cons a apps ih =>
    rw [flatMap_cons, bucketRows_cons, ih, bucketRows_cons]
    simp [bucketRows, positiveRows]

theorem rolledUp_flatMap {α : Type} (xs : List α) (rows : α → List LeafRow) :
    rolledUp (xs.flatMap rows) path year = (xs.map fun x => rolledUp (rows x) path year).sum := by
  induction xs with
  | nil => rfl
  | cons x xs ih => rw [flatMap_cons, rolledUp_append, ih, map_cons, sum_cons]

theorem spentOn_perm (h : expenses'.Perm expenses) : spentOn expenses' = spentOn expenses := by
  funext k
  rw [spentOn_eq, spentOn_eq, spentPerApp, spentPerApp]
  exact ((h.filter _).map _).sum_eq

theorem bucketRows_perm (happs : apps'.Perm apps) (hexpenses : expenses'.Perm expenses) :
    (bucketRows nodes expenses' bucket apps').Perm (bucketRows nodes expenses bucket apps) := by
  rw [bucketRows, bucketRows, spentOn_perm hexpenses, positiveRows, positiveRows]
  exact ((happs.map _).filter _).map _

theorem kindRows_perm (h : expenses'.Perm expenses) (kind : Budget.ExpenseKind) :
    (kindRows kind expenses').Perm (kindRows kind expenses) := (h.filter _).map _

theorem rolledUp_perm {rows rows' : List LeafRow} (h : rows'.Perm rows) (path : Text) (year : Uuid) :
    rolledUp rows' path year = rolledUp rows path year := ((h.filter _).map _).sum_eq

/-- What the applications bind and ask for beside what is spent on them. -/
structure SharesComplete (nodes : List Node) (apps : List AppRow) (expenses : List ExpenseRow) : Prop where
  accepted : ∀ a ∈ apps, a.stateKey ∈ (a.config nodes).1 →
    shareOf nodes expenses apps .bound a.id + expendedOn expenses a.id = max a.committed (expendedOn expenses a.id) ∧
      shareOf nodes expenses apps .requested a.id = 0
  inFlight : ∀ a ∈ apps, a.stateKey ∉ (a.config nodes).1 → a.stateKey ∉ (a.config nodes).2 →
    shareOf nodes expenses apps .requested a.id + expendedOn expenses a.id = max a.amount (expendedOn expenses a.id) ∧
      shareOf nodes expenses apps .bound a.id = 0
  denied : ∀ a ∈ apps, a.stateKey ∉ (a.config nodes).1 → a.stateKey ∈ (a.config nodes).2 →
    shareOf nodes expenses apps .bound a.id = 0 ∧ shareOf nodes expenses apps .requested a.id = 0
  /-- The tree rolls up the shares of the applications and nothing else, each at its cost centre and in its year. -/
  rolled : ∀ bucket path year, rolledUp (bucketRows nodes expenses bucket apps) path year =
    (apps.map fun a => if a.fiscalYearId = year ∧ isSelfOrDescendantPath path a.path then
      shareOf nodes expenses apps bucket a.id else 0).sum
  positive : ∀ bucket, ∀ row ∈ bucketRows nodes expenses bucket apps, 0 < asAmount row.2.2
  order : ∀ apps' expenses', apps'.Perm apps → expenses'.Perm expenses →
    (∀ bucket, (bucketRows nodes expenses' bucket apps').Perm (bucketRows nodes expenses bucket apps) ∧
      ∀ path year, rolledUp (bucketRows nodes expenses' bucket apps') path year =
        rolledUp (bucketRows nodes expenses bucket apps) path year) ∧
    ∀ kind, (kindRows kind expenses').Perm (kindRows kind expenses) ∧
      ∀ path year, rolledUp (kindRows kind expenses') path year = rolledUp (kindRows kind expenses) path year

theorem rolledUp_share (hdistinct : (apps.map AppRow.id).Nodup) (ha : a ∈ apps) :
    rolledUp (bucketRows nodes expenses bucket (apps.filter fun b => b.id = a.id)) path year =
      if a.fiscalYearId = year ∧ isSelfOrDescendantPath path a.path then shareOf nodes expenses apps bucket a.id else 0 := by
  have hplace : ∀ row ∈ bucketRows nodes expenses bucket (apps.filter fun b => b.id = a.id),
      row.1 = a.fiscalYearId ∧ row.2.1 = a.path := by
    intro row hrow
    rw [filter_id hdistinct ha] at hrow
    obtain ⟨b, hb, -, -, rfl⟩ := mem_bucketRows.mp hrow
    rw [mem_singleton.mp hb]
    exact ⟨rfl, rfl⟩
  rw [shareOf, total, rolledUp]
  split
  · next hhere =>
      rw [filter_eq_self.mpr]
      intro row hrow
      obtain ⟨hyear, hpath⟩ := hplace row hrow
      rw [hyear, hpath]
      simpa using hhere
  · next hother =>
      rw [filter_eq_nil_iff.mpr]
      · rfl
      · intro row hrow
        obtain ⟨hyear, hpath⟩ := hplace row hrow
        rw [hyear, hpath]
        simpa using hother

/-- For distinct applications and any bookings, the share that is left and the bookings make the larger amount. -/
theorem shares_complete (nodes : List Node) (expenses : List ExpenseRow) (hdistinct : (apps.map AppRow.id).Nodup) :
    SharesComplete nodes apps expenses where
  accepted := by
    intro a ha hkey
    have hbucket : a.bucketIn nodes = .bound := if_pos hkey
    refine ⟨shareOf_add hdistinct ha hbucket, ?_⟩
    rw [shareOf_eq hdistinct ha, if_neg (by simp [hbucket])]
  inFlight := by
    intro a ha haccepted hdenied
    have hbucket : a.bucketIn nodes = .requested := by
      rw [AppRow.bucketIn, if_neg haccepted, if_neg hdenied]
    refine ⟨shareOf_add hdistinct ha hbucket, ?_⟩
    rw [shareOf_eq hdistinct ha, if_neg (by simp [hbucket])]
  denied := by
    intro a ha haccepted hdenied
    have hbucket : a.bucketIn nodes = .denied := by
      rw [AppRow.bucketIn, if_neg haccepted, if_pos hdenied]
    rw [shareOf_eq hdistinct ha, shareOf_eq hdistinct ha, if_neg (by simp [hbucket]), if_neg (by simp [hbucket])]
    exact ⟨rfl, rfl⟩
  rolled := by
    intro bucket path year
    rw [bucketRows_flatMap hdistinct, rolledUp_flatMap]
    exact congrArg List.sum (map_congr_left fun a ha => rolledUp_share hdistinct ha)
  positive := by
    intro bucket row hrow
    obtain ⟨a, -, -, hpos, rfl⟩ := mem_bucketRows.mp hrow
    exact hpos
  order := by
    intro apps' expenses' happs hexpenses
    refine ⟨fun bucket => ⟨bucketRows_perm happs hexpenses, ?_⟩, fun kind => ⟨kindRows_perm hexpenses kind, ?_⟩⟩
    · exact rolledUp_perm (bucketRows_perm happs hexpenses)
    · exact rolledUp_perm (kindRows_perm hexpenses kind)

/-- A top budget that accepts `approved`. -/
def topBudget : Node where
  id := 0
  parentId := none
  key := text "VS"
  pathKey := text "VS"
  name := text "centre"
  acceptedStateKeys := some [text "approved"]

def twoApplications : List AppRow :=
  [⟨1, text "VS-10", 7, 100, 80, text "approved"⟩, ⟨2, text "VS", 7, 50, 50, text "review"⟩]

def mixedBookings : List ExpenseRow :=
  [⟨text "VS-10", 7, 60, .expense, some 1⟩, ⟨text "VS", 7, 20, .expense, some 2⟩, ⟨text "VS", 8, 30, .expense, some 1⟩,
    ⟨text "VS-10", 7, 15, .income, some 1⟩]

theorem shares_complete_mixed : SharesComplete [topBudget] twoApplications mixedBookings :=
  shares_complete [topBudget] mixedBookings (by decide)

end Shares

end BudgetTree
