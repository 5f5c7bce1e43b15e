import Mathlib.Data.Prod.Lex
import StupaWorkflow.PyText
import StupaWorkflow.Ranking

/-!
The stored results of the chain checks. A prune reads the table as it is and keeps the newest
checks, the newest one of each trigger and the first one of each break.
-/
namespace Verification
open Py List

inductive Trigger where
  | cron
  | manual
  | restore
  deriving DecidableEq

structure AuditVerification where
  id : ℕ
  startedAt : ℕ
  valid : Bool
  brokenAt : Option ℕ
  reason : Option Text
  trigger : Trigger
  deriving DecidableEq

section Prune

/-- The order of the checks: the id decides between two of one moment. -/
def AuditVerification.place (r : AuditVerification) : Lex (ℕ × ℕ) := toLex (r.startedAt, r.id)

def AuditVerification.failure (r : AuditVerification) : Option ℕ × Option Text := (r.brokenAt, r.reason)

variable {α κ : Type*} [DecidableEq α] [DecidableEq κ]

/-- `DISTINCT ON (key)` of rows in the order of the statement. -/
def distinctOn (key : α → κ) (rows : List α) : List α :=
  rows.filter fun r => rows.find? (fun s => key s = key r) = some r

def newestFirst (rows : List AuditVerification) : List AuditVerification := rows.insertionSort fun a b => b.place ≤ a.place

def oldestFirst (rows : List AuditVerification) : List AuditVerification := rows.insertionSort fun a b => a.place ≤ b.place

def newest (keep : ℕ) (rows : List AuditVerification) : List AuditVerification := (newestFirst rows).take keep

def newestPerTrigger (rows : List AuditVerification) : List AuditVerification :=
  distinctOn AuditVerification.trigger (newestFirst rows)

def firstPerBreak (rows : List AuditVerification) : List AuditVerification :=
  distinctOn AuditVerification.failure (oldestFirst (rows.filter fun r => r.valid = false))

def pruneVerifications (keep : ℕ) (rows : List AuditVerification) : List AuditVerification :=
  rows.filter fun r => r.id ∈ (newest keep rows ++ newestPerTrigger rows ++ firstPerBreak rows).map AuditVerification.id

/-- A check stores its result and prunes in one transaction; a prune also runs alone. -/
inductive Event where
  | verify (row : AuditVerification) (keep : ℕ)
  | prune (keep : ℕ)

def Event.reported : Event → List AuditVerification
  | .verify row _ => [row]
  | .prune _ => []

def step (rows : List AuditVerification) : Event → List AuditVerification
  | .verify row keep => pruneVerifications keep (rows ++ [row])
  | .prune keep => pruneVerifications keep rows

end Prune

section Selections

variable {α κ : Type*} [DecidableEq α] [DecidableEq κ] {R : α → α → Prop} {rows : List α} {r : α}

/-- A row that comes first among the rows of its key stands beside the selected one. -/
theorem distinctOn_first (hrefl : ∀ a, R a a) (hsorted : rows.Pairwise R) (key : α → κ) (hr : r ∈ rows)
    (hfirst : ∀ s ∈ rows, key s = key r → R r s) : ∃ f ∈ distinctOn key rows, R f r ∧ R r f := by
  cases hfind : rows.find? fun s => key s = key r with
  | none => simpa using find?_eq_none.mp hfind r hr
  | some f =>
    obtain ⟨hkey, front, back, hrows, hfront⟩ := find?_eq_some_iff_append.mp hfind
    have hkey : key f = key r := of_decide_eq_true hkey
    have hf : f ∈ rows := mem_of_find?_eq_some hfind
    refine ⟨f, mem_filter.mpr ⟨hf, by rw [hkey, hfind]; exact decide_eq_true rfl⟩, ?_, hfirst f hf hkey⟩
    rw [hrows] at hr hsorted
    rcases mem_append.mp hr with hbefore | hbehind
    · simpa using hfront r hbefore
    · rcases mem_cons.mp hbehind with rfl | hbehind
      · exact hrefl r
      · exact (pairwise_cons.mp (pairwise_append.mp hsorted).2.1).1 r hbehind

end Selections

section Kept

variable {rows : List AuditVerification} {r f : AuditVerification} {keep : ℕ}

theorem id_of_place (h : f.place = r.place) : f.id = r.id := congrArg (fun p => (ofLex p).2) h

theorem mem_newestFirst : r ∈ newestFirst rows ↔ r ∈ rows := mem_insertionSort _

theorem newestFirst_sorted (rows : List AuditVerification) :
    (newestFirst rows).Pairwise fun a b => b.place ≤ a.place :=
  haveI : Std.Total fun a b : AuditVerification => b.place ≤ a.place := ⟨fun a b => le_total b.place a.place⟩
  haveI : IsTrans AuditVerification fun a b => b.place ≤ a.place := ⟨fun _ _ _ hab hbc => hbc.trans hab⟩
  pairwise_insertionSort _ rows

theorem oldestFirst_sorted (rows : List AuditVerification) :
    (oldestFirst rows).Pairwise fun a b => a.place ≤ b.place :=
  haveI : Std.Total fun a b : AuditVerification => a.place ≤ b.place := ⟨fun a b => le_total a.place b.place⟩
  haveI : IsTrans AuditVerification fun a b => a.place ≤ b.place := ⟨fun _ _ _ hab hbc => hab.trans hbc⟩
  pairwise_insertionSort _ rows

theorem prune_keeps (hr : r ∈ rows) (h : ∃ f ∈ newest keep rows ++ newestPerTrigger rows ++ firstPerBreak rows, f.place = r.place) :
    r ∈ pruneVerifications keep rows := by
  obtain ⟨f, hf, hplace⟩ := h
  exact mem_filter.mpr ⟨hr, decide_eq_true (mem_map.mpr ⟨f, hf, id_of_place hplace⟩)⟩

theorem newest_kept (hr : r ∈ rows) (hnewer : (rows.filter fun s => r.place < s.place).length < keep) :
    r ∈ pruneVerifications keep rows := by
  refine prune_keeps hr ?_
  by_contra hnone
  -- behind the first `keep` rows stands `r`, so all of these are newer
  have happart : ∀ f ∈ (newestFirst rows).take keep, f.place ≠ r.place := fun f hf hplace =>
    hnone ⟨f, mem_append_left _ (mem_append_left _ hf), hplace⟩
  have hmem : r ∈ (newestFirst rows).take keep ++ (newestFirst rows).drop keep := by
    rw [take_append_drop, mem_newestFirst]
    exact hr
  have hbehind : r ∈ (newestFirst rows).drop keep :=
    (mem_append.mp hmem).resolve_left fun h => happart r h rfl
  have hsorted := newestFirst_sorted rows
  rw [← take_append_drop keep (newestFirst rows)] at hsorted
  have hall : ∀ f ∈ (newestFirst rows).take keep, r.place < f.place := fun f hf =>
    lt_of_le_of_ne ((pairwise_append.mp hsorted).2.2 f hf r hbehind) (happart f hf).symm
  have hlength : keep ≤ (newestFirst rows).length := by
    have := length_pos_of_mem hbehind
    rw [length_drop] at this
    omega
  have hcount : keep ≤ ((newestFirst rows).filter fun s => r.place < s.place).length := by
    have hsub := (take_sublist keep (newestFirst rows)).filter fun s => decide (r.place < s.place)
    rw [filter_eq_self.mpr fun f hf => decide_eq_true (hall f hf)] at hsub
    simpa [length_take, hlength] using hsub.length_le
  rw [newestFirst, ((perm_insertionSort _ rows).filter _).length_eq] at hcount
  exact absurd hnewer (not_lt.mpr hcount)

theorem newestPerTrigger_kept (hr : r ∈ rows) (hlast : ∀ s ∈ rows, s.trigger = r.trigger → s.place ≤ r.place) :
    r ∈ pruneVerifications keep rows := by
  obtain ⟨f, hf, hle, hge⟩ := distinctOn_first (fun a => le_refl a.place) (newestFirst_sorted rows) AuditVerification.trigger
    (mem_newestFirst.mpr hr) fun s hs => hlast s (mem_newestFirst.mp hs)
  exact prune_keeps hr ⟨f, mem_append_left _ (mem_append_right _ hf), le_antisymm hge hle⟩

def AuditVerification.FirstIn (r : AuditVerification) (rows : List AuditVerification) : Prop :=
  r.valid = false ∧ ∀ s ∈ rows, s.valid = false → s.failure = r.failure → r.place ≤ s.place

theorem firstPerBreak_kept (hr : r ∈ rows) (hfirst : r.FirstIn rows) : r ∈ pruneVerifications keep rows := by
  have hmem : ∀ s, s ∈ oldestFirst (rows.filter fun r => r.valid = false) ↔ s ∈ rows ∧ s.valid = false := by
    intro s
    rw [oldestFirst, mem_insertionSort, mem_filter, decide_eq_true_eq]
  obtain ⟨f, hf, hle, hge⟩ := distinctOn_first (fun a => le_refl a.place) (oldestFirst_sorted _) AuditVerification.failure
    ((hmem r).mpr ⟨hr, hfirst.1⟩) fun s hs => hfirst.2 s ((hmem s).mp hs).1 ((hmem s).mp hs).2
  exact prune_keeps hr ⟨f, mem_append_right _ hf, le_antisymm hle hge⟩

theorem prune_subset : pruneVerifications keep rows ⊆ rows := fun _ hr => (mem_filter.mp hr).1

theorem step_subset (e : Event) : step rows e ⊆ rows ++ e.reported := by
  cases e with
  | verify row keep => exact prune_subset
  | prune keep => exact fun _ hr => mem_append_left _ (prune_subset hr)

theorem step_keeps {e : Event} (hr : r ∈ rows ++ e.reported) (hfirst : r.FirstIn (rows ++ e.reported)) : r ∈ step rows e := by
  cases e with
  | verify row keep => exact firstPerBreak_kept hr hfirst
  | prune keep =>
    rw [Event.reported, append_nil] at hr hfirst
    exact firstPerBreak_kept hr hfirst

theorem AuditVerification.FirstIn.mono {more : List AuditVerification} (h : r.FirstIn more) (hsub : rows ⊆ more) : r.FirstIn rows :=
  ⟨h.1, fun s hs => h.2 s (hsub hs)⟩

theorem run_keeps {events : List Event} (hr : r ∈ rows ++ events.flatMap Event.reported)
    (hfirst : r.FirstIn (rows ++ events.flatMap Event.reported)) : r ∈ events.foldl step rows := by
  induction events generalizing rows with
  | nil => simpa using hr
  | cons e events ih =>
    rw [flatMap_cons, ← append_assoc] at hr hfirst
    refine ih ?_ (hfirst.mono (append_subset.mpr
      ⟨fun _ hs => mem_append_left _ (step_subset e hs), subset_append_right _ _⟩))
    rcases mem_append.mp hr with hbefore | hlater
    · exact mem_append_left _ (step_keeps hbefore (hfirst.mono (subset_append_left _ _)))
    · exact mem_append_right _ hlater

/-- What a prune keeps of any table, and that the first report of a break, among all that were stored, stays
through every later check and prune. -/
theorem evidence_kept (rows : List AuditVerification) :
    (∀ keep, ∀ r ∈ rows, (rows.filter fun s => r.place < s.place).length < keep → r ∈ pruneVerifications keep rows) ∧
    (∀ keep, ∀ r ∈ rows, (∀ s ∈ rows, s.trigger = r.trigger → s.place ≤ r.place) → r ∈ pruneVerifications keep rows) ∧
    (∀ keep, ∀ r ∈ rows, r.FirstIn rows → r ∈ pruneVerifications keep rows) ∧
    ∀ events : List Event, ∀ r ∈ rows ++ events.flatMap Event.reported, r.FirstIn (rows ++ events.flatMap Event.reported) →
      r ∈ events.foldl step rows :=
  ⟨fun _ _ hr => newest_kept hr, fun _ _ hr => newestPerTrigger_kept hr, fun _ _ hr => firstPerBreak_kept hr,
    fun _ _ hr => run_keeps hr⟩

/-- The report of a break, and a day later the same break. -/
def report (day : ℕ) : AuditVerification := ⟨day, day, false, some 7, some (text "hash_mismatch"), .cron⟩

theorem evidence_kept_reports : report 1 ∈ [.verify (report 2) 1, .prune 0].foldl step [report 1] :=
  (evidence_kept [report 1]).2.2.2 [.verify (report 2) 1, .prune 0] (report 1) (by decide) ⟨rfl, by decide⟩

end Kept

end Verification
