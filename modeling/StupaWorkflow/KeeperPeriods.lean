import Mathlib.Data.List.Sort
import StupaWorkflow.AttendanceModel

/-!
The protocol keeper of one meeting. The keeper stands in the column of the meeting and in a table
of periods: a period is planned (no start), running (a start and no end) or ended.
-/
namespace Handover
open Py StorageKeys List Option
open Attendance (MeetingStatus allowedTransition)

abbrev Time := ℕ

inductive Problem where
  | notFound (message : Text) (code : Option Text)
  | forbidden (message : Text)
  | conflict (message code : Text)
  | validation (message code : Text)
  | badRequest (message : Text)
  /-- `scalar_one_or_none` met a second row. -/
  | multipleResults
  deriving DecidableEq

structure Period where
  principal : Uuid
  fromAt : Option Time
  toAt : Option Time
  fromItem : Option Uuid
  toItem : Option Uuid
  deriving DecidableEq

def Period.isPlanned (p : Period) : Bool := p.fromAt.isNone

def Period.isRunning (p : Period) : Bool := p.fromAt.isSome && p.toAt.isNone

/-- The meeting row; the periods stand in the order in which they were added. -/
structure Meeting where
  status : MeetingStatus
  protokollant : Option Uuid
  currentItem : Option Uuid
  startedAt : Option Time
  closedAt : Option Time
  periods : List Period
  deriving DecidableEq

/-- `create`. -/
def Meeting.created (protokollant : Option Uuid) : Meeting := ⟨.planned, protokollant, none, none, none, []⟩

section PeriodHelpers

def Meeting.period (m : Meeting) (state : Period → Bool) : Except Problem (Option Period) :=
  match m.periods.filter state with
  | [] => .ok none
  | [p] => .ok (some p)
  | _ => .error .multipleResults

/-- A change of the row that `period` returned. -/
def Meeting.change (m : Meeting) (state : Period → Bool) (f : Period → Period) : Meeting :=
  { m with periods := m.periods.map fun p => if state p then f p else p }

def Period.ended (now : Time) (toItem : Option Uuid) (p : Period) : Period :=
  { p with toAt := some (max now (p.fromAt.getD now)), toItem := toItem }

def Meeting.endRunning (m : Meeting) (now : Time) (toItem : Option Uuid) : Except Problem Meeting := do
  match ← m.period Period.isRunning with
  | none => return m
  | some _ => return m.change Period.isRunning (Period.ended now toItem)

def Meeting.dropPlanned (m : Meeting) : Except Problem (Meeting × Option Period) := do
  match ← m.period Period.isPlanned with
  | none => return (m, none)
  | some planned => return ({ m with periods := m.periods.filter (!·.isPlanned) }, some planned)

def Meeting.add (m : Meeting) (p : Period) : Meeting := { m with periods := m.periods ++ [p] }

def Meeting.startedPeriod (m : Meeting) (principal : Uuid) (now : Time) : Period :=
  ⟨principal, some now, none, m.currentItem, none⟩

def Meeting.openFirstPeriod (m : Meeting) (now : Time) : Except Problem Meeting := do
  match m.protokollant with
  | none => return m
  | some keeper =>
    match ← m.period Period.isRunning with
    | some _ => return m
    | none => return m.add (m.startedPeriod keeper now)

def Meeting.closePeriods (m : Meeting) (now : Time) : Except Problem Meeting := do
  let m ← m.endRunning now m.currentItem
  let (m, _) ← m.dropPlanned
  return m

def Meeting.switchNow (m : Meeting) (principal : Uuid) (now : Time) : Except Problem Meeting := do
  let (m, _) ← m.dropPlanned
  let m ← m.endRunning now m.currentItem
  return { m.add (m.startedPeriod principal now) with protokollant := some principal }

def movesBack (agenda : List Uuid) (oldItem newItem : Uuid) : Bool :=
  decide (oldItem ∈ agenda) && decide (agenda.idxOf newItem ≤ agenda.idxOf oldItem)

def Period.started (now : Time) (item : Uuid) (p : Period) : Period :=
  { p with fromAt := some now, fromItem := some item }

def Meeting.startPlanned (m : Meeting) (planned : Period) (oldItem : Option Uuid) (newItem : Uuid) (now : Time) :
    Except Problem Meeting := do
  let m ← m.endRunning now oldItem
  return { m.change Period.isPlanned (Period.started now newItem) with protokollant := some planned.principal }

/-- `activate_planned`. `checkKeeper` is the refusal of `check_keeper` for a principal. -/
def Meeting.activatePlanned (m : Meeting) (oldItem newItem : Option Uuid) (agenda : List Uuid)
    (checkKeeper : Uuid → Option Problem) (now : Time) : Except Problem Meeting :=
  match newItem with
  | none => .ok m
  | some item => do
      if oldItem = some item then return m
      match ← m.period Period.isPlanned with
      | none => return m
      | some planned =>
        if oldItem.any (movesBack agenda · item) then return m
        if (checkKeeper planned.principal).isSome then
          let (m, _) ← m.dropPlanned
          return m
        m.startPlanned planned oldItem item now

end PeriodHelpers

section Requests

def raiseAny : Option Problem → Except Problem Unit
  | some problem => .error problem
  | none => .ok ()

inductive Mode where
  | now
  | nextItem
  deriving DecidableEq

structure HandOver where
  target : Uuid
  mode : Mode
  /-- The answer of `can_hand_over` for the caller. -/
  mayHandOver : Bool
  checkKeeper : Uuid → Option Problem
  /-- The agenda items in agenda order. -/
  agenda : List Uuid
  now : Time

structure Cancel where
  mayHandOver : Bool
  now : Time

/-- A patch of the meeting. `protokollant` and `currentItem` hold a value when the payload sets the field. -/
structure Patch where
  status : Option MeetingStatus
  protokollant : Option (Option Uuid)
  currentItem : Option (Option Uuid)
  /-- The payload sets another planning field. -/
  otherPlanning : Bool
  /-- The refusal of the rights on the fields. -/
  forbidden : Option Problem
  /-- The refusal of the done mark for the caller. -/
  doneForbidden : Option Problem
  openVote : Bool
  /-- The refusal of the open window. -/
  startRefused : Option Problem
  /-- The refusal of `_apply_public`. -/
  publicRefused : Option Problem
  /-- The refusal of the done mark, or of the times. -/
  planningRefused : Option Problem
  protocolFinal : Bool
  checkKeeper : Uuid → Option Problem
  agenda : List Uuid
  now : Time

def Meeting.liveForHandover (m : Meeting) (mayHandOver : Bool) : Except Problem Unit := do
  raiseUnless mayHandOver (Problem.forbidden (text "only the session lead or the protokollant hands over"))
  raiseUnless (m.status = .live)
    (Problem.conflict (text "the minutes are handed over only while the meeting is live") (text "meeting_not_live"))

def noNextItem (agenda : List Uuid) (currentItem : Option Uuid) : Bool :=
  agenda.isEmpty || (currentItem.isSome && decide (currentItem = agenda.getLast?))

def handOver (m : Meeting) (h : HandOver) : Except Problem Meeting := do
  m.liveForHandover h.mayHandOver
  raiseAny (h.checkKeeper h.target)
  raiseUnless (some h.target ≠ m.protokollant)
    (Problem.conflict (text "this member keeps the minutes already") (text "already_protokollant"))
  match h.mode with
  | .now => m.switchNow h.target h.now
  | .nextItem => do
      raiseUnless (!noNextItem h.agenda m.currentItem)
        (Problem.conflict (text "the current agenda item is the last one — hand over now instead") (text "no_next_item"))
      let (m, _) ← m.dropPlanned
      return m.add ⟨h.target, none, none, none, none⟩

def cancelHandover (m : Meeting) (c : Cancel) : Except Problem Meeting := do
  m.liveForHandover c.mayHandOver
  let (m, planned) ← m.dropPlanned
  raiseUnless planned.isSome
    (Problem.notFound (text "the meeting has no planned handover") (some (text "no_planned_handover")))
  return m

def Meeting.moveCurrent (m : Meeting) (p : Patch) : Except Problem Meeting :=
  match p.currentItem with
  | none => .ok m
  | some item =>
    let moved := { m with currentItem := item }
    if m.status = .live then moved.activatePlanned m.currentItem item p.agenda p.checkKeeper p.now else .ok moved

def Meeting.changeProtokollant (m : Meeting) (p : Patch) : Except Problem Meeting :=
  match p.protokollant with
  | none => .ok m
  | some target => do
      if target = m.protokollant then return m
      raiseUnless (!p.protocolFinal)
        (Problem.conflict (text "protocol is finalized — the protokollant can no longer change") (text "protocol_finalized"))
      match m.status, target with
      | .live, none =>
        .error (.conflict (text "a live meeting needs a protokollant — hand the minutes over instead")
          (text "protokollant_required"))
      | .live, some keeper => do
          raiseAny (p.checkKeeper keeper)
          m.switchNow keeper p.now
      | _, _ => do
          raiseAny (target.bind p.checkKeeper)
          return { m with protokollant := target }

def Patch.changesStatus (p : Patch) (m : Meeting) : Bool := p.status.any (· ≠ m.status)

def Patch.goingLive (p : Patch) (m : Meeting) : Bool := p.changesStatus m && p.status = some .live

def Patch.closing (p : Patch) (m : Meeting) : Bool := p.changesStatus m && p.status = some .closed

/-- The checks of `patch` before its first change. -/
def Patch.check (p : Patch) (m : Meeting) : Except Problem Unit := do
  raiseAny p.forbidden
  raiseUnless (p.currentItem.isNone || m.status ≠ .closed)
    (Problem.conflict (text "the session is closed — it has no current agenda item") (text "meeting_closed"))
  raiseUnless (p.currentItem.all (·.all (· ∈ p.agenda)))
    (Problem.notFound (text "agenda item " ++ ((p.currentItem.bind id).elim [] Uuid.text) ++
      text " not found in this meeting") none)
  raiseAny p.doneForbidden
  raiseUnless (!p.changesStatus m || p.status.all (allowedTransition m.status))
    (Problem.conflict (text "a meeting cannot change from " ++ m.status.text ++ text " to " ++
      p.status.elim [] MeetingStatus.text ++ text "; the status runs planned, live, closed")
      (text "invalid_status_transition"))
  raiseUnless (!p.closing m || !p.openVote)
    (Problem.conflict (text "a vote of this meeting is still open — close or cancel it first") (text "open_vote"))
  raiseUnless (m.status ≠ .closed || !(p.otherPlanning || p.protokollant.isSome))
    (Problem.conflict (text "the session is closed — its settings can no longer be changed") (text "meeting_closed"))
  raiseAny (if p.goingLive m then p.startRefused else none)
  raiseAny p.publicRefused

def Meeting.start (m : Meeting) (now : Time) : Except Problem Meeting := do
  raiseUnless m.protokollant.isSome
    (Problem.conflict (text "assign a protokollant before starting the meeting") (text "protokollant_missing"))
  { m with startedAt := some (m.startedAt.getD now) }.openFirstPeriod now

/-- The part of `_close` on the meeting row and the periods. -/
def Meeting.close (m : Meeting) (now : Time) : Except Problem Meeting := do
  let m ← m.closePeriods now
  return { m with closedAt := some now }

def Meeting.enter (m : Meeting) (goingLive closing : Bool) (now : Time) : Except Problem Meeting :=
  if goingLive then m.start now else if closing then m.close now else .ok m

def patch (m : Meeting) (p : Patch) : Except Problem Meeting := do
  p.check m
  let moved ← m.moveCurrent p
  raiseAny p.planningRefused
  let changed ← moved.changeProtokollant p
  let entered ← changed.enter (p.goingLive m) (p.closing m) p.now
  return { entered with status := p.status.getD m.status }

inductive Op where
  | patch (p : Patch)
  | handOver (h : HandOver)
  | cancelHandover (c : Cancel)

def Op.now : Op → Time
  | .patch p => p.now
  | .handOver h => h.now
  | .cancelHandover c => c.now

def Op.answer (m : Meeting) : Op → Except Problem Meeting
  | .patch p => Handover.patch m p
  | .handOver h => Handover.handOver m h
  | .cancelHandover c => Handover.cancelHandover m c

def step (m : Meeting) (op : Op) : Meeting := (op.answer m).toOption.getD m

end Requests

section Shape

/-- A period ends where the next one starts, and never before its own start. -/
def Follows (p q : Period) : Prop := ∃ a b, p.fromAt = some a ∧ q.fromAt = some b ∧ p.toAt = some (max b a)

/-- The periods of a meeting with a keeper, in the order in which they were added. -/
structure Keeps (m : Meeting) (done : List Period) (running : Period) (plan : Option Period) : Prop where
  rows : m.periods = done ++ running :: plan.toList
  ended : ∀ p ∈ done, p.fromAt.isSome ∧ p.toAt.isSome
  begun : running.fromAt.isSome
  lasts : running.toAt = none
  planned : ∀ p ∈ plan, p.fromAt = none ∧ p.toAt = none
  keeper : m.protokollant = some running.principal
  chain : (done ++ [running]).IsChain Follows

def HasKeeper (m : Meeting) : Prop := ∃ done running plan, Keeps m done running plan

def AllEnded (m : Meeting) : Prop :=
  (∀ p ∈ m.periods, p.fromAt.isSome ∧ p.toAt.isSome) ∧ m.periods.IsChain Follows

def Meeting.starts (m : Meeting) : List Time := m.periods.filterMap (·.fromAt)

def Grows (now : Time) (m m' : Meeting) : Prop := ∃ k, m'.starts = m.starts ++ List.replicate k now

theorem Grows.refl (now : Time) (m : Meeting) : Grows now m m := ⟨0, by simp⟩

variable {now : Time} {m' m₁ m₂ m₃ : Meeting} {p : Period} {rows : List Period}

theorem Grows.of_periods {m : Meeting} (h : m'.periods = m.periods) : Grows now m m' :=
  ⟨0, by simp [Meeting.starts, h]⟩

theorem Grows.trans (h₁ : Grows now m₁ m₂) (h₂ : Grows now m₂ m₃) : Grows now m₁ m₃ := by
  obtain ⟨k, hk⟩ := h₁
  obtain ⟨l, hl⟩ := h₂
  exact ⟨k + l, by rw [hl, hk, append_assoc, replicate_append_replicate]⟩

/-- The meeting still has one keeper, and the periods that start do so at this time. -/
structure Continues (now : Time) (m m' : Meeting) : Prop where
  keeper : HasKeeper m'
  grows : Grows now m m'
  status : m'.status = m.status

theorem Continues.refl {m : Meeting} (h : HasKeeper m) (now : Time) : Continues now m m := ⟨h, Grows.refl now m, rfl⟩

theorem Continues.trans (h₁ : Continues now m₁ m₂) (h₂ : Continues now m₂ m₃) : Continues now m₁ m₃ :=
  ⟨h₂.keeper, h₁.grows.trans h₂.grows, h₂.status.trans h₁.status⟩

theorem chain_concat {R : Period → Period → Prop} {done : List Period} :
    (done ++ [p]).IsChain R ↔ done.IsChain R ∧ ∀ x ∈ done.getLast?, R x p := by
  simp [isChain_append]

theorem chain_next {done : List Period} {running next : Period} {item : Option Uuid} (h : (done ++ [running]).IsChain Follows)
    (hbegun : running.fromAt.isSome) (hnext : next.fromAt = some now) :
    (done ++ [running.ended now item] ++ [next]).IsChain Follows := by
  obtain ⟨hdone, hlast⟩ := chain_concat.mp h
  obtain ⟨a, ha⟩ := isSome_iff_exists.mp hbegun
  refine chain_concat.mpr ⟨chain_concat.mpr ⟨hdone, hlast⟩, fun x hx => ?_⟩
  obtain rfl : running.ended now item = x := by simpa using hx
  exact ⟨a, now, ha, hnext, by simp [Period.ended, ha]⟩

theorem map_unchanged {state : Period → Bool} {f : Period → Period} (h : ∀ p ∈ rows, state p = false) :
    rows.map (fun p => if state p then f p else p) = rows :=
  (map_congr_left fun p hp => by simp [h p hp]).trans (map_id' rows)

theorem filter_plan {plan : Option Period} (hrows : ∀ p ∈ rows, p.isPlanned = false)
    (hplan : ∀ p ∈ plan.toList, p.isPlanned = true) : (rows ++ plan.toList).filter Period.isPlanned = plan.toList := by
  have hnone : rows.filter Period.isPlanned = [] := by simpa using hrows
  have hall : plan.toList.filter Period.isPlanned = plan.toList := filter_eq_self.mpr hplan
  rw [filter_append, hnone, hall, nil_append]

theorem filter_kept {plan : Option Period} (hrows : ∀ p ∈ rows, p.isPlanned = false)
    (hplan : ∀ p ∈ plan.toList, p.isPlanned = true) : (rows ++ plan.toList).filter (!·.isPlanned) = rows := by
  have hall : rows.filter (!·.isPlanned) = rows := filter_eq_self.mpr fun p hp => by simp [hrows p hp]
  have hnone : plan.toList.filter (!·.isPlanned) = [] := filter_eq_nil_iff.mpr fun p hp => by simp [hplan p hp]
  rw [filter_append, hall, hnone, append_nil]

theorem dropPlanned_rows {m : Meeting} {plan : Option Period} (hm : m.periods = rows ++ plan.toList)
    (hrows : ∀ p ∈ rows, p.isPlanned = false) (hplan : ∀ p ∈ plan.toList, p.isPlanned = true) :
    m.dropPlanned = .ok ({ m with periods := rows }, plan) := by
  have hfilter : m.periods.filter Period.isPlanned = plan.toList := hm ▸ filter_plan hrows hplan
  cases plan with
  | none =>
    obtain rfl : m.periods = rows := by simpa using hm
    simp [Meeting.dropPlanned, Meeting.period, hfilter, bind, Except.bind, pure, Except.pure]
  | some p =>
    have hkept : m.periods.filter (!·.isPlanned) = rows := hm ▸ filter_kept hrows hplan
    simp [Meeting.dropPlanned, Meeting.period, hfilter, hkept, bind, Except.bind, pure, Except.pure]

namespace Keeps
open List Option

variable {m : Meeting} {done : List Period} {running : Period} {plan : Option Period}

theorem done_not_running (h : Keeps m done running plan) (hp : p ∈ done) : p.isRunning = false := by
  obtain ⟨b, hb⟩ := isSome_iff_exists.mp (h.ended p hp).2
  simp [Period.isRunning, hb]

theorem done_not_planned (h : Keeps m done running plan) (hp : p ∈ done) : p.isPlanned = false := by
  obtain ⟨a, ha⟩ := isSome_iff_exists.mp (h.ended p hp).1
  simp [Period.isPlanned, ha]

theorem running_isRunning (h : Keeps m done running plan) : running.isRunning = true := by
  simp [Period.isRunning, h.begun, h.lasts]

theorem running_not_planned (h : Keeps m done running plan) : running.isPlanned = false := by
  obtain ⟨a, ha⟩ := isSome_iff_exists.mp h.begun
  simp [Period.isPlanned, ha]

theorem kept_not_planned (h : Keeps m done running plan) : ∀ p ∈ done ++ [running], p.isPlanned = false := by
  intro p hp
  rcases mem_append.mp hp with hp | hp
  · exact h.done_not_planned hp
  · obtain rfl := mem_singleton.mp hp
    exact h.running_not_planned

theorem plan_not_running (h : Keeps m done running plan) (hp : p ∈ plan.toList) : p.isRunning = false := by
  simp [Period.isRunning, (h.planned p (by simpa using hp)).1]

theorem plan_isPlanned (h : Keeps m done running plan) (hp : p ∈ plan.toList) : p.isPlanned = true := by
  simp [Period.isPlanned, (h.planned p (by simpa using hp)).1]

theorem filter_running (h : Keeps m done running plan) : m.periods.filter Period.isRunning = [running] := by
  have hdone : done.filter Period.isRunning = [] := by simpa using fun p hp => h.done_not_running hp
  have hplan : plan.toList.filter Period.isRunning = [] := by simpa using fun p hp => h.plan_not_running (by simpa using hp)
  rw [h.rows, filter_append, filter_cons_of_pos h.running_isRunning, hdone, hplan, nil_append]

theorem filter_planned (h : Keeps m done running plan) : m.periods.filter Period.isPlanned = plan.toList := by
  rw [h.rows, ← singleton_append, ← append_assoc]
  exact filter_plan h.kept_not_planned fun p => h.plan_isPlanned

theorem period_running (h : Keeps m done running plan) : m.period Period.isRunning = .ok (some running) := by
  simp [Meeting.period, h.filter_running]

theorem period_planned (h : Keeps m done running plan) : m.period Period.isPlanned = .ok plan := by
  cases plan <;> simp [Meeting.period, h.filter_planned]

theorem withoutPlan (h : Keeps m done running plan) : Keeps { m with periods := done ++ [running] } done running none :=
  ⟨rfl, h.ended, h.begun, h.lasts, by simp, h.keeper, h.chain⟩

theorem dropPlanned (h : Keeps m done running plan) :
    m.dropPlanned = .ok ({ m with periods := done ++ [running] }, plan) :=
  dropPlanned_rows (by simpa using h.rows) h.kept_not_planned fun p => h.plan_isPlanned

theorem endRunning (h : Keeps m done running plan) (now : Time) (item : Option Uuid) :
    m.endRunning now item = .ok { m with periods := done ++ running.ended now item :: plan.toList } := by
  simp only [Meeting.endRunning, h.period_running, Meeting.change, h.rows, map_append, map_cons,
    map_unchanged fun p => h.done_not_running, map_unchanged fun p => h.plan_not_running, h.running_isRunning, if_true]
  rfl

theorem starts (h : Keeps m done running plan) : m.starts = done.filterMap (·.fromAt) ++ running.fromAt.toList := by
  obtain ⟨a, ha⟩ := isSome_iff_exists.mp h.begun
  cases plan with
  | none => simp [Meeting.starts, h.rows, ha]
  | some p => simp [Meeting.starts, h.rows, ha, (h.planned p rfl).1]

theorem next (h : Keeps m done running plan) (p : Period) (item : Option Uuid)
    (hrows : m'.periods = done ++ [running.ended now item] ++ [p]) (hp : p.fromAt = some now ∧ p.toAt = none)
    (hkeeper : m'.protokollant = some p.principal) (hstatus : m'.status = m.status) : Continues now m m' := by
  obtain ⟨a, ha⟩ := isSome_iff_exists.mp h.begun
  have hended : (running.ended now item).fromAt.isSome ∧ (running.ended now item).toAt.isSome := by
    simp [Period.ended, ha]
  have hkeeps : Keeps m' (done ++ [running.ended now item]) p none :=
    { rows := by simpa using hrows
      ended := by
        intro q hq
        rcases mem_append.mp hq with hq | hq
        · exact h.ended q hq
        · obtain rfl := mem_singleton.mp hq
          exact hended
      begun := by simp [hp.1]
      lasts := hp.2
      planned := by simp
      keeper := hkeeper
      chain := chain_next h.chain h.begun hp.1 }
  refine ⟨⟨_, _, _, hkeeps⟩, ⟨1, ?_⟩, hstatus⟩
  rw [hkeeps.starts, h.starts]
  simp [Period.ended, ha, hp.1]

theorem replan (h : Keeps m done running plan) (now : Time) (plan' : Option Period)
    (hrows : m'.periods = done ++ running :: plan'.toList) (hplan : ∀ p ∈ plan', p.fromAt = none ∧ p.toAt = none)
    (hkeeper : m'.protokollant = m.protokollant) (hstatus : m'.status = m.status) : Continues now m m' := by
  have hkeeps : Keeps m' done running plan' :=
    ⟨hrows, h.ended, h.begun, h.lasts, hplan, hkeeper.trans h.keeper, h.chain⟩
  refine ⟨⟨_, _, _, hkeeps⟩, ⟨0, ?_⟩, hstatus⟩
  rw [hkeeps.starts, h.starts]
  simp

end Keeps

end Shape

section Steps

variable {m m' : Meeting} {now : Time}
variable {p : Patch}

theorem switchNow_continues {keeper : Uuid} (h : HasKeeper m) (hop : m.switchNow keeper now = .ok m') :
    Continues now m m' := by
  obtain ⟨done, running, plan, h⟩ := h
  simp only [Meeting.switchNow, h.dropPlanned, bind, Except.bind, h.withoutPlan.endRunning] at hop
  cases hop
  exact h.next (m.startedPeriod keeper now) m.currentItem (by simp [Meeting.add, Meeting.startedPeriod]) ⟨rfl, rfl⟩ rfl rfl

theorem startPlanned_continues {planned : Period} {oldItem : Option Uuid} {newItem : Uuid} {done : List Period}
    {running : Period} (h : Keeps m done running (some planned))
    (hop : m.startPlanned planned oldItem newItem now = .ok m') : Continues now m m' := by
  obtain ⟨a, ha⟩ := isSome_iff_exists.mp h.begun
  simp only [Meeting.startPlanned, bind, Except.bind, h.endRunning] at hop
  cases hop
  have hended : (running.ended now oldItem).isPlanned = false := by simp [Period.isPlanned, Period.ended, ha]
  have hplanned : planned.isPlanned = true := h.plan_isPlanned (by simp)
  refine h.next (planned.started now newItem) oldItem ?_ ⟨rfl, (h.planned planned rfl).2⟩ rfl rfl
  simp [Meeting.change, map_unchanged fun p => h.done_not_planned, hended, hplanned]

theorem activatePlanned_continues {oldItem newItem : Option Uuid} {agenda : List Uuid}
    {checkKeeper : Uuid → Option Problem} (h : HasKeeper m)
    (hop : m.activatePlanned oldItem newItem agenda checkKeeper now = .ok m') : Continues now m m' := by
  have hsame := Continues.refl h now
  obtain ⟨done, running, plan, h⟩ := h
  cases newItem with
  | none =>
    cases hop
    exact hsame
  | some item =>
    simp only [Meeting.activatePlanned, h.period_planned, h.dropPlanned, bind, Except.bind, pure, Except.pure] at hop
    split at hop
    · cases hop
      exact hsame
    · cases plan with
      | none =>
        cases hop
        exact hsame
      | some planned =>
        simp only at hop
        split at hop
        · cases hop
          exact hsame
        · split at hop
          · cases hop
            exact h.replan now none rfl (by simp) rfl rfl
          · exact startPlanned_continues h hop

theorem liveForHandover_live {may : Bool} {u : Unit} (h : m.liveForHandover may = .ok u) : m.status = .live := by
  simp only [Meeting.liveForHandover, bind_ok, raiseUnless_ok, exists_const] at h
  simpa using h.2

theorem handOver_continues {req : HandOver} (hm : HasKeeper m) (hop : handOver m req = .ok m') :
    Continues req.now m m' := by
  obtain ⟨_, _, hop⟩ := bind_ok.mp hop
  obtain ⟨_, _, hop⟩ := bind_ok.mp hop
  obtain ⟨_, _, hop⟩ := bind_ok.mp hop
  cases hmode : req.mode with
  | now =>
    simp only [hmode] at hop
    exact switchNow_continues hm hop
  | nextItem =>
    simp only [hmode] at hop
    obtain ⟨_, _, hop⟩ := bind_ok.mp hop
    obtain ⟨done, running, plan, h⟩ := hm
    simp only [h.dropPlanned, bind, Except.bind] at hop
    cases hop
    exact h.replan req.now (some ⟨req.target, none, none, none, none⟩) (by simp [Meeting.add]) (by simp) rfl rfl

theorem cancelHandover_continues {c : Cancel} (hm : HasKeeper m) (hop : cancelHandover m c = .ok m') :
    Continues c.now m m' := by
  obtain ⟨_, _, hop⟩ := bind_ok.mp hop
  obtain ⟨done, running, plan, h⟩ := hm
  obtain ⟨x, hx, hop⟩ := bind_ok.mp hop
  cases h.dropPlanned.symm.trans hx
  obtain ⟨_, _, hop⟩ := bind_ok.mp hop
  cases hop
  exact h.replan c.now none rfl (by simp) rfl rfl

theorem handover_live {op : Op} (hop : op.answer m = .ok m') (hpatch : ∀ p, op ≠ .patch p) : m.status = .live := by
  cases op with
  | patch p => exact absurd rfl (hpatch p)
  | handOver req =>
    obtain ⟨_, hlive, _⟩ := bind_ok.mp hop
    exact liveForHandover_live hlive
  | cancelHandover c =>
    obtain ⟨_, hlive, _⟩ := bind_ok.mp hop
    exact liveForHandover_live hlive

theorem moveCurrent_continues (hlive : m.status = .live) (h : HasKeeper m) (hop : m.moveCurrent p = .ok m') :
    Continues p.now m m' := by
  unfold Meeting.moveCurrent at hop
  cases hitem : p.currentItem with
  | none =>
    simp only [hitem] at hop
    cases hop
    exact Continues.refl h p.now
  | some item =>
    obtain ⟨done, running, plan, hk⟩ := h
    simp only [hitem, if_pos hlive] at hop
    have hmoved : HasKeeper { m with currentItem := item } :=
      ⟨done, running, plan, hk.rows, hk.ended, hk.begun, hk.lasts, hk.planned, hk.keeper, hk.chain⟩
    have hnext := activatePlanned_continues hmoved hop
    exact ⟨hnext.keeper, hnext.grows, hnext.status⟩

theorem changeProtokollant_continues (hlive : m.status = .live) (h : HasKeeper m) (hop : m.changeProtokollant p = .ok m') :
    Continues p.now m m' := by
  unfold Meeting.changeProtokollant at hop
  cases htarget : p.protokollant with
  | none =>
    simp only [htarget] at hop
    cases hop
    exact Continues.refl h p.now
  | some target =>
    simp only [htarget] at hop
    split at hop
    · cases hop
      exact Continues.refl h p.now
    · obtain ⟨_, _, hop⟩ := bind_ok.mp hop
      cases target with
      | none => simp [hlive] at hop
      | some keeper =>
        simp only [hlive] at hop
        obtain ⟨_, _, hop⟩ := bind_ok.mp hop
        exact switchNow_continues h hop

theorem moveCurrent_idle (hlive : m.status ≠ .live) (hop : m.moveCurrent p = .ok m') :
    m'.periods = m.periods ∧ m'.status = m.status := by
  unfold Meeting.moveCurrent at hop
  cases hitem : p.currentItem with
  | none =>
    simp only [hitem] at hop
    cases hop
    exact ⟨rfl, rfl⟩
  | some item =>
    simp only [hitem, hlive, if_false] at hop
    cases hop
    exact ⟨rfl, rfl⟩

theorem changeProtokollant_idle (hlive : m.status ≠ .live) (hop : m.changeProtokollant p = .ok m') :
    m'.periods = m.periods ∧ m'.status = m.status := by
  unfold Meeting.changeProtokollant at hop
  cases htarget : p.protokollant with
  | none =>
    simp only [htarget] at hop
    cases hop
    exact ⟨rfl, rfl⟩
  | some target =>
    simp only [htarget] at hop
    split at hop
    · cases hop
      exact ⟨rfl, rfl⟩
    · obtain ⟨_, _, hop⟩ := bind_ok.mp hop
      split at hop
      · cases hop
      · exact absurd ‹_› hlive
      · obtain ⟨_, _, hop⟩ := bind_ok.mp hop
        cases hop
        exact ⟨rfl, rfl⟩

theorem start_keeps {m m' : Meeting} {now : Time} (hrows : m.periods = []) (hop : m.start now = .ok m') :
    HasKeeper m' ∧ Grows now m m' := by
  obtain ⟨_, hsome, hop⟩ := bind_ok.mp hop
  obtain ⟨keeper, hkeeper⟩ := isSome_iff_exists.mp (by simpa using hsome)
  have hnone : m.periods.filter Period.isRunning = [] := by simp [hrows]
  simp only [Meeting.openFirstPeriod, hkeeper, Meeting.period, hnone, bind, Except.bind, pure, Except.pure] at hop
  cases hop
  refine ⟨⟨[], m.startedPeriod keeper now, none, ?_⟩, 1, ?_⟩
  · exact ⟨by simp [Meeting.add, hrows, Meeting.startedPeriod], by simp, by simp [Meeting.startedPeriod], rfl, by simp, by
      simp [Meeting.add, Meeting.startedPeriod], by simp⟩
  · simp [Meeting.starts, Meeting.add, hrows, Meeting.startedPeriod]

theorem close_ends {m m' : Meeting} {now : Time} (h : HasKeeper m) (hop : m.close now = .ok m') :
    AllEnded m' ∧ Grows now m m' := by
  obtain ⟨done, running, plan, h⟩ := h
  obtain ⟨a, ha⟩ := isSome_iff_exists.mp h.begun
  let ending := running.ended now m.currentItem
  have hended : ∀ p ∈ done ++ [ending], p.fromAt.isSome ∧ p.toAt.isSome := by
    intro p hp
    rcases mem_append.mp hp with hp | hp
    · exact h.ended p hp
    · obtain rfl := mem_singleton.mp hp
      simp [ending, Period.ended, ha]
  have hdrop : Meeting.dropPlanned { m with periods := done ++ ending :: plan.toList } =
      .ok ({ m with periods := done ++ [ending] }, plan) := dropPlanned_rows (by simp) (fun p hp => by simp [Period.isPlanned, (hended p hp).1]) fun p => h.plan_isPlanned
  simp only [Meeting.close, Meeting.closePeriods, bind, Except.bind, h.endRunning, ending] at hop hdrop
  rw [hdrop] at hop
  cases hop
  obtain ⟨hdone, hlast⟩ := chain_concat.mp h.chain
  refine ⟨⟨hended, chain_concat.mpr ⟨hdone, hlast⟩⟩, 0, ?_⟩
  rw [h.starts]
  simp [Meeting.starts, Period.ended, ha]

def Inv (m : Meeting) : Prop :=
  match m.status with
  | .planned => m.periods = []
  | .live => HasKeeper m
  | .closed => AllEnded m

theorem inv_live {m : Meeting} (hlive : m.status = .live) : Inv m ↔ HasKeeper m := by
  simp [Inv, hlive]

theorem HasKeeper.withStatus {m : Meeting} (h : HasKeeper m) (status : MeetingStatus) :
    HasKeeper { m with status := status } := by
  obtain ⟨done, running, plan, h⟩ := h
  exact ⟨done, running, plan, h.rows, h.ended, h.begun, h.lasts, h.planned, h.keeper, h.chain⟩

theorem inv_of_periods {m m' : Meeting} (h : Inv m) (hlive : m.status ≠ .live) (hrows : m'.periods = m.periods)
    (hstatus : m'.status = m.status) : Inv m' := by
  cases hm : m.status with
  | planned => simpa [Inv, hm, hstatus, hrows] using h
  | live => exact absurd hm hlive
  | closed => simpa [Inv, hm, hstatus, hrows, AllEnded] using h

theorem check_status {m : Meeting} {u : Unit} (h : p.check m = .ok u) :
    (p.status.getD m.status = m.status ∧ p.goingLive m = false ∧ p.closing m = false) ∨
    (m.status = .planned ∧ p.status = some .live ∧ p.goingLive m = true) ∨
    (m.status = .live ∧ p.status = some .closed ∧ p.goingLive m = false ∧ p.closing m = true) := by
  simp only [Patch.check, bind_ok, raiseUnless_ok, exists_const] at h
  obtain ⟨_, _, _, _, hallowed, _⟩ := h
  cases hstatus : p.status with
  | none => simp [Patch.goingLive, Patch.closing, Patch.changesStatus, hstatus]
  | some target =>
    cases hm : m.status <;> cases target <;>
      simp_all [Patch.goingLive, Patch.closing, Patch.changesStatus, allowedTransition]

theorem patch_inv {m m' : Meeting} (h : Inv m) (hop : patch m p = .ok m') : Inv m' ∧ Grows p.now m m' := by
  obtain ⟨_, hcheck, hop⟩ := bind_ok.mp hop
  obtain ⟨moved, hmoved, hop⟩ := bind_ok.mp hop
  obtain ⟨_, _, hop⟩ := bind_ok.mp hop
  obtain ⟨changed, hchanged, hop⟩ := bind_ok.mp hop
  obtain ⟨entered, hentered, hop⟩ := bind_ok.mp hop
  cases hop
  unfold Meeting.enter at hentered
  by_cases hlive : m.status = .live
  · have hkeeper : HasKeeper m := (inv_live hlive).mp h
    have hmove := moveCurrent_continues hlive hkeeper hmoved
    have hchange := hmove.trans (changeProtokollant_continues (hmove.status.trans hlive) hmove.keeper hchanged)
    rcases check_status hcheck with ⟨hstatus, hgoing, hclosing⟩ | ⟨hplanned, _⟩ | ⟨_, hstatus, hgoing, hclosing⟩
    · simp only [hgoing, hclosing] at hentered
      cases hentered
      exact ⟨(inv_live (hstatus.trans hlive)).mpr (hchange.keeper.withStatus _), hchange.grows⟩
    · simp [hlive] at hplanned
    · simp only [hgoing, hclosing, if_true] at hentered
      obtain ⟨hended, hgrows⟩ := close_ends hchange.keeper hentered
      exact ⟨by rw [hstatus]; exact hended, hchange.grows.trans hgrows⟩
  · obtain ⟨hrows, hsame⟩ := moveCurrent_idle hlive hmoved
    obtain ⟨hrows', hsame'⟩ := changeProtokollant_idle (hsame ▸ hlive) hchanged
    have hrows := hrows'.trans hrows
    have hsame := hsame'.trans hsame
    rcases check_status hcheck with ⟨hstatus, hgoing, hclosing⟩ | ⟨hplanned, hstatus, hgoing⟩ | ⟨hm, _⟩
    · simp only [hgoing, hclosing] at hentered
      cases hentered
      exact ⟨inv_of_periods h hlive hrows hstatus, Grows.of_periods hrows⟩
    · have hnone : m.periods = [] := by simpa [Inv, hplanned] using h
      simp only [hgoing, if_true] at hentered
      obtain ⟨hkeeper, hgrows⟩ := start_keeps (hrows.trans hnone) hentered
      exact ⟨by rw [hstatus]; exact hkeeper.withStatus _, (Grows.of_periods hrows).trans hgrows⟩
    · exact absurd hm hlive

theorem step_inv {m : Meeting} (op : Op) (h : Inv m) : Inv (step m op) ∧ Grows op.now m (step m op) := by
  unfold step
  cases hop : op.answer m with
  | error problem => exact ⟨h, Grows.refl op.now m⟩
  | ok m' =>
    cases op with
    | patch p => exact patch_inv h hop
    | handOver req =>
      have hlive : m.status = .live := handover_live hop (by simp)
      have hnext := handOver_continues ((inv_live hlive).mp h) hop
      exact ⟨(inv_live (hnext.status.trans hlive)).mpr hnext.keeper, hnext.grows⟩
    | cancelHandover c =>
      have hlive : m.status = .live := handover_live hop (by simp)
      have hnext := cancelHandover_continues ((inv_live hlive).mp h) hop
      exact ⟨(inv_live (hnext.status.trans hlive)).mpr hnext.keeper, hnext.grows⟩

end Steps

section Runs

def run (m : Meeting) (ops : List Op) : Meeting := ops.foldl step m

variable {m : Meeting}

theorem run_inv (h : Inv m) (ops : List Op) : Inv (run m ops) := by
  induction ops generalizing m with
  | nil => exact h
  | cons op ops ih => exact ih (step_inv op h).1

theorem run_starts (h : Inv m) {ops : List Op} (hclock : (ops.map Op.now).Pairwise (· ≤ ·)) (hsorted : m.starts.Pairwise (· ≤ ·))
    (hpast : ∀ a ∈ m.starts, ∀ op ∈ ops, a ≤ op.now) : (run m ops).starts.Pairwise (· ≤ ·) := by
  induction ops generalizing m with
  | nil => exact hsorted
  | cons op ops ih =>
    obtain ⟨hnow, hclock⟩ := pairwise_cons.mp hclock
    obtain ⟨hinv, k, hk⟩ := step_inv op h
    refine ih hinv hclock ?_ ?_
    · rw [hk, pairwise_append]
      refine ⟨hsorted, pairwise_replicate_of_refl, fun a ha b hb => ?_⟩
      obtain rfl := eq_of_mem_replicate hb
      exact hpast a ha op mem_cons_self
    · intro a ha op' hop'
      rw [hk] at ha
      rcases mem_append.mp ha with ha | ha
      · exact hpast a ha op' (mem_cons_of_mem op hop')
      · obtain rfl := eq_of_mem_replicate ha
        exact hnow op'.now (mem_map_of_mem hop')

def inStartOrder (periods : List Period) : List Period :=
  (periods.filter (·.fromAt.isSome)).insertionSort fun p q => p.fromAt.getD 0 ≤ q.fromAt.getD 0

/-- Each period ends at the instant where the next one starts. -/
def Contiguous (periods : List Period) : Prop :=
  periods.IsChain fun p q => ∃ t, p.toAt = some t ∧ q.fromAt = some t

def NonOverlapping (periods : List Period) : Prop :=
  periods.Pairwise fun p q => ∃ t s, p.toAt = some t ∧ q.fromAt = some s ∧ t ≤ s

theorem contiguous_of_follows {periods : List Period} (hchain : periods.IsChain Follows)
    (hsorted : periods.Pairwise fun p q => p.fromAt.getD 0 ≤ q.fromAt.getD 0) : Contiguous periods := by
  induction periods with
  | nil => exact .nil
  | cons p rest ih =>
    cases rest with
    | nil => exact .singleton p
    | cons q rest =>
      obtain ⟨⟨a, b, ha, hb, ht⟩, hrest⟩ := isChain_cons_cons.mp hchain
      obtain ⟨hle, hsorted⟩ := pairwise_cons.mp hsorted
      have hab : a ≤ b := by simpa [ha, hb] using hle q mem_cons_self
      refine isChain_cons_cons.mpr ⟨⟨b, ?_, hb⟩, ih hrest hsorted⟩
      rw [ht, max_eq_left hab]

theorem nonOverlapping_of_contiguous {periods : List Period} (hchain : Contiguous periods)
    (hstarted : ∀ p ∈ periods, p.fromAt.isSome)
    (hsorted : periods.Pairwise fun p q => p.fromAt.getD 0 ≤ q.fromAt.getD 0) : NonOverlapping periods := by
  induction periods with
  | nil => exact .nil
  | cons p rest ih =>
    obtain ⟨hle, hrest⟩ := pairwise_cons.mp hsorted
    have htail := ih hchain.tail (fun q hq => hstarted q (mem_cons_of_mem p hq)) hrest
    refine pairwise_cons.mpr ⟨fun x hx => ?_, htail⟩
    cases rest with
    | nil => cases hx
    | cons q rest =>
      obtain ⟨⟨t, ht, hq⟩, _⟩ := isChain_cons_cons.mp hchain
      obtain ⟨s, hs⟩ := isSome_iff_exists.mp (hstarted x (mem_cons_of_mem p hx))
      refine ⟨t, s, ht, hs, ?_⟩
      -- the period ends with the start of its successor, and no later one starts before that
      rcases mem_cons.mp hx with rfl | hx
      · exact (Option.some.inj (hq.symm.trans hs)).le
      · simpa [hq, hs] using (pairwise_cons.mp hrest).1 x hx

theorem started_starts (periods : List Period) :
    (periods.filter (·.fromAt.isSome)).map (·.fromAt.getD 0) = periods.filterMap (·.fromAt) := by
  induction periods with
  | nil => rfl
  | cons p rest ih => cases hp : p.fromAt <;> simp [hp, ih]

theorem started_follow (h : Inv m) : (m.periods.filter (·.fromAt.isSome)).IsChain Follows := by
  cases hm : m.status with
  | planned =>
    have hrows : m.periods = [] := by simpa [Inv, hm] using h
    simp [hrows]
  | live =>
    obtain ⟨done, running, plan, hk⟩ := (inv_live hm).mp h
    have hkept := filter_kept hk.kept_not_planned fun p => hk.plan_isPlanned
    simp only [Period.isPlanned, not_isNone, append_assoc, singleton_append, ← hk.rows] at hkept
    exact hkept ▸ hk.chain
  | closed =>
    obtain ⟨hended, hchain⟩ : AllEnded m := by simpa [Inv, hm] using h
    rwa [filter_eq_self.mpr fun p hp => (hended p hp).1]

theorem timeline (h : Inv m) (hstarts : m.starts.Pairwise (· ≤ ·)) :
    Contiguous (inStartOrder m.periods) ∧ NonOverlapping (inStartOrder m.periods) := by
  have hsorted : (m.periods.filter (·.fromAt.isSome)).Pairwise fun p q => p.fromAt.getD 0 ≤ q.fromAt.getD 0 := by
    refine pairwise_map (f := fun p : Period => p.fromAt.getD 0).mp ?_
    rwa [started_starts]
  unfold inStartOrder
  rw [hsorted.insertionSort_eq]
  have hchain := contiguous_of_follows (started_follow h) hsorted
  exact ⟨hchain, nonOverlapping_of_contiguous hchain (fun p hp => (mem_filter.mp hp).2) hsorted⟩

/-- The keeper periods after any sequence of requests on a new meeting. -/
theorem keeper_periods (protokollant : Option Uuid) (ops : List Op) :
    let m := run (Meeting.created protokollant) ops
    (m.status = .live →
      (∃ p, m.periods.filter Period.isRunning = [p] ∧ m.protokollant = some p.principal) ∧
      (m.periods.filter Period.isPlanned).length ≤ 1) ∧
    (m.status = .planned → m.periods = []) ∧
    (m.status = .closed → ∀ p ∈ m.periods, p.isRunning = false ∧ p.isPlanned = false) ∧
    ((ops.map Op.now).Pairwise (· ≤ ·) →
      Contiguous (inStartOrder m.periods) ∧ NonOverlapping (inStartOrder m.periods)) := by
  have hcreated : Inv (Meeting.created protokollant) := rfl
  have hinv := run_inv hcreated ops
  refine ⟨fun hlive => ?_, fun hplanned => by simpa [Inv, hplanned] using hinv, fun hclosed p hp => ?_, fun hclock => ?_⟩
  · obtain ⟨done, running, plan, h⟩ := (inv_live hlive).mp hinv
    refine ⟨⟨running, h.filter_running, h.keeper⟩, ?_⟩
    rw [h.filter_planned]
    cases plan <;> simp
  · have hended : AllEnded (run (Meeting.created protokollant) ops) := by simpa [Inv, hclosed] using hinv
    obtain ⟨hfrom, hto⟩ := hended.1 p hp
    exact ⟨by simp [Period.isRunning, hfrom, hto], by simp [Period.isPlanned, hfrom]⟩
  · exact timeline hinv (run_starts hcreated hclock .nil (by simp [Meeting.starts, Meeting.created]))

def oneHandover : List Op :=
  let patch := fun (status : Option MeetingStatus) (currentItem : Option (Option Uuid)) (now : Time) =>
    Op.patch ⟨status, none, currentItem, false, none, none, false, none, none, none, false, fun _ => none, [7, 8], now⟩
  [patch (some .live) (some (some 7)) 10, .handOver ⟨2, .nextItem, true, fun _ => none, [7, 8], 20⟩,
    patch none (some (some 8)) 30, patch (some .closed) none 40]

theorem oneHandover_contiguous :
    (run (Meeting.created (some 1)) oneHandover).periods =
      [⟨1, some 10, some 30, some 7, some 7⟩, ⟨2, some 30, some 40, some 8, some 8⟩] ∧
    Contiguous (inStartOrder (run (Meeting.created (some 1)) oneHandover).periods) :=
  ⟨by decide, ((keeper_periods (some 1) oneHandover).2.2.2 (by decide)).1⟩

end Runs

end Handover
