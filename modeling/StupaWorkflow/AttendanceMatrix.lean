import Mathlib.Algebra.GroupWithZero.Nat
import StupaWorkflow.Tables

/-!
The attendance of a Gremium as the matrix counts it, by principal and month, and as the list of one
principal and one month shows it.
-/
namespace Gremien
open List

abbrev Uuid := ℕ

section Rows

/-- A date by its month, counted from year 0, and its day. -/
structure Date where
  month : ℕ
  day : ℕ
  valid : 1 ≤ day ∧ day ≤ 31

def Date.number (d : Date) : ℕ := 32 * d.month + d.day

/-- The first day of a month. -/
def firstOf (month : ℕ) : Date := ⟨month, 1, by decide⟩

theorem firstOf_number (month : ℕ) : (firstOf month).number = 32 * month + 1 := rfl

structure Meeting where
  id : Uuid
  gremium : Uuid
  closed : Bool
  date : Option Date

inductive Status where
  | present
  | excused
  | absent
  deriving DecidableEq

structure Record where
  meeting : Uuid
  principal : Uuid
  status : Status

structure Delegation where
  meeting : Uuid
  delegator : Uuid
  delegate : Uuid
  voting : Bool
  viaPool : Bool

abbrev Record.key (r : Record) : Uuid × Uuid := (r.meeting, r.principal)

abbrev Delegation.key (d : Delegation) : Uuid × Uuid := (d.meeting, d.delegator)

/-- The tables with their unique constraints; a membership is a Gremium and a principal. -/
structure Rows where
  meetings : List Meeting
  records : List Record
  delegations : List Delegation
  members : List (Uuid × Uuid)
  meetingIds : (meetings.map Meeting.id).Nodup
  recordKeys : (records.map Record.key).Nodup
  delegationKeys : (delegations.map Delegation.key).Nodup

end Rows

section Writes

/-- An upsert: the row in place of the one with its key. -/
def put {α κ : Type} [DecidableEq κ] (key : α → κ) (row : α) (rows : List α) : List α :=
  rows.filter (fun r => key r ≠ key row) ++ [row]

theorem put_nodup {α κ : Type} [DecidableEq κ] {key : α → κ} {rows : List α} (h : (rows.map key).Nodup) (row : α) :
    ((put key row rows).map key).Nodup :=
  Table.nodup_insert (h.sublist (filter_sublist.map key)) fun _ hr => of_decide_eq_true (mem_filter.mp hr).2

theorem filter_nodup {α κ : Type} {key : α → κ} {rows : List α} (h : (rows.map key).Nodup) (p : α → Bool) :
    ((rows.filter p).map key).Nodup := h.sublist (filter_sublist.map key)

/-- What the operations on meetings, attendance, delegations and memberships write. -/
inductive Event where
  | meeting (m : Meeting)
  | attend (r : Record)
  | withdraw (meeting principal : Uuid)
  | delegate (d : Delegation)
  | revoke (meeting delegator : Uuid)
  | join (gremium principal : Uuid)
  | leave (gremium principal : Uuid)

def step (T : Rows) : Event → Rows
  | .meeting m => { T with meetings := put Meeting.id m T.meetings, meetingIds := put_nodup T.meetingIds m }
  | .attend r => { T with records := put Record.key r T.records, recordKeys := put_nodup T.recordKeys r }
  | .withdraw meeting principal =>
    { T with
      records := T.records.filter fun r => r.key ≠ (meeting, principal)
      recordKeys := filter_nodup T.recordKeys _ }
  | .delegate d =>
    { T with delegations := put Delegation.key d T.delegations, delegationKeys := put_nodup T.delegationKeys d }
  | .revoke meeting delegator =>
    { T with
      delegations := T.delegations.filter fun d => d.key ≠ (meeting, delegator)
      delegationKeys := filter_nodup T.delegationKeys _ }
  | .join gremium principal => { T with members := (gremium, principal) :: T.members }
  | .leave gremium principal => { T with members := T.members.filter (· ≠ (gremium, principal)) }

def start : Rows := ⟨[], [], [], [], nodup_nil, nodup_nil, nodup_nil⟩

end Writes

section Reads

variable (T : Rows) (g : Uuid)

/-- `_closed_in`. -/
def closedIn (first after : Date) (m : Meeting) : Bool :=
  m.gremium = g && m.closed && m.date.any fun d => first.number ≤ d.number && d.number < after.number

/-- A row of the union: a principal, a month and what it counts. -/
structure Entry where
  principal : Uuid
  month : ℕ
  present : Bool
  excused : Bool
  delegated : Bool

/-- The join on a meeting in range, as its month. -/
def Rows.monthIn (first after : Date) (meeting : Uuid) : Option ℕ :=
  ((T.meetings.find? (·.id = meeting)).filter (closedIn g first after)).bind fun m => m.date.map Date.month

def Rows.transferred (meeting principal : Uuid) : Bool :=
  T.delegations.any fun d => d.meeting = meeting && d.delegator = principal && d.voting

/-- A substitute of the pool who is no member. -/
def Rows.poolSubstitute (meeting principal : Uuid) : Bool :=
  (T.delegations.any fun d => d.meeting = meeting && d.delegate = principal && d.viaPool) && !T.members.contains (g, principal)

def Rows.recordEntry (first after : Date) (r : Record) : Option Entry :=
  (T.monthIn g first after r.meeting).map fun month =>
    { principal := r.principal
      month := month
      present := r.status = .present && !T.poolSubstitute g r.meeting r.principal
      excused := r.status = .excused && !T.transferred r.meeting r.principal
      delegated := false }

def Rows.transferEntry (first after : Date) (d : Delegation) : Option Entry :=
  (T.monthIn g first after d.meeting).map fun month => ⟨d.delegator, month, false, false, true⟩

/-- `_attendance_counts` before its `GROUP BY`. -/
def Rows.attendanceCounts (first after : Date) : List Entry :=
  T.records.filterMap (T.recordEntry g first after) ++
    (T.delegations.filter Delegation.voting).filterMap (T.transferEntry g first after)

/-- The sums of the group of a principal and a month, zero without one. -/
def Rows.cell (first after : Date) (principal month : ℕ) : ℕ × ℕ × ℕ :=
  let group := (T.attendanceCounts g first after).filter fun e => e.principal = principal && e.month = month
  ((group.map fun e => e.present.toNat).sum, (group.map fun e => e.excused.toNat).sum, (group.map fun e => e.delegated.toNat).sum)

def Rows.hasRow (first after : Date) (principal : Uuid) : Bool :=
  T.members.contains (g, principal) || (T.attendanceCounts g first after).any fun e => e.principal = principal

def Rows.held (first after : Date) (month : ℕ) : ℕ :=
  (T.meetings.filter fun m => closedIn g first after m && m.date.any fun d => d.month = month).length

inductive AttendanceState where
  | delegated
  | present
  | excused
  | absent
  deriving DecidableEq

def memberState (recorded : Option Status) (delegated : Bool) : AttendanceState :=
  match delegated, recorded with
  | true, _ => .delegated
  | false, some .present => .present
  | false, some .excused => .excused
  | false, _ => .absent

def Rows.recorded (meeting principal : Uuid) : Option Status :=
  (T.records.find? fun r => r.key = (meeting, principal)).map Record.status

/-- The meetings of `member_attendance`, each with the state of the member. -/
def Rows.memberAttendance (principal month : ℕ) : List (Meeting × AttendanceState) :=
  (T.meetings.filter (closedIn g (firstOf month) (firstOf (month + 1)))).map fun m =>
    (m, memberState (T.recorded m.id principal) (T.transferred m.id principal))

def Rows.listed (principal month : ℕ) (s : AttendanceState) : ℕ := (T.memberAttendance g principal month).countP fun x => x.2 = s

/-- The matrix over the months `a` to `b` agrees with the list in each of its cells. -/
def Rows.Matches : Prop :=
  ∀ g a b month principal, a ≤ month → month ≤ b → T.hasRow g (firstOf a) (firstOf (b + 1)) principal = true →
    T.cell g (firstOf a) (firstOf (b + 1)) principal month =
        (T.listed g principal month .present, T.listed g principal month .excused, T.listed g principal month .delegated) ∧
      (T.cell g (firstOf a) (firstOf (b + 1)) principal month).1 + (T.cell g (firstOf a) (firstOf (b + 1)) principal month).2.1 +
        (T.cell g (firstOf a) (firstOf (b + 1)) principal month).2.2 ≤ T.held g (firstOf a) (firstOf (b + 1)) month

/-- The closed meetings of a month in which the matrix alone, or the list alone, counts the principal as present. -/
def Rows.matrixOnly (principal month : ℕ) : List Meeting :=
  T.meetings.filter fun m => closedIn g (firstOf month) (firstOf (month + 1)) m && T.recorded m.id principal = some .present &&
    T.transferred m.id principal && !T.poolSubstitute g m.id principal

def Rows.listOnly (principal month : ℕ) : List Meeting :=
  T.meetings.filter fun m => closedIn g (firstOf month) (firstOf (month + 1)) m && T.recorded m.id principal = some .present &&
    !T.transferred m.id principal && T.poolSubstitute g m.id principal

end Reads

section Counts

variable {T : Rows} {g principal month a b : ℕ}

theorem sum_toNat {α : Type} (f : α → Bool) (l : List α) : (l.map fun x => (f x).toNat).sum = l.countP f := by
  induction l with
  | nil => rfl
  | cons x l ih =>
    rw [map_cons, sum_cons, ih, countP_cons]
    cases f x <;> simp [Nat.add_comm]

/-- The rows of a principal, joined with the meetings, are the meetings with such a row. -/
theorem count_join {α : Type} {key : α → Uuid × Uuid} {rows : List α} (hrows : (rows.map key).Nodup) {meetings : List Meeting}
    (hids : (meetings.map Meeting.id).Nodup) (c : Meeting → Bool) (q : α → Bool) (principal : Uuid) :
    (rows.countP fun r => (key r).2 = principal && q r && (meetings.find? (·.id = (key r).1)).any c) =
      meetings.countP fun m => c m && (rows.find? fun r => key r = (m.id, principal)).any q := by
  rw [countP_eq_length_filter, countP_eq_length_filter, ← length_map (fun r => (key r).1),
    ← @length_map _ _ (meetings.filter _) Meeting.id]
  refine List.Perm.length_eq ((perm_ext_iff_of_nodup ?_ (filter_nodup hids _)).mpr fun id => ?_)
  · refine List.Nodup.map_on (fun r hr s hs hsame => ?_) (hrows.of_map.filter _)
    have hr' := mem_filter.mp hr
    have hs' := mem_filter.mp hs
    simp only [Bool.and_eq_true, decide_eq_true_eq] at hr' hs'
    exact inj_on_of_nodup_map hrows hr'.1 hs'.1 (Prod.ext hsame (hr'.2.1.1.trans hs'.2.1.1.symm))
  · simp only [mem_map, mem_filter, Bool.and_eq_true, decide_eq_true_eq]
    constructor
    · rintro ⟨r, ⟨hr, ⟨hprincipal, hq⟩, hmeeting⟩, rfl⟩
      obtain ⟨m, hfind, hc⟩ := (Option.any_eq_true _ _).mp hmeeting
      obtain ⟨hm, hid⟩ := Table.of_find hfind
      refine ⟨m, ⟨hm, hc, ?_⟩, hid⟩
      rw [Table.find_of_mem hrows hr (Prod.ext hid.symm hprincipal)]
      exact hq
    · rintro ⟨m, ⟨hm, hc, hrow⟩, rfl⟩
      obtain ⟨r, hfind, hq⟩ := (Option.any_eq_true _ _).mp hrow
      obtain ⟨hr, hkey⟩ := Table.of_find hfind
      refine ⟨r, ⟨hr, ⟨congrArg Prod.snd hkey, hq⟩, ?_⟩, congrArg Prod.fst hkey⟩
      rw [congrArg Prod.fst hkey, Table.find_of_mem hids hm rfl]
      exact hc

/-- The meetings of the list. -/
def inMonth (g month : ℕ) : Meeting → Bool := closedIn g (firstOf month) (firstOf (month + 1))

theorem closedIn_month (ha : a ≤ month) (hb : month ≤ b) (m : Meeting) :
    (closedIn g (firstOf a) (firstOf (b + 1)) m && m.date.any fun d => d.month = month) = inMonth g month m := by
  unfold inMonth closedIn
  cases hdate : m.date with
  | none => simp
  | some d =>
    have := d.valid
    rw [Bool.eq_iff_iff]
    simp only [Option.any_some, Bool.and_eq_true, decide_eq_true_eq]
    rw [firstOf_number, firstOf_number, firstOf_number, firstOf_number, Date.number]
    constructor
    · rintro ⟨⟨hclosed, -⟩, rfl⟩
      exact ⟨hclosed, by omega, by omega⟩
    · rintro ⟨hclosed, hfirst, hafter⟩
      exact ⟨⟨hclosed, by omega, by omega⟩, by omega⟩

theorem monthIn_any (ha : a ≤ month) (hb : month ≤ b) (meeting : Uuid) :
    (T.monthIn g (firstOf a) (firstOf (b + 1)) meeting).any (· = month) = (T.meetings.find? (·.id = meeting)).any (inMonth g month) := by
  rw [Rows.monthIn]
  cases T.meetings.find? (·.id = meeting) with
  | none => rfl
  | some m =>
    rw [Option.any_some, ← closedIn_month ha hb m]
    cases hclosed : closedIn g (firstOf a) (firstOf (b + 1)) m with
    | false => simp [Option.filter, hclosed]
    | true => cases hdate : m.date <;> simp [Option.filter, hclosed, hdate]

theorem count_group (f : Entry → Bool) (first after : Date) :
    (((T.attendanceCounts g first after).filter fun e => e.principal = principal && e.month = month).map fun e => (f e).toNat).sum =
      (T.records.countP fun r => ((T.recordEntry g first after r).any fun e => f e && (e.principal = principal && e.month = month))) +
        ((T.delegations.filter Delegation.voting).countP fun d =>
          (T.transferEntry g first after d).any fun e => f e && (e.principal = principal && e.month = month)) := by
  have hany : ∀ (entry : Option Entry) (p : Entry → Bool), (entry.map p).getD false = entry.any p := fun entry _ => by
    cases entry <;> rfl
  rw [sum_toNat, countP_filter, Rows.attendanceCounts, countP_append, countP_filterMap, countP_filterMap]
  simp only [hany]

variable (ha : a ≤ month) (hb : month ≤ b)

include ha hb

/-- The records of one status that count are the meetings with such a record. -/
theorem count_records (status : Status) (q : Uuid → Bool) :
    (T.records.countP fun r => (T.monthIn g (firstOf a) (firstOf (b + 1)) r.meeting).any fun found =>
        (r.status = status && q r.meeting) && (r.principal = principal && found = month)) =
      T.meetings.countP fun m => inMonth g month m && (T.recorded m.id principal = some status && q m.id) := by
  calc _ = T.records.countP fun r => r.key.2 = principal && (r.status = status && q r.meeting) &&
          (T.meetings.find? (·.id = r.key.1)).any (inMonth g month) := by
        refine countP_congr fun r _ => ?_
        rw [← monthIn_any ha hb]
        cases hmonth : T.monthIn g (firstOf a) (firstOf (b + 1)) r.meeting <;> simp [and_comm, and_assoc, and_left_comm]
    _ = _ := count_join T.recordKeys T.meetingIds _ _ _
    _ = _ := by
        refine countP_congr fun m _ => ?_
        rw [Rows.recorded]
        cases hrow : T.records.find? fun r => r.key = (m.id, principal) with
        | none => simp
        | some r => simp [show r.meeting = m.id from congrArg Prod.fst (Table.of_find hrow).2]

theorem count_transfers :
    ((T.delegations.filter Delegation.voting).countP fun d => (T.monthIn g (firstOf a) (firstOf (b + 1)) d.meeting).any fun found =>
        d.delegator = principal && found = month) =
      T.meetings.countP fun m => inMonth g month m && T.transferred m.id principal := by
  calc _ = T.delegations.countP fun d => d.key.2 = principal && d.voting &&
          (T.meetings.find? (·.id = d.key.1)).any (inMonth g month) := by
        rw [countP_filter]
        refine countP_congr fun d _ => ?_
        rw [← monthIn_any ha hb]
        cases hmonth : T.monthIn g (firstOf a) (firstOf (b + 1)) d.meeting <;> simp [and_comm, and_left_comm]
    _ = _ := count_join T.delegationKeys T.meetingIds _ _ _
    _ = _ := by
        refine countP_congr fun m _ => ?_
        have hvoting : (T.delegations.find? fun d => d.key = (m.id, principal)).any Delegation.voting =
            T.transferred m.id principal := by
          rw [Bool.eq_iff_iff, Option.any_eq_true, Rows.transferred, any_eq_true]
          constructor
          · rintro ⟨d, hfind, hd⟩
            obtain ⟨hmem, hkey⟩ := Table.of_find hfind
            exact ⟨d, hmem, by simpa [hd, Delegation.key] using hkey⟩
          · rintro ⟨d, hmem, hd⟩
            simp only [Bool.and_eq_true, decide_eq_true_eq] at hd
            exact ⟨d, Table.find_of_mem T.delegationKeys hmem (Prod.ext hd.1.1 hd.1.2), hd.2⟩
        rw [hvoting]

/-- The three sums of a cell. -/
theorem cell_eq : T.cell g (firstOf a) (firstOf (b + 1)) principal month =
    (T.meetings.countP fun m => inMonth g month m &&
        (T.recorded m.id principal = some .present && !T.poolSubstitute g m.id principal),
      T.meetings.countP fun m => inMonth g month m && (T.recorded m.id principal = some .excused && !T.transferred m.id principal),
      T.meetings.countP fun m => inMonth g month m && T.transferred m.id principal) := by
  have htransfers : ∀ f : Entry → Bool, (∀ p m, f ⟨p, m, false, false, true⟩ = false) →
      ((T.delegations.filter Delegation.voting).countP fun d => (T.transferEntry g (firstOf a) (firstOf (b + 1)) d).any fun e =>
        f e && (e.principal = principal && e.month = month)) = 0 := by
    intro f hf
    rw [countP_eq_zero]
    intro d _
    rw [Rows.transferEntry, Option.any_map]
    cases T.monthIn g (firstOf a) (firstOf (b + 1)) d.meeting <;> simp [hf]
  have hrecords : (T.records.countP fun r => (T.recordEntry g (firstOf a) (firstOf (b + 1)) r).any fun e =>
      e.delegated && (e.principal = principal && e.month = month)) = 0 := by
    rw [countP_eq_zero]
    intro r _
    rw [Rows.recordEntry, Option.any_map]
    cases T.monthIn g (firstOf a) (firstOf (b + 1)) r.meeting <;> simp
  refine Prod.ext ?_ (Prod.ext ?_ ?_)
  · refine (count_group Entry.present _ _).trans (Eq.trans ?_ (count_records ha hb .present fun id => !T.poolSubstitute g id principal))
    rw [htransfers Entry.present fun _ _ => rfl, Nat.add_zero]
    refine countP_congr fun r _ => ?_
    rw [Rows.recordEntry, Option.any_map]
    by_cases hprincipal : r.principal = principal
    · subst hprincipal
      rfl
    · cases T.monthIn g (firstOf a) (firstOf (b + 1)) r.meeting <;> simp [hprincipal]
  · refine (count_group Entry.excused _ _).trans (Eq.trans ?_ (count_records ha hb .excused fun id => !T.transferred id principal))
    rw [htransfers Entry.excused fun _ _ => rfl, Nat.add_zero]
    refine countP_congr fun r _ => ?_
    rw [Rows.recordEntry, Option.any_map]
    by_cases hprincipal : r.principal = principal
    · subst hprincipal
      rfl
    · cases T.monthIn g (firstOf a) (firstOf (b + 1)) r.meeting <;> simp [hprincipal]
  · refine (count_group Entry.delegated _ _).trans (Eq.trans ?_ (count_transfers ha hb))
    rw [hrecords, Nat.zero_add]
    refine countP_congr fun d _ => ?_
    rw [Rows.transferEntry, Option.any_map]
    rfl

end Counts

section Agreement

variable {T : Rows} {g principal month a b : ℕ}

theorem listed_eq (s : AttendanceState) : T.listed g principal month s = T.meetings.countP fun m =>
    inMonth g month m && memberState (T.recorded m.id principal) (T.transferred m.id principal) = s := by
  rw [Rows.listed, Rows.memberAttendance, countP_map, countP_filter]
  exact countP_congr fun m _ => by simp [inMonth, and_comm]

theorem countP_split {α : Type} (p q : α → Bool) (l : List α) :
    l.countP p = (l.countP fun x => p x && q x) + l.countP fun x => p x && !q x := by
  induction l with
  | nil => rfl
  | cons x l ih =>
    rw [countP_cons, countP_cons, countP_cons, ih]
    cases p x <;> cases q x <;> simp <;> omega

theorem listed_le_held (ha : a ≤ month) (hb : month ≤ b) : T.listed g principal month .present + T.listed g principal month .excused +
    T.listed g principal month .delegated ≤ T.held g (firstOf a) (firstOf (b + 1)) month := by
  have hheld : T.held g (firstOf a) (firstOf (b + 1)) month = T.meetings.countP (inMonth g month) := by
    rw [Rows.held, ← countP_eq_length_filter]
    exact countP_congr fun m _ => by rw [closedIn_month ha hb]
  rw [hheld, listed_eq, listed_eq, listed_eq]
  induction T.meetings with
  | nil => simp
  | cons m meetings ih =>
    rw [countP_cons, countP_cons, countP_cons, countP_cons]
    cases inMonth g month m <;> cases memberState (T.recorded m.id principal) (T.transferred m.id principal) <;> simp <;> omega

/-- The excused and the delegated meetings always agree. -/
theorem cell_listed (T : Rows) (g principal : ℕ) (ha : a ≤ month) (hb : month ≤ b) : (T.cell g (firstOf a) (firstOf (b + 1)) principal month).2 =
    (T.listed g principal month .excused, T.listed g principal month .delegated) := by
  rw [cell_eq ha hb, listed_eq, listed_eq]
  refine Prod.ext (countP_congr fun m _ => ?_) (countP_congr fun m _ => ?_)
  · cases T.transferred m.id principal <;> rcases T.recorded m.id principal with _ | _ | _ | _ <;> simp [memberState]
  · cases T.transferred m.id principal <;> rcases T.recorded m.id principal with _ | _ | _ | _ <;> simp [memberState]

/-- The numbers of present meetings, each as the meetings that both sides count and the ones that only it counts. -/
theorem present_split (T : Rows) (g principal : ℕ) (ha : a ≤ month) (hb : month ≤ b) :
    ∃ both, (T.cell g (firstOf a) (firstOf (b + 1)) principal month).1 = (T.matrixOnly g principal month).length + both ∧
      T.listed g principal month .present = (T.listOnly g principal month).length + both := by
  refine ⟨T.meetings.countP fun m => inMonth g month m && T.recorded m.id principal = some .present &&
    !T.transferred m.id principal && !T.poolSubstitute g m.id principal, ?_, ?_⟩
  · rw [cell_eq ha hb, Rows.matrixOnly, ← countP_eq_length_filter]
    refine (countP_split _ (fun m => T.transferred m.id principal) _).trans (congrArg₂ (· + ·) ?_ ?_)
    · exact countP_congr fun m _ => by simp [inMonth, and_comm, and_assoc, and_left_comm]
    · exact countP_congr fun m _ => by simp [and_comm, and_assoc, and_left_comm]
  · rw [listed_eq, Rows.listOnly, ← countP_eq_length_filter]
    refine (countP_split _ (fun m => T.poolSubstitute g m.id principal) _).trans (congrArg₂ (· + ·) ?_ ?_)
    · refine countP_congr fun m _ => ?_
      cases T.transferred m.id principal <;> rcases T.recorded m.id principal with _ | _ | _ | _ <;> simp [memberState, inMonth]
    · refine countP_congr fun m _ => ?_
      cases T.transferred m.id principal <;> rcases T.recorded m.id principal with _ | _ | _ | _ <;> simp [memberState]

/-- A principal that a meeting tells apart has a row in the matrix of its month. -/
theorem hasRow_of_recorded {m : Meeting} (hm : m ∈ T.meetings) (hin : inMonth g month m = true)
    (hpresent : T.recorded m.id principal = some .present) : T.hasRow g (firstOf month) (firstOf (month + 1)) principal = true := by
  obtain ⟨r, hfind, -⟩ := Option.map_eq_some_iff.mp hpresent
  obtain ⟨hr, hkey⟩ := Table.of_find hfind
  have hmeeting : r.meeting = m.id := congrArg Prod.fst hkey
  have hmonth := monthIn_any (T := T) (g := g) (le_refl month) (le_refl month) r.meeting
  rw [hmeeting, Table.find_of_mem T.meetingIds hm rfl, Option.any_some, hin, Option.any_eq_true] at hmonth
  obtain ⟨found, hfound, -⟩ := hmonth
  rw [Rows.hasRow, Bool.or_eq_true, any_eq_true]
  have hentry : ∃ e, T.recordEntry g (firstOf month) (firstOf (month + 1)) r = some e ∧ e.principal = r.principal := by
    rw [Rows.recordEntry, hmeeting, hfound]
    exact ⟨_, rfl, rfl⟩
  obtain ⟨e, he, hprincipal⟩ := hentry
  refine .inr ⟨e, mem_append_left _ (mem_filterMap.mpr ⟨r, hr, he⟩), decide_eq_true ?_⟩
  exact hprincipal.trans (congrArg Prod.snd hkey)

theorem matches_iff (T : Rows) : T.Matches ↔
    ∀ g month principal, (T.matrixOnly g principal month).length = (T.listOnly g principal month).length := by
  constructor
  · intro h g month principal
    by_cases hrow : T.hasRow g (firstOf month) (firstOf (month + 1)) principal = true
    · obtain ⟨both, hcell, hlisted⟩ := present_split T g principal (le_refl month) (le_refl month)
      have hpresent := congrArg Prod.fst (h g month month month principal (le_refl _) (le_refl _) hrow).1
      omega
    · have hnone : ∀ m ∈ T.meetings, inMonth g month m = true → T.recorded m.id principal ≠ some .present :=
        fun m hm hin hpresent => hrow (hasRow_of_recorded hm hin hpresent)
      have hempty : ∀ p q : Meeting → Bool, T.meetings.filter (fun m => closedIn g (firstOf month) (firstOf (month + 1)) m &&
          T.recorded m.id principal = some .present && p m && q m) = [] := by
        intro p q
        refine filter_eq_nil_iff.mpr fun m hm => ?_
        simp only [Bool.and_eq_true, decide_eq_true_eq]
        rintro ⟨⟨⟨hin, hpresent⟩, -⟩, -⟩
        exact hnone m hm hin hpresent
      rw [Rows.matrixOnly, Rows.listOnly, hempty, hempty]
  · intro h g a b month principal ha hb _
    obtain ⟨both, hcell, hlisted⟩ := present_split T g principal ha hb
    have hpresent : (T.cell g (firstOf a) (firstOf (b + 1)) principal month).1 = T.listed g principal month .present := by
      rw [hcell, hlisted, h g month principal]
    have hothers := cell_listed T g principal ha hb
    refine ⟨Prod.ext hpresent hothers, ?_⟩
    rw [hpresent, hothers]
    exact listed_le_held ha hb

theorem attendance_matches (events : List Event) : (events.foldl step start).Matches ↔ ∀ g month principal,
    ((events.foldl step start).matrixOnly g principal month).length = ((events.foldl step start).listOnly g principal month).length :=
  matches_iff _

def mayMeeting (closed : Bool) : Meeting := ⟨1, 1, closed, some ⟨12 * 2026 + 5, 10, by decide⟩⟩

/-- Principal 3 is recorded as a member, leaves, and then stands in for member 2 through the pool. -/
def substituted : List Event :=
  [.join 1 2, .join 1 3, .meeting (mayMeeting false), .attend ⟨1, 3, .present⟩, .leave 1 3, .delegate ⟨1, 2, 3, true, true⟩,
    .meeting (mayMeeting true)]

theorem substituted_differs : ¬ (substituted.foldl step start).Matches := by
  intro h
  have hcell := (h 1 _ _ (12 * 2026 + 5) 3 le_rfl le_rfl (by decide)).1
  revert hcell
  decide

end Agreement

end Gremien
