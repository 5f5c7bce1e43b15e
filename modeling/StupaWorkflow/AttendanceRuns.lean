import StupaWorkflow.AttendanceModel

/-!
What the interleavings of one meeting keep. The attendance of a closed meeting stays, and a record
of the lead changes by the lead or by the own ballot only, in every run.
-/
namespace Attendance
open Py StorageKeys ReadCommitted List

section Rows

variable (d : Db) (row : Record) (g : Delegation) (id p q : Uuid)

def Db.dropSeat : Option Uuid → Db → Db
  | none, d => d
  | some id, d => d.dropDelegation id

@[simp] theorem record_putRecord :
    (d.putRecord row).record q = if q = row.principal then some row else d.record q := by
  have hfind := Table.find_filter_ne d.attendance Record.principal row.principal q
  simp only [Db.record, Db.putRecord, find?_append, hfind]
  by_cases hq : q = row.principal
  · simp [hq]
  · simp [hq, Ne.symm hq]

@[simp] theorem record_dropRecord : (d.dropRecord p).record q = if q = p then none else d.record q :=
  Table.find_filter_ne d.attendance Record.principal p q

@[simp] theorem dropSeat_attendance (seat : Option Uuid) : (d.dropSeat seat).attendance = d.attendance := by
  cases seat <;> rfl

@[simp] theorem dropSeat_status (seat : Option Uuid) : (d.dropSeat seat).status = d.status := by
  cases seat <;> rfl

@[simp] theorem dropSeat_principals (seat : Option Uuid) : (d.dropSeat seat).principals = d.principals := by
  cases seat <;> rfl

@[simp] theorem dropSeat_votes (seat : Option Uuid) : (d.dropSeat seat).votes = d.votes := by
  cases seat <;> rfl

@[simp] theorem dropSeat_record (seat : Option Uuid) : (d.dropSeat seat).record p = d.record p := by
  cases seat <;> rfl

theorem dropSeat_delegations {seat : Option Uuid} :
    g ∈ (d.dropSeat seat).delegations ↔ g ∈ d.delegations ∧ some g.id ≠ seat := by
  cases seat with
  | none => simp [Db.dropSeat]
  | some id => simp [Db.dropSeat, Db.dropDelegation]

end Rows

section Contract

def Excludes (d : Db) : Prop :=
  ∀ p row, d.record p = some row → row.status = .present → ∀ g ∈ d.delegations, g.delegator = p → d.poolSeat g = true

/-- A new presence finds no delegation that the member gave, and the mark of a ballot
none of the lead either. -/
def PresenceInTime (d e : Db) : Prop :=
  ∀ row ∈ e.attendance, d.record row.principal ≠ some row → row.status = .present →
    ∀ g ∈ d.delegations, g.delegator = row.principal → d.poolSeat g = true ∨ g.byLead = true ∧ row.byBallot = false

def DelegationInTime (d e : Db) : Prop :=
  ∀ g ∈ e.delegations, g ∉ d.delegations → d.poolSeat g = false →
    ∀ row ∈ d.record g.delegator, row.status = .present → g.byLead = true ∧ row.byBallot = false

instance (d e : Db) : Decidable (PresenceInTime d e) :=
  inferInstanceAs (Decidable (∀ row ∈ e.attendance, d.record row.principal ≠ some row → row.status = .present →
    ∀ g ∈ d.delegations, g.delegator = row.principal → d.poolSeat g = true ∨ g.byLead = true ∧ row.byBallot = false))

instance (d e : Db) : Decidable (DelegationInTime d e) :=
  inferInstanceAs (Decidable (∀ g ∈ e.delegations, g ∉ d.delegations → d.poolSeat g = false →
    ∀ row ∈ d.record g.delegator, row.status = .present → g.byLead = true ∧ row.byBallot = false))

/-- The commit does not cross one that no common lock orders. -/
def InTime (_ : Request) (d e : Db) : Prop := PresenceInTime d e ∧ DelegationInTime d e

instance (r : Request) (d e : Db) : Decidable (InTime r d e) := inferInstanceAs (Decidable (_ ∧ _))

def ByLeadOrBallot (d : Db) (p : Uuid) : Request → Prop
  | .setFor s => s.principal = p ∧ s.canWrite = true
  | .reset s => s.principal = p ∧ s.canWrite = true
  | .cast c => c.asDelegation = false ∧ (d.principalOf c.sub).map (·.id) = some p
  | _ => False

def Inv (d : Db) : Prop := ∀ v ∈ d.votes, v.status = .open → d.status = .live

/-- What stays while the meeting row is locked in a mode, locked for update, and
while records and votes are locked. -/
structure Frame (held excl : Prop) (record vote : Uuid → Prop) (d e : Db) : Prop where
  principals : e.principals = d.principals
  status : held → e.status = d.status
  entries : held → ∀ g ∈ e.delegations, g.byLead = true → g ∈ d.delegations
  opened : held → ∀ v ∈ e.votes, v.status = .open → v ∈ d.votes
  reports : excl → ∀ p row, e.record p = some row → row.status = .present → row.byBallot = false → d.record p = some row
  record : ∀ p, record p → e.record p = d.record p
  vote : ∀ v, vote v → e.vote v = d.vote v

def MeetingHeld (held : List Key) : Prop := .meeting ∈ held ∨ .meetingShare ∈ held

structure Effect (r : Request) (d e : Db) : Prop where
  frozen : d.status = .closed → e.status = .closed ∧ e.attendance = d.attendance
  lead : ∀ p row, d.record p = some row → row.source = .lead → e.record p = some row ∨ ByLeadOrBallot d p r
  excludes : Excludes d → InTime r d e → Excludes e

variable {other held : List Key}

theorem apart_meeting (h : Apart other held) (hheld : MeetingHeld other) : .meeting ∉ held := by
  intro hmeeting
  rcases hheld with hk | hk
  · exact absurd (h _ hk _ hmeeting) (by decide)
  · exact absurd (h _ hk _ hmeeting) (by decide)

theorem apart_update (h : Apart other held) (hk : .meeting ∈ other) : ¬ MeetingHeld held :=
  fun hheld => apart_meeting h.symm hheld hk

theorem apart_row (h : Apart other held) {k : Key} (hrefl : k.conflict k = true) (hk : k ∈ other) : k ∉ held := by
  intro hk'
  have := h k hk k hk'
  exact absurd (hrefl.symm.trans this) (by decide)

def contract : Contract Request Db Key where
  inv := Inv
  rely other := Frame (MeetingHeld other) (.meeting ∈ other) (Key.record · ∈ other) (Key.vote · ∈ other)
  guar r held d e :=
    Frame (.meeting ∉ held) (¬ MeetingHeld held) (Key.record · ∉ held) (Key.vote · ∉ held) d e ∧ Effect r d e
  refl _ _ := ⟨rfl, fun _ => rfl, fun _ _ hg _ => hg, fun _ _ hv _ => hv, fun _ _ _ h _ _ => h, fun _ _ => rfl, fun _ _ => rfl⟩
  trans h h' :=
    ⟨h'.principals.trans h.principals, fun hk => (h'.status hk).trans (h.status hk),
      fun hk g hg hlead => h.entries hk g (h'.entries hk g hg hlead) hlead,
      fun hk v hv hopen => h.opened hk v (h'.opened hk v hv hopen) hopen,
      fun hk p row hrow hpresent hballot => h.reports hk p row (h'.reports hk p row hrow hpresent hballot) hpresent hballot,
      fun p hp => (h'.record p hp).trans (h.record p hp), fun v hv => (h'.vote v hv).trans (h.vote v hv)⟩
  compat _ hguar hfree :=
    ⟨hguar.1.principals, fun hk => hguar.1.status (apart_meeting hfree hk),
      fun hk => hguar.1.entries (apart_meeting hfree hk), fun hk => hguar.1.opened (apart_meeting hfree hk),
      fun hk => hguar.1.reports (apart_update hfree hk),
      fun p hp => hguar.1.record p (apart_row hfree (by simp [Key.conflict]) hp),
      fun v hv => hguar.1.vote v (apart_row hfree (by simp [Key.conflict]) hv)⟩

theorem rely_mono {held' : List Key} {d e : Db} (h : contract.rely held' d e) (hsub : held ⊆ held') : contract.rely held d e :=
  ⟨h.principals, fun hk => h.status (hk.imp (hsub ·) (hsub ·)), fun hk => h.entries (hk.imp (hsub ·) (hsub ·)),
    fun hk => h.opened (hk.imp (hsub ·) (hsub ·)), fun hk => h.reports (hsub hk), fun p hp => h.record p (hsub hp),
    fun v hv => h.vote v (hsub hv)⟩

end Contract

section Writes

variable {r : Request} {held : List Key} {d e : Db}

def Ready (r : Request) (l : Loc Db Key) (d : Db) : Prop :=
  ∀ e, contract.rely l.held d e → Inv e → Inv (l.pend e) ∧ contract.guar r l.held e (l.pend e)

theorem wp_ready {l : Loc Db Key} (h : Ready r l d) : wp contract r (Prog.publish : P Unit) (fun _ _ _ => True) l d :=
  fun e hrely hinv => ⟨(h e hrely hinv).1, (h e hrely hinv).2, trivial⟩

theorem record_congr (h : e.attendance = d.attendance) (p : Uuid) : e.record p = d.record p := by
  rw [Db.record, h]
  rfl

theorem poolSeat_congr (h : e.principals = d.principals) (g : Delegation) : e.poolSeat g = d.poolSeat g := by
  rw [Db.poolSeat, h]
  rfl

theorem effect_delegations (hattendance : e.attendance = d.attendance) (hstatus : e.status = d.status)
    (hexcludes : Excludes d → InTime r d e → Excludes e) : Effect r d e where
  frozen h := ⟨hstatus.trans h, hattendance⟩
  lead p _ hrow _ := .inl ((record_congr hattendance p).trans hrow)
  excludes := hexcludes

theorem frame_delegations {locked excl : Prop} {record vote : Uuid → Prop} (hprincipals : e.principals = d.principals)
    (hattendance : e.attendance = d.attendance) (hstatus : e.status = d.status) (hvotes : e.votes = d.votes)
    (hentries : locked → ∀ g ∈ e.delegations, g.byLead = true → g ∈ d.delegations) :
    Frame locked excl record vote d e where
  principals := hprincipals
  status _ := hstatus
  entries := hentries
  opened _ v hv _ := hvotes ▸ hv
  reports _ p _ hrow _ _ := (record_congr hattendance p).symm.trans hrow
  record p _ := record_congr hattendance p
  vote v _ := by rw [Db.vote, hvotes]; rfl

theorem excludes_of_subset (h : Excludes d) (hprincipals : e.principals = d.principals)
    (hattendance : e.attendance = d.attendance) (hsub : e.delegations ⊆ d.delegations) : Excludes e := by
  intro p row hrow hpresent g hg hdelegator
  rw [record_congr hattendance] at hrow
  rw [poolSeat_congr hprincipals]
  exact h p row hrow hpresent g (hsub hg) hdelegator

theorem dropSeat_guar (seat : Option Uuid) : contract.guar r held d (d.dropSeat seat) := by
  have hsub : (d.dropSeat seat).delegations ⊆ d.delegations := fun g hg => ((dropSeat_delegations d g).mp hg).1
  constructor
  · exact frame_delegations (by simp) (by simp) (by simp) (by simp) fun _ g hg _ => hsub hg
  · exact effect_delegations (by simp) (by simp) fun h _ => excludes_of_subset h (by simp) (by simp) hsub

/-- The check of `_has_delegation`, as far as a share lock of the meeting keeps it. -/
def Clear (p : Uuid) (seat : Option Uuid) (d : Db) : Prop :=
  ∀ g ∈ (d.dropSeat seat).delegations, g.byLead = true → g.delegator ≠ p

theorem Clear.rely {p : Uuid} {seat : Option Uuid} (h : Clear p seat d) (hrely : contract.rely held d e)
    (hheld : .meetingShare ∈ held) : Clear p seat e := by
  intro g hg hlead
  obtain ⟨hmem, hseat⟩ := (dropSeat_delegations e g).mp hg
  exact h g ((dropSeat_delegations d g).mpr ⟨hrely.entries (.inr hheld) g hmem hlead, hseat⟩) hlead

section PutRecord

variable {row : Record} {seat : Option Uuid}

theorem putRecord_frame (hrecord : .record row.principal ∈ held)
    (hmode : .meetingShare ∈ held ∨ row.byBallot = true) :
    Frame (.meeting ∉ held) (¬ MeetingHeld held) (Key.record · ∉ held) (Key.vote · ∉ held) d
      ((d.dropSeat seat).putRecord row) where
  principals := dropSeat_principals d seat
  status _ := dropSeat_status d seat
  entries _ g hg _ := ((dropSeat_delegations d g).mp hg).1
  opened _ v hv _ := dropSeat_votes d seat ▸ hv
  reports hfree p row' hrow' _ hballot := by
    rw [record_putRecord] at hrow'
    split at hrow'
    case isTrue hp =>
      -- only a holder of the meeting row writes a presence that is not by a ballot
      rw [Option.some_inj] at hrow'
      rcases hmode with hshare | hmark
      · exact absurd (.inr hshare) hfree
      · rw [hrow', hballot] at hmark
        cases hmark
    case isFalse => exact (dropSeat_record d p seat).symm.trans hrow'
  record p hp := by
    rw [record_putRecord, if_neg fun h : p = row.principal => hp (h ▸ hrecord), dropSeat_record]
  vote v _ := by
    show ((d.dropSeat seat).vote v) = d.vote v
    rw [Db.vote, dropSeat_votes]
    rfl

theorem putRecord_excludes (h : Excludes d) (hin : PresenceInTime d ((d.dropSeat seat).putRecord row))
    (hclear : row.status = .present → row.byBallot = false → Clear row.principal seat d) :
    Excludes ((d.dropSeat seat).putRecord row) := by
  intro p row' hrow' hpresent g hg hdelegator
  have hseat : ((d.dropSeat seat).putRecord row).poolSeat g = d.poolSeat g := poolSeat_congr (dropSeat_principals d seat) g
  have hmem : g ∈ d.delegations := ((dropSeat_delegations d g).mp hg).1
  rw [hseat]
  by_cases hold : d.record p = some row'
  · exact h p row' hold hpresent g hmem hdelegator
  rw [record_putRecord] at hrow'
  split at hrow'
  case isFalse => exact absurd ((dropSeat_record d p seat).symm.trans hrow') hold
  case isTrue hp =>
    rw [Option.some_inj] at hrow'
    subst hrow' hp
    have hnew : row ∈ ((d.dropSeat seat).putRecord row).attendance := by simp [Db.putRecord]
    rcases hin row hnew hold hpresent g hmem hdelegator with hpool | ⟨hlead, hballot⟩
    · exact hpool
    · exact absurd hdelegator (hclear hpresent hballot g hg hlead)

theorem putRecord_effect (hopen : d.status ≠ .closed)
    (hlead : ∀ old, d.record row.principal = some old → old.source = .lead → ByLeadOrBallot d row.principal r)
    (hclear : row.status = .present → row.byBallot = false → Clear row.principal seat d) :
    Effect r d ((d.dropSeat seat).putRecord row) where
  frozen h := absurd h hopen
  lead p old hold hsource := by
    by_cases hp : p = row.principal
    · subst hp
      exact .inr (hlead old hold hsource)
    · rw [record_putRecord, if_neg hp, dropSeat_record]
      exact .inl hold
  excludes h hin := putRecord_excludes h hin.1 hclear

end PutRecord

theorem inv_congr (h : Inv d) (hvotes : e.votes = d.votes) (hstatus : e.status = d.status) : Inv e := by
  intro v hv hopen
  rw [hstatus]
  exact h v (hvotes ▸ hv) hopen

theorem report_ready {row : Record} {seat : Option Uuid} (hshare : .meetingShare ∈ held)
    (hrecord : .record row.principal ∈ held) (hopen : d.status ≠ .closed) (hclear : row.status = .present → Clear row.principal seat d)
    (hlead : ∀ old, d.record row.principal = some old → old.source = .lead → ∀ f, ByLeadOrBallot f row.principal r) :
    Ready r ⟨fun x => (x.dropSeat seat).putRecord row, held⟩ d := by
  intro e hrely hinv
  refine ⟨inv_congr hinv (dropSeat_votes e seat) (dropSeat_status e seat), putRecord_frame hrecord (.inl hshare), ?_⟩
  refine putRecord_effect ?_ ?_ fun hpresent _ => (hclear hpresent).rely hrely hshare
  · rw [hrely.status (.inr hshare)]
    exact hopen
  · intro old hold hsource
    rw [hrely.record _ hrecord] at hold
    exact hlead old hold hsource e

end Writes

section AttendancePrograms

variable {r : Request} {d : Db} {held : List Key} {seat : Option Uuid}
variable {Q : Unit → Loc Db Key → Db → Prop} {p : Uuid}

theorem wp_openForAttendance (h : ∀ e, Inv e → e.status ≠ .closed → Q () ⟨Db.dropSeat none, [.meetingShare]⟩ e) :
    wp contract r openForAttendance Q .fresh d := by
  rw [openForAttendance, wp_do, wp_lockRow]
  intro e _ hinv
  simp only [wp_require]
  intro hopen
  exact h e hinv (of_decide_eq_true hopen)

theorem wp_lockRecord {Q : Option Record → Loc Db Key → Db → Prop}
    (h : ∀ e held', held ⊆ held' → contract.rely held d e → Inv e → ((e.record p).isSome → .record p ∈ held') →
      Q (e.record p) ⟨Db.dropSeat seat, held'⟩ e) :
    wp contract r (lockRecord p) Q ⟨Db.dropSeat seat, held⟩ d := by
  rw [lockRecord, wp_do, wp_lockRow]
  intro e hrely hinv
  simp only [dropSeat_record]
  cases hrow : e.record p with
  | none =>
    have := h e held (List.Subset.refl _) hrely hinv (by simp [hrow])
    simpa [hrow] using this
  | some row =>
    have := h e (.record p :: held) (subset_cons_self _ _) hrely hinv fun _ => mem_cons_self
    simpa [hrow] using this

theorem wp_flushRecord {existing : Option Record} {row : Record} (hinv : Inv d)
    (hlocked : existing.isSome → .record row.principal ∈ held ∧ d.record row.principal = existing)
    (h : ∀ e held', held ⊆ held' → contract.rely held d e → Inv e → .record row.principal ∈ held' →
      e.record row.principal = existing → Q () ⟨fun x => (x.dropSeat seat).putRecord row, held'⟩ e) :
    wp contract r (flushRecord existing row) Q ⟨Db.dropSeat seat, held⟩ d := by
  cases existing with
  | some old =>
    obtain ⟨hheld, hrow⟩ := hlocked rfl
    exact h d held (List.Subset.refl _) (contract.refl _ _) hinv hheld hrow
  | none =>
    simp only [flushRecord, Option.isNone_none, if_true, wp_do, wp_lockRow]
    intro e hrely hinv'
    simp only [wp_require, dropSeat_record, Option.isNone_iff_eq_none]
    intro hnone
    exact h e _ (subset_cons_self _ _) hrely hinv' mem_cons_self hnone

theorem wp_releasePoolSeat (h : ∀ e held' seat, held ⊆ held' → contract.rely held d e → Inv e → Q () ⟨Db.dropSeat seat, held'⟩ e) :
    wp contract r (releasePoolSeat p) Q ⟨Db.dropSeat none, held⟩ d := by
  rw [releasePoolSeat, wp_do, wp_query]
  intro e hrely hinv'
  split
  next => exact h e held none (List.Subset.refl _) hrely hinv'
  next seat _ =>
    rw [wp_do, wp_lockRow]
    intro f hrely' hinv''
    exact h f _ (some seat.id) (subset_cons_self _ _) (contract.trans hrely hrely') hinv''

theorem wp_hasDelegation {Q : Bool → Loc Db Key → Db → Prop}
    (h : ∀ e b, contract.rely held d e → Inv e → (b = false → ∀ g ∈ (e.dropSeat seat).delegations, g.delegator ≠ p) →
      Q b ⟨Db.dropSeat seat, held⟩ e) :
    wp contract r (hasDelegation p) Q ⟨Db.dropSeat seat, held⟩ d := by
  rw [hasDelegation, wp_do, wp_query]
  intro e hrely hinv
  refine h e _ hrely hinv fun hnone g hg hdelegator => ?_
  have := any_eq_false.mp hnone g hg
  simp [hdelegator] at this

theorem wp_refuseDelegated {status : Status} (hinv : Inv d)
    (h : ∀ e held' seat, held ⊆ held' → contract.rely held d e → Inv e → (status = .present → Clear p seat e) →
      Q () ⟨Db.dropSeat seat, held'⟩ e) :
    wp contract r (refuseDelegated status p) Q ⟨Db.dropSeat none, held⟩ d := by
  rw [refuseDelegated]
  split
  case isFalse hstatus =>
    exact h d held none (List.Subset.refl _) (contract.refl _ _) hinv fun hpresent => absurd hpresent hstatus
  case isTrue =>
    rw [wp_do]
    refine wp_releasePoolSeat fun e held' seat hsub hrely hinv' => ?_
    rw [wp_do]
    refine wp_hasDelegation fun f b hrely' hinv'' hclear => ?_
    rw [wp_require]
    intro hb
    have hnone : b = false := by simpa using hb
    exact h f held' seat hsub (contract.trans hrely (rely_mono hrely' hsub)) hinv'' fun _ g hg _ => hclear hnone g hg

theorem setSelf_keeps (s : SetSelf) : Keeps contract (.setSelf s) (setSelf s) := by
  intro d _
  rw [setSelf, wp_do]
  refine wp_openForAttendance fun e _ hopen => ?_
  rw [wp_do, wp_query]
  intro e₁ hrely₁ _
  rw [wp_do, wp_ofOption]
  intro member _
  rw [wp_do]
  refine wp_lockRecord fun e₂ held₂ hsub₂ hrely₂ hinv₂ hlocked => ?_
  rw [wp_do, wp_require]
  intro hself
  rw [wp_do]
  refine wp_refuseDelegated hinv₂ fun e₃ held₃ seat hsub₃ hrely₃ hinv₃ hclear => ?_
  rw [wp_do]
  refine wp_flushRecord hinv₃ (fun hsome => ?_) fun e₄ held₄ hsub₄ hrely₄ _ hrecord hexisting => ?_
  · exact ⟨hsub₃ (hlocked hsome), hrely₃.record _ (hlocked hsome)⟩
  · have hshare₂ : Key.meetingShare ∈ held₂ := hsub₂ mem_cons_self
    have hshare₃ : Key.meetingShare ∈ held₃ := hsub₃ hshare₂
    have hstatus : e₄.status = e.status := by
      rw [hrely₄.status (.inr hshare₃), hrely₃.status (.inr hshare₂), hrely₂.status (.inr mem_cons_self),
        hrely₁.status (.inr mem_cons_self)]
    refine wp_ready (report_ready (hsub₄ hshare₃) hrecord (hstatus ▸ hopen)
      (fun hpresent => (hclear hpresent).rely hrely₄ hshare₃) fun old hold hsource => ?_)
    -- the check of the source still holds, because the record is locked or still missing
    rw [hexisting] at hold
    simp [hold, hsource] at hself

theorem setFor_keeps (s : SetFor) : Keeps contract (.setFor s) (setFor s) := by
  intro d _
  rw [setFor, wp_do, wp_require]
  intro hwrite
  rw [wp_do]
  refine wp_openForAttendance fun e hinv hopen => ?_
  rw [wp_do, wp_require]
  intro _
  rw [wp_do]
  refine wp_refuseDelegated hinv fun e₁ held₁ seat hsub₁ hrely₁ _ hclear => ?_
  rw [wp_do]
  refine wp_lockRecord fun e₂ held₂ hsub₂ hrely₂ hinv₂ hlocked => ?_
  rw [wp_do]
  refine wp_flushRecord hinv₂ (fun hsome => ⟨hlocked hsome, rfl⟩) fun e₃ held₃ hsub₃ hrely₃ _ hrecord _ => ?_
  have hshare₁ : Key.meetingShare ∈ held₁ := hsub₁ mem_cons_self
  have hshare₂ : Key.meetingShare ∈ held₂ := hsub₂ hshare₁
  have hstatus : e₃.status = e.status := by
    rw [hrely₃.status (.inr hshare₂), hrely₂.status (.inr hshare₁), hrely₁.status (.inr mem_cons_self)]
  exact wp_ready (report_ready (hsub₃ hshare₂) hrecord (hstatus ▸ hopen)
    (fun hpresent => ((hclear hpresent).rely hrely₂ hshare₁).rely hrely₃ hshare₂) fun _ _ _ _ => ⟨rfl, hwrite⟩)

theorem dropRecord_frame (hrecord : .record p ∈ held) :
    Frame (.meeting ∉ held) (¬ MeetingHeld held) (Key.record · ∉ held) (Key.vote · ∉ held) d (d.dropRecord p) where
  principals := rfl
  status _ := rfl
  entries _ _ hg _ := hg
  opened _ _ hv _ := hv
  reports _ q row hrow _ _ := by
    rw [record_dropRecord] at hrow
    split at hrow
    · cases hrow
    · exact hrow
  record q hq := by rw [record_dropRecord, if_neg fun h : q = p => hq (h ▸ hrecord)]
  vote _ _ := rfl

theorem dropRecord_effect (hopen : d.status ≠ .closed) (hlead : ByLeadOrBallot d p r) : Effect r d (d.dropRecord p) where
  frozen h := absurd h hopen
  lead q row hrow _ := by
    by_cases hq : q = p
    · exact .inr (hq ▸ hlead)
    · rw [record_dropRecord, if_neg hq]
      exact .inl hrow
  excludes h _ q row hrow hpresent g hg hdelegator := by
    rw [record_dropRecord] at hrow
    split at hrow
    · cases hrow
    · exact h q row hrow hpresent g hg hdelegator

theorem ready_none : Ready r ⟨Db.dropSeat none, held⟩ d :=
  fun _ _ hinv => ⟨hinv, dropSeat_guar none⟩

theorem reset_keeps (s : Reset) : Keeps contract (.reset s) (reset s) := by
  intro d _
  rw [reset, wp_do, wp_require]
  intro hwrite
  rw [wp_do]
  refine wp_openForAttendance fun e _ hopen => ?_
  rw [wp_do]
  refine wp_lockRecord fun e₁ held₁ hsub₁ hrely₁ _ hlocked => ?_
  have hshare : Key.meetingShare ∈ held₁ := hsub₁ mem_cons_self
  cases hrow : (e₁.record s.principal).isSome with
  | false => exact wp_ready ready_none
  | true =>
    refine wp_ready fun f hrely hinv => ⟨hinv, dropRecord_frame (hlocked hrow), dropRecord_effect ?_ ⟨rfl, hwrite⟩⟩
    show f.status ≠ .closed
    rw [hrely.status (.inr hshare), hrely₁.status (.inr mem_cons_self)]
    exact hopen

end AttendancePrograms

section DelegationPrograms

variable {r : Request} {d e : Db} {held : List Key} {g : Delegation}

/-- The check of the lead entry, as far as the lock of the meeting keeps it. -/
def Missing (p : Uuid) (d : Db) : Prop :=
  ∀ row, d.record p = some row → row.status = .present → row.byBallot = true

theorem Missing.rely {p : Uuid} (h : Missing p d) (hrely : contract.rely held d e) (hheld : .meeting ∈ held) :
    Missing p e := by
  intro row hrow hpresent
  by_contra hballot
  rw [Bool.not_eq_true] at hballot
  have := h row (hrely.reports hheld p row hrow hpresent hballot) hpresent
  rw [hballot] at this
  cases this

theorem insert_excludes (h : Excludes d) (hin : DelegationInTime d (d.insertDelegation g))
    (hmissing : g.byLead = true → Missing g.delegator d) : Excludes (d.insertDelegation g) := by
  intro p row hrow hpresent x hx hdelegator
  by_cases hold : x ∈ d.delegations
  · exact h p row hrow hpresent x hold hdelegator
  have hxg : x = g := by
    rcases mem_append.mp hx with hmem | hnew
    · exact absurd hmem hold
    · exact mem_singleton.mp hnew
  subst hxg hdelegator
  by_contra hseat
  rw [Bool.not_eq_true] at hseat
  obtain ⟨hlead, hballot⟩ := hin x hx hold hseat row hrow hpresent
  have := hmissing hlead row hrow hpresent
  rw [hballot] at this
  cases this

theorem insert_guar (hlead : g.byLead = true → .meeting ∈ held ∧ Missing g.delegator d) :
    contract.guar r held d (d.insertDelegation g) := by
  constructor
  · refine frame_delegations rfl rfl rfl rfl fun hfree x hx hbyLead => ?_
    rcases mem_append.mp hx with hmem | hnew
    · exact hmem
    · rw [mem_singleton.mp hnew] at hbyLead
      exact absurd (hlead hbyLead).1 hfree
  · exact effect_delegations rfl rfl fun h hin => insert_excludes h hin.2 fun hbyLead => (hlead hbyLead).2

theorem insert_ready (hlead : g.byLead = true → .meeting ∈ held ∧ Missing g.delegator d) :
    Ready r ⟨Db.insertDelegation g, held⟩ d := by
  intro e hrely hinv
  exact ⟨hinv, insert_guar fun hbyLead => ⟨(hlead hbyLead).1, (hlead hbyLead).2.rely hrely (hlead hbyLead).1⟩⟩

theorem insertDelegation_keeps (hlead : g.byLead = true → .meeting ∈ held ∧ Missing g.delegator d) :
    wp contract r (insertDelegation g) (fun _ _ _ => True) ⟨Db.dropSeat none, held⟩ d := by
  rw [insertDelegation, wp_do, wp_lockRow]
  intro e hrely _
  dsimp only
  split
  · trivial
  · refine wp_ready (insert_ready fun hbyLead => ?_)
    obtain ⟨hheld, hmissing⟩ := hlead hbyLead
    exact ⟨mem_cons_of_mem _ hheld, hmissing.rely hrely hheld⟩

theorem create_keeps (c : Create) : Keeps contract (.create c) (create c) := by
  intro d _
  simp only [create, wp_do, wp_require, wp_ofOption]
  intro e _ _ _ _ me _ delegate _ _ _ _ _
  exact insertDelegation_keeps (by simp)

theorem createByLead_keeps (c : CreateByLead) : Keeps contract (.createByLead c) (createByLead c) := by
  intro d _
  simp only [createByLead, wp_do, wp_require, wp_ofOption]
  intro _ e _ _ _ _ delegator _ delegate _ _ _ _ e₁ hrely _ hmissing _
  refine insertDelegation_keeps fun _ => ⟨mem_cons_self, fun row hrow hpresent => ?_⟩
  have hcheck : (!(e₁.record delegator.id).any (·.status = .present)) = true := hmissing
  have hrow' : e₁.record delegator.id = some row := hrow
  simp [hrow', hpresent] at hcheck

theorem wp_revokeAsLead {v : Revoke} {Q : Unit → Loc Db Key → Db → Prop} (h : ∀ e, Inv e → Q () ⟨Db.dropSeat none, held⟩ e) :
    wp contract r (revokeAsLead v g) Q ⟨Db.dropSeat none, held⟩ d := by
  rw [revokeAsLead, wp_do, wp_query]
  intro e _ hinv
  split
  · exact h e hinv
  · simp only [wp_do, wp_require]
    exact fun _ _ => h e hinv

theorem drop_ready (seat : Option Uuid) : Ready r ⟨Db.dropSeat seat, held⟩ d :=
  fun e _ hinv => ⟨inv_congr hinv (dropSeat_votes e seat) (dropSeat_status e seat), dropSeat_guar seat⟩

theorem wp_deleteDelegation (id : Uuid) :
    wp contract r (do
      let _ ← Prog.lockRow fun db => (db.delegation id).map fun _ => .delegation id
      Prog.update (·.dropDelegation id)
      Prog.publish : P Unit) (fun _ _ _ => True) ⟨Db.dropSeat none, held⟩ d := by
  rw [wp_do, wp_lockRow]
  intro e _ _
  cases (Db.dropSeat none e).delegation id with
  | none => exact wp_ready (drop_ready (some id))
  | some row => exact wp_ready (drop_ready (some id))

theorem revoke_keeps (v : Revoke) : Keeps contract (.revoke v) (revoke v) := by
  intro d _
  rw [revoke, wp_do, wp_query]
  intro e _ _
  rw [wp_do, wp_ofOption]
  intro row _
  cases hadmin : v.isAdmin with
  | true =>
    simp only [Bool.not_true, Bool.false_eq_true, if_false]
    exact wp_deleteDelegation v.id
  | false =>
    simp only [Bool.not_false, if_true]
    rw [wp_do]
    exact wp_revokeAsLead fun f _ => wp_deleteDelegation v.id

end DelegationPrograms

section BallotPrograms

variable {r : Request} {d e : Db} {held : List Key} {c : Cast} {l : Loc Db Key}

def OpenVote (v : Uuid) (d : Db) : Prop := ∃ vote, d.vote v = some vote ∧ vote.status = .open

theorem OpenVote.rely {v : Uuid} (h : OpenVote v d) (hrely : contract.rely held d e) (hheld : .vote v ∈ held) :
    OpenVote v e := by
  obtain ⟨vote, hvote, hopen⟩ := h
  exact ⟨vote, (hrely.vote v hheld).trans hvote, hopen⟩

theorem OpenVote.live {v : Uuid} (h : OpenVote v d) (hinv : Inv d) : d.status = .live := by
  obtain ⟨vote, hvote, hopen⟩ := h
  exact hinv vote (Table.of_find hvote).1 hopen

theorem wp_lockVote {C : Contract Request Db Key} {w : Db → Db} (hw : ∀ d, w d = d) {id : Uuid} {Q : Vote → Loc Db Key → Db → Prop}
    (h : ∀ e vote, C.rely held d e → C.inv e → e.vote id = some vote → Q vote ⟨w, .vote id :: held⟩ e) :
    wp C r (lockVote id) Q ⟨w, held⟩ d := by
  rw [lockVote, wp_do, wp_lockRow]
  intro e hrely hinv
  simp only [hw]
  cases hvote : e.vote id with
  | none => trivial
  | some vote => exact h e vote hrely hinv hvote

theorem Ready.rely (h : Ready r l d) (hrely : contract.rely l.held d e) : Ready r l e :=
  fun f hrely' hinv => h f (contract.trans hrely hrely') hinv

theorem ready_ballot (h : Ready r l d) (vote : Uuid) (voter choice : Text) :
    Ready r ⟨fun x => (l.pend x).insertBallot vote voter choice, l.held⟩ d := by
  intro e hrely hinv
  obtain ⟨hinv', hframe, heffect⟩ := h e hrely hinv
  refine ⟨hinv', ?_, heffect.frozen, heffect.lead, heffect.excludes⟩
  exact ⟨hframe.principals, hframe.status, hframe.entries, hframe.opened, hframe.reports, hframe.record, hframe.vote⟩

theorem castSecret_keeps (h : Ready r l d) (vote : Uuid) (voter choice : Text) :
    wp contract r (castSecret vote voter choice) (fun _ _ _ => True) l d := by
  rw [castSecret, wp_do, wp_query]
  intro e hrely _
  rw [wp_do, wp_require]
  intro _
  exact wp_ready (ready_ballot (h.rely hrely) vote voter choice)

theorem wp_markPresentOnCast {seat : Option Uuid} (hown : c.asDelegation = false) (hheld : .vote c.vote ∈ held)
    (hopen : OpenVote c.vote d) :
    wp contract (.cast c) (markPresentOnCast c) (fun _ l d => Ready (.cast c) l d) ⟨Db.dropSeat seat, held⟩ d := by
  rw [markPresentOnCast, wp_do, wp_query]
  intro e hrely _
  split
  next => exact drop_ready seat
  next member hmember =>
    have hprincipal : e.principalOf c.sub = some member := by
      have := (Option.filter_eq_some_iff.mp hmember).1
      rwa [Db.principalOf, dropSeat_principals] at this
    rw [wp_do]
    refine wp_lockRecord fun e₁ held₁ hsub₁ hrely₁ hinv₁ hlocked => ?_
    split
    · exact drop_ready seat
    rw [wp_do]
    refine wp_hasDelegation fun e₂ b hrely₂ hinv₂ _ => ?_
    split
    · exact drop_ready seat
    refine wp_flushRecord hinv₂ (fun hsome => ⟨hlocked hsome, hrely₂.record _ (hlocked hsome)⟩)
      fun e₃ held₃ hsub₃ hrely₃ _ hrecord _ => ?_
    intro f hrelyf hinvf
    have hsub : held ⊆ held₃ := List.Subset.trans hsub₁ hsub₃
    have hprincipals : f.principals = e.principals :=
      hrelyf.principals.trans (hrely₃.principals.trans (hrely₂.principals.trans hrely₁.principals))
    have hall : contract.rely held d f := by
      refine contract.trans hrely (contract.trans hrely₁ ?_)
      refine rely_mono (contract.trans hrely₂ (contract.trans hrely₃ ?_)) hsub₁
      exact rely_mono hrelyf hsub₃
    -- the vote is still open, so the meeting is still live
    have hlive : f.status = .live := (hopen.rely hall hheld).live hinvf
    refine ⟨inv_congr hinvf (dropSeat_votes f seat) (dropSeat_status f seat), putRecord_frame hrecord (.inr rfl),
      putRecord_effect (by rw [hlive]; decide) (fun _ _ _ => ⟨hown, ?_⟩) fun _ hballot => by cases hballot⟩
    have : f.principalOf c.sub = some member := by rw [Db.principalOf, hprincipals]; exact hprincipal
    rw [this]
    rfl

theorem wp_takePart (hown : c.asDelegation = false) (hheld : .vote c.vote ∈ held) (hopen : OpenVote c.vote d) :
    wp contract (.cast c) (takePart c) (fun _ l d => Ready (.cast c) l d) ⟨Db.dropSeat none, held⟩ d := by
  rw [takePart, wp_do, releasePoolSeatOf, wp_do, wp_query]
  intro e hrely _
  split
  next => exact wp_markPresentOnCast hown hheld (hopen.rely hrely hheld)
  next member _ =>
    refine wp_releasePoolSeat fun e₁ held₁ seat hsub hrely₁ _ => ?_
    exact wp_markPresentOnCast hown (hsub hheld) ((hopen.rely hrely hheld).rely hrely₁ hheld)

theorem wp_representedVoter (vote : Vote) (carried : Option Text) :
    wp contract (.cast c) (representedVoter c vote carried) (fun _ l d => Ready (.cast c) l d)
      ⟨Db.dropSeat none, held⟩ d := by
  cases carried with
  | some sub => exact drop_ready none
  | none =>
    rw [representedVoter, wp_do, claimPoolSeat, wp_do, wp_lockRow]
    intro e _ _
    dsimp only
    split
    · trivial
    · exact insert_ready (by simp)

theorem cast_keeps (c : Cast) : Keeps contract (.cast c) (cast c) := by
  intro d _
  rw [cast, wp_do]
  refine wp_lockVote (fun _ => rfl) fun e vote _ _ hvote => ?_
  simp only [wp_do, wp_require, wp_query]
  intro hopen _ _
  have hopen : OpenVote c.vote e := ⟨vote, hvote, of_decide_eq_true hopen⟩
  intro e₁ hrely _
  have hopen₁ : OpenVote c.vote e₁ := hopen.rely hrely mem_cons_self
  cases hown : c.asDelegation with
  | true =>
    simp only [if_true, Bool.not_true, Bool.false_eq_true, if_false]
    rw [wp_do]
    refine wp_mono (fun voter l d hready => ?_) (wp_representedVoter vote _)
    rw [wp_do, wp_ofExcept]
    exact fun choice _ => castSecret_keeps hready c.vote voter choice
  | false =>
    simp only [Bool.false_eq_true, if_false, Bool.not_false, if_true, ownVoter, wp_do, wp_require, wp_return, wp_ofExcept]
    intro _ _ choice _
    exact wp_mono (fun _ l d hready => castSecret_keeps hready c.vote c.sub choice)
      (wp_takePart hown mem_cons_self hopen₁)

end BallotPrograms

section MeetingPrograms

variable {r : Request} {d e : Db} {held : List Key}
variable {s : VoteStatus} {l : Loc Db Key}

theorem vote_setVote (v u : Uuid) (s : VoteStatus) :
    (d.setVote v s).vote u = if u = v then (d.vote v).map ({ · with status := s }) else d.vote u := by
  have hid : ∀ row : Vote, row.id = v → ({ row with status := s } : Vote).id = v := fun _ h => h
  exact Table.find_modify hid u

theorem mem_setVote {v : Uuid} {row : Vote} (h : row ∈ (d.setVote v s).votes) : row ∈ d.votes ∨ row.status = s := by
  obtain ⟨old, hold, rfl⟩ := mem_map.mp h
  split
  · exact .inr rfl
  · exact .inl hold

theorem effect_meeting (hattendance : e.attendance = d.attendance) (hdelegations : e.delegations = d.delegations)
    (hprincipals : e.principals = d.principals) (hstatus : d.status = .closed → e.status = .closed) : Effect r d e where
  frozen h := ⟨hstatus h, hattendance⟩
  lead p _ hrow _ := .inl ((record_congr hattendance p).trans hrow)
  excludes h _ := excludes_of_subset h hprincipals hattendance (by rw [hdelegations]; exact List.Subset.refl _)

theorem frame_meeting {locked excl : Prop} {record vote : Uuid → Prop} (hattendance : e.attendance = d.attendance)
    (hdelegations : e.delegations = d.delegations) (hprincipals : e.principals = d.principals)
    (hstatus : locked → e.status = d.status) (hopened : locked → ∀ v ∈ e.votes, v.status = .open → v ∈ d.votes)
    (hvote : ∀ v, vote v → e.vote v = d.vote v) : Frame locked excl record vote d e where
  principals := hprincipals
  status := hstatus
  entries _ _ hg _ := hdelegations ▸ hg
  opened := hopened
  reports _ p _ hrow _ _ := (record_congr hattendance p).symm.trans hrow
  record p _ := record_congr hattendance p
  vote := hvote

/-- The pending writes change locked votes only and open none. -/
structure OnlyVotes (l : Loc Db Key) : Prop where
  attendance : ∀ x, (l.pend x).attendance = x.attendance
  delegations : ∀ x, (l.pend x).delegations = x.delegations
  principals : ∀ x, (l.pend x).principals = x.principals
  status : ∀ x, (l.pend x).status = x.status
  opened : ∀ x, ∀ v ∈ (l.pend x).votes, v.status = .open → v ∈ x.votes
  vote : ∀ x v, .vote v ∉ l.held → (l.pend x).vote v = x.vote v

theorem OnlyVotes.none : OnlyVotes ⟨Db.dropSeat none, held⟩ :=
  ⟨fun _ => rfl, fun _ => rfl, fun _ => rfl, fun _ => rfl, fun _ _ hv _ => hv, fun _ _ _ => rfl⟩

theorem OnlyVotes.lock (h : OnlyVotes l) (k : Key) : OnlyVotes ⟨l.pend, k :: l.held⟩ :=
  ⟨h.attendance, h.delegations, h.principals, h.status, h.opened,
    fun x v hv => h.vote x v fun hmem => hv (mem_cons_of_mem _ hmem)⟩

theorem OnlyVotes.set (h : OnlyVotes l) {id : Uuid} (hs : s ≠ .open) (hheld : .vote id ∈ l.held) :
    OnlyVotes ⟨fun x => (l.pend x).setVote id s, l.held⟩ where
  attendance := h.attendance
  delegations := h.delegations
  principals := h.principals
  status := h.status
  opened x v hv hopen := by
    rcases mem_setVote hv with hmem | hstatus
    · exact h.opened x v hmem hopen
    · exact absurd (hstatus.symm.trans hopen) hs
  vote x v hv := by
    show ((l.pend x).setVote id s).vote v = _
    rw [vote_setVote, if_neg fun hvid : v = id => hv (hvid ▸ hheld), h.vote x v hv]

theorem OnlyVotes.ready (h : OnlyVotes l) : Ready r l d := by
  intro e _ hinv
  refine ⟨fun v hv hopen => ?_, ?_, ?_⟩
  · rw [h.status]
    exact hinv v (h.opened e v hv hopen) hopen
  · exact frame_meeting (h.attendance e) (h.delegations e) (h.principals e) (fun _ => h.status e) (fun _ => h.opened e) (h.vote e)
  · exact effect_meeting (h.attendance e) (h.delegations e) (h.principals e) fun hclosed => (h.status e).trans hclosed

theorem OnlyVotes.status_ready (h : OnlyVotes l) (hheld : .meeting ∈ l.held) {s : MeetingStatus} (hsource : d.status ≠ .closed)
    (hopen : s ≠ .live → ∀ v ∈ d.votes, v.status ≠ .open) : Ready r ⟨fun x => (l.pend x).setStatus s, l.held⟩ d := by
  intro e hrely _
  refine ⟨fun v hv hvopen => ?_, ?_, ?_⟩
  · by_contra hs
    have hmem := hrely.opened (.inl hheld) v (h.opened e v hv hvopen) hvopen
    exact hopen hs v hmem hvopen
  · exact frame_meeting (h.attendance e) (h.delegations e) (h.principals e) (fun hfree => absurd hheld hfree)
      (fun hfree => absurd hheld hfree) (h.vote e)
  · refine effect_meeting (h.attendance e) (h.delegations e) (h.principals e) fun hclosed => ?_
    rw [hrely.status (.inl hheld)] at hclosed
    exact absurd hclosed hsource

def Closing (l : Loc Db Key) (d : Db) : Prop :=
  OnlyVotes l ∧ .meeting ∈ l.held ∧ d.status ≠ .closed ∧ ∀ v ∈ d.votes, v.status ≠ .open

theorem Closing.rely (h : Closing l d) (hrely : contract.rely l.held d e) : Closing l e := by
  obtain ⟨honly, hheld, hstatus, hvotes⟩ := h
  refine ⟨honly, hheld, ?_, fun v hv hopen => ?_⟩
  · rw [hrely.status (.inl hheld)]
    exact hstatus
  · exact hvotes v (hrely.opened (.inl hheld) v hv hopen) hopen

theorem wp_cancelDrafts (h : Closing l d) : wp contract r cancelDrafts (fun _ l d => Closing l d) l d := by
  rw [cancelDrafts, wp_do, wp_query]
  intro e hrely _
  refine wp_forEach _ (fun _ => Closing) (fun id _ l d h => ?_) _ (h.rely hrely)
  rw [wp_do, wp_lockRow]
  intro f hrely' _
  have hlocked : Closing ⟨l.pend, .vote id :: l.held⟩ f := by
    obtain ⟨honly, hheld, hrest⟩ := h.rely hrely'
    exact ⟨honly.lock _, mem_cons_of_mem _ hheld, hrest⟩
  dsimp only
  split
  · obtain ⟨honly, hrest⟩ := hlocked
    exact ⟨honly.set (by decide) mem_cons_self, hrest⟩
  · exact hlocked

theorem patch_keeps (p : StatusPatch) : Keeps contract (.patch p) (patch p) := by
  intro d _
  rw [patch, wp_do, wp_lockRow]
  intro e _ hinv
  dsimp only
  rw [wp_do, wp_require]
  intro _
  split
  case isFalse => exact wp_ready OnlyVotes.none.ready
  case isTrue hchange =>
    rw [wp_do, wp_require]
    intro hallowed
    have hallowed : allowedTransition e.status p.status = true := hallowed
    have hsource := source_of_allowed hallowed
    split
    case isTrue hclosing =>
      rw [wp_do, wp_query]
      intro f hrely _
      rw [wp_do, wp_require]
      intro hvotes
      have hclosed : Closing ⟨Db.dropSeat none, [.meeting]⟩ f := by
        refine ⟨OnlyVotes.none, mem_cons_self, ?_, fun v hv hopen => ?_⟩
        · rw [hrely.status (.inl mem_cons_self)]
          exact hsource
        · have hvotes : (!f.votes.any (·.status = .open)) = true := hvotes
          simp only [Bool.not_eq_true', any_eq_false, decide_eq_true_eq] at hvotes
          exact hvotes v hv hopen
      rw [wp_do]
      refine wp_mono (fun _ l d h => ?_) (wp_cancelDrafts hclosed)
      obtain ⟨honly, hheld, hstatus, hopen⟩ := h
      exact wp_ready (honly.status_ready hheld hstatus fun _ => hopen)
    case isFalse hopening =>
      have hlive := live_of_allowed hallowed hopening
      rw [wp_do, refuseStart]
      split
      · trivial
      · have honly : OnlyVotes ⟨Db.dropSeat none, [.meeting]⟩ := OnlyVotes.none
        exact wp_ready (honly.status_ready mem_cons_self hsource fun h => absurd hlive h)

theorem wp_lockLiveMeeting {C : Contract Request Db Key} {plannedOk : Bool} {Q : Unit → Loc Db Key → Db → Prop}
    (h : ∀ e, C.inv e → e.status ≠ .closed → (plannedOk = false → e.status = .live) → Q () ⟨id, [.meeting]⟩ e) :
    wp C r (lockLiveMeeting plannedOk) Q .fresh d := by
  rw [lockLiveMeeting, wp_do, wp_lockRow]
  intro e _ hinv
  simp only [wp_do, wp_require]
  intro hstarted hclosed
  have hclosed : e.status ≠ .closed := of_decide_eq_true hclosed
  have hstarted : (decide (e.status ≠ .planned) || plannedOk) = true := hstarted
  refine h e hinv hclosed fun hplanned => ?_
  cases hs : e.status with
  | planned => simp [hs, hplanned] at hstarted
  | live => rfl
  | closed => exact absurd hs hclosed

theorem prepareVote_keeps (v : Uuid) (eligible : Option Uuid) (closesAt : Option Time) :
    Keeps contract (.prepareVote v eligible closesAt) (prepareVote v eligible closesAt) := by
  intro d _
  rw [prepareVote, wp_do]
  refine wp_lockLiveMeeting fun e _ _ _ => ?_
  rw [wp_do, wp_lockRow]
  intro f _ _
  simp only [wp_do, wp_require]
  intro _
  refine wp_ready (OnlyVotes.ready ⟨fun _ => rfl, fun _ => rfl, fun _ => rfl, fun _ => rfl, fun x w hw hopen => ?_, fun x w hw => ?_⟩)
  · rcases mem_append.mp hw with hmem | hnew
    · exact hmem
    · rw [mem_singleton.mp hnew] at hopen
      cases hopen
  · have hne : v ≠ w := fun h => hw (h ▸ mem_cons_self)
    show ((x.votes ++ [_]).find? _) = x.votes.find? _
    simp [find?_append, hne]

theorem openVote_keeps (v : Uuid) (refused : Option Problem) : Keeps contract (.openVote v refused) (openVote v refused) := by
  intro d _
  unfold openVote
  rw [wp_do]
  refine wp_lockLiveMeeting fun e _ _ hlive => ?_
  rw [wp_do]
  refine wp_lockVote (fun _ => rfl) fun f vote hrely _ _ => ?_
  rw [wp_do, wp_require]
  intro _
  cases refused with
  | some problem => trivial
  | none =>
    refine wp_ready fun x hrely' _ => ?_
    have hx : x.status = .live := by
      rw [hrely'.status (.inl (by simp)), hrely.status (.inl mem_cons_self)]
      exact hlive rfl
    refine ⟨fun _ _ _ => hx, frame_meeting rfl rfl rfl (fun _ => rfl) (fun hfree => absurd (by simp) hfree) fun w hw => ?_,
      effect_meeting rfl rfl rfl fun h => h⟩
    show (x.setVote v .open).vote w = _
    rw [vote_setVote, if_neg fun h : w = v => hw (by simp [h])]

theorem endVote_keeps (v : Uuid) (hs : s ≠ .open) (verb : Text) : Keeps contract r (endVote v s verb) := by
  intro d _
  rw [endVote, wp_do]
  refine wp_lockVote (fun _ => rfl) fun e vote _ _ _ => ?_
  rw [wp_do, wp_require]
  intro _
  exact wp_ready (OnlyVotes.none.set hs mem_cons_self).ready

end MeetingPrograms

section Laws

theorem script_keeps (r : Request) : Keeps contract r (script r) := by
  cases r with
  | setSelf s => exact setSelf_keeps s
  | setFor s => exact setFor_keeps s
  | reset s => exact reset_keeps s
  | cast c => exact cast_keeps c
  | create c => exact create_keeps c
  | createByLead c => exact createByLead_keeps c
  | revoke v => exact revoke_keeps v
  | patch p => exact patch_keeps p
  | prepareVote v eligible closesAt => exact prepareVote_keeps v eligible closesAt
  | openVote v refused => exact openVote_keeps v refused
  | closeVote v => exact endVote_keeps v (by decide) (text "close")
  | cancelVote v => exact endVote_keeps v (by decide) (text "cancel")

def KeepsClosed (d e : Db) : Prop := d.status = .closed → e.status = .closed ∧ e.attendance = d.attendance

theorem KeepsClosed.trans {d e f : Db} (h : KeepsClosed d e) (h' : KeepsClosed e f) : KeepsClosed d f := by
  intro hclosed
  obtain ⟨hstatus, hattendance⟩ := h hclosed
  obtain ⟨hstatus', hattendance'⟩ := h' hstatus
  exact ⟨hstatus', hattendance'.trans hattendance⟩

/-- In a run whose commits are all in time, presence excludes a delegation that is no
pool seat. In every run a closed meeting keeps its attendance, and a commit that
changes a record of the lead comes from the lead or is the own ballot of the member. -/
theorem presence_excludes_delegation {d : Db} (hinv : Inv d) (hexcludes : Excludes d) {es : List (Event Request)}
    {s : Sys Request Db Key Problem} (hrun : run script ⟨d, []⟩ es = some s) :
    (Guarded InTime script ⟨d, []⟩ es → Excludes s.db) ∧
    (∀ fs s', run script s fs = some s' → s.db.status = .closed →
      s'.db.status = .closed ∧ s'.db.attendance = s.db.attendance) ∧
    ∀ ev r e, commitOf s ev = some (r, e) → ∀ p row, s.db.record p = some row → row.source = .lead →
      e.record p = some row ∨ ByLeadOrBallot s.db p r := by
  have hsound : Sound contract s := run_sound script_keeps hinv ⟨es, hrun⟩
  refine ⟨fun htime => ?_, fun fs s' hrun' => ?_, fun ev r e hcommit => ?_⟩
  · exact guarded_run (J := Excludes) script_keeps (fun _ _ h hguar hin => hguar.2.excludes h hin)
      (sound_start (C := contract) hinv) hexcludes htime hrun
  · exact (sound_run_keeps script_keeps (R := KeepsClosed) (fun _ h => ⟨h, rfl⟩) KeepsClosed.trans
      (fun _ hguar => hguar.2.frozen) hsound hrun').2
  · obtain ⟨-, held, hguar⟩ := hsound.of_commitOf hcommit
    exact hguar.2.lead

def plannedMeeting : Db where
  gremium := 5
  principals := [⟨1, text "anna", text "anna"⟩, ⟨2, text "ben", text "ben"⟩, ⟨3, text "cleo", text "cleo"⟩]
  status := .planned
  attendance := []
  delegations := []
  votes := [⟨7, .draft, some 5, none⟩]
  markers := []
  ballots := []

theorem plannedMeeting_inv : Inv plannedMeeting := by
  intro v hv hopen
  rw [mem_singleton.mp hv] at hopen
  cases hopen

theorem plannedMeeting_excludes : Excludes plannedMeeting := by
  intro p row hrow
  cases hrow

def annaPresent : Request := .setSelf ⟨text "anna", true, .present, none, false⟩

def startMeeting : Request := .patch ⟨.live, true, none⟩

def closeMeeting : Request := .patch ⟨.closed, true, none⟩

def leadEnters (member : Uuid) : Request := .createByLead ⟨20, text "lead", member, 3, true, true, true, true, true⟩

def annaDelegates : Request :=
  .create ⟨20, text "anna", 3, true, true, true, true, false, false, none, 0, 0⟩

def annaVotes : Request :=
  .cast ⟨7, text "anna", true, true, true, .ok (text "yes"), false, [], false, [], 21, 0⟩

/-- The request starts as transaction `i` and takes its first `n` steps. -/
def alone (r : Request) (i n : ℕ) : List (Event Request) := .start r :: List.replicate n (.step i)

def goesOn (i n : ℕ) : List (Event Request) := List.replicate n (.step i)

def quietMeeting : List (Event Request) :=
  alone annaPresent 0 8 ++ alone startMeeting 1 3 ++ alone (leadEnters 2) 2 5 ++ alone closeMeeting 3 7

def Db.overview (d : Db) : List (Uuid × Status) × List (Uuid × Bool) :=
  (d.attendance.map fun row => (row.principal, row.status), d.delegations.map fun g => (g.delegator, d.poolSeat g))

theorem quietMeeting_excludes :
    ∃ s, run script ⟨plannedMeeting, []⟩ quietMeeting = some s ∧ Excludes s.db ∧
      s.db.overview = ([(1, .present)], [(2, false)]) ∧
      ∀ fs s', run script s fs = some s' → s'.db.attendance = s.db.attendance := by
  have htime : Guarded InTime script ⟨plannedMeeting, []⟩ quietMeeting := by decide +kernel
  have hrun : (run script ⟨plannedMeeting, []⟩ quietMeeting).map (fun s => (s.db.status, s.db.overview)) =
      some (.closed, [(1, .present)], [(2, false)]) := by decide +kernel
  obtain ⟨s, hs, hend⟩ := Option.map_eq_some_iff.mp hrun
  simp only [Prod.mk.injEq] at hend
  obtain ⟨hexcludes, hclosed, -⟩ := presence_excludes_delegation plannedMeeting_inv plannedMeeting_excludes hs
  exact ⟨s, hs, hexcludes htime, hend.2, fun fs s' hrun' => (hclosed fs s' hrun' hend.1).2⟩

def laterDelegation : List (Event Request) := alone annaPresent 0 8 ++ alone annaDelegates 1 4

/-- The lead finds Anna missing, and her ballot finds no delegation; the lead stores the
entry and the ballot marks her present. -/
def crossedBallot : List (Event Request) :=
  alone startMeeting 0 3 ++ alone (.openVote 7 none) 1 4 ++ alone (leadEnters 1) 2 2 ++ alone annaVotes 3 7 ++
    goesOn 2 3 ++ goesOn 3 5

theorem not_excludes {d : Db} (h : d.overview = ([(1, .present)], [(1, false)])) : ¬ Excludes d := by
  intro hexcludes
  obtain ⟨hattendance, hdelegations⟩ := Prod.mk.inj h
  obtain ⟨row, hrows, hrow⟩ := map_eq_singleton_iff.mp hattendance
  obtain ⟨g, hgs, hg⟩ := map_eq_singleton_iff.mp hdelegations
  simp only [Prod.mk.injEq] at hrow hg
  have hrecord : d.record 1 = some row := by simp [Db.record, hrows, hrow.1]
  have := hexcludes 1 row hrecord hrow.2 g (by simp [hgs]) hg.1
  rw [hg.2] at this
  cases this

theorem present_and_delegated :
    (∃ s, run script ⟨plannedMeeting, []⟩ laterDelegation = some s ∧ ¬ Excludes s.db) ∧
    ∃ s, run script ⟨plannedMeeting, []⟩ crossedBallot = some s ∧ ¬ Excludes s.db := by
  have hlater : (run script ⟨plannedMeeting, []⟩ laterDelegation).map (fun s => s.db.overview) =
      some ([(1, .present)], [(1, false)]) := by decide +kernel
  have hcrossed : (run script ⟨plannedMeeting, []⟩ crossedBallot).map (fun s => s.db.overview) =
      some ([(1, .present)], [(1, false)]) := by decide +kernel
  constructor
  · obtain ⟨s, hs, hend⟩ := Option.map_eq_some_iff.mp hlater
    exact ⟨s, hs, not_excludes hend⟩
  · obtain ⟨s, hs, hend⟩ := Option.map_eq_some_iff.mp hcrossed
    exact ⟨s, hs, not_excludes hend⟩

end Laws

end Attendance
