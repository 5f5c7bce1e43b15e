import StupaWorkflow.FlowCycles

/-!
One tick of the deadline worker. It lists the confirmed applications in a state with an automatic
transition and the open votes past their window, oldest first, at most 200 each, and serves them.
-/
namespace Flow
open Py List
open Guards (Builtins)

section Scans

variable {α : Type*} (key : α → ℕ) (due serves : α → Bool) (limit : ℕ) (rows : List α)

/-- An answer of `ORDER BY key` before its limit: rows of the same age come in any order. -/
def Ordered (order : List α) : Prop := order.Perm (rows.filter due) ∧ order.Pairwise fun a b => key a ≤ key b

/-- The due rows that are not served and no younger than `m`. -/
def ahead (m : α) : List α := rows.filter fun b => due b && !serves b && decide (key b ≤ key m)

/-- If there is a row to serve at all, one of them has room in the scan. -/
def Reached : Prop :=
  ∀ r ∈ rows, due r = true → serves r = true →
    ∃ m ∈ rows, due m = true ∧ serves m = true ∧ (ahead key due serves rows m).length < limit

variable {key due serves limit rows} {order : List α}

theorem Ordered.mem (h : Ordered key due rows order) {r : α} : r ∈ order ↔ r ∈ rows ∧ due r = true :=
  h.1.mem_iff.trans mem_filter

theorem Ordered.ahead (h : Ordered key due rows order) (m : α) :
    (order.filter fun b => !serves b && decide (key b ≤ key m)).length = (ahead key due serves rows m).length := by
  rw [(h.1.filter _).length_eq, filter_filter, Flow.ahead]
  refine congrArg List.length (filter_congr fun b _ => ?_)
  cases due b <;> simp

theorem Ordered.stuck (h : Ordered key due rows order) (hfirst : ∀ r ∈ order.take limit, serves r = false) {m : α}
    (hm : m ∈ order) (hserves : serves m = true) : limit ≤ (Flow.ahead key due serves rows m).length := by
  have hsplit := take_append_drop limit order
  have hlast : m ∈ order.drop limit := by
    rw [← hsplit] at hm
    refine (mem_append.mp hm).resolve_left fun hmem => ?_
    rw [hfirst m hmem] at hserves
    cases hserves
  have holder : ∀ b ∈ order.take limit, (!serves b && decide (key b ≤ key m)) = true := by
    intro b hb
    have hsorted := h.2
    rw [← hsplit, pairwise_append] at hsorted
    simp [hfirst b hb, hsorted.2.2 b hb m hlast]
  have hlength : (order.take limit).length = limit := by
    have := length_pos_of_mem hlast
    rw [length_drop] at this
    rw [length_take]
    omega
  calc limit = ((order.take limit).filter fun b => !serves b && decide (key b ≤ key m)).length := by
        rw [filter_eq_self.mpr holder, hlength]
    _ ≤ (order.filter fun b => !serves b && decide (key b ≤ key m)).length :=
        ((take_sublist limit order).filter _).length_le
    _ = (Flow.ahead key due serves rows m).length := h.ahead m

/-- The order that puts the rows to serve behind the others of their age. -/
def lastServed (key : α → ℕ) (due serves : α → Bool) (rows : List α) : List α :=
  (rows.filter due).insertionSort fun a b => 2 * key a + (serves a).toNat ≤ 2 * key b + (serves b).toNat

theorem lastServed_sorted : (lastServed key due serves rows).Pairwise fun a b =>
    2 * key a + (serves a).toNat ≤ 2 * key b + (serves b).toNat :=
  haveI : Std.Total fun a b : α => 2 * key a + (serves a).toNat ≤ 2 * key b + (serves b).toNat :=
    ⟨fun a b => le_total (2 * key a + (serves a).toNat) (2 * key b + (serves b).toNat)⟩
  haveI : IsTrans α fun a b => 2 * key a + (serves a).toNat ≤ 2 * key b + (serves b).toNat := ⟨fun _ _ _ => le_trans⟩
  pairwise_insertionSort _ _

theorem lastServed_ordered : Ordered key due rows (lastServed key due serves rows) := by
  refine ⟨perm_insertionSort _ _, lastServed_sorted.imp fun {a b} hle => ?_⟩
  have ha := Bool.toNat_le (serves a)
  have hb := Bool.toNat_le (serves b)
  omega

theorem lastServed_blocked (h : ∀ m ∈ rows, due m = true → serves m = true → limit ≤ (ahead key due serves rows m).length) :
    ∀ r ∈ (lastServed key due serves rows).take limit, serves r = false := by
  intro r hr
  by_contra hserves
  have hserves : serves r = true := by simpa using hserves
  obtain ⟨s, t, hsplit⟩ := append_of_mem hr
  have horder : lastServed key due serves rows = s ++ r :: (t ++ (lastServed key due serves rows).drop limit) := by
    conv_lhs => rw [← take_append_drop limit (lastServed key due serves rows), hsplit]
    simp
  have hsorted : (s ++ r :: (t ++ (lastServed key due serves rows).drop limit)).Pairwise fun a b =>
      2 * key a + (serves a).toNat ≤ 2 * key b + (serves b).toNat := horder ▸ lastServed_sorted
  -- no blocked row of the age of `r` stands behind it
  have hbehind : (r :: (t ++ (lastServed key due serves rows).drop limit)).filter
      (fun b => !serves b && decide (key b ≤ key r)) = [] := by
    refine filter_eq_nil_iff.mpr fun b hb => ?_
    have hle : 2 * key r + (serves r).toNat ≤ 2 * key b + (serves b).toNat := by
      rcases mem_cons.mp hb with rfl | hb
      · exact le_rfl
      · exact (pairwise_cons.mp (pairwise_append.mp hsorted).2.1).1 b hb
    rw [hserves] at hle
    cases hb : serves b with
    | false =>
      rw [hb] at hle
      simp only [Bool.toNat_true, Bool.toNat_false] at hle
      simp only [Bool.not_false, Bool.true_and, decide_eq_true_eq]
      omega
    | true => simp
  have hlt : s.length < limit := by
    have := congrArg List.length hsplit
    rw [length_take, length_append, length_cons] at this
    omega
  obtain ⟨hmem, hdue⟩ := lastServed_ordered.mem.mp (mem_of_mem_take hr)
  have hmany := h r hmem hdue hserves
  have hordered : Ordered key due rows (lastServed key due serves rows) := lastServed_ordered
  rw [← hordered.ahead r, horder, filter_append, hbehind, append_nil] at hmany
  have := length_filter_le (fun b => !serves b && decide (key b ≤ key r)) s
  omega

/-- A scan that serves nothing leaves nothing to serve exactly when a row to serve has room in it. -/
theorem reached_iff : (∀ order, Ordered key due rows order → (∀ r ∈ order.take limit, serves r = false) →
    ∀ r ∈ rows, due r = true → serves r = false) ↔ Reached key due serves limit rows := by
  constructor
  · intro h r hr hdue hserves
    by_contra hnone
    have hblocked : ∀ r ∈ (lastServed key due serves rows).take limit, serves r = false := lastServed_blocked fun m hm hmdue hmserves =>
      not_lt.mp fun hroom => hnone ⟨m, hm, hmdue, hmserves, hroom⟩
    have hfalse := h _ lastServed_ordered hblocked r hr hdue
    rw [hserves] at hfalse
    cases hfalse
  · intro h order hordered hfirst r hr hdue
    by_contra hserves
    obtain ⟨m, hm, hmdue, hmserves, hroom⟩ := h r hr hdue (by simpa using hserves)
    have := hordered.stuck hfirst (hordered.mem.mpr ⟨hm, hmdue⟩) hmserves
    omega

end Scans

section Rows

/-- Times in seconds. -/
abbrev Time := ℕ

def systemPrincipal : Principal := ⟨text "system:deadlines", [text "system"]⟩

def World.branchTransition (W : World) (branch : Text) : Option Transition := W.outgoing.find? fun t => t.row.branch = some branch

def World.stageBranch (B : Builtins) (W : World) (branch : Text) : Except FireProblem Application :=
  match W.branchTransition branch with
  | none => .error (.notFound (text "no '" ++ branch ++ text "' transition from the application's current state"))
  | some t => W.stageFire B t.ref systemPrincipal false false

structure AppRow where
  id : Uuid
  createdAt : Time
  confirmed : Bool
  world : World

/-- The current state is the source of an automatic transition. -/
def AppRow.listed (r : AppRow) : Bool :=
  r.confirmed && r.world.app.state.any fun s => (r.world.transitions s.version).any fun t => t.row.automatic && t.source = s

/-- `_advance_one` logs any exception and reports that nothing moved. -/
def AppRow.advanced (B : Builtins) (r : AppRow) : Option Application := (r.world.autoAdvance B systemPrincipal).toOption.join

def AppRow.moves (B : Builtins) (r : AppRow) : Bool := (r.advanced B).isSome

/-- `passed` is the result of the tally. Only a motion has an application, and so a branch. -/
structure VoteRow where
  id : Uuid
  isOpen : Bool
  closesAt : Option Time
  quorumMet : Bool
  passed : Bool
  gremium : Option Uuid
  application : Option World

def VoteRow.due (now : Time) (v : VoteRow) : Bool := v.isOpen && v.closesAt.any (· ≤ now)

def VoteRow.gremiumMismatch (v : VoteRow) (W : World) : Bool :=
  isVote (W.app.state.bind W.state) && (W.app.voteGremium.isNone || v.gremium ≠ W.app.voteGremium)

/-- `_try_stage`: a conflict or a missing branch is caught, another exception is not. -/
def VoteRow.tryStage (B : Builtins) (v : VoteRow) (W : World) : Except FireProblem Bool :=
  match W.stageBranch B (text (if v.quorumMet && v.passed then "pass" else "fail")) with
  | .ok _ => .ok true
  | .error (.conflict _ _) => .ok false
  | .error (.notFound _) => .ok false
  | .error e => .error e

/-- `VotingService.close`: whether the branch fired. -/
def VoteRow.close (B : Builtins) (now : Time) (v : VoteRow) : Except FireProblem Bool := do
  raiseUnless v.isOpen (.conflict (text "vote is not open, cannot close.") (text "vote_not_open"))
  raiseUnless (v.quorumMet || v.closesAt.any (· ≤ now))
    (.conflict (text "quorum not met — the vote cannot be closed; collect more ballots or cancel the vote.")
      (text "quorum_not_met"))
  match v.application with
  | none => return false
  | some W => if v.gremiumMismatch W then return false else v.tryStage B W

def VoteRow.accepted (B : Builtins) (now : Time) (v : VoteRow) : Bool := (v.close B now).toOption.isSome

structure Backlog where
  apps : List AppRow
  votes : List VoteRow
  appIds : (apps.map AppRow.id).Nodup
  voteIds : (votes.map VoteRow.id).Nodup

/-- What a fired transition and a closed vote write, in their own rows and in others. -/
structure Writes where
  fired : Uuid → Application → Backlog → Backlog
  closed : Uuid → Bool → Backlog → Backlog

end Rows

section Tick

def scanLimit : ℕ := 200

variable (B : Builtins) (w : Writes) (now : Time)

def advanceOne (T : Backlog) (id : Uuid) : Backlog × Bool :=
  match (T.apps.find? (·.id = id)).bind (AppRow.advanced B) with
  | some app => (w.fired id app T, true)
  | none => (T, false)

/-- The row is locked while it is still due; an exception of the close leaves everything as it was. -/
def closeOne (T : Backlog) (id : Uuid) : Backlog × Bool :=
  match ((T.votes.find? (·.id = id)).filter (VoteRow.due now)).bind fun v => (v.close B now).toOption with
  | some branchFired => (w.closed id branchFired T, true)
  | none => (T, false)

/-- The rows one by one, each in the state that the one before left. -/
def serveAll (serve : Backlog → Uuid → Backlog × Bool) : Backlog → List Uuid → ℕ
  | _, [] => 0
  | T, id :: ids => (serve T id).2.toNat + serveAll serve (serve T id).1 ids

def processAutoTransitions (T : Backlog) (order : List AppRow) : ℕ :=
  serveAll (advanceOne B w) T ((order.take scanLimit).map AppRow.id)

def processVotes (T : Backlog) (order : List VoteRow) : ℕ :=
  serveAll (closeOne B w now) T ((order.take scanLimit).map VoteRow.id)

/-- A tick that does nothing has nothing left to do. -/
structure Serves (T : Backlog) : Prop where
  apps : ∀ order, Ordered AppRow.createdAt AppRow.listed T.apps order → processAutoTransitions B w T order = 0 →
    ∀ r ∈ T.apps, r.confirmed = true → r.moves B = false
  votes : ∀ order, Ordered (fun v => v.closesAt.getD 0) (VoteRow.due now) T.votes order → processVotes B w now T order = 0 →
    ∀ v ∈ T.votes, v.due now = true → v.accepted B now = false

variable {B w now} {T : Backlog}

theorem serveAll_zero {serve : Backlog → Uuid → Backlog × Bool} (hkept : ∀ T id, (serve T id).2 = false → (serve T id).1 = T)
    (T : Backlog) (ids : List Uuid) : serveAll serve T ids = 0 ↔ ∀ id ∈ ids, (serve T id).2 = false := by
  induction ids with
  | nil => simp [serveAll]
  | cons id ids ih =>
    rw [serveAll, Nat.add_eq_zero_iff, Bool.toNat_eq_zero, forall_mem_cons]
    refine and_congr_right fun hid => ?_
    rw [hkept T id hid, ih]

theorem advanceOne_kept (T : Backlog) (id : Uuid) (h : (advanceOne B w T id).2 = false) : (advanceOne B w T id).1 = T := by
  unfold advanceOne at h ⊢
  split
  · simp_all
  · rfl

theorem closeOne_kept (T : Backlog) (id : Uuid) (h : (closeOne B w now T id).2 = false) : (closeOne B w now T id).1 = T := by
  unfold closeOne at h ⊢
  split
  · simp_all
  · rfl

theorem advanceOne_row {r : AppRow} (hr : r ∈ T.apps) : (advanceOne B w T r.id).2 = r.moves B := by
  rw [advanceOne, Table.find_of_mem T.appIds hr rfl, Option.bind_some, AppRow.moves]
  cases r.advanced B <;> rfl

theorem closeOne_row {v : VoteRow} (hv : v ∈ T.votes) (hdue : v.due now = true) :
    (closeOne B w now T v.id).2 = v.accepted B now := by
  rw [closeOne, Table.find_of_mem T.voteIds hv rfl, Option.filter_some_pos hdue, Option.bind_some, VoteRow.accepted]
  cases (v.close B now).toOption <;> rfl

theorem processAutoTransitions_zero {order : List AppRow} (h : Ordered AppRow.createdAt AppRow.listed T.apps order) :
    processAutoTransitions B w T order = 0 ↔ ∀ r ∈ order.take scanLimit, r.moves B = false := by
  rw [processAutoTransitions, serveAll_zero advanceOne_kept, forall_mem_map]
  exact forall₂_congr fun r hr => by rw [advanceOne_row (h.mem.mp (mem_of_mem_take hr)).1]

theorem processVotes_zero {order : List VoteRow} (h : Ordered (fun v => v.closesAt.getD 0) (VoteRow.due now) T.votes order) :
    processVotes B w now T order = 0 ↔ ∀ v ∈ order.take scanLimit, v.accepted B now = false := by
  rw [processVotes, serveAll_zero closeOne_kept, forall_mem_map]
  refine forall₂_congr fun v hv => ?_
  obtain ⟨hrow, hdue⟩ := h.mem.mp (mem_of_mem_take hv)
  rw [closeOne_row hrow hdue]

/-- A confirmed application that moves is in the list before its limit. -/
theorem AppRow.listed_of_moves {r : AppRow} (hconfirmed : r.confirmed = true) (hmoves : r.moves B = true) : r.listed = true := by
  obtain ⟨app, happ⟩ := Option.isSome_iff_exists.mp hmoves
  have hfires : r.world.autoAdvance B systemPrincipal = .ok (some app) := by
    unfold AppRow.advanced at happ
    cases h : r.world.autoAdvance B systemPrincipal with
    | error e => simp [h, Except.toOption] at happ
    | ok found => simpa [h, Except.toOption] using happ
  obtain ⟨t, hout, hautomatic, -⟩ := autoAdvance_fires hfires
  obtain ⟨hload, hversion, hsource⟩ := mem_outgoing.mp hout
  rw [AppRow.listed, hconfirmed, ← hsource]
  simp only [Bool.true_and, Option.any_some, any_eq_true]
  exact ⟨t, mem_transitions.mpr ⟨hload, rfl⟩, by simp [hautomatic]⟩

theorem settled_apps : (∀ order, Ordered AppRow.createdAt AppRow.listed T.apps order → processAutoTransitions B w T order = 0 →
    ∀ r ∈ T.apps, r.confirmed = true → r.moves B = false) ↔
      Reached AppRow.createdAt AppRow.listed (AppRow.moves B) scanLimit T.apps := by
  rw [← reached_iff]
  refine forall₂_congr fun order horder => ?_
  rw [processAutoTransitions_zero horder]
  refine imp_congr_right fun _ => forall₂_congr fun r _ => ⟨fun h hlisted => ?_, fun h hconfirmed => ?_⟩
  · exact h (Bool.and_eq_true_iff.mp hlisted).1
  · by_contra hmoves
    exact hmoves (h (AppRow.listed_of_moves hconfirmed (by simpa using hmoves)))

theorem settled_votes : (∀ order, Ordered (fun v => v.closesAt.getD 0) (VoteRow.due now) T.votes order →
    processVotes B w now T order = 0 → ∀ v ∈ T.votes, v.due now = true → v.accepted B now = false) ↔
      Reached (fun v => v.closesAt.getD 0) (VoteRow.due now) (VoteRow.accepted B now) scanLimit T.votes := by
  rw [← reached_iff]
  refine forall₂_congr fun order horder => ?_
  rw [processVotes_zero horder]

theorem tick_settles (B : Builtins) (w : Writes) (now : Time) (T : Backlog) : Serves B w now T ↔
    Reached AppRow.createdAt AppRow.listed (AppRow.moves B) scanLimit T.apps ∧
      Reached (fun v => v.closesAt.getD 0) (VoteRow.due now) (VoteRow.accepted B now) scanLimit T.votes :=
  ⟨fun h => ⟨settled_apps.mp h.apps, settled_votes.mp h.votes⟩,
    fun h => ⟨settled_apps.mpr h.1, settled_votes.mpr h.2⟩⟩

/-- The relay whose first transition asks for at most 50. -/
def cappedRelay : Config.FlowGraph :=
  { relay with transitions := [{ automaticTo "draft" "sent" with guard := some (amountAtMost "50") }] }

def cappedWorld (amount : ℤ) : World :=
  { relayWorld with
    versions := fun _ => cappedRelay.rows
    facts := { fieldValues := [(text "amount", .int amount)], fieldTypes := [(text "amount", text "currency")] } }

def stuck (i : ℕ) : AppRow := ⟨i, i, true, cappedWorld 100⟩

def youngest : AppRow := ⟨200, 200, true, cappedWorld 40⟩

/-- 200 applications of one flow that cannot move, and a younger one that can. -/
def crowded : Backlog where
  apps := (List.range 200).map stuck ++ [youngest]
  votes := []
  appIds := by
    have hids : ((List.range 200).map stuck ++ [youngest]).map AppRow.id = List.range 201 := by
      rw [map_append, map_map, show AppRow.id ∘ stuck = id from rfl, map_id]
      exact (range_succ (n := 200)).symm
    rw [hids]
    exact nodup_range
  voteIds := nodup_nil

theorem crowded_ordered : Ordered AppRow.createdAt AppRow.listed crowded.apps crowded.apps := by
  have hstuck : (cappedWorld 100).app.state.any (fun s => ((cappedWorld 100).transitions s.version).any fun t =>
      t.row.automatic && t.source = s) = true := by decide +kernel
  have hrelay : youngest.listed = true := by decide +kernel
  constructor
  · refine List.Perm.of_eq (filter_eq_self.mpr (forall_mem_append.mpr ⟨?_, ?_⟩)).symm
    · exact forall_mem_map.mpr fun i _ => hstuck
    · exact forall_mem_singleton.mpr hrelay
  · refine pairwise_append.mpr ⟨pairwise_map.mpr ?_, pairwise_singleton _ _, ?_⟩
    · exact pairwise_lt_range.imp fun hlt => hlt.le
    · refine forall_mem_map.mpr fun i hi => forall_mem_singleton.mpr ?_
      exact (mem_range.mp hi).le

theorem crowded_starves : ¬ Serves plainBuiltins ⟨fun _ _ T => T, fun _ _ T => T⟩ 0 crowded := by
  intro h
  have hnone : processAutoTransitions plainBuiltins ⟨fun _ _ T => T, fun _ _ T => T⟩ crowded crowded.apps = 0 := by
    have hstuck : (((cappedWorld 100).autoAdvance plainBuiltins systemPrincipal).toOption.join).isSome = false := by decide +kernel
    rw [processAutoTransitions_zero crowded_ordered]
    have hfirst : crowded.apps.take scanLimit = (List.range 200).map stuck := take_left' (by simp [scanLimit])
    rw [hfirst]
    exact forall_mem_map.mpr fun i _ => hstuck
  have hlast := h.apps crowded.apps crowded_ordered hnone youngest
    (mem_append_right _ mem_cons_self) rfl
  revert hlast
  decide +kernel

end Tick

end Flow
