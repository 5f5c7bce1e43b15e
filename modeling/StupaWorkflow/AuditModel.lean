import StupaWorkflow.CanonicalJson
import StupaWorkflow.HashChain
import StupaWorkflow.PyCodec
import StupaWorkflow.PyTime
import StupaWorkflow.Transactions

/-!
The audit log: `canonical_payload` and `compute_hash`, `AuditService.record` as the statements of
the caller's transaction, and `AuditService.verify_chain`. `sha256` is a parameter.
-/
namespace Py

def Datetime.valid (t : Datetime) : Bool :=
  1 ≤ t.date.year && t.date.year ≤ 9999 && 1 ≤ t.date.month && t.date.month ≤ 12 && 1 ≤ t.date.day && t.date.day ≤ 31 &&
    t.clock.hour < 24 && t.clock.minute < 60 && t.clock.second < 60 && t.clock.microsecond < 1000000

def Datetime.isoformat (t : Datetime) : Text :=
  t.date.isoformat ++ 84 :: digits 2 t.clock.hour ++ 58 :: digits 2 t.clock.minute ++ 58 :: digits 2 t.clock.second ++
    (if t.clock.microsecond = 0 then [] else 46 :: digits 6 t.clock.microsecond) ++ text "+00:00"

end Py

namespace Audit

open Py ReadCommitted

abbrev Bytes := List ℕ

/-- A `timestamptz`. -/
structure Stamp where
  time : Datetime
  valid : time.valid = true

structure Data where
  value : Json
  floats : value.FloatsWritten

/-- The columns that `canonical_payload` covers. -/
structure Fields where
  actor : Option Text
  action : Text
  targetType : Option Text
  targetId : Option Text
  stamp : Stamp
  data : Data

structure AuditEntry where
  id : ℕ
  fields : Fields
  prevHash : Option Bytes
  hash : Bytes

inductive Problem where
  | typeError
  | unicodeEncodeError
  deriving DecidableEq

def optionalText : Option Text → Json
  | none => .null
  | some s => .str s

def payload (f : Fields) : Json :=
  .obj [(text "action", .str f.action), (text "actor", optionalText f.actor), (text "at", .str f.stamp.time.isoformat),
    (text "data", f.data.value), (text "target_id", optionalText f.targetId),
    (text "target_type", optionalText f.targetType)]

def canonicalPayload (f : Fields) : Except Problem Bytes :=
  match utf8Encode (payload f).dumpsSorted with
  | some bytes => .ok bytes
  | none => .error .unicodeEncodeError

/-- The genesis entry hashes without a predecessor. -/
def computeHash (sha256 : Bytes → Bytes) (prevHash : Option Bytes) (canonical : Bytes) : Bytes :=
  sha256 (prevHash.getD [] ++ canonical)

def entryHash (sha256 : Bytes → Bytes) (entry : AuditEntry) : Except Problem Bytes :=
  (canonicalPayload entry.fields).map (computeHash sha256 entry.prevHash)

inductive ChainBreak where
  | prevHashMismatch
  | hashMismatch
  deriving DecidableEq

def linkBreak (sha256 : Bytes → Bytes) (prevHash : Option Bytes) (entry : AuditEntry) :
    Except Problem (Option ChainBreak) :=
  if entry.prevHash ≠ prevHash then .ok (some .prevHashMismatch)
  else (entryHash sha256 entry).map fun h => if h = entry.hash then none else some .hashMismatch

structure ChainVerification where
  valid : Bool
  checked : ℕ
  brokenAt : Option ℕ
  reason : Option ChainBreak
  deriving DecidableEq

/-- The loop of `verify_chain` over the rows that are left. -/
def verifyFrom (sha256 : Bytes → Bytes) : Option Bytes → ℕ → List AuditEntry → Except Problem ChainVerification
  | _, checked, [] => .ok ⟨true, checked, none, none⟩
  | prevHash, checked, entry :: entries =>
    match linkBreak sha256 prevHash entry with
    | .error e => .error e
    | .ok (some reason) => .ok ⟨false, checked, some entry.id, some reason⟩
    | .ok none => verifyFrom sha256 (some entry.hash) (checked + 1) entries

/-- `ORDER BY id`. -/
def byId (rows : List AuditEntry) : List AuditEntry := rows.insertionSort fun a b => a.id ≤ b.id

def verifyChain (sha256 : Bytes → Bytes) (rows : List AuditEntry) : Except Problem ChainVerification :=
  verifyFrom sha256 none 0 (byId rows)

/-- The `data` argument: a `dict` of JSON values, or one that JSON cannot represent. -/
inductive DataArg where
  | dict (members : List (Text × Json)) (floats : Json.FloatsWrittenMembers members)
  | unrepresentable

/-- The arguments of one `record` call. The clock answers `now`; `skipped` numbers
of the sequence went to rows that were rolled back. -/
structure Call where
  actor : Option Text
  action : Text
  targetType : Option Text
  targetId : Option Text
  data : Option DataArg
  stamp : Option Stamp
  now : Stamp
  skipped : ℕ

/-- `data or {}`. -/
def Call.payload (c : Call) : Except Problem Data :=
  match c.data with
  | none => .ok ⟨.obj [], trivial⟩
  | some (.dict members floats) => .ok ⟨.obj members, floats⟩
  | some .unrepresentable => .error .typeError

def Call.fields (c : Call) (data : Data) : Fields :=
  { actor := c.actor, action := c.action, targetType := c.targetType, targetId := c.targetId,
    stamp := c.stamp.getD c.now, data }

abbrev Db := List AuditEntry

/-- `pg_advisory_xact_lock` on the key of the chain. -/
inductive Lock where
  | chain
  deriving DecidableEq

abbrev P := Prog Db Lock Problem

def nextId (rows : List AuditEntry) (skipped : ℕ) : ℕ := (rows.map (·.id)).foldr max 0 + 1 + skipped

def record (sha256 : Bytes → Bytes) (c : Call) : P Unit := do
  let _ ← Prog.lockRow fun _ => some .chain
  let rows ← Prog.query
  let prevHash := (byId rows).getLast?.map (·.hash)
  let data ← Prog.ofExcept c.payload
  let fields := c.fields data
  let canonical ← Prog.ofExcept (canonicalPayload fields)
  let seen ← Prog.query
  let entry : AuditEntry :=
    { id := nextId seen c.skipped, fields, prevHash, hash := computeHash sha256 prevHash canonical }
  Prog.update fun rows => rows ++ [entry]

def script (sha256 : Bytes → Bytes) (batches : List (List Call)) : P Unit :=
  Prog.forEach batches fun calls => do
    Prog.forEach calls (record sha256)
    Prog.publish

section Verification

variable {sha256 : Bytes → Bytes}
variable {p : Option Bytes}

def Sealed (sha256 : Bytes → Bytes) (e : AuditEntry) : Prop := entryHash sha256 e = .ok e.hash

abbrev Chained (sha256 : Bytes → Bytes) : Option Bytes → List AuditEntry → Prop :=
  HashChain.Chained AuditEntry.prevHash AuditEntry.hash (Sealed sha256)

theorem linkBreak_none {e : AuditEntry} : linkBreak sha256 p e = .ok none ↔ e.prevHash = p ∧ Sealed sha256 e := by
  unfold linkBreak Sealed
  by_cases hp : e.prevHash = p
  · rw [if_neg (not_not.mpr hp)]
    cases h : entryHash sha256 e with
    | error x => simp [Except.map, hp]
    | ok v => by_cases hv : v = e.hash <;> simp [Except.map, hp, hv]
  · simp [hp]

theorem verifyFrom_valid {n : ℕ} {es : List AuditEntry} {v : ChainVerification} (h : verifyFrom sha256 p n es = .ok v) :
    v.valid = true ↔ Chained sha256 p es := by
  induction es generalizing p n with
  | nil =>
    cases h
    exact iff_of_true rfl trivial
  | cons e es ih =>
    rw [verifyFrom] at h
    split at h
    · cases h
    · rename_i reason hlink
      cases h
      refine iff_of_false Bool.false_ne_true fun hchain => ?_
      rw [linkBreak_none.mpr ⟨hchain.1, hchain.2.1⟩] at hlink
      cases hlink
    · rename_i hlink
      obtain ⟨hp, hsealed⟩ := linkBreak_none.mp hlink
      rw [ih h]
      exact ⟨fun hrest => ⟨hp, hsealed, hrest⟩, fun hchain => hchain.2.2⟩

theorem verifyFrom_chained {es : List AuditEntry} (h : Chained sha256 p es) (n : ℕ) :
    verifyFrom sha256 p n es = .ok ⟨true, n + es.length, none, none⟩ := by
  induction es generalizing p n with
  | nil => rfl
  | cons e es ih =>
    rw [verifyFrom, linkBreak_none.mpr ⟨h.1, h.2.1⟩]
    simp only [ih h.2.2, List.length_cons, Nat.add_assoc, Nat.add_comm 1]

/-- A check that ends with `valid`. -/
def Passes (sha256 : Bytes → Bytes) (rows : List AuditEntry) : Prop :=
  ∃ v, verifyChain sha256 rows = .ok v ∧ v.valid = true

theorem passes_iff {rows : List AuditEntry} : Passes sha256 rows ↔ Chained sha256 none (byId rows) := by
  constructor
  · rintro ⟨v, hv, hvalid⟩
    exact (verifyFrom_valid hv).mp hvalid
  · exact fun h => ⟨_, verifyFrom_chained h 0, rfl⟩

end Verification

section Appending

variable {sha256 : Bytes → Bytes}
variable {rows d : Db}

/-- The table in order of its ids, and a chain from the genesis on. -/
structure Intact (sha256 : Bytes → Bytes) (rows : Db) : Prop where
  ordered : rows.Pairwise fun a b => a.id < b.id
  chained : Chained sha256 none rows

theorem byId_ordered (h : rows.Pairwise fun a b => a.id < b.id) : byId rows = rows :=
  List.Pairwise.insertionSort_eq (h.imp fun hlt => le_of_lt hlt)

theorem lt_nextId {e : AuditEntry} (he : e ∈ rows) (skipped : ℕ) : e.id < nextId rows skipped := by
  induction rows with
  | nil => cases he
  | cons x rows ih =>
    simp only [nextId, List.map_cons, List.foldr_cons] at ih ⊢
    rcases List.mem_cons.mp he with rfl | he
    · have := le_max_left e.id ((rows.map (·.id)).foldr max 0)
      omega
    · have := ih he
      have := le_max_right x.id ((rows.map (·.id)).foldr max 0)
      omega

/-- The row that `record` adds to the rows it saw. -/
def newEntry (sha256 : Bytes → Bytes) (rows : Db) (fields : Fields) (canonical : Bytes) (skipped : ℕ) : AuditEntry :=
  { id := nextId rows skipped, fields, prevHash := (byId rows).getLast?.map (·.hash),
    hash := computeHash sha256 ((byId rows).getLast?.map (·.hash)) canonical }

theorem Intact.append (h : Intact sha256 rows) {fields : Fields} {canonical : Bytes}
    (hcanonical : canonicalPayload fields = .ok canonical) (skipped : ℕ) :
    Intact sha256 (rows ++ [newEntry sha256 rows fields canonical skipped]) := by
  refine ⟨?_, ?_⟩
  · rw [List.pairwise_append]
    refine ⟨h.ordered, List.pairwise_singleton _ _, fun a ha b hb => ?_⟩
    rw [List.mem_singleton.mp hb]
    exact lt_nextId ha skipped
  · refine HashChain.chained_concat.mpr ⟨h.chained, ?_, ?_⟩
    · rw [HashChain.tip_eq_getLast?]
      simp only [newEntry, byId_ordered h.ordered]
    · simp only [Sealed, entryHash, newEntry, hcanonical, Except.map]

def contract (sha256 : Bytes → Bytes) : Contract (List (List Call)) Db Lock where
  inv := Intact sha256
  rely held d e := Lock.chain ∈ held → e = d
  guar _ held d e := Lock.chain ∈ held ∨ e = d
  refl _ _ _ := rfl
  trans h h' hk := (h' hk).trans (h hk)
  compat := by
    intro r held other d e _ hguar hapart hk
    rcases hguar with hheld | heq
    · exact absurd hk (hapart.symm.not_mem hheld)
    · exact heq

/-- What a transaction may count on between two calls: its own appended rows go on
with the chain, and they are there under the lock only. -/
structure Ready (sha256 : Bytes → Bytes) (l : Loc Db Lock) (d : Db) : Prop where
  intact : Intact sha256 (l.pend d)
  locked : Lock.chain ∈ l.held ∨ l.pend = id

theorem Ready.stable {l : Loc Db Lock} {e : Db} (h : Ready sha256 l d) (hrely : (contract sha256).rely l.held d e)
    (hinv : (contract sha256).inv e) : Ready sha256 l e := by
  refine ⟨?_, h.locked⟩
  rcases h.locked with hk | hid
  · rw [hrely hk]
    exact h.intact
  · rw [hid]
    exact hinv

theorem record_keeps (r : List (List Call)) (c : Call) {l : Loc Db Lock} (h : Ready sha256 l d) :
    wp (contract sha256) r (record sha256 c) (fun _ l d => Ready sha256 l d) l d := by
  rw [record, wp_do, wp_lockRow]
  intro e hrely hinv
  have hready := h.stable hrely hinv
  simp only [wp_do, wp_query]
  intro f hf hinvf
  have hheld : Lock.chain ∈ Lock.chain :: l.held := List.mem_cons_self
  rw [hf hheld]
  simp only [wp_ofExcept]
  intro data _ canonical hcanonical g hg _
  rw [hg hheld]
  exact ⟨hready.intact.append hcanonical c.skipped, .inl hheld⟩

theorem script_keeps (batches : List (List Call)) :
    Keeps (contract sha256) batches (script sha256 batches) := by
  intro d hd
  refine wp_mono (fun _ _ _ _ => trivial)
    (wp_forEach _ (fun _ l d => Ready sha256 l d) ?_ batches ⟨hd, .inr rfl⟩)
  intro calls _ l d hready
  rw [wp_do]
  refine wp_mono (fun _ l d (h : Ready sha256 l d) => ?_)
    (wp_forEach _ (fun _ l d => Ready sha256 l d) (fun c _ l d h => record_keeps batches c h) calls hready)
  rw [wp_publish]
  intro e hrely hinv
  have hready := h.stable hrely hinv
  refine ⟨hready.intact, ?_, hready.intact, .inr rfl⟩
  rcases hready.locked with hk | hid
  · exact .inl hk
  · rw [hid]
    exact .inr rfl

theorem reachable_intact {s : Sys (List (List Call)) Db Lock Problem} (h : Reachable (script sha256) [] s) :
    Intact sha256 s.db :=
  (run_sound script_keeps ⟨.nil, trivial⟩ h).inv

/-- After every interleaving of recording transactions the committed log checks as
valid, and the check has counted each of its rows. -/
theorem recorded_log_verifies (sha256 : Bytes → Bytes) {s : Sys (List (List Call)) Db Lock Problem}
    (h : Reachable (script sha256) [] s) : verifyChain sha256 s.db = .ok ⟨true, s.db.length, none, none⟩ := by
  have hintact := reachable_intact h
  rw [verifyChain, byId_ordered hintact.ordered, verifyFrom_chained hintact.chained, Nat.zero_add]

end Appending

section Samples

def noon : Stamp := ⟨⟨⟨2025, 1, 15⟩, ⟨12, 0, 0, 0⟩⟩, by decide⟩

def sampleCall (action : String) (data : Option DataArg) : Call :=
  { actor := some (text "sub-1"), action := text action, targetType := some (text "meeting"), targetId := none,
    data, stamp := none, now := noon, skipped := 0 }

/-- Two sessions: one records twice and commits, the other waits for the lock, fails
on its data, and starts again. -/
def crossedSessions : List (Event (List (List Call))) :=
  [.start [[sampleCall "meeting.create" none, sampleCall "meeting.update" (some (.dict [] trivial))]],
    .start [[sampleCall "login" (some .unrepresentable)]], .step 0, .step 0, .step 0, .step 0, .step 0, .step 0, .step 0,
    .step 0, .step 0, .step 1, .step 1, .step 1, .start [[sampleCall "login" none]], .step 2, .step 2, .step 2, .step 2,
    .step 2]

theorem crossedSessions_verify : ∃ s, run (script fun m => m.take 4) ⟨[], []⟩ crossedSessions = some s ∧
    s.db.map (·.id) = [1, 2, 3] ∧ verifyChain (fun m => m.take 4) s.db = .ok ⟨true, 3, none, none⟩ := by
  have hrun : (run (script fun m => m.take 4) ⟨[], []⟩ crossedSessions).map (fun s => s.db.map (·.id)) =
      some [1, 2, 3] := by decide +kernel
  obtain ⟨s, hs, hids⟩ := Option.map_eq_some_iff.mp hrun
  have hlength : s.db.length = 3 := by rw [← List.length_map (·.id), hids]; rfl
  have hverify := recorded_log_verifies (fun m => m.take 4) ⟨crossedSessions, hs⟩
  exact ⟨s, hs, hids, hlength ▸ hverify⟩

end Samples

end Audit
