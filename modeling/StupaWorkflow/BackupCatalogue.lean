import Mathlib.Data.List.Sort
import StupaWorkflow.ObjectStore
import StupaWorkflow.PyTime
import StupaWorkflow.StorageKeys
import StupaWorkflow.Tables

/-!
The backup catalogue and the archives in the backup bucket: the routes, the two worker jobs and
the retention.
-/
namespace Backup
open Py StorageKeys List

inductive Kind where
  | manual
  | scheduled
  | preRestore
  | imported
  deriving DecidableEq

inductive Status where
  | pending
  | running
  | done
  | failed
  deriving DecidableEq

/-- `archive_key`: the time to the second, then the id. -/
def archiveKey (id : Uuid) (createdAt : Datetime) : Text :=
  let d := createdAt.date
  let c := createdAt.clock
  let stamp := digits 4 d.year ++ digits 2 d.month ++ digits 2 d.day ++ text "T" ++
    digits 2 c.hour ++ digits 2 c.minute ++ digits 2 c.second ++ text "Z"
  text "antrag-" ++ stamp ++ text "-" ++ Uuid.text id ++ text ".tar.age"

structure ArchiveResult where
  sizeBytes : ℕ
  checksum : Text
  objectCount : ℕ
  appVersion : Option Text
  schemaRevision : Option Text
  deriving DecidableEq

/-- A row of the `backup` table. -/
structure Row where
  id : Uuid
  createdAt : Datetime
  kind : Kind
  status : Status := .pending
  createdBy : Option Text
  storageKey : Option Text := none
  sizeBytes : Option ℕ := none
  checksum : Option Text := none
  objectCount : Option ℕ := none
  note : Option Text := none
  appVersion : Option Text := none
  schemaRevision : Option Text := none
  pinned : Bool := false
  error : Option Text := none
  finishedAt : Option Datetime := none
  deriving DecidableEq

/-- The key of a row is the one that its archive is stored under, and a finished row has it. -/
structure Row.Keyed (r : Row) : Prop where
  key : ∀ k, r.storageKey = some k → k = archiveKey r.id r.createdAt
  done : r.status = .done → r.storageKey ≠ none

def Row.archive (r : Row) : Option Text := if r.status = .done then r.storageKey else none

def Row.markRunning (r : Row) : Row := { r with status := .running }

def Row.markFailed (code : Text) (now : Datetime) (r : Row) : Row :=
  { r with status := .failed, error := some (code.take 200), finishedAt := some now }

def Row.markDone (result : ArchiveResult) (now : Datetime) (r : Row) : Row :=
  { r with
    status := .done, storageKey := some (archiveKey r.id r.createdAt), sizeBytes := some result.sizeBytes,
    checksum := some result.checksum, objectCount := some result.objectCount,
    schemaRevision := result.schemaRevision, error := none, finishedAt := some now }

def Row.markImported (result : ArchiveResult) (r : Row) : Row :=
  { r with
    status := .done, storageKey := some (archiveKey r.id r.createdAt), sizeBytes := some result.sizeBytes,
    checksum := some result.checksum, objectCount := some result.objectCount, appVersion := result.appVersion,
    schemaRevision := result.schemaRevision, finishedAt := some r.createdAt }

/-- `update_backup`: a field that the body leaves out stays. -/
def Row.patch (note : Option Text) (pinned : Option Bool) (r : Row) : Row :=
  { r with note := note.or r.note, pinned := pinned.getD r.pinned }

structure RowChange where
  change : Row → Row
  id : ∀ r, (change r).id = r.id
  keyed : ∀ r, r.Keyed → (change r).Keyed

def RowChange.running : RowChange where
  change := Row.markRunning
  id _ := rfl
  keyed _ h := ⟨h.key, by simp [Row.markRunning]⟩

def RowChange.failed (code : Text) (now : Datetime) : RowChange where
  change := Row.markFailed code now
  id _ := rfl
  keyed _ h := ⟨h.key, by simp [Row.markFailed]⟩

def RowChange.done (result : ArchiveResult) (now : Datetime) : RowChange where
  change := Row.markDone result now
  id _ := rfl
  keyed _ _ := ⟨by simp [Row.markDone], by simp [Row.markDone]⟩

def RowChange.patch (note : Option Text) (pinned : Option Bool) : RowChange where
  change := Row.patch note pinned
  id _ := rfl
  keyed _ h := ⟨h.key, h.done⟩

/-- The `backup` table. -/
structure Catalogue where
  rows : List Row
  nodup : (rows.map Row.id).Nodup
  keyed : ∀ r ∈ rows, r.Keyed

namespace Catalogue
open List

def empty : Catalogue := ⟨[], nodup_nil, by simp⟩

def ids (c : Catalogue) : List Uuid := c.rows.map Row.id

def get (c : Catalogue) (id : Uuid) : Option Row := c.rows.find? (fun r => r.id = id)

def lists (c : Catalogue) (id : Uuid) : Option Text := (c.get id).bind Row.archive

def update (c : Catalogue) (id : Uuid) (f : RowChange) : Catalogue where
  rows := Table.modify Row.id id f.change c.rows
  nodup := by
    rw [Table.modify_keys f.id]
    exact c.nodup
  keyed := by
    intro r hr
    obtain ⟨x, hx, rfl⟩ := mem_map.mp hr
    split
    · exact f.keyed x (c.keyed x hx)
    · exact c.keyed x hx

def insert (c : Catalogue) (r : Row) (hid : r.id ∉ c.ids) (hr : r.Keyed) : Catalogue where
  rows := c.rows ++ [r]
  nodup := Table.nodup_insert c.nodup fun x hx hnew => hid (hnew ▸ mem_map_of_mem hx)
  keyed := by
    intro x hx
    rcases mem_append.mp hx with hx | hx
    · exact c.keyed x hx
    · exact mem_singleton.mp hx ▸ hr

def filter (c : Catalogue) (p : Row → Bool) : Catalogue where
  rows := c.rows.filter p
  nodup := c.nodup.sublist (filter_sublist.map _)
  keyed r hr := c.keyed r (mem_of_mem_filter hr)

/-- `reseed_catalogue`: a row whose id is there already is not written. -/
def reseed (c : Catalogue) (rows : Catalogue) : Catalogue where
  rows := c.rows ++ (rows.filter fun r => r.id ∉ c.ids).rows
  nodup := by
    rw [map_append, nodup_append]
    refine ⟨c.nodup, (rows.filter _).nodup, fun i hi j hj => ?_⟩
    obtain ⟨r, hr, rfl⟩ := mem_map.mp hj
    rintro rfl
    exact of_decide_eq_true (mem_filter.mp hr).2 hi
  keyed := by
    intro r hr
    rcases mem_append.mp hr with hr | hr
    · exact c.keyed r hr
    · exact (rows.filter _).keyed r hr

end Catalogue

structure Settings where
  retentionCount : ℤ

/-- The committed catalogue and the archives of the bucket, each as the catalogue that its
dump holds. Only a finished build and an import store an archive. -/
structure Db where
  catalogue : Catalogue
  archives : ObjectStore Text Catalogue

def Db.start : Db := ⟨Catalogue.empty, ObjectStore.empty⟩

inductive Problem where
  | notFound (detail : String)
  | conflict (detail code : String)
  deriving DecidableEq

inductive Outcome where
  | done
  | failed
  | gone
  deriving DecidableEq

structure NewRow where
  id : Uuid
  createdAt : Datetime
  actor : Option Text
  note : Option Text
  appVersion : Text
  deriving DecidableEq

/-- How the build of an archive ends, when, and in which order the database returns rows
of one time. -/
structure Build where
  result : Except Text ArchiveResult
  finishedAt : Datetime
  tie : Uuid → ℕ

section Service

def newRow (kind : Kind) (n : NewRow) : Row :=
  { id := n.id, createdAt := n.createdAt, kind, createdBy := n.actor, note := n.note, appVersion := some n.appVersion }

theorem newRow_keyed (kind : Kind) (n : NewRow) : (newRow kind n).Keyed := ⟨by simp [newRow], by simp [newRow]⟩

theorem markImported_keyed (result : ArchiveResult) (r : Row) : (r.markImported result).Keyed :=
  ⟨by simp [Row.markImported], by simp [Row.markImported]⟩

def Db.Fresh (d : Db) (id : Uuid) : Prop := id ∉ d.catalogue.ids ∧ ∀ e ∈ d.archives.entries, id ∉ e.2.ids

instance (d : Db) (id : Uuid) : Decidable (d.Fresh id) := inferInstanceAs (Decidable (_ ∧ _))

def Db.createRow (d : Db) (kind : Kind) (n : NewRow) (h : d.Fresh n.id) : Db :=
  { d with catalogue := d.catalogue.insert (newRow kind n) h.1 (newRow_keyed kind n) }

def Db.update (d : Db) (id : Uuid) (f : RowChange) : Db := { d with catalogue := d.catalogue.update id f }

def Db.delete (d : Db) (r : Row) : Db where
  catalogue := d.catalogue.filter fun x => x.id ≠ r.id
  archives := r.storageKey.elim d.archives d.archives.remove

/-- The order of `ORDER BY created_at DESC`. -/
def newer (tie : Uuid → ℕ) (a b : Row) : Prop :=
  b.createdAt.parts < a.createdAt.parts ∨ (a.createdAt = b.createdAt ∧ tie a.id ≤ tie b.id)

instance (tie : Uuid → ℕ) : DecidableRel (newer tie) := fun _ _ => inferInstanceAs (Decidable (_ ∨ _))

def doomed (settings : Settings) (tie : Uuid → ℕ) (c : Catalogue) : List Row :=
  if settings.retentionCount ≤ 0 then []
  else
    let rows := c.rows.filter fun r => r.status = .done && !r.pinned && r.kind ≠ .preRestore
    (rows.insertionSort (newer tie)).drop settings.retentionCount.toNat

def Db.prune (settings : Settings) (tie : Uuid → ℕ) (d : Db) : Db :=
  (doomed settings tie d.catalogue).foldl Db.delete d

/-- `create_backup`, the worker job. The dump sees the row that is committed as running. -/
def createBackup (settings : Settings) (id : Uuid) (b : Build) (d : Db) : Outcome × Db :=
  match d.catalogue.get id with
  | none => (.gone, d)
  | some row =>
    if row.status = .done then (.done, d)
    else
      let running := d.update id .running
      match b.result with
      | .error code => (.failed, running.update id (.failed code b.finishedAt))
      | .ok result =>
        let key := archiveKey row.id row.createdAt
        let stored := { running with archives := running.archives.put key running.catalogue }
        (.done, (stored.update id (.done result b.finishedAt)).prune settings b.tie)

def safetyNote : Text := text "Automatic safety copy taken before a restore."

def NewRow.safety (n : NewRow) : NewRow := { n with note := some safetyNote }

@[simp] theorem NewRow.safety_id (n : NewRow) : n.safety.id = n.id := rfl

def safetyBackup (settings : Settings) (n : NewRow) (b : Build) (d : Db) (h : d.Fresh n.id) : Outcome × Db :=
  createBackup settings n.id b (d.createRow .preRestore n.safety h)

/-- `restore_backup`, the worker job. `readable` says whether the archive decrypts and
holds a dump; the bucket refuses a key that it does not have. -/
def restoreBackup (settings : Settings) (id : Uuid) (n : NewRow) (b : Build) (readable : Bool) (d : Db)
    (h : d.Fresh n.id) : Outcome × Db :=
  match safetyBackup settings n b d h with
  | (.failed, d) | (.gone, d) => (.failed, d)
  | (.done, d) =>
    match (d.catalogue.get id).bind Row.storageKey with
    | none => (.gone, d)
    | some key =>
      match d.archives.get key with
      | none => (.failed, d)
      | some dump =>
        if readable then (.done, { d with catalogue := dump.reseed d.catalogue }) else (.failed, d)

end Service

section Routes

def load (id : Uuid) (d : Db) : Except Problem Row :=
  match d.catalogue.get id with
  | some r => .ok r
  | none => .error (.notFound "Backup not found.")

def updateBackup (id : Uuid) (note : Option Text) (pinned : Option Bool) (d : Db) : Except Problem Db := do
  let _ ← load id d
  pure (d.update id (.patch note pinned))

def deleteBackup (id : Uuid) (d : Db) : Except Problem Db := do
  let row ← load id d
  raiseUnless (!row.pinned) (.conflict "This backup is pinned. Unpin it before you delete it." "backup_pinned")
  pure (d.delete row)

/-- `import_backup` of an archive that this installation can read. -/
def importBackup (n : NewRow) (archive : Catalogue) (result : ArchiveResult) (d : Db) (h : d.Fresh n.id) : Db where
  catalogue := d.catalogue.insert ((newRow .imported n).markImported result) h.1 (markImported_keyed _ _)
  archives := d.archives.put (archiveKey n.id n.createdAt) archive

end Routes

section Operations

inductive Op where
  | request (kind : Kind) (n : NewRow)
  | build (id : Uuid) (b : Build)
  | retention (tie : Uuid → ℕ)
  | patch (id : Uuid) (note : Option Text) (pinned : Option Bool)
  | delete (id : Uuid)
  | upload (n : NewRow) (archive : Catalogue) (result : ArchiveResult)
  | restore (id : Uuid) (n : NewRow) (b : Build) (readable : Bool)

/-- A refused request leaves the tables as they are. A new id is one that no row has and
no request names. -/
def step (settings : Settings) : Op → Db → Option Db
  | .request kind n, d => if h : d.Fresh n.id then some (d.createRow kind n h) else none
  | .build id b, d => some (createBackup settings id b d).2
  | .retention tie, d => some (d.prune settings tie)
  | .patch id note pinned, d => some ((updateBackup id note pinned d).toOption.getD d)
  | .delete id, d => some ((deleteBackup id d).toOption.getD d)
  | .upload n archive result, d =>
    if h : d.Fresh n.id ∧ n.id ∉ archive.ids then some (importBackup n archive result d h.1) else none
  | .restore id n b readable, d =>
    if h : d.Fresh n.id ∧ n.id ≠ id then some (restoreBackup settings id n b readable d h.1).2 else none

end Operations

end Backup
