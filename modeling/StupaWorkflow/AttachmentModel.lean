import StupaWorkflow.Tables
import StupaWorkflow.PyCodec
import StupaWorkflow.Sha256
import StupaWorkflow.StorageKeys
import StupaWorkflow.UploadCheck

/-!
The tables of uploaded files and the checks that the application upload, the
draft upload and the create share. A row keeps the columns that these checks
read; its file name, type and form field are data of the reader only.
-/
namespace Files
open Py Filenames StorageKeys Uploads

abbrev Digest := List ℕ

abbrev Time := ℕ

structure Attachment where
  id : Uuid
  applicationId : Option Uuid
  ticketId : Option Uuid
  ticketNoteId : Option Uuid
  todoCommentId : Option Uuid
  commentId : Option Uuid
  draftTokenHash : Option Digest
  size : ℕ
  storageKey : Option Text
  scanned : Bool
  scanResult : Option Text
  deriving DecidableEq

structure DraftToken where
  tokenHash : Digest
  expiresAt : Time
  deriving DecidableEq

inductive MessageOwner where
  | ticketNote
  | todoComment
  | comment
  deriving DecidableEq

inductive Owner where
  | application (id : Uuid)
  | ticket (id : Uuid)
  | message (kind : MessageOwner) (id : Uuid)
  deriving DecidableEq

/-- The rows of other tables that the file paths read: the applications, the
notes of a ticket and the comments of an application. -/
structure Owners where
  applications : List Uuid
  ticketNotes : List (Uuid × Uuid)
  comments : List (Uuid × Uuid)
  deriving DecidableEq

structure Db where
  owners : Owners
  attachments : List Attachment
  tokens : List DraftToken
  deriving DecidableEq

structure Settings where
  attachmentMaxBytes : ℤ
  attachmentDraftTtlDays : ℕ
  attachmentDraftMaxFiles : ℕ
  attachmentDraftMaxBytes : ℕ
  magicLinkSecret : Text

inductive Problem where
  | notFound (message : Text)
  | payloadTooLarge (message : Text) (code : Option Text)
  | unsupportedMediaType (message : Text)
  | serviceUnavailable (message : Text)
  | validation (message code : Text) (errors : List (Text × Text))
  | unicodeError
  | integrityError
  | staleData
  deriving DecidableEq

section Rows

def Attachment.ownerIds (a : Attachment) : List (Option Uuid) :=
  [a.applicationId, a.ticketId, a.ticketNoteId, a.todoCommentId, a.commentId]

/-- `num_nonnulls` of the five owners and the draft token. -/
def Attachment.numNonnulls (a : Attachment) : ℕ :=
  a.ownerIds.countP (·.isSome) + a.draftTokenHash.isSome.toNat

def maxAttachmentBytes : ℕ := 10 * 1024 * 1024

def Attachment.allowed (a : Attachment) : Bool := a.size ≤ maxAttachmentBytes && a.numNonnulls == 1

/-- `_OWNER_COLUMNS`. -/
def MessageOwner.column (owner : MessageOwner) (a : Attachment) : Option Uuid :=
  match owner with
  | .ticketNote => a.ticketNoteId
  | .todoComment => a.todoCommentId
  | .comment => a.commentId

/-- The values of a bind: the owner column and no token. -/
def Attachment.bind (owner : Owner) (a : Attachment) : Attachment :=
  match owner with
  | .application id => { a with applicationId := some id, draftTokenHash := none }
  | .ticket id => { a with ticketId := some id, draftTokenHash := none }
  | .message .ticketNote id => { a with ticketNoteId := some id, draftTokenHash := none }
  | .message .todoComment id => { a with todoCommentId := some id, draftTokenHash := none }
  | .message .comment id => { a with commentId := some id, draftTokenHash := none }

def scanResultClean : Text := text "clean"

def Attachment.infected (a : Attachment) : Bool :=
  a.scanned && a.scanResult != none && a.scanResult != some scanResultClean

structure ScanVerdict where
  clean : Bool
  signature : Option Text
  deriving DecidableEq

/-- `verdict.signature or "unknown"`. -/
def ScanVerdict.name (verdict : ScanVerdict) : Text :=
  match verdict.signature with
  | none | some [] => text "unknown"
  | some signature => signature

def recordVerdict (verdict : ScanVerdict) (a : Attachment) : Attachment :=
  { a with
    scanned := true
    scanResult := some (if verdict.clean then scanResultClean else verdict.name)
    storageKey := if verdict.clean then a.storageKey else none }

def applicationRow (id application : Uuid) (size : ℕ) (key : Text) : Attachment :=
  ⟨id, some application, none, none, none, none, none, size, some key, false, none⟩

def draftRow (id : Uuid) (hash : Digest) (size : ℕ) (key : Text) : Attachment :=
  ⟨id, none, none, none, none, none, some hash, size, some key, false, none⟩

end Rows

section Statements

def Db.row (db : Db) (id : Uuid) : Option Attachment := db.attachments.find? (·.id = id)

theorem row_some {db : Db} {id : Uuid} {a : Attachment} (h : db.row id = some a) : a ∈ db.attachments ∧ a.id = id :=
  Table.of_find h

def Db.token (db : Db) (hash : Digest) : Option DraftToken := db.tokens.find? (·.tokenHash = hash)

def Db.deleteWhere (p : Attachment → Bool) (db : Db) : Db :=
  { db with attachments := db.attachments.filter fun a => !p a }

def Db.updateWhere (p : Attachment → Bool) (f : Attachment → Attachment) (db : Db) : Db :=
  { db with attachments := db.attachments.map fun a => if p a then f a else a }

def Db.append (a : Attachment) (db : Db) : Db := { db with attachments := db.attachments ++ [a] }

/-- INSERT with the primary key, the CHECKs and the two foreign keys that an upload sets. -/
def Db.insert (a : Attachment) (db : Db) : Option Db :=
  if a.allowed && (db.row a.id).isNone && a.draftTokenHash.all (fun h => (db.token h).isSome) &&
      a.applicationId.all (· ∈ db.owners.applications) then
    some (db.append a)
  else none

def Db.upsertToken (hash : Digest) (expiresAt : Time) (db : Db) : Db :=
  if (db.token hash).isSome then
    { db with tokens := db.tokens.map fun t => if t.tokenHash = hash then { t with expiresAt } else t }
  else { db with tokens := db.tokens ++ [⟨hash, expiresAt⟩] }

def Db.deleteTokens (p : DraftToken → Bool) (db : Db) : Db :=
  { db with
    tokens := db.tokens.filter fun t => !p t
    attachments := db.attachments.filter fun a =>
      !(a.draftTokenHash.any fun h => db.tokens.any fun t => p t && t.tokenHash = h) }

/-- The insert of the owner row, as far as the file paths read it. -/
def Owners.add (owner : Owner) (parent : Uuid) (o : Owners) : Owners :=
  match owner with
  | .application id => { o with applications := id :: o.applications }
  | .message .ticketNote id => { o with ticketNotes := (id, parent) :: o.ticketNotes }
  | .message .comment id => { o with comments := (id, parent) :: o.comments }
  | .ticket _ | .message .todoComment _ => o

end Statements

section Checks

/-- `tokens.hash_token`; a lone surrogate cannot be encoded. -/
def hashDraftToken (token pepper : Text) : Except Problem Digest :=
  match utf8Encode pepper, utf8Encode token with
  | some key, some message => .ok (Sha256.hmac key message)
  | _, _ => .error .unicodeError

def Settings.maxBytes (s : Settings) : ℤ := min s.attachmentMaxBytes maxAttachmentBytes

def checkSize (s : Settings) (data : Bytes) : Except Problem Unit :=
  if (data.length : ℤ) > s.maxBytes then
    .error (.payloadTooLarge (text "Attachment exceeds " ++ intText s.maxBytes ++ text " bytes.") none)
  else if data = [] then .error (.unsupportedMediaType (text "Empty file."))
  else .ok ()

/-- `FilesService.validate`: the sniffed type and the display name. -/
def validate (U : Unicode) (O : Outside) (s : Settings) (storage : Bool) (filename : Option Text) (data : Bytes) :
    Except Problem (Text × Text) := do
  checkSize s data
  let displayName := sanitizeDisplayName U filename defaultName
  let mime ← (validateUpload U O displayName data).mapError .unsupportedMediaType
  raiseUnless storage (.serviceUnavailable (text "Object storage unavailable."))
  return (mime, displayName)

def draftTokenInvalid : Problem :=
  .validation (text "The draft token is unknown or expired. Upload the files again.") (text "draft_token_invalid")
    [(text "draftToken", text "unknown or expired")]

def Db.tokenAlive (db : Db) (hash : Digest) (now : Time) : Bool := (db.token hash).any (now < ·.expiresAt)

def Attachment.draftOf (hash : Digest) (a : Attachment) : Bool :=
  a.applicationId.isNone && a.draftTokenHash = some hash

def Db.draftsOf (db : Db) (hash : Digest) : List Attachment := db.attachments.filter (·.draftOf hash)

def Db.draftBytes (db : Db) (hash : Digest) : ℕ := ((db.draftsOf hash).map (·.size)).sum

def checkQuota (s : Settings) (db : Db) (hash : Digest) (size : ℕ) : Except Problem Unit :=
  if (db.draftsOf hash).length + 1 > s.attachmentDraftMaxFiles then
    .error (.payloadTooLarge (text "A draft holds at most " ++ decimal s.attachmentDraftMaxFiles ++ text " files.")
      (some (text "draft_quota_exceeded")))
  else if db.draftBytes hash + size > s.attachmentDraftMaxBytes then
    .error (.payloadTooLarge (text "A draft holds at most " ++ decimal s.attachmentDraftMaxBytes ++ text " bytes.")
      (some (text "draft_quota_exceeded")))
  else .ok ()

/-- `timedelta(days=..)`. -/
def days (n : ℕ) : Time := n * 86400 * 1000000

def attachmentNotFound (id : Uuid) : Problem :=
  .notFound (text "attachment " ++ Uuid.text id ++ text " not found")

def isUsable (a : Attachment) (expiresAt : Option Time) (now : Time) : Bool :=
  expiresAt.any (now < ·) && a.storageKey.isSome && !a.infected

/-- The rows that `check_drafts` locks. -/
def Attachment.listedDraft (ids : List Uuid) (hash : Digest) (a : Attachment) : Bool :=
  ids.contains a.id && a.draftOf hash

/-- The ids that `check_drafts` reports, in the order of the request. -/
def missingDrafts (ids : List Uuid) (rows : List Attachment) (expiresAt : Option Time) (now : Time) : List Uuid :=
  ids.eraseDups.filter fun id => !(rows.any fun a => a.id = id && isUsable a expiresAt now)

def draftAttachmentsMissing (missing : List Uuid) : Problem :=
  .validation (text "Some attachments are missing, expired or infected. Upload them again.")
    (text "draft_attachments_missing")
    (missing.map fun id => (text "attachmentIds." ++ Uuid.text id, text "missing, expired or infected"))

def purgeBatchSize : ℕ := 500

/-- The rows that the UPDATE of `bind_drafts` matches. -/
def Attachment.bindable (ids : List Uuid) (hash : Digest) (a : Attachment) : Bool :=
  ids.contains a.id && a.ownerIds.all (·.isNone) && a.draftTokenHash = some hash

end Checks

end Files
