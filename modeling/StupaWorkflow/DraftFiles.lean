import StupaWorkflow.AttachmentModel
import StupaWorkflow.Transactions

/-!
The four writers of draft files as transactions: the wizard that uploads and deletes drafts, the
create that checks and binds them, the hourly purge and the scan worker.
-/
namespace Files
open Py Filenames StorageKeys Uploads ReadCommitted
open Prog hiding bind pure

inductive Key where
  | upload (hash : Digest)
  | token (hash : Digest)
  | attachment (id : Uuid)
  deriving DecidableEq

inductive DraftRequest where
  | upload (token : Option Text) (generated : Text) (filename : Option Text) (data : Bytes) (now : Time) (id : Uuid)
  | delete (id : Uuid) (token : Text)
  | create (owner : Owner) (parent : Uuid) (ids : List Uuid) (token : Text) (now : Time)
  | purgeBatch (now : Time)
  | purgeTokens (now : Time)
  | finalizeScan (id : Uuid) (verdict : ScanVerdict)

namespace Draft
open Prog hiding bind pure

abbrev P := Prog Db Key Problem

section Programs

variable (U : Unicode) (O : Outside) (s : Settings)

def upload (token : Option Text) (generated : Text) (filename : Option Text) (data : Bytes) (now : Time)
    (id : Uuid) : P Unit := do
  let (_, displayName) ← ofExcept (validate U O s O.storage filename data)
  let hash ← ofExcept (hashDraftToken (token.getD generated) s.magicLinkSecret)
  let _ ← lockRow fun _ => some (.upload hash)
  let db ← query
  require (token.isNone || db.tokenAlive hash now) draftTokenInvalid
  let db ← query
  ofExcept (checkQuota s db hash data.length)
  let _ ← lockRow fun _ => some (.token hash)
  update (·.upsertToken hash (now + days s.attachmentDraftTtlDays))
  let db ← lockRow fun _ => some (.attachment id)
  let row := draftRow id hash data.length (draftKey U id displayName)
  require (row.allowed && (db.row id).isNone) .integrityError
  update (·.append row)
  publish

def lockMatching (p : Attachment → Bool) (id : Uuid) : P (Option Attachment) := do
  let db ← lockRow fun db => ((db.row id).filter p).map fun _ => .attachment id
  return (db.row id).filter p

/-- `DraftAttachments.delete`: one DELETE with all the conditions. -/
def delete (id : Uuid) (token : Text) : P Unit := do
  let hash ← ofExcept (hashDraftToken token s.magicLinkSecret)
  let db ← query
  require ((db.row id).any (·.draftOf hash)) (attachmentNotFound id)
  let row ← lockMatching (·.draftOf hash) id
  require row.isSome (attachmentNotFound id)
  update (·.deleteWhere fun a => a.id = id && a.draftOf hash)
  publish

/-- `check_drafts`, then the insert of the owner and `bind_drafts`. -/
def create (owner : Owner) (parent : Uuid) (ids : List Uuid) (token : Text) (now : Time) : P Unit := do
  let hash ← ofExcept (hashDraftToken token s.magicLinkSecret)
  let db ← query
  let listed := (db.attachments.filter (·.listedDraft ids hash)).map (·.id)
  let rows ← collect (fun _ => lockMatching (·.listedDraft ids hash)) listed []
  let db ← query
  let missing := missingDrafts ids rows ((db.token hash).map (·.expiresAt)) now
  require missing.isEmpty (draftAttachmentsMissing missing)
  update fun db => { db with owners := db.owners.add owner parent }
  update (·.updateWhere (·.bindable ids hash) (·.bind owner))
  publish

def expired (db : Db) (now : Time) : List (Uuid × Digest × Time) :=
  (db.attachments.filterMap fun a =>
    if a.applicationId.isNone then
      a.draftTokenHash.bind fun h => ((db.token h).filter (·.expiresAt ≤ now)).map fun t => (a.id, h, t.expiresAt)
    else none).mergeSort fun a b => a.2.2 ≤ b.2.2

def stillExpired (db : Db) (now : Time) (id : Uuid) (hash : Digest) : Bool :=
  (db.row id).any (·.draftOf hash) && (db.token hash).any (·.expiresAt ≤ now)

/-- `FOR UPDATE SKIP LOCKED` on both rows of the join; what is locked is checked again. -/
def lockExpired (now : Time) (rows : List Uuid) (draft : Uuid × Digest × Time) : P (Option Uuid) := do
  if rows.length ≥ purgeBatchSize then return none
  let gotRow ← tryLock (.attachment draft.1)
  if !gotRow then return none
  let gotToken ← tryLock (.token draft.2.1)
  if !gotToken then return none
  let db ← query
  return if stillExpired db now draft.1 draft.2.1 then some draft.1 else none

def purgeBatch (now : Time) : P Unit := do
  let db ← query
  let ids ← collect (lockExpired now) (expired db now) []
  if ids.isEmpty then return ()
  update (·.deleteWhere fun a => ids.contains a.id)
  publish

def lockExpiredToken (now : Time) (hash : Digest) : P (Option Digest) := do
  let db ← lockRow fun db => if (db.token hash).any (·.expiresAt ≤ now) then some (.token hash) else none
  return if (db.token hash).any (·.expiresAt ≤ now) then some hash else none

def ofTokens (hashes : List Digest) (a : Attachment) : Bool := a.draftTokenHash.any (hashes.contains ·)

/-- `_purge_tokens`. That no draft is left is read from the rows at the start of the
statement; the foreign key then removes the drafts there are. -/
def purgeTokens (now : Time) : P Unit := do
  let db ← query
  let candidates := (db.tokens.filter fun t =>
    t.expiresAt ≤ now && !(db.attachments.any (·.draftTokenHash = some t.tokenHash))).map (·.tokenHash)
  let hashes ← collect (fun _ => lockExpiredToken now) candidates []
  let db ← query
  let _ ← collect (fun _ => lockMatching (ofTokens hashes)) ((db.attachments.filter (ofTokens hashes)).map (·.id)) []
  update (·.deleteTokens fun t => hashes.contains t.tokenHash)
  publish

/-- `finalize_scan`: an unlocked load, then an UPDATE by id of what changed. -/
def finalizeScan (id : Uuid) (verdict : ScanVerdict) : P Unit := do
  let db ← query
  match db.row id with
  | none => return ()
  | some a =>
    if recordVerdict verdict a ≠ a then
      let row ← lockMatching (fun _ => true) id
      require row.isSome .staleData
      update (·.updateWhere (·.id = id) (recordVerdict verdict))
    publish

def script : DraftRequest → P Unit
  | .upload token generated filename data now id => upload U O s token generated filename data now id
  | .delete id token => delete s id token
  | .create owner parent ids token now => create s owner parent ids token now
  | .purgeBatch now => purgeBatch now
  | .purgeTokens now => purgeTokens now
  | .finalizeScan id verdict => finalizeScan id verdict

end Programs

end Draft

end Files
