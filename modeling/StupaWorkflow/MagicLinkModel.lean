import StupaWorkflow.PyText
import StupaWorkflow.Transactions

/-!
The access paths of an applicant as transactions: a request issues a magic link, a verify
confirms the email, ends the older links and opens a session, and the archive, the
anonymization and the discard job end access.
-/
namespace MagicLinks
open Py ReadCommitted
open Prog hiding bind pure

abbrev Time := ℕ

structure Application where
  emailConfirmedAt : Option Time
  createdAt : Time
  archivedAt : Option Time
  deriving DecidableEq

/-- The row of a link; `token` stands for the hash of its token. -/
structure MagicLink where
  token : ℕ
  createdAt : Time
  expiresAt : Option Time
  deriving DecidableEq

structure ApplicantSession where
  sid : ℕ
  expiresAt : Time
  revokedAt : Option Time
  deriving DecidableEq

/-- The links and the sessions that the statements of a transaction saw. -/
structure Seen where
  links : List ℕ
  sessions : List ℕ
  deriving DecidableEq

/-- The rows of one application; `email` and `anonymizedAt` are its applicant's, and the
random tokens go on at `next`. `starts` and `seen` are no columns: they count the verifies
that start the flow and keep what the last writer saw. -/
structure Db where
  application : Option Application
  email : Option Text
  anonymizedAt : Option Time
  links : List MagicLink
  sessions : List ApplicantSession
  next : ℕ
  starts : ℕ
  seen : Option Seen
  deriving DecidableEq

/-- The row locks of an UPDATE, of a SELECT FOR UPDATE and of a foreign key check. -/
inductive Mode where
  | keyShare
  | noKeyUpdate
  | update
  deriving DecidableEq

def Mode.conflict : Mode → Mode → Bool
  | .keyShare, .update | .update, .keyShare => true
  | .keyShare, _ | _, .keyShare => false
  | _, _ => true

inductive Key where
  | application (mode : Mode)
  | link (token : ℕ)
  deriving DecidableEq

def Key.conflict : Key → Key → Bool
  | .application m, .application m' => m.conflict m'
  | .link t, .link t' => t = t'
  | _, _ => false

instance : LockModes Key where
  conflict := Key.conflict
  symm {k k'} h := by
    cases k with
    | application m =>
      cases k' with
      | application m' => cases m <;> cases m' <;> first | rfl | exact absurd h (by decide)
      | link t => rfl
    | link t =>
      cases k' with
      | application m' => rfl
      | link t' => simpa [Key.conflict, eq_comm] using h

inductive Problem where
  | gone
  | notFound
  | integrity
  deriving DecidableEq

/-- `start` is the start of the transaction, which the database writes as `created_at`. -/
inductive Request where
  | request (email : Text) (start : Time) (expiresAt : Option Time)
  | verify (token : ℕ) (now sessionEnd : Time)
  | setArchived (archived : Bool) (now : Time)
  | anonymize (now : Time)
  | discard (cutoff : Time)
  deriving DecidableEq

abbrev P := Prog Db Key Problem

section Rows

def MagicLink.validAt (l : MagicLink) (now : Time) : Bool := l.expiresAt.all fun t => now < t

def Db.link (d : Db) (token : ℕ) : Option MagicLink := d.links.find? fun l => l.token = token

def Db.unconfirmed (d : Db) : Bool := d.application.any (·.emailConfirmedAt.isNone)

/-- `resolve_application`; an address that was erased matches nothing. -/
def Db.resolves (email : Text) (d : Db) : Bool := d.application.isSome && d.email = some email

/-- The other links that were created no later than this one and are still valid. -/
def Db.olderThan (token : ℕ) (now : Time) (d : Db) : List ℕ :=
  match d.link token with
  | none => []
  | some redeemed =>
    (d.links.filter fun l => l.token ≠ token && decide (l.createdAt ≤ redeemed.createdAt) && l.validAt now).map
      MagicLink.token

def Db.issue (start : Time) (expiresAt : Option Time) (d : Db) : Db :=
  { d with links := d.links ++ [⟨d.next, start, expiresAt⟩], next := d.next + 1 }

def Db.confirm (now : Time) (d : Db) : Db :=
  { d with application := d.application.map ({ · with emailConfirmedAt := some now }), starts := d.starts + 1 }

def Db.expire (tokens : List ℕ) (now : Time) (d : Db) : Db :=
  { d with links := d.links.map fun l =>
      if tokens.contains l.token && l.validAt now then { l with expiresAt := some now } else l }

def Db.openSession (sessionEnd : Time) (d : Db) : Db :=
  { d with sessions := d.sessions ++ [⟨d.next, sessionEnd, none⟩], next := d.next + 1 }

def Db.archive (archivedAt : Option Time) (d : Db) : Db :=
  { d with application := d.application.map ({ · with archivedAt := archivedAt }) }

def Db.deleteLinks (tokens : List ℕ) (d : Db) : Db := { d with links := d.links.filter fun l => !tokens.contains l.token }

def Db.revoke (sids : List ℕ) (now : Time) (d : Db) : Db :=
  { d with sessions := d.sessions.map fun s => if sids.contains s.sid then { s with revokedAt := some now } else s }

/-- The applicant row without its address. -/
def Db.forget (now : Time) (d : Db) : Db := { d with email := none, anonymizedAt := some now }

def Db.remove (d : Db) : Db := { d with application := none, email := none, links := [], sessions := [] }

def Db.note (links sessions : List ℕ) (d : Db) : Db := { d with seen := some ⟨links, sessions⟩ }

end Rows

section Programs

def lockApplication (mode : Mode) : P Db := lockRow fun db => db.application.map fun _ => .application mode

def checkForeignKey : P Unit := do
  let db ← lockApplication .keyShare
  require db.application.isSome .integrity

def requestMagicLink (email : Text) (start : Time) (expiresAt : Option Time) : P Unit := do
  let db ← query
  if db.resolves email then
    checkForeignKey
    update (·.issue start expiresAt)
    publish

/-- The conditional UPDATE: of two concurrent verifies only one gets the row back. -/
def confirmEmail (now : Time) : P Unit := do
  let db ← query
  if db.unconfirmed then
    let db ← lockApplication .noKeyUpdate
    if db.unconfirmed then
      update (·.confirm now)

def expireOlder (token : ℕ) (now : Time) : P (List ℕ) := do
  let db ← query
  lockAll ((db.olderThan token now).map Key.link)
  update (·.expire (db.olderThan token now) now)
  return db.links.map MagicLink.token

def verifyMagicLink (token : ℕ) (now sessionEnd : Time) : P Unit := do
  let db ← query
  let link ← ofOption (db.link token) .gone
  require (link.validAt now) .gone
  confirmEmail now
  let seen ← expireOlder token now
  checkForeignKey
  update (·.openSession sessionEnd)
  update (·.note seen [])
  publish

def expireLinks (archived : Bool) (now : Time) : P Unit :=
  if archived then do
    let db ← query
    let tokens := (db.links.filter (·.validAt now)).map MagicLink.token
    lockAll (tokens.map Key.link)
    update (·.expire tokens now)
  else pure ()

def setArchived (archived : Bool) (now : Time) : P Unit := do
  let db ← query
  let app ← ofOption db.application .notFound
  if app.archivedAt.isSome ≠ archived then
    expireLinks archived now
    let db ← lockApplication .noKeyUpdate
    require db.application.isSome .notFound
    update (·.archive (if archived then some now else none))
    publish

def anonymize (now : Time) : P Unit := do
  let db ← lockApplication .noKeyUpdate
  require db.application.isSome .notFound
  let db ← query
  let tokens := db.links.map MagicLink.token
  lockAll (tokens.map Key.link)
  update (·.deleteLinks tokens)
  let db ← query
  update (·.revoke ((db.sessions.filter (·.revokedAt.isNone)).map ApplicantSession.sid) now)
  update (·.forget now)
  update (·.note tokens (db.sessions.map ApplicantSession.sid))
  publish

/-- `_discard_unconfirmed` for this application: a locked row is skipped, and a locked one
is deleted only when it is still due. -/
def discardUnconfirmed (cutoff : Time) : P Unit := do
  let locked ← tryLock (.application .update)
  let db ← query
  if locked && db.application.any (fun a => a.emailConfirmedAt.isNone && decide (a.createdAt < cutoff)) then
    update Db.remove
    publish

def script : Request → P Unit
  | .request email start expiresAt => requestMagicLink email start expiresAt
  | .verify token now sessionEnd => verifyMagicLink token now sessionEnd
  | .setArchived archived now => setArchived archived now
  | .anonymize now => anonymize now
  | .discard cutoff => discardUnconfirmed cutoff

def submitted (email : Text) (createdAt : Time) (confirmedAt : Option Time) : Db where
  application := some ⟨confirmedAt, createdAt, none⟩
  email := some email
  anonymizedAt := none
  links := []
  sessions := []
  next := 0
  starts := 0
  seen := none

end Programs

end MagicLinks
