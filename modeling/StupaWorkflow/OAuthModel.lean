import StupaWorkflow.PyCodec
import StupaWorkflow.Sha256
import StupaWorkflow.Transactions

/-!
Authorization codes and token pairs of the OAuth server as transactions.
-/
namespace OAuth
open Py ReadCommitted
open Prog hiding bind pure

abbrev Time := ℕ

abbrev Digest := List ℕ

structure Code where
  id : ℕ
  codeHash : Digest
  principalId : ℕ
  clientId : Text
  redirectUri : Text
  codeChallenge : Text
  scope : Text
  accessTtl : Option ℕ
  expiresAt : Time
  usedAt : Option Time

/-- A token pair. The last two columns are not in the database: they say from
which code the chain of the pair started and which row was rotated into it. -/
structure Token where
  id : ℕ
  principalId : ℕ
  clientId : Text
  accessHash : Digest
  refreshHash : Digest
  scope : Text
  accessTtl : Option ℕ
  accessExpiresAt : Option Time
  refreshExpiresAt : Option Time
  revokedAt : Option Time
  code : ℕ
  parent : Option ℕ

/-- A committed revocation: the rows it covers, and whether none of the rows that
it found active had a successor when it reached them. -/
structure Revocation where
  covered : List ℕ
  undisturbed : Bool

structure Db where
  codes : List Code
  tokens : List Token
  revocations : List Revocation

def Db.empty : Db := ⟨[], [], []⟩

/-- Row locks, and the entries of the unique indexes that an insert waits for. -/
inductive Key where
  | code (id : ℕ)
  | codeHash (hash : Digest)
  | token (id : ℕ)
  | accessHash (hash : Digest)
  | refreshHash (hash : Digest)
  deriving DecidableEq

inductive Failure where
  | oauthError (error description : String)
  | notFound (message : String)
  | integrityError
  | unicodeEncodeError
  | typeError
  deriving DecidableEq

abbrev P (α : Type) := Prog Db Key Failure α

/-- Set `revoked_at` of the rows with these ids. -/
def Token.mark (now : Time) (ids : List ℕ) (t : Token) : Token :=
  if t.id ∈ ids then { t with revokedAt := some now } else t

/-- Set `used_at` of the code with this id. -/
def Code.mark (now : Time) (id : Option ℕ) (c : Code) : Code :=
  if id = some c.id then { c with usedAt := some now } else c

def Db.revoke (now : Time) (id : ℕ) (d : Db) : Db := { d with tokens := d.tokens.map (Token.mark now [id]) }

def Db.useCode (now : Time) (id : ℕ) (d : Db) : Db := { d with codes := d.codes.map (Code.mark now (some id)) }

def Db.addToken (t : Token) (d : Db) : Db := { d with tokens := d.tokens ++ [t] }

def Db.addCode (c : Code) (d : Db) : Db := { d with codes := d.codes ++ [c] }

def Db.record (x : Revocation) (d : Db) : Db := { d with revocations := d.revocations ++ [x] }

def Token.active (t : Token) : Bool := t.revokedAt.isNone

def Db.isActive (d : Db) (id : ℕ) : Bool := d.tokens.any fun t => t.id = id && t.active

def Db.isUnused (d : Db) (id : ℕ) : Bool := d.codes.any fun c => c.id = id && c.usedAt.isNone

def Db.hasSuccessor (d : Db) (id : ℕ) : Bool := d.tokens.any fun t => t.parent = some id

def hashToken (token : Text) : P Digest :=
  ofOption ((utf8Encode token).map Sha256.digest) .unicodeEncodeError

/-- `verify_pkce_s256`: the verifier has to be ASCII, and `compare_digest` refuses
a challenge that is not. -/
def verifyPkceS256 (verifier challenge : Text) : Except Failure Bool :=
  if verifier.all (· < 128) then
    let encoded := b64encode (Sha256.digest verifier)
    let expected := (encoded.filter (· ≠ 61)).map fun c => if c = 43 then 45 else if c = 47 then 95 else c
    if challenge.all (· < 128) then .ok (expected == challenge) else .error .typeError
  else .error .unicodeEncodeError

/-- An `OAuthError` in the token route: the route commits and answers with it. -/
def refuse {α : Type} (description : String) : P α := do
  publish
  .fail (.oauthError "invalid_grant" description)

def check (ok : Bool) (description : String) : P Unit := if ok then return () else refuse description

def found {α : Type} (row : Option α) (description : String) : P α :=
  match row with
  | some a => return a
  | none => refuse description

structure Fresh where
  id : ℕ
  access : Text
  refresh : Text

def expiry (now : Time) (ttl : Option ℕ) : Option Time := ttl.map (now + ·)

def insertToken (t : Token) : P Unit := do
  let _ ← lockRow fun _ => some (.token t.id)
  let _ ← lockRow fun _ => some (.accessHash t.accessHash)
  let d ← lockRow fun _ => some (.refreshHash t.refreshHash)
  require (d.tokens.all fun u => u.id ≠ t.id && u.accessHash ≠ t.accessHash && u.refreshHash ≠ t.refreshHash)
    .integrityError
  update (Db.addToken t)

def issueTokens (fresh : Fresh) (principalId : ℕ) (clientId scope : Text) (now : Time)
    (accessTtl refreshTtl : Option ℕ) (code : ℕ) (parent : Option ℕ) : P Unit := do
  let accessHash ← hashToken fresh.access
  let refreshHash ← hashToken fresh.refresh
  insertToken ⟨fresh.id, principalId, clientId, accessHash, refreshHash, scope, accessTtl, expiry now accessTtl,
    expiry now refreshTtl, none, code, parent⟩

structure Exchange where
  code : Text
  codeVerifier : Text
  redirectUri : Text
  clientId : Text
  now : Time
  refreshTtl : ℕ
  fresh : Fresh

/-- A failed check does not burn the code: the claim of the row comes after them. -/
def exchangeCode (x : Exchange) : P Unit := do
  let hash ← hashToken x.code
  let d ← query
  let row ← found (d.codes.find? (·.codeHash = hash)) "code invalid or already used"
  check row.usedAt.isNone "code invalid or already used"
  check (x.now < row.expiresAt) "code expired"
  check (row.clientId = x.clientId && row.redirectUri = x.redirectUri) "client/redirect mismatch"
  let verified ← ofExcept (verifyPkceS256 x.codeVerifier row.codeChallenge)
  check verified "PKCE verification failed"
  let e ← lockRow fun e => if e.isUnused row.id then some (.code row.id) else none
  check (e.isUnused row.id) "code invalid or already used"
  update (Db.useCode x.now row.id)
  issueTokens x.fresh row.principalId x.clientId row.scope x.now row.accessTtl
    (row.accessTtl.map fun _ => x.refreshTtl) row.id none

/-- Revoke one row after waiting for its lock. With `onlyActive` the condition of
the update is checked again then; without it the update goes by id alone. -/
def revokeRow (onlyActive : Bool) (now : Time) (id : ℕ) : P Bool := do
  let d ← lockRow fun d => if onlyActive && !d.isActive id then none else some (.token id)
  if onlyActive && !d.isActive id then return !d.hasSuccessor id
  else
    update (Db.revoke now id)
    return !d.hasSuccessor id

def revokeRows (onlyActive : Bool) (now : Time) : List ℕ → P Bool
  | [] => return true
  | id :: ids => do
      let calm ← revokeRow onlyActive now id
      let rest ← revokeRows onlyActive now ids
      return calm && rest

def Db.family (d : Db) (principalId : ℕ) (clientId : Option Text) : List Token :=
  d.tokens.filter fun t => t.principalId = principalId && clientId.all (t.clientId = ·)

def revokeFamily (onlyActive : Bool) (principalId : ℕ) (clientId : Option Text) (now : Time) : P Unit := do
  let d ← query
  let rows := d.family principalId clientId
  let calm ← revokeRows onlyActive now ((rows.filter Token.active).map (·.id))
  update (Db.record ⟨rows.map (·.id), calm⟩)

structure Refresh where
  refreshToken : Text
  clientId : Text
  now : Time
  refreshTtl : ℕ
  /-- The principal row exists and is active when the request looks it up. -/
  principalActive : Bool
  fresh : Fresh

def refreshTokens (x : Refresh) : P Unit := do
  let hash ← hashToken x.refreshToken
  let d ← query
  let row ← found (d.tokens.find? (·.refreshHash = hash)) "refresh token invalid or revoked"
  if !row.active then
    revokeFamily true row.principalId (some row.clientId) x.now
    refuse "refresh token invalid or revoked"
  else
    check (row.clientId = x.clientId) "client mismatch"
    check (row.refreshExpiresAt.all (x.now < ·)) "refresh token expired"
    check x.principalActive "principal inactive"
    let e ← lockRow fun e => if e.isActive row.id then some (.token row.id) else none
    check (e.isActive row.id) "refresh token invalid or revoked"
    update (Db.revoke x.now row.id)
    issueTokens x.fresh row.principalId x.clientId row.scope x.now row.accessTtl
      (row.accessTtl.map fun _ => x.refreshTtl) row.code (some row.id)

/-- A single revoke. The self-service route names the owner, the admin route does
not. A grant that is revoked already stays as it is, without a commit. -/
def revokeGrant (owner : Option ℕ) (id : ℕ) (now : Time) : P Unit := do
  let d ← query
  let row ← ofOption (d.tokens.find? (·.id = id)) (.notFound "Grant not found.")
  require (owner.all (row.principalId = ·)) (.notFound "Grant not found.")
  if row.active then
    let calm ← revokeRow false now id
    update (Db.record ⟨[id], calm⟩)
    publish
  else return ()

def revokeAllGrants (principalId : ℕ) (now : Time) : P Unit := do
  revokeFamily false principalId none now
  publish

def createAuthorizationCode (c : Code) : P Unit := do
  let _ ← lockRow fun _ => some (.code c.id)
  let d ← lockRow fun _ => some (.codeHash c.codeHash)
  require (d.codes.all fun u => u.id ≠ c.id && u.codeHash ≠ c.codeHash) .integrityError
  update (Db.addCode { c with usedAt := none })
  publish

inductive Request where
  | authorize (c : Code)
  | exchange (x : Exchange)
  | refresh (x : Refresh)
  | revoke (owner : Option ℕ) (id : ℕ) (now : Time)
  | revokeAll (principalId : ℕ) (now : Time)

def script : Request → P Unit
  | .authorize c => createAuthorizationCode c
  | .exchange x => do
      exchangeCode x
      publish
  | .refresh x => do
      refreshTokens x
      publish
  | .revoke owner id now => revokeGrant owner id now
  | .revokeAll principalId now => revokeAllGrants principalId now

end OAuth
