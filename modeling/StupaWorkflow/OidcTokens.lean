import StupaWorkflow.PyText

/-!
The ID token of a refresh grant: the key lookup with its cache and its forced reload,
the checks of the token and the merge with the cached claims. What the provider and
the token library answer is an argument.
-/
namespace Oidc
open Py

/-- `OidcUnavailableError`, any other `OidcError`, and an error that is none of them. -/
inductive Failure where
  | unavailable
  | refused
  | crashed
  deriving DecidableEq

abbrev Call := Except Failure

structure OidcClaims where
  sub : Text
  email : Option Text
  name : Option Text
  groups : List Text
  emailVerified : Bool
  deriving DecidableEq

/-- The verified claims as the token has them; the outer option says whether it names one. -/
structure RawClaims where
  sub : Text
  email : Option (Option Text)
  name : Option (Option Text)
  preferredUsername : Option (Option Text)
  groups : Option (List Text)
  emailVerified : Bool
  deriving DecidableEq

/-- A key of the JWKS; `rsa` says whether it is one that RS256 takes. -/
structure Jwk where
  kid : Option Text
  rsa : Bool
  deriving DecidableEq

/-- One load of the JWKS: the discovery document, then the keys. -/
structure KeyFetch where
  discovery : Call Unit
  keys : Call (List Jwk)

/-- What one verification meets: the `kid` of the unverified header, the keys in the cache
while they are fresh, the two loads, and the result of `jwt.decode` with a key. -/
structure KeyAnswers where
  header : Option (Option Text)
  cached : Option (List Jwk)
  load : KeyFetch
  reload : KeyFetch
  decode : Jwk → Option RawClaims

def fetchJwks (f : KeyFetch) : Call (List Jwk) := do
  f.discovery
  f.keys

def getJwks (a : KeyAnswers) : Call (List Jwk) :=
  match a.cached with
  | some keys => .ok keys
  | none => fetchJwks a.load

def findKey (keys : List Jwk) (kid : Option Text) : Option Jwk := keys.find? fun k => k.kid = kid

/-- The key of a `kid`, with one forced reload on a miss. -/
def jwkFor (a : KeyAnswers) (kid : Option Text) : Call (Option Jwk) := do
  let keys ← getJwks a
  match findKey keys kid with
  | some k => return some k
  | none => (fetchJwks a.reload).map fun keys => findKey keys kid

/-- `RSAAlgorithm.from_jwk` raises its own error for a key of another kind. -/
def signingKey (a : KeyAnswers) : Call Jwk :=
  match a.header with
  | none => .error .refused
  | some kid => do
      match ← jwkFor a kid with
      | none => .error .refused
      | some k => if k.rsa then .ok k else .error .crashed

def decodeIdToken (a : KeyAnswers) : Call RawClaims := do
  let key ← signingKey a
  match a.decode key with
  | none => .error .refused
  | some raw => .ok raw

/-- `claims.get("name") or claims.get("preferred_username")`. -/
def nameOf (raw : RawClaims) : Option Text :=
  match raw.name.join with
  | some (c :: rest) => some (c :: rest)
  | _ => raw.preferredUsername.join

def claimsOf (raw : RawClaims) : OidcClaims := ⟨raw.sub, raw.email.join, nameOf raw, raw.groups.getD [], raw.emailVerified⟩

/-- The checks of a refreshed token; a claim that it leaves out keeps its cached value. -/
def verifyRefreshedIdToken (a : KeyAnswers) (cached : OidcClaims) : Call OidcClaims := do
  let raw ← decodeIdToken a
  raiseUnless (raw.sub = cached.sub) .refused
  let fresh := claimsOf raw
  return { fresh with
    email := if raw.email.isSome then fresh.email else cached.email
    name := if raw.name.isSome || raw.preferredUsername.isSome then fresh.name else cached.name
    groups := if raw.groups.isSome then fresh.groups else cached.groups }

end Oidc
