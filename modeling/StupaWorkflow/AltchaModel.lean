import StupaWorkflow.PyCodec
import StupaWorkflow.Sha256

/-!
The ALTCHA proof of work: the signed challenge, the check of a solution, and the guard that lets a
solution pass once.
-/
namespace Altcha
open Py

def algorithmName : Text := text "SHA-256"

/-- Exceptions that the verifier does not turn into an `AltchaError`. -/
inductive Crash where
  | recursionError
  | unicodeEncodeError
  | typeError
  | valueError
  deriving DecidableEq

inductive Failure where
  | altchaError (message : String)
  | crash (kind : Crash)
  deriving DecidableEq

structure Challenge where
  algorithm : Text
  challenge : Text
  salt : Text
  signature : Text
  maxnumber : ℤ
  deriving DecidableEq

def encode (s : Text) : Except Failure (List ℕ) :=
  match utf8Encode s with
  | none => .error (.crash .unicodeEncodeError)
  | some bytes => .ok bytes

def sha256 (bytes : List ℕ) : Text := Sha256.hexdigest (Sha256.digest bytes)

def sha256Hex (data : Text) : Except Failure Text := do return sha256 (← encode data)

def hmacHex (secret message : Text) : Except Failure Text := do
  return Sha256.hexdigest (Sha256.hmac (← encode secret) (← encode message))

def fullSalt (base : Text) : Option ℤ → Text
  | none => base
  | some e => base ++ text "?expires=" ++ intText e

/-- The base salt and the number are drawn by the caller: `secrets.token_hex(12)`
and `secrets.randbelow(max_number + 1)` in the route. -/
def createChallenge (secret base : Text) (number : ℤ) (expires : Option ℤ) (maxnumber : ℤ) :
    Except Failure Challenge := do
  let salt := fullSalt base expires
  let challenge ← sha256Hex (salt ++ intText number)
  let signature ← hmacHex secret challenge
  return ⟨algorithmName, challenge, salt, signature, maxnumber⟩

def encodeSolution (c : Challenge) (number : ℤ) : Option Text :=
  let payload := Json.obj
    [(text "algorithm", .str c.algorithm), (text "challenge", .str c.challenge), (text "number", .int number),
     (text "salt", .str c.salt), (text "signature", .str c.signature)]
  (utf8Encode (payload.dumps (text ", ") (text ": "))).map b64encode

/-- The `expires` value of the salt query, when the salt holds a valid one. -/
def parseExpires (salt : Text) : Except Failure (Option ℕ) :=
  match splitOnce 63 salt with
  | none => .ok none
  | some (_, rest) =>
    match (parseQs (urlQuery rest)).find? fun pair => pair.1 = text "expires" with
    | none => .ok none
    | some (_, raw) =>
      if isDigitText raw then
        match intOfDigits raw with
        | none => .error (.crash .valueError)
        | some e => .ok (some e)
      else .ok none

/-- A parsed proof-of-work solution; no cryptographic check ran yet. -/
structure Solution where
  algorithm : Text
  challenge : Text
  number : ℕ
  salt : Text
  signature : Text

def malformed : Failure := .altchaError "malformed altcha payload"

def member (key : String) (ms : List (Text × Json)) : Option Json :=
  (ms.find? fun m => m.1 = text key).map (·.2)

/-- The fields of a decoded object, checked in the order of the source. A boolean
is no number here, and neither is a negative one. -/
def solutionOf (ms : List (Text × Json)) : Except Failure Solution :=
  match member "algorithm" ms with
  | some (.str algorithm) =>
    if algorithm ≠ algorithmName then .error (.altchaError "unsupported algorithm")
    else
      match member "challenge" ms, member "salt" ms, member "signature" ms with
      | some (.str challenge), some (.str salt), some (.str signature) =>
        match member "number" ms with
        | some (.int number) =>
          if number < 0 then .error malformed
          else .ok ⟨algorithm, challenge, number.toNat, salt, signature⟩
        | _ => .error malformed
      | _, _, _ => .error malformed
  | _ => .error (.altchaError "unsupported algorithm")

/-- The structure of a payload. `depth` is the nesting that the interpreter's
recursion limit leaves to the JSON scanner. -/
def parseSolution (depth : ℕ) (payload : Text) : Except Failure Solution :=
  match b64decode payload with
  | none => .error malformed
  | some raw =>
    match loadsBytes depth raw with
    | .error .invalid => .error malformed
    | .error .recursion => .error (.crash .recursionError)
    | .ok (.obj ms) => solutionOf ms
    | .ok _ => .error malformed

/-- `hmac.compare_digest` of two texts: a character beyond ASCII is a `TypeError`. -/
def compareDigest (a b : Text) : Except Failure Bool :=
  if a.all (· < 128) && b.all (· < 128) then .ok (a == b) else .error (.crash .typeError)

def ensure (ok : Bool) (message : String) : Except Failure Unit :=
  if ok then .ok () else .error (.altchaError message)

def verifySolution (depth : ℕ) (payload secret : Text) (now : ℕ) : Except Failure Text := do
  let parsed ← parseSolution depth payload
  let expires ← parseExpires parsed.salt
  ensure (expires.all (now ≤ ·)) "altcha challenge expired"
  let digest ← sha256Hex (parsed.salt ++ decimal parsed.number)
  ensure (← compareDigest digest parsed.challenge) "invalid altcha solution"
  let expected ← hmacHex secret parsed.challenge
  ensure (← compareDigest expected parsed.signature) "invalid altcha signature"
  return parsed.signature

abbrev Held := List (Text × ℕ)

def InMemoryReplayGuard.seen (held : Held) (now : ℕ) (key : Text) (ttl : ℕ) : Bool × Held :=
  let live := held.filter fun entry => now < entry.2
  if live.any fun entry => entry.1 = key then (true, live) else (false, live ++ [(key, now + ttl)])

/-- The Redis database and the process-local fallback of a guard. Redis counts
milliseconds. -/
structure RedisReplayGuard where
  redis : Held
  fallback : Held

/-- `SET key 1 NX EX ttl` at a millisecond: `true` when the key was stored. -/
def setNx (held : Held) (ms : ℕ) (key : Text) (ttl : ℕ) : Bool × Held :=
  if held.any fun entry => entry.1 = key && ms ≤ entry.2 then (false, held)
  else (true, held.filter (·.1 ≠ key) ++ [(key, ms + 1000 * ttl)])

/-- A solution that reaches the verifier: the wall clock in milliseconds and
whether Redis answers then. -/
structure Presentation where
  ms : ℕ
  redisUp : Bool
  payload : Option Text

/-- `int(time.time())`. -/
def Presentation.now (x : Presentation) : ℕ := x.ms / 1000

def seenPrefix : Text := text "altcha:seen:"

def RedisReplayGuard.seen (guard : RedisReplayGuard) (x : Presentation) (key : Text) (ttl : ℕ) :
    Bool × RedisReplayGuard :=
  if x.redisUp && 0 < ttl then
    let (stored, redis) := setNx guard.redis x.ms (seenPrefix ++ key) ttl
    (!stored, { guard with redis })
  else
    let (replay, fallback) := InMemoryReplayGuard.seen guard.fallback x.now key ttl
    (replay, { guard with fallback })

def verify (depth : ℕ) (secret : Text) (ttl : ℕ) (guard : RedisReplayGuard) (x : Presentation) :
    Except Failure Unit × RedisReplayGuard :=
  match x.payload with
  | none | some [] => (.error (.altchaError "altcha solution required"), guard)
  | some (c :: rest) =>
    match verifySolution depth (c :: rest) secret x.now with
    | .error failure => (.error failure, guard)
    | .ok key =>
      let (replay, guard') := guard.seen x key ttl
      if replay then (.error (.altchaError "altcha solution already used"), guard') else (.ok (), guard')

def accepted (depth : ℕ) (secret : Text) (ttl : ℕ) : RedisReplayGuard → List Presentation → List Presentation
  | _, [] => []
  | guard, x :: xs =>
    let (result, guard') := verify depth secret ttl guard x
    let rest := accepted depth secret ttl guard' xs
    if result.isOk then x :: rest else rest

end Altcha
