import StupaWorkflow.OidcTokens

/-!
The renewal of one principal session by parallel requests.
-/
namespace SessionRenewal
open Py Oidc

abbrev Time := ℕ

structure AuthSession where
  refreshToken : Option ℕ
  idToken : Option Text
  createdAt : Time
  revalidatedAt : Time
  expiresAt : Time
  deriving DecidableEq

structure Settings where
  oidcEnabled : Bool
  revalidate : Time
  grace : Time
  maxAge : Time
  backoff : Time

/-- The answer to a refresh grant: nothing was sent, it failed on the way or at the server, was no
JSON, the provider refused it, the client raised another error, or it was granted with or without
an ID token. -/
inductive Grant where
  | undiscovered
  | unreachable
  | serverError
  | notJson
  | refused
  | crashed
  | granted (idToken : Option Text)
  deriving DecidableEq

structure TokenSet where
  idToken : Text
  refreshToken : Option ℕ
  deriving DecidableEq

inductive PrincipalUpdate where
  | updated (expiresAt : Time)
  | merged
  | deactivated
  | failed
  deriving DecidableEq

/-- Where a renewal stands: with the row that the request loaded, with the locked row before and
after the answer of the provider, after the commit of the new tokens, or ended. -/
inductive Phase where
  | loaded (row : AuthSession)
  | locked (row : AuthSession)
  | answered (row : AuthSession) (tokens : TokenSet)
  | stored (claims : OidcClaims)
  | over
  deriving DecidableEq

structure Renewal where
  process : ℕ
  now : Time
  principal : OidcClaims
  phase : Phase
  deriving DecidableEq

/-- `newest` is the number of the provider's newest token, and `reused` says whether an answered
one was presented again. `lock` is the renewal with the row lock, `retryAfter` the backoff of
each process. -/
structure State where
  session : Option AuthSession
  newest : ℕ
  reused : Bool
  lock : Option ℕ
  retryAfter : ℕ → Time
  renewals : List Renewal

inductive Event where
  | start (process : ℕ) (now : Time) (principal : OidcClaims)
  | check (i : ℕ) (clock : Time)
  | present (i : ℕ) (answer : Grant) (clock : Time)
  | verify (i : ℕ) (answers : KeyAnswers) (clock : Time)
  | update (i : ℕ) (result : PrincipalUpdate)
  | logout

section Checks

variable (cfg : Settings)

def due (row : AuthSession) (now : Time) : Bool := row.revalidatedAt + cfg.revalidate ≤ now

def withinGrace (row : AuthSession) (now : Time) : Bool := now < row.revalidatedAt + cfg.grace

def tooOld (row : AuthSession) (now : Time) : Bool := row.createdAt + cfg.maxAge ≤ now

end Checks

section Steps

def Grant.sent : Grant → Bool
  | .undiscovered => false
  | _ => true

/-- `refresh_tokens`; a granted answer carries the next token. -/
def refreshTokens (next : ℕ) : Grant → Call TokenSet
  | .undiscovered | .unreachable | .serverError | .notJson => .error .unavailable
  | .refused | .granted none => .error .refused
  | .crashed => .error .crashed
  | .granted (some idToken) => .ok ⟨idToken, some next⟩

def State.setPhase (s : State) (i : ℕ) (r : Renewal) (phase : Phase) : State :=
  { s with renewals := s.renewals.set i { r with phase := phase } }

def State.release (s : State) (i : ℕ) (r : Renewal) : State := { s.setPhase i r .over with lock := none }

/-- `_end`: the session is deleted. -/
def State.endSession (s : State) (i : ℕ) (r : Renewal) : State := { s.release i r with session := none }

variable (cfg : Settings)

def State.unavailable (s : State) (i : ℕ) (r : Renewal) (row : AuthSession) (clock : Time) : State :=
  let s' := { s with retryAfter := fun p => if p = r.process then clock + cfg.backoff else s.retryAfter p }
  if withinGrace cfg row r.now then s'.release i r else s'.endSession i r

/-- The checks before the exchange: SELECT FOR UPDATE SKIP LOCKED reads the row again. -/
def check (s : State) (i : ℕ) (r : Renewal) (row : AuthSession) (clock : Time) : State :=
  if !due cfg row r.now || (decide (clock < s.retryAfter r.process) && withinGrace cfg row r.now) || s.lock.isSome then
    s.setPhase i r .over
  else match s.session with
    | none => s.setPhase i r .over
    | some locked =>
      if !due cfg locked r.now then s.setPhase i r .over
      else if tooOld cfg locked r.now || !cfg.oidcEnabled || locked.refreshToken.isNone then s.endSession i r
      else { s.setPhase i r (.locked locked) with lock := some i }

/-- The exchange with the provider; it grants only the newest token. -/
def present (s : State) (i : ℕ) (r : Renewal) (row : AuthSession) (token : ℕ) (answer : Grant) (clock : Time) :
    Option State :=
  let s := { s with reused := s.reused || (answer.sent && decide (token < s.newest)) }
  match answer with
  | .granted idToken =>
    if token ≠ s.newest then none
    else
      let s := { s with newest := s.newest + 1 }
      match refreshTokens s.newest (.granted idToken) with
      | .ok tokens => some (s.setPhase i r (.answered row tokens))
      | .error _ => some (s.endSession i r)
  | answer =>
    match refreshTokens s.newest answer with
    | .ok tokens => some (s.setPhase i r (.answered row tokens))
    | .error .unavailable => some (s.unavailable cfg i r row clock)
    | .error .refused => some (s.endSession i r)
    | .error .crashed => some (s.release i r)

def verify (s : State) (i : ℕ) (r : Renewal) (row : AuthSession) (tokens : TokenSet) (answers : KeyAnswers) (clock : Time) :
    State :=
  match verifyRefreshedIdToken answers r.principal with
  | .ok claims =>
    { s.setPhase i r (.stored claims) with
      lock := none
      session := some { row with
        refreshToken := tokens.refreshToken <|> row.refreshToken
        idToken := some tokens.idToken } }
  | .error .unavailable => s.unavailable cfg i r row clock
  | .error .refused => s.endSession i r
  | .error .crashed => s.release i r

/-- The update of the principal, and the commit of the check time. A session that is gone by
then is an error of the UPDATE. -/
def finish (s : State) (i : ℕ) (r : Renewal) : PrincipalUpdate → Option State
  | .failed => some (s.setPhase i r .over)
  | .merged | .deactivated => if s.lock.isSome then none else some (s.endSession i r)
  | .updated expiresAt =>
    if s.lock.isSome then none
    else some { s.setPhase i r .over with
      session := s.session.map fun row => { row with revalidatedAt := r.now, expiresAt := expiresAt } }

/-- One step of the interleaving; `none` when it cannot happen or waits for the row lock. -/
def step (s : State) : Event → Option State
  | .start process now principal =>
    s.session.map fun row => { s with renewals := s.renewals ++ [⟨process, now, principal, .loaded row⟩] }
  | .check i clock => s.renewals[i]?.bind fun r =>
    match r.phase with
    | .loaded row => some (check cfg s i r row clock)
    | _ => none
  | .present i answer clock => s.renewals[i]?.bind fun r =>
    match r.phase with
    | .locked row => row.refreshToken.bind fun token => present cfg s i r row token answer clock
    | _ => none
  | .verify i answers clock => s.renewals[i]?.bind fun r =>
    match r.phase with
    | .answered row tokens => some (verify cfg s i r row tokens answers clock)
    | _ => none
  | .update i result => s.renewals[i]?.bind fun r =>
    match r.phase with
    | .stored _ => finish s i r result
    | _ => none
  | .logout => if s.lock.isSome then none else some { s with session := none }

def run (s : State) : List Event → Option State
  | [] => some s
  | ev :: es => (step cfg s ev).bind fun s' => run s' es

/-- A session with the newest token of the provider, or without one. -/
def opened (row : AuthSession) : State :=
  ⟨some row, row.refreshToken.getD 0, false, none, fun _ => 0, []⟩

end Steps

end SessionRenewal
