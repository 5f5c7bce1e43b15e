import StupaWorkflow.AltchaReplay
import StupaWorkflow.Raises

/-!
The exceptions of the proof-of-work check.
-/
namespace Altcha
open Py Raises

def Failure.IsAltchaError : Failure → Prop
  | .altchaError _ => True
  | .crash _ => False

section Conditions

def expiresText (salt : Text) : Option Text :=
  (splitOnce 63 salt).bind fun parts =>
    ((parseQs (urlQuery parts.2)).find? fun pair => pair.1 = text "expires").map Prod.snd

/-- What `int` takes of the texts that `isdigit` accepts. -/
def IntDigits (raw : Text) : Prop := raw.length ≤ maxIntDigits ∧ ∀ c ∈ raw, (decimalValue c).isSome

/-- No lone surrogate. -/
def Encodable (s : Text) : Prop := ∀ c ∈ s, (utf8Char c).isSome

def Ascii (s : Text) : Prop := ∀ c ∈ s, c < 128

def Solution.Expired (s : Solution) (now : ℕ) : Prop :=
  ∃ raw, expiresText s.salt = some raw ∧ isDigitText raw = true ∧ ∃ e, intOfDigits raw = some e ∧ e < now

def Solution.Solved (s : Solution) : Prop :=
  ∃ bytes, utf8Encode (s.salt ++ decimal s.number) = some bytes ∧ sha256 bytes = s.challenge

/-- The texts of a solution that every step it comes to can read. -/
structure Solution.Plain (s : Solution) (secret : Text) (now : ℕ) : Prop where
  expires : ∀ raw, expiresText s.salt = some raw → isDigitText raw = true → IntDigits raw
  salt : ¬ s.Expired now → Encodable s.salt
  challenge : ¬ s.Expired now → Ascii s.challenge
  secret : ¬ s.Expired now → s.Solved → Encodable secret
  signature : ¬ s.Expired now → s.Solved → Ascii s.signature

end Conditions

section Steps

variable {s t : Text} {depth now : ℕ}

theorem raisesOnly_crash {α : Type} {k : Crash} :
    ¬ RaisesOnly Failure.IsAltchaError (.error (.crash k) : Except Failure α) := raisesOnly_error.not.mpr id

theorem utf8Encode_isSome : (utf8Encode s).isSome ↔ Encodable s := by
  induction s with
  | nil => simp [utf8Encode, Encodable]
  | cons c s ih =>
    rw [Encodable, List.forall_mem_cons, ← Encodable, ← ih]
    cases hc : utf8Char c <;> cases hs : utf8Encode s <;> simp [utf8Encode, hc, hs]

theorem encode_raisesOnly : RaisesOnly Failure.IsAltchaError (encode s) ↔ Encodable s := by
  rw [← utf8Encode_isSome, encode]
  cases utf8Encode s with
  | none => exact iff_of_false raisesOnly_crash (by simp)
  | some bytes => exact iff_of_true (.ok bytes) rfl

theorem encodable_of_ascii (h : Ascii s) : Encodable s := by
  intro c hc
  rw [utf8Char, if_pos ((h c hc).trans_le (by decide))]
  rfl

theorem encodable_append : Encodable (s ++ t) ↔ Encodable s ∧ Encodable t := List.forall_mem_append

theorem decimal_ascii (n : ℕ) : Ascii (decimal n) := by
  intro c hc
  have hdigit := decimal_isDigit n c hc
  simp only [isDigit, Bool.and_eq_true, decide_eq_true_eq] at hdigit
  omega

theorem hex_ascii {bytes : List ℕ} (h : ∀ b ∈ bytes, b < 256) : Ascii (Sha256.hexdigest bytes) := by
  simpa [Ascii] using hexdigest_ascii h

theorem compareDigest_raisesOnly (hs : Ascii s) : RaisesOnly Failure.IsAltchaError (compareDigest s t) ↔ Ascii t := by
  have hall : s.all (· < 128) = true := by simpa [Ascii] using hs
  rw [compareDigest, hall, Bool.true_and]
  cases ht : t.all (· < 128) with
  | true => exact iff_of_true (.ok _) (by simpa [Ascii] using ht)
  | false => exact iff_of_false raisesOnly_crash (by simpa [Ascii] using ht)

theorem ensure_raisesOnly (ok : Bool) (message : String) : RaisesOnly Failure.IsAltchaError (ensure ok message) := by
  cases ok with
  | true => exact .ok ()
  | false => exact raisesOnly_error.mpr trivial

theorem solutionOf_raisesOnly (ms : List (Text × Json)) : RaisesOnly Failure.IsAltchaError (solutionOf ms) := by
  unfold solutionOf
  repeat' split
  all_goals first
    | exact .ok _
    | exact raisesOnly_error.mpr trivial

theorem parseSolution_raisesOnly {payload : Text} :
    RaisesOnly Failure.IsAltchaError (parseSolution depth payload) ↔
      ∀ raw, b64decode payload = some raw → loadsBytes depth raw ≠ .error .recursion := by
  rw [parseSolution]
  cases b64decode payload with
  | none => exact iff_of_true (raisesOnly_error.mpr trivial) (by simp)
  | some raw =>
    simp only [Option.some.injEq, forall_eq']
    cases loadsBytes depth raw with
    | error e =>
      cases e with
      | invalid => exact iff_of_true (raisesOnly_error.mpr trivial) (by simp)
      | recursion => exact iff_of_false raisesOnly_crash (by simp)
    | ok j =>
      refine iff_of_true ?_ (by simp)
      cases j with
      | obj ms => exact solutionOf_raisesOnly ms
      | _ => exact raisesOnly_error.mpr trivial

theorem intOfDigits_isSome : (intOfDigits s).isSome ↔ IntDigits s := by
  have hmap : (s.mapM decimalValue).isSome ↔ ∀ c ∈ s, (decimalValue c).isSome := by
    induction s with
    | nil => simp
    | cons c s ih =>
      rw [List.forall_mem_cons, ← ih, List.mapM_cons]
      cases decimalValue c <;> cases s.mapM decimalValue <;> simp
  rw [intOfDigits, IntDigits, ← hmap]
  split <;> simp [*]

/-- The check of the expiry, with the raw text taken apart from its reading. -/
theorem parseExpires_eq (salt : Text) : parseExpires salt =
    match (expiresText salt).filter isDigitText with
    | none => .ok none
    | some raw => match intOfDigits raw with
      | none => .error (.crash .valueError)
      | some e => .ok (some e) := by
  rw [parseExpires, expiresText]
  cases splitOnce 63 salt with
  | none => rfl
  | some parts =>
    obtain ⟨front, rest⟩ := parts
    cases hfind : (parseQs (urlQuery rest)).find? fun pair => pair.1 = text "expires" with
    | none => simp [hfind]
    | some pair =>
      obtain ⟨key, raw⟩ := pair
      simp only [Option.bind_some, hfind, Option.map_some]
      cases hdigit : isDigitText raw <;> cases he : intOfDigits raw <;> simp [Option.filter, hdigit, he]

theorem parseExpires_raisesOnly {salt : Text} : RaisesOnly Failure.IsAltchaError (parseExpires salt) ↔
    ∀ raw, expiresText salt = some raw → isDigitText raw = true → IntDigits raw := by
  rw [parseExpires_eq]
  cases hraw : expiresText salt with
  | none => exact iff_of_true (.ok none) (by simp)
  | some raw =>
    simp only [Option.some.injEq, forall_eq']
    cases hdigit : isDigitText raw with
    | false => exact iff_of_true (by simpa [Option.filter, hdigit] using RaisesOnly.ok none) (by simp)
    | true =>
      simp only [Option.filter_some, hdigit, if_true, forall_const, ← intOfDigits_isSome]
      cases intOfDigits raw with
      | none => exact iff_of_false raisesOnly_crash (by simp)
      | some e => exact iff_of_true (.ok _) rfl

theorem parseExpires_current {sol : Solution} {expires : Option ℕ} (h : parseExpires sol.salt = .ok expires) :
    expires.all (now ≤ ·) = true ↔ ¬ sol.Expired now := by
  rw [parseExpires_eq] at h
  unfold Solution.Expired
  cases hraw : expiresText sol.salt with
  | none =>
    rw [hraw] at h
    cases h
    simp
  | some raw =>
    cases hdigit : isDigitText raw with
    | false =>
      simp only [hraw, Option.filter_some, hdigit, Bool.false_eq_true, if_false] at h
      cases h
      simp [hdigit]
    | true =>
      simp only [hraw, Option.filter_some, hdigit, if_true] at h
      cases he : intOfDigits raw with
      | none =>
        rw [he] at h
        cases h
      | some e =>
        rw [he] at h
        cases h
        simp [hdigit, he]

end Steps

section Check

variable {s : Solution} {secret : Text} {now : ℕ}

/-- The two comparisons. The second one is reached by a solved challenge only, and such a
challenge is a digest. -/
def Solution.compare (s : Solution) (secret : Text) : Except Failure Text := do
  let digest ← sha256Hex (s.salt ++ decimal s.number)
  ensure (← compareDigest digest s.challenge) "invalid altcha solution"
  let expected ← hmacHex secret s.challenge
  ensure (← compareDigest expected s.signature) "invalid altcha signature"
  return s.signature

theorem verifySolution_eq (depth : ℕ) (payload secret : Text) (now : ℕ) : verifySolution depth payload secret now = (do
    let s ← parseSolution depth payload
    let expires ← parseExpires s.salt
    ensure (expires.all (now ≤ ·)) "altcha challenge expired"
    s.compare secret) := rfl

theorem hmacHex_raisesOnly {message : Text} : RaisesOnly Failure.IsAltchaError (hmacHex secret message) ↔
    Encodable secret ∧ (Encodable secret → Encodable message) := by
  rw [hmacHex, raisesOnly_bind, encode_raisesOnly]
  refine and_congr_right fun hsecret => ?_
  simp only [hsecret, forall_const, raisesOnly_bind, encode_raisesOnly]
  obtain ⟨bytes, hbytes⟩ := Option.isSome_iff_exists.mp (utf8Encode_isSome.mpr hsecret)
  exact ⟨fun h => (h bytes (by rw [encode, hbytes])).1, fun h _ _ => ⟨h, fun _ _ => .ok _⟩⟩

theorem hmacHex_ascii {message expected : Text} (h : hmacHex secret message = .ok expected) : Ascii expected := by
  obtain ⟨key, _, h⟩ := bind_ok.mp h
  obtain ⟨bytes, _, h⟩ := bind_ok.mp h
  obtain rfl := Except.ok.inj h
  exact hex_ascii (hmac_lt key bytes)

theorem signed_raisesOnly (hchallenge : Ascii s.challenge) :
    RaisesOnly Failure.IsAltchaError (do
      let expected ← hmacHex secret s.challenge
      ensure (← compareDigest expected s.signature) "invalid altcha signature"
      return s.signature : Except Failure Text) ↔ Encodable secret ∧ Ascii s.signature := by
  have hmessage := encodable_of_ascii hchallenge
  rw [raisesOnly_bind, hmacHex_raisesOnly, and_iff_left fun _ => hmessage]
  refine and_congr_right fun hsecret => ?_
  have hrest : ∀ expected, hmacHex secret s.challenge = .ok expected →
      (RaisesOnly Failure.IsAltchaError (do
        ensure (← compareDigest expected s.signature) "invalid altcha signature"
        return s.signature : Except Failure Text) ↔ Ascii s.signature) := by
    intro expected hexpected
    rw [raisesOnly_bind, compareDigest_raisesOnly (hmacHex_ascii hexpected), and_iff_left]
    exact fun same _ => raisesOnly_bind.mpr ⟨ensure_raisesOnly same _, fun _ _ => .ok _⟩
  obtain ⟨key, hkey⟩ := Option.isSome_iff_exists.mp (utf8Encode_isSome.mpr hsecret)
  obtain ⟨bytes, hbytes⟩ := Option.isSome_iff_exists.mp (utf8Encode_isSome.mpr hmessage)
  have hexpected : hmacHex secret s.challenge = .ok (Sha256.hexdigest (Sha256.hmac key bytes)) := by
    simp [hmacHex, encode, hkey, hbytes, bind, Except.bind, pure, Except.pure]
  exact ⟨fun h => (hrest _ hexpected).mp (h _ hexpected), fun h expected he => (hrest expected he).mpr h⟩

theorem sha256Hex_raisesOnly {data : Text} : RaisesOnly Failure.IsAltchaError (sha256Hex data) ↔ Encodable data := by
  rw [sha256Hex, raisesOnly_bind, encode_raisesOnly]
  exact and_iff_left fun _ _ => .ok _

theorem compareDigest_same {digest challenge : Text} (hdigest : Ascii digest) (hchallenge : Ascii challenge) :
    compareDigest digest challenge = .ok (digest == challenge) := by
  have hall : ∀ t : Text, Ascii t → t.all (· < 128) = true := fun t ht => by simpa [Ascii] using ht
  rw [compareDigest, hall _ hdigest, hall _ hchallenge]
  rfl

theorem compare_raisesOnly : RaisesOnly Failure.IsAltchaError (s.compare secret) ↔
    Encodable s.salt ∧ Ascii s.challenge ∧ (s.Solved → Encodable secret ∧ Ascii s.signature) := by
  have hdecimal := encodable_of_ascii (decimal_ascii s.number)
  rw [Solution.compare, raisesOnly_bind, sha256Hex_raisesOnly, encodable_append, and_iff_left hdecimal]
  refine and_congr_right fun hsalt => ?_
  obtain ⟨bytes, hbytes⟩ := Option.isSome_iff_exists.mp (utf8Encode_isSome.mpr (encodable_append.mpr ⟨hsalt, hdecimal⟩))
  have hdigest : sha256Hex (s.salt ++ decimal s.number) = .ok (sha256 bytes) := by
    simp [sha256Hex, encode, hbytes, bind, Except.bind, pure, Except.pure]
  have hsolved : s.Solved ↔ sha256 bytes = s.challenge := by simp [Solution.Solved, hbytes]
  have hascii : Ascii (sha256 bytes) := hex_ascii (digest_lt bytes)
  simp only [hdigest, Except.ok.injEq, forall_eq']
  rw [raisesOnly_bind, compareDigest_raisesOnly hascii]
  refine and_congr_right fun hchallenge => ?_
  simp only [compareDigest_same hascii hchallenge, Except.ok.injEq, forall_eq', raisesOnly_bind (x := ensure _ _)]
  rw [hsolved, and_iff_right (ensure_raisesOnly _ _)]
  by_cases hsame : sha256 bytes = s.challenge
  · rw [hsame, beq_self_eq_true]
    simp only [ensure, if_true, forall_const]
    exact signed_raisesOnly hchallenge
  · rw [beq_false_of_ne hsame]
    exact iff_of_true (fun _ h => by cases h) fun h => (hsame h).elim

theorem parseExpires_returns {salt : Text} (h : RaisesOnly Failure.IsAltchaError (parseExpires salt)) :
    ∃ expires, parseExpires salt = .ok expires := by
  rw [parseExpires_eq] at h ⊢
  cases hraw : (expiresText salt).filter isDigitText with
  | none => exact ⟨none, rfl⟩
  | some raw =>
    simp only [hraw] at h ⊢
    cases he : intOfDigits raw with
    | none =>
      rw [he] at h
      exact (raisesOnly_crash h).elim
    | some e => exact ⟨some e, rfl⟩

theorem checked_raisesOnly : RaisesOnly Failure.IsAltchaError (do
    let expires ← parseExpires s.salt
    ensure (expires.all (now ≤ ·)) "altcha challenge expired"
    s.compare secret) ↔ s.Plain secret now := by
  rw [raisesOnly_bind]
  constructor
  · rintro ⟨hexpires, hrest⟩
    obtain ⟨expires, hok⟩ := parseExpires_returns hexpires
    have hcompare : ¬ s.Expired now → RaisesOnly Failure.IsAltchaError (s.compare secret) := by
      intro hlive
      refine (raisesOnly_bind.mp (hrest expires hok)).2 () ?_
      rw [ensure, if_pos ((parseExpires_current hok).mpr hlive)]
    exact ⟨parseExpires_raisesOnly.mp hexpires, fun hlive => (compare_raisesOnly.mp (hcompare hlive)).1,
      fun hlive => (compare_raisesOnly.mp (hcompare hlive)).2.1,
      fun hlive hsolved => ((compare_raisesOnly.mp (hcompare hlive)).2.2 hsolved).1,
      fun hlive hsolved => ((compare_raisesOnly.mp (hcompare hlive)).2.2 hsolved).2⟩
  · intro h
    refine ⟨parseExpires_raisesOnly.mpr h.expires, fun expires hok => raisesOnly_bind.mpr ⟨ensure_raisesOnly _ _, ?_⟩⟩
    intro _ hensure
    have hlive := (parseExpires_current hok).mp (ensure_ok hensure)
    exact compare_raisesOnly.mpr
      ⟨h.salt hlive, h.challenge hlive, fun hsolved => ⟨h.secret hlive hsolved, h.signature hlive hsolved⟩⟩

/-- Nothing but an `AltchaError` comes out of the check exactly when the JSON of the payload is not nested
too deeply and each step that a solution comes to can read its text. -/
theorem check_raises_altcha (depth : ℕ) (payload secret : Text) (now : ℕ) :
    RaisesOnly Failure.IsAltchaError (verifySolution depth payload secret now) ↔
      (∀ raw, b64decode payload = some raw → loadsBytes depth raw ≠ .error .recursion) ∧
        ∀ s, parseSolution depth payload = .ok s → s.Plain secret now := by
  rw [verifySolution_eq, raisesOnly_bind, parseSolution_raisesOnly]
  exact and_congr_right fun _ => forall₂_congr fun _ _ => checked_raisesOnly

/-- A challenge of nobody: the digit of its expiry is a superscript. -/
def superscript : Challenge := ⟨algorithmName, [], text "a?expires=²", [], 0⟩

theorem superscript_raises : ¬ RaisesOnly Failure.IsAltchaError
    (verifySolution 100 ((encodeSolution superscript 0).getD []) (text "secret") 0) := by
  have hraises : verifySolution 100 ((encodeSolution superscript 0).getD []) (text "secret") 0 =
      .error (.crash .valueError) := by decide +kernel
  rw [hraises]
  exact raisesOnly_crash

end Check

end Altcha
