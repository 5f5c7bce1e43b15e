import StupaWorkflow.AltchaModel

/-!
Which solutions of one challenge a verifier lets pass over a whole run. The hash
does not say where the salt ends, so the answer depends on where a payload cuts
the hashed text.
-/
namespace Py
open List hiding splitOn

attribute [local simp] isDigitText intOfDigits digitsValue

theorem decimalValue_isDigit {c : ℕ} (h : isDigit c) : decimalValue c = some (c - 48) := by
  simp only [isDigit, Bool.and_eq_true, decide_eq_true_eq] at h
  have hfirst : decimalZeros.find? (fun z => decide (z ≤ c) && decide (c < z + 10)) = some 48 :=
    find?_cons_of_pos (by simp; omega)
  rw [decimalValue, hfirst]
  rfl

theorem isDigitText_digits {s : Text} (hne : s ≠ []) (h : ∀ c ∈ s, isDigit c) : isDigitText s = true := by
  unfold isDigitText
  simp only [Bool.and_eq_true, Bool.not_eq_true', isEmpty_eq_false_iff, all_eq_true, Bool.or_eq_true]
  exact ⟨hne, fun c hc => .inl (by rw [decimalValue_isDigit (h c hc)]; rfl)⟩

theorem mapM_decimalValue {s : Text} (h : ∀ c ∈ s, isDigit c) :
    s.mapM decimalValue = some (s.map (· - 48)) := by
  induction s with
  | nil => rfl
  | cons c s ih =>
    rw [mapM_cons, decimalValue_isDigit (h c (by simp)), ih fun d hd => h d (mem_cons_of_mem _ hd)]
    rfl

theorem intOfDigits_digits {s : Text} (h : ∀ c ∈ s, isDigit c) {n : ℕ} (hn : intOfDigits s = some n) :
    n = digitsValue s := by
  unfold intOfDigits at hn
  split at hn
  · rw [mapM_decimalValue h, Option.map_some, Option.some.injEq, foldl_map] at hn
    exact hn.symm
  · cases hn

theorem digitsValue_le_append (s t : Text) : digitsValue s ≤ digitsValue (s ++ t) := by
  induction t using List.reverseRecOn with
  | nil => simp
  | append_singleton t c ih =>
    rw [← append_assoc, digitsValue_append]
    omega

end Py

namespace Altcha
open Py
open List hiding splitOn

def saltHead (base : Text) : Text := base ++ text "?expires="

theorem splitOnce_saltHead {base : Text} (hbase : 63 ∉ base) (s : Text) :
    splitOnce 63 (saltHead base ++ s) = some (base, text "expires=" ++ s) := by
  have hstop : ∀ c ∈ base, decide (c ≠ 63) = true := fun c hc => by
    simp only [decide_eq_true_eq]
    rintro rfl
    exact hbase hc
  have hhead : saltHead base ++ s = base ++ 63 :: (text "expires=" ++ s) := by
    simp [saltHead, text]
  rw [hhead]
  unfold splitOnce
  rw [if_pos (by simp), takeWhile_append_of_pos hstop, dropWhile_append_of_pos hstop]
  simp

theorem isDigit_ne {c d : ℕ} (h : isDigit c) (hd : isDigit d = false) : c ≠ d := by
  rintro rfl
  simp [h] at hd

theorem urlQuery_expires {p : Text} (h : ∀ c ∈ p, isDigit c) :
    urlQuery (text "expires=" ++ p) = text "expires=" ++ p := by
  have hall : ∀ c ∈ text "expires=" ++ p, c ≠ 9 ∧ c ≠ 10 ∧ c ≠ 13 ∧ c ≠ 35 := by
    intro c hc
    rcases mem_append.mp hc with hc | hc
    · have hname : ∀ c ∈ text "expires=", c ≠ 9 ∧ c ≠ 10 ∧ c ≠ 13 ∧ c ≠ 35 := by decide
      exact hname c hc
    · have hd := h c hc
      exact ⟨isDigit_ne hd rfl, isDigit_ne hd rfl, isDigit_ne hd rfl, isDigit_ne hd rfl⟩
  unfold urlQuery
  rw [filter_eq_self.mpr fun c hc => by simpa [and_assoc] using ⟨(hall c hc).1, (hall c hc).2.1, (hall c hc).2.2.1⟩]
  exact takeWhile_eq_self_iff.mpr fun c hc => by simpa using (hall c hc).2.2.2

theorem parseQs_expires {p : Text} (hne : p ≠ []) (h : ∀ c ∈ p, isDigit c) :
    parseQs (text "expires=" ++ p) = [(text "expires", p)] := by
  have habsent : ∀ d, isDigit d = false → d ∉ p := fun d hd hmem => isDigit_ne (h d hmem) hd rfl
  have hsplit : splitOn 38 (text "expires=" ++ p) = [text "expires=" ++ p] := by
    refine splitOn_absent fun hmem => ?_
    rcases mem_append.mp hmem with hmem | hmem
    · exact absurd hmem (by decide)
    · exact habsent 38 rfl hmem
  have honce : splitOnce 61 (text "expires=" ++ p) = some (text "expires", p) := by
    simp [splitOnce, text]
  have hplus : p.map (fun c => if c = 43 then 32 else c) = p := by
    refine (map_congr_left fun c hc => ?_).trans (map_id p)
    exact if_neg fun plus : c = 43 => habsent 43 rfl (plus ▸ hc)
  have hplain : unquote p = p := by
    unfold unquote
    rw [if_neg]
    simpa using habsent 37 rfl
  have hname : unquote ((text "expires").map fun c => if c = 43 then 32 else c) = text "expires" := by decide
  simp only [parseQs, hsplit, filterMap_cons, filterMap_nil, honce, if_neg hne, hplus, hplain, hname]

theorem parseExpires_digits {base p : Text} (hbase : 63 ∉ base) (hne : p ≠ []) (h : ∀ c ∈ p, isDigit c)
    {expires : Option ℕ} (hp : parseExpires (saltHead base ++ p) = .ok expires) :
    expires = some (digitsValue p) := by
  unfold parseExpires at hp
  rw [splitOnce_saltHead hbase] at hp
  simp only [urlQuery_expires h, parseQs_expires hne h, find?_cons_of_pos, decide_true,
    isDigitText_digits hne h, if_true] at hp
  split at hp
  · cases hp
  · next e he =>
      rw [intOfDigits_digits h he] at hp
      exact (Except.ok.inj hp).symm

theorem salt_of_cut {base salt : Text} {e n : ℕ} {number : ℤ}
    (htext : salt ++ decimal n = fullSalt base (some e) ++ intText number)
    (hhead : salt.length ≠ (saltHead base).length) (hlen : salt.length ≤ (fullSalt base (some e)).length) :
    ∃ p q, salt = saltHead base ++ p ∧ p ≠ [] ∧ decimal e = p ++ q := by
  have hfull : fullSalt base (some e) = saltHead base ++ decimal e := by
    simp [fullSalt, saltHead, intText]
  obtain ⟨r, hr⟩ : salt <+: fullSalt base (some e) :=
    prefix_of_prefix_length_le ⟨_, htext⟩ (prefix_append _ _) hlen
  rcases Nat.lt_or_ge salt.length (saltHead base).length with hshort | hlong
  · -- the number would have to spell the `=` of the salt
    obtain ⟨t, ht⟩ : salt <+: saltHead base :=
      prefix_of_prefix_length_le ⟨r, hr⟩ (hfull ▸ prefix_append _ _) hshort.le
    have hmem : 61 ∈ t := by
      have hlast : (salt ++ t).getLast? = some 61 := by
        rw [ht]
        simp [saltHead, text]
      have hne : t ≠ [] := by
        rintro rfl
        simp at ht
        exact hhead (by rw [ht])
      rw [getLast?_append_of_ne_nil _ hne] at hlast
      exact mem_of_getLast? hlast
    have hnum : decimal n = r ++ intText number := by
      rw [← hr, append_assoc] at htext
      exact append_cancel_left htext
    have hrest : r = t ++ decimal e := by
      rw [hfull, ← ht, append_assoc] at hr
      exact append_cancel_left hr
    have hdigit := decimal_isDigit n 61 (by simp [hnum, hrest, hmem])
    simp [isDigit] at hdigit
  · obtain ⟨p, hp⟩ : saltHead base <+: salt :=
      prefix_of_prefix_length_le (hfull ▸ prefix_append _ _) ⟨r, hr⟩ hlong
    refine ⟨p, r, hp.symm, ?_, ?_⟩
    · rintro rfl
      exact hhead (by simp [← hp])
    · rw [hfull, ← hp, append_assoc] at hr
      exact (append_cancel_left hr).symm

section Inversion

theorem ensure_ok {ok : Bool} {message : String} {u : Unit} (h : ensure ok message = .ok u) : ok = true := by
  unfold ensure at h
  split at h
  · assumption
  · cases h

theorem encode_ok {s : Text} {bytes : List ℕ} (h : encode s = .ok bytes) : utf8Encode s = some bytes := by
  unfold encode at h
  split at h
  · cases h
  · next hs => rw [hs, Except.ok.inj h]

theorem sha256Hex_ok {s digest : Text} (h : sha256Hex s = .ok digest) :
    ∃ bytes, utf8Encode s = some bytes ∧ digest = sha256 bytes := by
  obtain ⟨bytes, hbytes, hd⟩ := bind_ok.mp h
  exact ⟨bytes, encode_ok hbytes, (Except.ok.inj hd).symm⟩

theorem compareDigest_ok {a b : Text} (h : compareDigest a b = .ok true) : a = b := by
  unfold compareDigest at h
  split at h
  · simpa using Except.ok.inj h
  · cases h

theorem verifySolution_ok {depth now : ℕ} {payload secret key : Text}
    (h : verifySolution depth payload secret now = .ok key) :
    ∃ sol bytes expires, parseSolution depth payload = .ok sol ∧ key = sol.signature ∧
      parseExpires sol.salt = .ok expires ∧ (∀ e ∈ expires, now ≤ e) ∧
      utf8Encode (sol.salt ++ decimal sol.number) = some bytes ∧ sol.challenge = sha256 bytes := by
  obtain ⟨sol, hsol, h₁⟩ := bind_ok.mp h
  obtain ⟨expires, hexpires, h₂⟩ := bind_ok.mp h₁
  obtain ⟨_, hnow, h₃⟩ := bind_ok.mp h₂
  obtain ⟨digest, hdigest, h₄⟩ := bind_ok.mp h₃
  obtain ⟨same, hsame, h₅⟩ := bind_ok.mp h₄
  obtain ⟨_, htrue, h₆⟩ := bind_ok.mp h₅
  obtain ⟨expected, _, h₇⟩ := bind_ok.mp h₆
  obtain ⟨_, _, h₈⟩ := bind_ok.mp h₇
  obtain ⟨_, _, hkey⟩ := bind_ok.mp h₈
  obtain ⟨bytes, hbytes, rfl⟩ := sha256Hex_ok hdigest
  rw [ensure_ok htrue] at hsame
  refine ⟨sol, bytes, expires, hsol, (Except.ok.inj hkey).symm, hexpires, ?_, hbytes, (compareDigest_ok hsame).symm⟩
  intro e he
  rw [Option.mem_def] at he
  subst he
  simpa using ensure_ok hnow

theorem createChallenge_ok {secret base : Text} {number maxnumber : ℤ} {expires : Option ℤ} {c : Challenge}
    (h : createChallenge secret base number expires maxnumber = .ok c) :
    c.salt = fullSalt base expires ∧
      ∃ bytes, utf8Encode (fullSalt base expires ++ intText number) = some bytes ∧ c.challenge = sha256 bytes := by
  obtain ⟨digest, hdigest, h₁⟩ := bind_ok.mp h
  obtain ⟨signature, _, hc⟩ := bind_ok.mp h₁
  obtain ⟨bytes, hbytes, rfl⟩ := sha256Hex_ok hdigest
  obtain rfl := Except.ok.inj hc
  exact ⟨rfl, bytes, hbytes, rfl⟩

end Inversion

def solutionIn (depth : ℕ) (x : Presentation) : Option Solution :=
  x.payload.bind fun payload => (parseSolution depth payload).toOption

attribute [local simp] solutionIn

theorem solutionIn_of_parse {depth : ℕ} {x : Presentation} {payload : Text} {sol : Solution}
    (hpayload : x.payload = some payload) (hsol : parseSolution depth payload = .ok sol) :
    solutionIn depth x = some sol := by
  simp [solutionIn, hpayload, hsol, Except.toOption]

/-- The payload answers with the challenge and the signature of `c`. -/
def carries (depth : ℕ) (c : Challenge) (x : Presentation) : Bool :=
  (solutionIn depth x).any fun sol => sol.challenge = c.challenge ∧ sol.signature = c.signature

/-- No solution of the challenge passes after `e`, and at most one ever passes. -/
def SingleUse (depth : ℕ) (secret : Text) (ttl : ℕ) (c : Challenge) (e : ℕ) (guard : RedisReplayGuard)
    (xs : List Presentation) : Prop :=
  (∀ x ∈ accepted depth secret ttl guard xs, carries depth c x → x.now ≤ e) ∧
    ((accepted depth secret ttl guard xs).filter (carries depth c)).length ≤ 1

/-- The text that `x` hashes does not collide with another text. -/
def CollisionFree (depth : ℕ) (hashed : Text) (x : Presentation) : Prop :=
  ∀ sol ∈ solutionIn depth x, ∀ a ∈ utf8Encode (sol.salt ++ decimal sol.number), ∀ b ∈ utf8Encode hashed,
    sha256 a = sha256 b → a = b

def CutsExpiry (depth : ℕ) (base : Text) (c : Challenge) (x : Presentation) : Prop :=
  ∀ sol ∈ solutionIn depth x,
    sol.salt.length ≠ (saltHead base).length ∧ sol.salt.length ≤ c.salt.length

def SameWindow (ttl : ℕ) (x y : Presentation) : Prop := x.redisUp = y.redisUp ∧ y.now < x.now + ttl

section Guard

variable {depth ttl : ℕ} {secret : Text}
variable {guard : RedisReplayGuard} {x y : Presentation} {xs : List Presentation}

/-- The store that answers `x` holds the key since `x`. -/
def Holds (ttl : ℕ) (guard : RedisReplayGuard) (x : Presentation) (key : Text) : Prop :=
  if x.redisUp && 0 < ttl then (seenPrefix ++ key, x.ms + 1000 * ttl) ∈ guard.redis
  else (key, x.now + ttl) ∈ guard.fallback

theorem seen_holds {key : Text} (h : (guard.seen x key ttl).1 = false) : Holds ttl (guard.seen x key ttl).2 x key := by
  unfold RedisReplayGuard.seen Holds at *
  split at h
  · next hup =>
      rw [if_pos hup, if_pos hup]
      simp only [setNx] at h ⊢
      split at h
      · cases h
      · next hfresh => simp [hfresh]
  · next hdown =>
      rw [if_neg hdown, if_neg hdown]
      simp only [InMemoryReplayGuard.seen] at h ⊢
      split at h
      · cases h
      · next hfresh => simp [hfresh]

theorem holds_seen {key other : Text} (h : Holds ttl guard x key) (hy : y.now < x.now + ttl) :
    Holds ttl (guard.seen y other ttl).2 x key := by
  have hms : y.ms ≤ x.ms + 1000 * ttl := by
    unfold Presentation.now at hy
    omega
  unfold Holds at *
  unfold RedisReplayGuard.seen
  split at h
  · next hup =>
      rw [if_pos hup]
      split
      · simp only [setNx]
        split
        · exact h
        · next hfresh =>
            -- a live entry of this very key would have stopped the store
            have hne : key ≠ other := by
              rintro rfl
              exact hfresh (any_eq_true.mpr ⟨_, h, by simpa using hms⟩)
            simp [h, hne]
      · exact h
  · next hdown =>
      rw [if_neg hdown]
      split
      · exact h
      · have hlive : (key, x.now + ttl) ∈ guard.fallback.filter fun entry => decide (y.now < entry.2) := by
          simpa [mem_filter] using ⟨h, hy⟩
        simp only [InMemoryReplayGuard.seen]
        split
        · exact hlive
        · exact mem_append_left _ hlive

theorem holds_replay {key : Text} (h : Holds ttl guard x key) (hw : SameWindow ttl x y) : (guard.seen y key ttl).1 = true := by
  obtain ⟨hup, hy⟩ := hw
  have hms : y.ms ≤ x.ms + 1000 * ttl := by
    unfold Presentation.now at hy
    omega
  unfold Holds at h
  unfold RedisReplayGuard.seen
  rw [hup] at h
  split at h
  · next hpos =>
      rw [if_pos hpos]
      simp only [setNx]
      rw [if_pos (any_eq_true.mpr ⟨_, h, by simpa using hms⟩)]
      rfl
  · next hneg =>
      rw [if_neg hneg]
      simp only [InMemoryReplayGuard.seen]
      rw [if_pos (any_eq_true.mpr ⟨_, mem_filter.mpr ⟨h, by simpa using hy⟩, by simp⟩)]

theorem verify_guard (depth : ℕ) (secret : Text) (ttl : ℕ) (guard : RedisReplayGuard) (y : Presentation) :
    (verify depth secret ttl guard y).2 = guard ∨
      ∃ other, (verify depth secret ttl guard y).2 = (guard.seen y other ttl).2 := by
  unfold verify
  split
  · exact .inl rfl
  · exact .inl rfl
  · split
    · exact .inl rfl
    · next key _ =>
        right
        refine ⟨key, ?_⟩
        simp only
        split <;> rfl

theorem verify_ok (h : (verify depth secret ttl guard x).1.isOk = true) :
    ∃ payload key, x.payload = some payload ∧ verifySolution depth payload secret x.now = .ok key ∧
      (guard.seen x key ttl).1 = false ∧ (verify depth secret ttl guard x).2 = (guard.seen x key ttl).2 := by
  unfold verify at h ⊢
  split at h
  · cases h
  · cases h
  · next c rest hpayload =>
      split at h
      · cases h
      · next key hkey =>
          simp only at h
          split at h
          · cases h
          · next hnew => exact ⟨c :: rest, key, hpayload, hkey, by simpa using hnew, by simp [hnew]⟩

theorem mem_of_accepted (h : x ∈ accepted depth secret ttl guard xs) : x ∈ xs := by
  induction xs generalizing guard with
  | nil => exact h
  | cons y ys ih =>
    simp only [accepted] at h
    split at h
    · rcases mem_cons.mp h with rfl | h
      · exact mem_cons_self
      · exact mem_cons_of_mem _ (ih h)
    · exact mem_cons_of_mem _ (ih h)

theorem verify_of_accepted (h : x ∈ accepted depth secret ttl guard xs) :
    ∃ guard', (verify depth secret ttl guard' x).1.isOk = true := by
  induction xs generalizing guard with
  | nil => cases h
  | cons y ys ih =>
    simp only [accepted] at h
    split at h
    · next hok =>
        rcases mem_cons.mp h with rfl | h
        · exact ⟨guard, hok⟩
        · exact ih h
    · exact ih h

theorem key_of_carries {c : Challenge} {payload key : Text} (hx : carries depth c x) (hpayload : x.payload = some payload)
    (hkey : verifySolution depth payload secret x.now = .ok key) : key = c.signature := by
  obtain ⟨sol, _, _, hsol, rfl, _⟩ := verifySolution_ok hkey
  simp only [carries, solutionIn_of_parse hpayload hsol, Option.any_some, decide_eq_true_eq] at hx
  exact hx.2

/-- While the key of a challenge is held, no solution of it passes. -/
theorem not_accepted_of_holds {c : Challenge} {z : Presentation} (hw : SameWindow ttl x z) (hz : carries depth c z)
    {ys : List Presentation} (hsorted : ys.Pairwise fun a b => a.ms ≤ b.ms) (h : Holds ttl guard x c.signature) :
    z ∉ accepted depth secret ttl guard ys := by
  induction ys generalizing guard with
  | nil => simp [accepted]
  | cons y ys ih =>
    have hsplit := pairwise_cons.mp hsorted
    have htail : z ∈ ys → z ∉ accepted depth secret ttl (verify depth secret ttl guard y).2 ys := by
      intro hmem
      have hnow : y.now < x.now + ttl :=
        lt_of_le_of_lt (Nat.div_le_div_right (hsplit.1 z hmem)) hw.2
      rcases verify_guard depth secret ttl guard y with hsame | ⟨other, hseen⟩
      · rw [hsame]
        exact ih hsplit.2 h
      · rw [hseen]
        exact ih hsplit.2 (holds_seen h hnow)
    intro hacc
    simp only [accepted] at hacc
    split at hacc
    · next hok =>
        rcases mem_cons.mp hacc with rfl | hacc
        · obtain ⟨payload, key, hpayload, hkey, hnew, _⟩ := verify_ok hok
          rw [key_of_carries hz hpayload hkey, holds_replay h hw] at hnew
          cases hnew
        · exact htail (mem_of_accepted hacc) hacc
    · exact htail (mem_of_accepted hacc) hacc

end Guard

section Issued

variable {depth ttl e : ℕ} {secret base : Text} {number maxnumber : ℤ} {c : Challenge}

/-- A payload that cuts the text of the challenge inside its expiry carries an
expiry that is no later. -/
theorem now_le_of_verifySolution (hbase : 63 ∉ base)
    (hc : createChallenge secret base number (some e) maxnumber = .ok c) {x : Presentation}
    (hcut : CutsExpiry depth base c x)
    (hfree : CollisionFree depth (fullSalt base (some e) ++ intText number) x)
    (hx : carries depth c x) {payload key : Text} (hpayload : x.payload = some payload)
    (hkey : verifySolution depth payload secret x.now = .ok key) : x.now ≤ e := by
  obtain ⟨sol, bytes, expires, hsol, _, hexpires, hnow, hbytes, hdigest⟩ := verifySolution_ok hkey
  obtain ⟨hsalt, issued, hissued, hchallenge⟩ := createChallenge_ok hc
  have hin := solutionIn_of_parse hpayload hsol
  simp only [carries, hin, Option.any_some, decide_eq_true_eq] at hx
  have hsame : bytes = issued :=
    hfree sol hin bytes hbytes issued hissued (by rw [← hdigest, ← hchallenge, hx.1])
  have htext := utf8Encode_inj (hsame ▸ hbytes) hissued
  obtain ⟨hhead, hlen⟩ := hcut sol hin
  obtain ⟨p, q, hp, hne, he⟩ := salt_of_cut htext hhead (hsalt ▸ hlen)
  have hdigits : ∀ d ∈ p, isDigit d := fun d hd => decimal_isDigit e d (by simp [he, hd])
  rw [hp] at hexpires
  rw [parseExpires_digits hbase hne hdigits hexpires] at hnow
  calc x.now ≤ digitsValue p := hnow _ rfl
    _ ≤ digitsValue (p ++ q) := digitsValue_le_append p q
    _ = e := by rw [← he, digitsValue_decimal]

theorem accepted_carries_length {xs : List Presentation} (hsorted : xs.Pairwise fun x y => x.ms ≤ y.ms)
    (hwindow : xs.Pairwise fun x y => carries depth c x → carries depth c y → y.now ≤ e → SameWindow ttl x y)
    (hexpiry : ∀ x ∈ xs, ∀ guard, (verify depth secret ttl guard x).1.isOk = true → carries depth c x → x.now ≤ e)
    (guard : RedisReplayGuard) :
    ((accepted depth secret ttl guard xs).filter (carries depth c)).length ≤ 1 := by
  induction xs generalizing guard with
  | nil => simp [accepted]
  | cons x xs ih =>
    obtain ⟨_, hsorted'⟩ := pairwise_cons.mp hsorted
    obtain ⟨hfirst, hwindow'⟩ := pairwise_cons.mp hwindow
    have hrest := ih hsorted' hwindow' fun y hy => hexpiry y (mem_cons_of_mem _ hy)
    simp only [accepted]
    split
    · next hok =>
        cases hcarries : carries depth c x with
        | false => simpa [filter_cons, hcarries] using hrest _
        | true =>
          -- the first solution that passes puts the key in its store
          obtain ⟨payload, key, hpayload, hkey, hnew, hguard⟩ := verify_ok hok
          obtain rfl := key_of_carries hcarries hpayload hkey
          have hholds : Holds ttl (verify depth secret ttl guard x).2 x c.signature := hguard ▸ seen_holds hnew
          have hnone : (accepted depth secret ttl (verify depth secret ttl guard x).2 xs).filter
              (carries depth c) = [] := by
            refine filter_eq_nil_iff.mpr fun z hz hzc => ?_
            have hmem := mem_of_accepted hz
            obtain ⟨_, hzok⟩ := verify_of_accepted hz
            have hnow := hexpiry z (mem_cons_of_mem _ hmem) _ hzok hzc
            exact not_accepted_of_holds (hfirst z hmem hcarries hzc hnow) hzc hsorted' hholds hz
          simp [hcarries, hnone]
    · exact hrest _

/-- The solutions of a challenge that pass in a run whose payloads all cut the
hashed text inside the expiry, each two of them answered by one store in time. -/
theorem single_use_of_cut (hbase : 63 ∉ base)
    (hc : createChallenge secret base number (some e) maxnumber = .ok c)
    (guard : RedisReplayGuard) {xs : List Presentation}
    (hsorted : xs.Pairwise fun x y => x.ms ≤ y.ms)
    (hfree : ∀ x ∈ xs, carries depth c x → CollisionFree depth (fullSalt base (some e) ++ intText number) x)
    (hcut : ∀ x ∈ xs, carries depth c x → CutsExpiry depth base c x)
    (hwindow : xs.Pairwise fun x y =>
      carries depth c x → carries depth c y → y.now ≤ e → SameWindow ttl x y) :
    SingleUse depth secret ttl c e guard xs := by
  have hexpiry : ∀ x ∈ xs, ∀ guard, (verify depth secret ttl guard x).1.isOk = true → carries depth c x →
      x.now ≤ e := by
    intro x hx guard hok hcarries
    obtain ⟨payload, key, hpayload, hkey, _⟩ := verify_ok hok
    exact now_le_of_verifySolution hbase hc (hcut x hx hcarries) (hfree x hx hcarries) hcarries hpayload hkey
  refine ⟨fun x hx hcarries => ?_, accepted_carries_length hsorted hwindow hexpiry guard⟩
  obtain ⟨_, hok⟩ := verify_of_accepted hx
  exact hexpiry x (mem_of_accepted hx) _ hok hcarries

end Issued

section Splice

variable {depth : ℕ} {secret base : Text}

theorem bigEndian_lt (n x : ℕ) : ∀ b ∈ Sha256.bigEndian n x, b < 256 := by
  induction n generalizing x with
  | zero => simp [Sha256.bigEndian]
  | succ n ih =>
    intro b hb
    rcases mem_append.mp hb with front | last
    · exact ih _ b front
    · rw [mem_singleton.mp last]
      exact Nat.mod_lt _ (by decide)

theorem hexdigest_ascii {bytes : List ℕ} (h : ∀ b ∈ bytes, b < 256) :
    (Sha256.hexdigest bytes).all (· < 128) = true := by
  refine all_eq_true.mpr fun c hc => ?_
  obtain ⟨b, hb, hc⟩ := mem_flatMap.mp hc
  have := h b hb
  simp only [mem_cons, not_mem_nil, or_false, Sha256.hexDigit] at hc
  rw [decide_eq_true_eq]
  rcases hc with rfl | rfl <;> split <;> omega

theorem digest_lt (bytes : List ℕ) : ∀ b ∈ Sha256.digest bytes, b < 256 := by
  intro b hb
  obtain ⟨w, _, hb⟩ := mem_flatMap.mp hb
  exact bigEndian_lt 4 w b hb

theorem hmac_lt (key message : List ℕ) : ∀ b ∈ Sha256.hmac key message, b < 256 := digest_lt _

end Splice

section Sample

def sampleSecret : Text := text "secret"

def sampleBase : Text := text "0123456789abcdef01234567"

def sampleChallenge : Challenge where
  algorithm := algorithmName
  challenge := text "babbb76f73ef1e775500d0af9a93d4d91b4b554cbe5b4b9dc12414985b3f25b6"
  salt := text "0123456789abcdef01234567?expires=1700000300"
  signature := text "2f3c632f0739f968d76dcd1fa28bb7d1582ce16a563d105f2a38adba079e80c1"
  maxnumber := 100000

/-- The salt of the challenge without the digits of its expiry. -/
def splicedChallenge : Challenge := { sampleChallenge with salt := saltHead sampleBase }

example : sampleChallenge.challenge.length = 64 := by decide +kernel

theorem createChallenge_sample :
    createChallenge sampleSecret sampleBase 4711 (some (1700000300 : ℕ)) 100000 = .ok sampleChallenge := by
  rw [sampleSecret, sampleBase, sampleChallenge]
  repeat rw [text_ofList]
  decide +kernel

def sampleText : Text := fullSalt sampleBase (some (1700000300 : ℕ)) ++ intText 4711

theorem collisionFree_of_text {depth : ℕ} {hashed : Text} {x : Presentation}
    (h : ∀ sol ∈ solutionIn depth x, sol.salt ++ decimal sol.number = hashed) :
    CollisionFree depth hashed x := by
  intro sol hsol a ha b hb _
  rw [h sol hsol] at ha
  exact Option.mem_unique ha hb

def honestRun : List Presentation :=
  [⟨1700000005000, true, encodeSolution sampleChallenge 4711⟩,
   ⟨1700000006000, true, encodeSolution sampleChallenge 4711⟩,
   ⟨1700000301000, true, encodeSolution sampleChallenge 4711⟩]

/-- The solution with the expiry moved into the number, sent twice after the expiry. -/
def splicedRun : List Presentation :=
  [⟨1700000301000, true, encodeSolution splicedChallenge 17000003004711⟩,
   ⟨1700001301000, true, encodeSolution splicedChallenge 17000003004711⟩]

theorem honestRun_solutions : ∀ x ∈ honestRun, ∀ sol ∈ solutionIn 100 x,
    sol.salt = sampleChallenge.salt ∧ sol.number = 4711 := by
  rw [honestRun, encodeSolution, sampleChallenge]
  repeat rw [text_ofList]
  decide +kernel

/-- The honest run passes once. -/
theorem single_use_of_cut_honestRun :
    (accepted 100 sampleSecret 300 ⟨[], []⟩ honestRun).length = 1 ∧
      SingleUse 100 sampleSecret 300 sampleChallenge 1700000300 ⟨[], []⟩ honestRun := by
  have hfree : ∀ x ∈ honestRun, carries 100 sampleChallenge x → CollisionFree 100 sampleText x := by
    intro x hx _
    refine collisionFree_of_text fun sol hsol => ?_
    obtain ⟨hsalt, hnumber⟩ := honestRun_solutions x hx sol hsol
    rw [hsalt, hnumber]
    decide
  have hcut : ∀ x ∈ honestRun, carries 100 sampleChallenge x → CutsExpiry 100 sampleBase sampleChallenge x := by
    intro x hx _ sol hsol
    rw [(honestRun_solutions x hx sol hsol).1]
    decide
  have hwindow : honestRun.Pairwise fun x y =>
      carries 100 sampleChallenge x → carries 100 sampleChallenge y → y.now ≤ 1700000300 → SameWindow 300 x y := by
    have hclose : honestRun.Pairwise fun x y => y.now ≤ 1700000300 → x.redisUp = y.redisUp ∧ y.now < x.now + 300 := by
      decide +kernel
    exact hclose.imp fun h _ _ hnow => h hnow
  have hlength : (accepted 100 sampleSecret 300 ⟨[], []⟩ honestRun).length = 1 := by
    rw [honestRun, encodeSolution, sampleChallenge, sampleSecret]
    repeat rw [text_ofList]
    decide +kernel
  exact ⟨hlength,
    single_use_of_cut (by decide) createChallenge_sample ⟨[], []⟩ (by decide +kernel) hfree hcut hwindow⟩

example : splicedRun.map Presentation.now = [1700000301, 1700001301] := by decide +kernel

/-- Two solutions of one challenge pass after its expiry, at times that do not decrease. -/
theorem splicedRun_not_single_use :
    createChallenge sampleSecret sampleBase 4711 (some (1700000300 : ℕ)) 100000 = .ok sampleChallenge ∧
      (splicedRun.Pairwise fun x y => x.ms ≤ y.ms) ∧ (∀ x ∈ splicedRun, CollisionFree 100 sampleText x) ∧
      ¬ SingleUse 100 sampleSecret 300 sampleChallenge 1700000300 ⟨[], []⟩ splicedRun := by
  have htext : ∀ x ∈ splicedRun, ∀ sol ∈ solutionIn 100 x, sol.salt ++ decimal sol.number = sampleText := by
    rw [splicedRun, encodeSolution, splicedChallenge, sampleChallenge, sampleText, sampleBase]
    repeat rw [text_ofList]
    decide +kernel
  have hboth : ((accepted 100 sampleSecret 300 ⟨[], []⟩ splicedRun).filter (carries 100 sampleChallenge)).length = 2 := by
    rw [splicedRun, encodeSolution, splicedChallenge, saltHead, sampleBase, sampleChallenge, sampleSecret]
    repeat rw [text_ofList]
    decide +kernel
  refine ⟨createChallenge_sample, by decide +kernel, fun x hx => collisionFree_of_text (htext x hx), ?_⟩
  rintro ⟨_, honce⟩
  omega

end Sample

end Altcha
