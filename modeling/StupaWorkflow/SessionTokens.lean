import StupaWorkflow.SessionRenewal

/-!
The stored refresh token over all interleavings of renewals.
-/
namespace SessionRenewal
open Py Oidc Option List

section Invariant

def Newest (s : State) : Prop := ∀ row ∈ s.session, ∀ t ∈ row.refreshToken, t = s.newest

/-- What a renewal knows in its phase; only the holder of the lock knows anything. -/
def Holds (s : State) (i : ℕ) : Phase → Prop
  | .locked row => s.lock = some i ∧ row.refreshToken = some s.newest ∧ Newest s
  | .answered _ tokens => s.lock = some i ∧ tokens.refreshToken = some s.newest
  | .loaded _ | .stored _ | .over => True

def Phase.holding : Phase → Bool
  | .locked _ | .answered _ _ => true
  | .loaded _ | .stored _ | .over => false

def Phase.answering : Phase → Bool
  | .answered _ _ => true
  | .loaded _ | .locked _ | .stored _ | .over => false

structure Inv (s : State) : Prop where
  fresh : s.reused = false
  free : s.lock = none → Newest s
  holder : ∀ i r, s.renewals[i]? = some r → Holds s i r.phase
  owner : ∀ i, s.lock = some i → ∃ r, s.renewals[i]? = some r ∧ r.phase.holding = true

variable {s : State} {i : ℕ} {r : Renewal}
variable {phase : Phase}

theorem Holds.locked_by (h : Holds s i phase) (hholding : phase.holding = true) : s.lock = some i := by
  cases phase with
  | locked row => exact h.1
  | answered row tokens => exact h.1
  | loaded row => cases hholding
  | stored claims => cases hholding
  | «over» => cases hholding

theorem Holds.of_not_holding (h : phase.holding = false) : Holds s i phase := by
  cases phase with
  | locked row => cases h
  | answered row tokens => cases h
  | loaded row => trivial
  | stored claims => trivial
  | «over» => trivial

theorem getElem?_replaced {renewals : List Renewal} {j : ℕ} {r' x : Renewal} (h : (renewals.set i r')[j]? = some x) :
    (j = i ∧ x = r') ∨ (j ≠ i ∧ renewals[j]? = some x) := by
  rw [getElem?_set] at h
  split at h
  next heq =>
    split at h
    · exact .inl ⟨heq.symm, (Option.some.inj h).symm⟩
    · cases h
  next hne => exact .inr ⟨Ne.symm hne, h⟩

theorem Inv.outside (h : Inv s) (hr : s.renewals[i]? = some r) (hphase : r.phase.holding = false) (hnew : phase.holding = false) :
    Inv (s.setPhase i r phase) where
  fresh := h.fresh
  free := h.free
  holder j x hx := by
    rcases getElem?_replaced hx with ⟨rfl, rfl⟩ | ⟨_, hold⟩
    · exact Holds.of_not_holding hnew
    · exact h.holder j x hold
  owner k hk := by
    obtain ⟨x, hx, hholding⟩ := h.owner k hk
    have hne : i ≠ k := by
      rintro rfl
      obtain rfl := Option.some.inj (hr.symm.trans hx)
      rw [hphase] at hholding
      cases hholding
    exact ⟨x, (getElem?_set_ne hne).trans hx, hholding⟩

theorem Inv.freed (h : Inv s) (hlock : s.lock = none ∨ s.lock = some i) {s' : State} {r' : Renewal}
    (hrenewals : s'.renewals = s.renewals.set i r') (hphase : r'.phase.holding = false) (hfree : s'.lock = none)
    (hfresh : s'.reused = false) (hnewest : Newest s') : Inv s' where
  fresh := hfresh
  free _ := hnewest
  holder j x hx := by
    rw [hrenewals] at hx
    rcases getElem?_replaced hx with ⟨rfl, rfl⟩ | ⟨hne, hold⟩
    · exact Holds.of_not_holding hphase
    · refine Holds.of_not_holding ?_
      by_contra hholding
      have hj := (h.holder j x hold).locked_by (by simpa using hholding)
      rcases hlock with hnone | hsome
      · rw [hnone] at hj
        cases hj
      · exact hne (Option.some.inj (hj.symm.trans hsome))
  owner k hk := by
    rw [hfree] at hk
    cases hk

theorem Inv.release (h : Inv s) (hlock : s.lock = none ∨ s.lock = some i) (hnewest : Newest s) : Inv (s.release i r) :=
  h.freed hlock rfl rfl rfl h.fresh hnewest

theorem Inv.endSession (h : Inv s) (hlock : s.lock = none ∨ s.lock = some i) : Inv (s.endSession i r) :=
  h.freed hlock rfl rfl rfl h.fresh fun row hrow => by cases hrow

theorem Inv.setRetryAfter (h : Inv s) (f : ℕ → Time) : Inv { s with retryAfter := f } where
  fresh := h.fresh
  free := h.free
  holder := h.holder
  owner := h.owner

theorem Inv.unavailable (h : Inv s) (cfg : Settings) {row : AuthSession} {clock : Time} (hlock : s.lock = some i)
    (hnewest : withinGrace cfg row r.now = true → Newest s) : Inv (s.unavailable cfg i r row clock) := by
  simp only [State.unavailable]
  split
  next hgrace => exact (h.setRetryAfter _).release (.inr hlock) (hnewest hgrace)
  next => exact (h.setRetryAfter _).endSession (.inr hlock)

end Invariant

section Steps

variable {cfg : Settings} {s s' : State} {i : ℕ} {r : Renewal}
variable {row : AuthSession} {clock : Time}

theorem check_inv (h : Inv s) (hr : s.renewals[i]? = some r) (hphase : r.phase.holding = false) :
    Inv (check cfg s i r row clock) := by
  unfold check
  split
  next => exact h.outside hr hphase rfl
  next hgo =>
    have hlock : s.lock = none := by
      simp only [Bool.or_eq_true, not_or, Bool.not_eq_true, isSome_eq_false_iff, isNone_iff_eq_none] at hgo
      exact hgo.2
    split
    next => exact h.outside hr hphase rfl
    next locked hsession =>
      split
      next => exact h.outside hr hphase rfl
      next =>
        split
        next => exact h.endSession (.inl hlock)
        next hkeep =>
          simp only [Bool.or_eq_true, not_or, Bool.not_eq_true, isNone_eq_false_iff] at hkeep
          obtain ⟨t, ht⟩ := isSome_iff_exists.mp hkeep.2
          have hnewest := h.free hlock
          have htoken : locked.refreshToken = some s.newest := by rw [ht, hnewest locked hsession t ht]
          refine ⟨h.fresh, fun hnone => (by cases hnone), fun j x hx => ?_, fun k hk => ?_⟩
          · rcases getElem?_replaced hx with ⟨rfl, rfl⟩ | ⟨_, hold⟩
            · exact ⟨rfl, htoken, hnewest⟩
            · refine Holds.of_not_holding ?_
              by_contra hholding
              have hj := (h.holder j x hold).locked_by (by simpa using hholding)
              rw [hlock] at hj
              cases hj
          · obtain rfl := Option.some.inj hk
            exact ⟨_, List.getElem?_set_self (List.getElem?_eq_some_iff.mp hr).1, rfl⟩

/-- Only the newest token is presented, so no spent one is. -/
theorem present_inv {token : ℕ} {answer : Grant} (h : Inv s) (hr : s.renewals[i]? = some r) (hphase : r.phase = .locked row)
    (htoken : row.refreshToken = some token) (hstep : present cfg s i r row token answer clock = some s') : Inv s' := by
  have hholds := h.holder i r hr
  rw [hphase] at hholds
  obtain ⟨hlock, hrow, hnewest⟩ := hholds
  obtain rfl : token = s.newest := Option.some.inj (htoken.symm.trans hrow)
  have hsame : (s.reused || (answer.sent && decide (s.newest < s.newest))) = s.reused := by simp
  unfold present at hstep
  rw [hsame] at hstep
  cases answer with
  | granted idToken =>
    simp only [ne_eq, not_true_eq_false, if_false] at hstep
    cases idToken with
    | none =>
      obtain rfl := Option.some.inj hstep
      exact h.freed (.inr hlock) rfl rfl rfl h.fresh fun row hrow => by cases hrow
    | some idToken =>
      obtain rfl := Option.some.inj hstep
      refine ⟨h.fresh, fun hnone => ?_, fun j x hx => ?_, fun k hk => ?_⟩
      · rw [show s.lock = none from hnone] at hlock
        cases hlock
      · rcases getElem?_replaced hx with ⟨rfl, rfl⟩ | ⟨hne, hold⟩
        · exact ⟨hlock, rfl⟩
        · refine Holds.of_not_holding ?_
          by_contra hholding
          have hj := (h.holder j x hold).locked_by (by simpa using hholding)
          exact hne (Option.some.inj (hj.symm.trans hlock))
      · obtain rfl : i = k := Option.some.inj (hlock.symm.trans hk)
        exact ⟨_, List.getElem?_set_self (List.getElem?_eq_some_iff.mp hr).1, rfl⟩
  | refused =>
    obtain rfl := Option.some.inj hstep
    exact h.endSession (.inr hlock)
  | crashed =>
    obtain rfl := Option.some.inj hstep
    exact h.release (.inr hlock) hnewest
  | undiscovered =>
    obtain rfl := Option.some.inj hstep
    exact h.unavailable cfg hlock fun _ => hnewest
  | unreachable =>
    obtain rfl := Option.some.inj hstep
    exact h.unavailable cfg hlock fun _ => hnewest
  | serverError =>
    obtain rfl := Option.some.inj hstep
    exact h.unavailable cfg hlock fun _ => hnewest
  | notJson =>
    obtain rfl := Option.some.inj hstep
    exact h.unavailable cfg hlock fun _ => hnewest

/-- A result of the check of the ID token after which the session does not keep the spent
token: it is stored, or the session ends. -/
def keepsUp (cfg : Settings) (row : AuthSession) (now : Time) : Call OidcClaims → Bool
  | .ok _ | .error .refused => true
  | .error .unavailable => !withinGrace cfg row now
  | .error .crashed => false

theorem verify_inv {tokens : TokenSet} {answers : KeyAnswers} (h : Inv s) (hr : s.renewals[i]? = some r)
    (hphase : r.phase = .answered row tokens) (hkeeps : keepsUp cfg row r.now (verifyRefreshedIdToken answers r.principal) = true) :
    Inv (verify cfg s i r row tokens answers clock) := by
  have hholds := h.holder i r hr
  rw [hphase] at hholds
  obtain ⟨hlock, hnew⟩ := hholds
  unfold verify
  cases hresult : verifyRefreshedIdToken answers r.principal with
  | ok claims =>
    refine h.freed (.inr hlock) rfl rfl rfl h.fresh fun stored hstored t ht => ?_
    obtain rfl := Option.some.inj hstored
    have ht : (tokens.refreshToken <|> row.refreshToken) = some t := ht
    rw [hnew] at ht
    exact (Option.some.inj ht).symm
  | error failure =>
    rw [hresult] at hkeeps
    cases failure with
    | unavailable =>
      have hlate : withinGrace cfg row r.now = false := by simpa [keepsUp] using hkeeps
      exact h.unavailable cfg hlock fun hgrace => by rw [hlate] at hgrace; cases hgrace
    | refused => exact h.endSession (.inr hlock)
    | crashed => cases hkeeps

theorem finish_inv {result : PrincipalUpdate} (h : Inv s) (hr : s.renewals[i]? = some r)
    (hphase : r.phase.holding = false) (hstep : finish s i r result = some s') : Inv s' := by
  have hends : (if s.lock.isSome then none else some (s.endSession i r)) = some s' → Inv s' := by
    intro hstep
    split at hstep
    · cases hstep
    next hfree =>
      obtain rfl := Option.some.inj hstep
      exact h.endSession (.inl (by simpa using hfree))
  cases result with
  | failed =>
    obtain rfl := Option.some.inj hstep
    exact h.outside hr hphase rfl
  | merged => exact hends hstep
  | deactivated => exact hends hstep
  | updated expiresAt =>
    simp only [finish] at hstep
    split at hstep
    · cases hstep
    next hfree =>
      have hnone : s.lock = none := by simpa using hfree
      obtain rfl := Option.some.inj hstep
      refine h.freed (.inl hnone) rfl rfl hnone h.fresh fun row hrow t ht => ?_
      obtain ⟨old, hold, rfl⟩ := map_eq_some_iff.mp hrow
      exact h.free hnone old hold t ht

def stepKeepsUp (cfg : Settings) (s : State) : Event → Bool
  | .verify i answers _ => s.renewals[i]?.all fun r =>
    match r.phase with
    | .answered row _ => keepsUp cfg row r.now (verifyRefreshedIdToken answers r.principal)
    | _ => true
  | _ => true

theorem step_inv {ev : Event} (h : Inv s) (hkeeps : stepKeepsUp cfg s ev = true) (hstep : step cfg s ev = some s') :
    Inv s' := by
  cases ev with
  | start process now principal =>
    obtain ⟨row, _, rfl⟩ := map_eq_some_iff.mp hstep
    refine ⟨h.fresh, h.free, fun j x hx => ?_, fun k hk => ?_⟩
    · rw [getElem?_append] at hx
      split at hx
      · exact h.holder j x hx
      · rw [mem_singleton.mp (mem_of_getElem? hx)]
        trivial
    · obtain ⟨x, hx, hholding⟩ := h.owner k hk
      exact ⟨x, by rw [List.getElem?_append_left (List.getElem?_eq_some_iff.mp hx).1]; exact hx, hholding⟩
  | check i clock =>
    obtain ⟨r, hr, hstep⟩ := bind_eq_some_iff.mp hstep
    split at hstep
    next row hphase =>
      obtain rfl := Option.some.inj hstep
      exact check_inv h hr (by rw [hphase]; rfl)
    next => cases hstep
  | present i answer clock =>
    obtain ⟨r, hr, hstep⟩ := bind_eq_some_iff.mp hstep
    split at hstep
    next row hphase =>
      obtain ⟨token, htoken, hstep⟩ := bind_eq_some_iff.mp hstep
      exact present_inv h hr hphase htoken hstep
    next => cases hstep
  | verify i answers clock =>
    obtain ⟨r, hr, hstep⟩ := bind_eq_some_iff.mp hstep
    split at hstep
    next row tokens hphase =>
      obtain rfl := Option.some.inj hstep
      simp only [stepKeepsUp, hr, all_some, hphase] at hkeeps
      exact verify_inv h hr hphase hkeeps
    next => cases hstep
  | update i result =>
    obtain ⟨r, hr, hstep⟩ := bind_eq_some_iff.mp hstep
    split at hstep
    next claims hphase => exact finish_inv h hr (by rw [hphase]; rfl) hstep
    next => cases hstep
  | logout =>
    simp only [step] at hstep
    split at hstep
    · cases hstep
    next hfree =>
      obtain rfl := Option.some.inj hstep
      have hnone : s.lock = none := by simpa using hfree
      refine ⟨h.fresh, fun _ row hrow => (by cases hrow), fun j x hx => Holds.of_not_holding ?_, h.owner⟩
      by_contra hholding
      have hj := (h.holder j x hx).locked_by (by simpa using hholding)
      rw [hnone] at hj
      cases hj

end Steps

section Runs

def keepsUpIn (cfg : Settings) (s : State) : List Event → Bool
  | [] => true
  | ev :: es => stepKeepsUp cfg s ev && (step cfg s ev).all fun s' => keepsUpIn cfg s' es

theorem run_inv {cfg : Settings} {s s' : State} {es : List Event} (h : Inv s) (hkeeps : keepsUpIn cfg s es = true)
    (hrun : run cfg s es = some s') : Inv s' := by
  induction es generalizing s with
  | nil =>
    cases hrun
    exact h
  | cons ev es ih =>
    obtain ⟨s₁, hstep, hrest⟩ := bind_eq_some_iff.mp hrun
    simp only [keepsUpIn, Bool.and_eq_true, hstep, all_some] at hkeeps
    exact ih (step_inv h hkeeps.1 hstep) hkeeps.2 hrest

theorem opened_inv (row : AuthSession) : Inv (opened row) where
  fresh := rfl
  free _ stored hstored t ht := by
    obtain rfl := Option.some.inj hstored
    show t = row.refreshToken.getD 0
    rw [show row.refreshToken = some t from ht, getD_some]
  holder i r hr := by cases hr
  owner i hi := by cases hi

/-- In a run of renewals whose checks of the ID token keep up with the provider, no answered token
is presented again, and the stored token is the newest one, except while a renewal holds an
answer that it is about to store or to end the session for. -/
theorem run_tokens (cfg : Settings) (row : AuthSession) {es : List Event} {s : State}
    (hrun : run cfg (opened row) es = some s) (hkeeps : keepsUpIn cfg (opened row) es = true) :
    s.reused = false ∧ ((∀ r ∈ s.renewals, r.phase.answering = false) → Newest s) := by
  have h := run_inv (opened_inv row) hkeeps hrun
  refine ⟨h.fresh, fun hquiet => ?_⟩
  cases hlock : s.lock with
  | none => exact h.free hlock
  | some i =>
    obtain ⟨r, hr, hholding⟩ := h.owner i hlock
    have hholds := h.holder i r hr
    have hnot := hquiet r (mem_of_getElem? hr)
    cases hphase : r.phase with
    | locked locked =>
      rw [hphase] at hholds
      exact hholds.2.2
    | answered locked tokens =>
      rw [hphase] at hnot
      cases hnot
    | loaded locked =>
      rw [hphase] at hholding
      cases hholding
    | stored claims =>
      rw [hphase] at hholding
      cases hholding
    | «over» =>
      rw [hphase] at hholding
      cases hholding

def hourly : Settings := ⟨true, 5, 100, 1000, 1⟩

def fresh : AuthSession := ⟨some 0, none, 0, 0, 900⟩

def member : OidcClaims := ⟨text "m", none, none, [], false⟩

def knownKey : KeyAnswers where
  header := some (some (text "k"))
  cached := some [⟨some (text "k"), true⟩]
  load := ⟨.ok (), .ok []⟩
  reload := ⟨.ok (), .ok []⟩
  decode := fun _ => some ⟨text "m", none, none, none, none, false⟩

def noKeys : KeyAnswers := { knownKey with cached := none, load := ⟨.ok (), .error .unavailable⟩ }

/-- Two renewals of one session, the second after the new tokens of the first are stored. -/
def smoothRenewals : List Event :=
  [.start 0 10 member, .start 1 10 member, .check 0 10, .check 1 10, .present 0 (.granted (some (text "t"))) 10,
   .verify 0 knownKey 10, .update 0 (.updated 800), .start 1 20 member, .check 2 20,
   .present 2 (.granted (some (text "u"))) 20, .verify 2 knownKey 20, .update 2 (.updated 900)]

theorem smoothRenewals_tokens :
    ∃ s, run hourly (opened fresh) smoothRenewals = some s ∧ s.newest = 2 ∧
      s.session.bind AuthSession.refreshToken = some 2 ∧ s.reused = false := by
  have hkeeps : keepsUpIn hourly (opened fresh) smoothRenewals = true := by decide +kernel
  have hrun : (run hourly (opened fresh) smoothRenewals).map
      (fun s => (s.newest, s.session.bind AuthSession.refreshToken)) = some (2, some 2) := by decide +kernel
  obtain ⟨s, hs, heq⟩ := map_eq_some_iff.mp hrun
  obtain ⟨hnewest, hstored⟩ := Prod.mk.inj heq
  exact ⟨s, hs, hnewest, hstored, (run_tokens hourly fresh hs hkeeps).1⟩

def lostToken : List Event :=
  [.start 0 10 member, .check 0 10, .present 0 (.granted (some (text "t"))) 10, .verify 0 noKeys 10]

def spentToken : List Event := lostToken ++ [.start 0 11 member, .check 1 20, .present 1 .refused 20]

theorem lostToken_not_newest :
    (∃ s, run hourly (opened fresh) lostToken = some s ∧ (∀ r ∈ s.renewals, r.phase = .over) ∧ ¬ Newest s) ∧
    (∃ s, run hourly (opened fresh) spentToken = some s ∧ s.reused = true) := by
  refine ⟨?_, ?_⟩
  · have hrun : (run hourly (opened fresh) lostToken).map
        (fun s => (decide (∀ r ∈ s.renewals, r.phase = .over), s.session.bind AuthSession.refreshToken, s.newest)) =
          some (true, some 0, 1) := by decide +kernel
    obtain ⟨s, hs, heq⟩ := map_eq_some_iff.mp hrun
    simp only [Prod.mk.injEq, decide_eq_true_eq] at heq
    obtain ⟨hover, hstored, hnewest⟩ := heq
    refine ⟨s, hs, hover, fun h => ?_⟩
    obtain ⟨row, hrow, ht⟩ := bind_eq_some_iff.mp hstored
    have hzero := h row hrow 0 ht
    omega
  · have hrun : (run hourly (opened fresh) spentToken).map State.reused = some true := by decide +kernel
    exact map_eq_some_iff.mp hrun

end Runs

end SessionRenewal
