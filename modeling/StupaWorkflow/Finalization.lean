import StupaWorkflow.MinutesModel

/-!
One finalization from its start to the end of its job. The commit of the status, the upload and
the mail are steps of three systems; a plan says which of them fail, attempt by attempt.
-/
namespace Minutes
open List

inductive PdfKey where
  | internalPdf
  | publicPdf
  deriving DecidableEq

inductive Failure where
  | transient
  | permanent
  deriving DecidableEq

/-- What a finalization finds: storage and renderer, the two variants, and a mail
queue with recipients. -/
structure Env where
  renders : Bool
  both : Bool
  mails : Bool
  deriving DecidableEq

/-- The failures of one attempt. A failed read or commit and a failed send are
permanent, a failed upload is transient, a render is either. -/
structure Attempt where
  load : Bool
  render : PdfKey → Option Failure
  commit : Bool
  put : PdfKey → Bool
  send : Bool
  reply : Bool
  revert : Bool

inductive Job where
  | request
  | queued
  | over
  deriving DecidableEq

structure State where
  status : ProtocolStatus
  keys : List PdfKey
  objects : List PdfKey
  mails : ℕ
  job : Job
  deriving DecidableEq

/-- The PDFs that `finalize` renders, stores and names on the row. -/
def Env.uploads (env : Env) : List PdfKey :=
  if env.renders then (if env.both then [.internalPdf, .publicPdf] else [.internalPdf]) else []

def renderAll (render : PdfKey → Option Failure) : List PdfKey → Option Failure
  | [] => none
  | k :: ks => (render k).or (renderAll render ks)

/-- `_store`: one upload after the other, up to the first that fails. -/
def store (put : PdfKey → Bool) : List PdfKey → List PdfKey → List PdfKey × Bool
  | [], objects => (objects, true)
  | k :: ks, objects => if put k then store put ks (k :: objects) else (objects, false)

def failIf (ok : Bool) (f : Failure) : Option Failure := if ok then none else some f

def Attempt.early (env : Env) (a : Attempt) : Option Failure :=
  (renderAll a.render env.uploads).or (failIf a.commit .permanent)

/-- `ProtocolService.finalize`. -/
def finalizeAttempt (env : Env) (a : Attempt) (st : State) : State × Option Failure :=
  if !a.load then (st, some .permanent)
  else if st.status = .final then (st, failIf a.reply .permanent)
  else match a.early env with
    | some f => (st, some f)
    | none =>
      let stored := store a.put env.uploads st.objects
      let st := { st with status := .final, keys := env.uploads, objects := stored.1 }
      if !stored.2 then (st, some .transient)
      else if env.mails && !a.send then (st, some .permanent)
      else ({ st with mails := st.mails + env.mails.toNat }, failIf a.reply .permanent)

/-- `revert_to_draft`, whose commit may fail. -/
def revert (a : Attempt) (st : State) : State :=
  if st.status = .rendering && a.revert then { st with status := .draft } else st

def State.over (st : State) : State := { st with job := .over }

/-- `render_protocol` with the attempts it has left: the state after each of them. -/
def renderProtocol (env : Env) (plan : ℕ → Attempt) : ℕ → ℕ → State → List State
  | 0, n, st =>
    match finalizeAttempt env (plan n) st with
    | (st, none) => [st.over]
    | (st, some _) => [(revert (plan n) st).over]
  | left + 1, n, st =>
    match finalizeAttempt env (plan n) st with
    | (st, none) => [st.over]
    | (st, some .transient) => st :: renderProtocol env plan left (n + 1) st
    | (st, some .permanent) => [(revert (plan n) st).over]

def renderSync (env : Env) (a : Attempt) (st : State) : State :=
  match finalizeAttempt env a st with
  | (st, none) => st.over
  | (st, some _) => (revert a st).over

def State.draft : State := ⟨.draft, [], [], 0, .over⟩

/-- `finalize_protocol` and the job: the commit of the start, the enqueue (when there
is a queue) and the plan of the attempts, numbered from 1. -/
def finalization (env : Env) (maxTries : ℕ) (startCommit : Bool) (enqueue : Option Bool) (plan : ℕ → Attempt) :
    List State :=
  if !startCommit then [.draft]
  else
    let started : State := { State.draft with status := .rendering, job := .request }
    started :: match enqueue with
      | none => [renderSync env (plan 1) started]
      | some false => [started.over]
      | some true =>
        let queued := { started with job := .queued }
        queued :: renderProtocol env plan (maxTries - 1) 1 queued

section AllOrNothing

def Settled (env : Env) (st : State) : Prop :=
  (st.status = .draft ∧ st.mails = 0) ∨
    (st.status = .final ∧ (∀ k ∈ st.keys, k ∈ st.objects) ∧ (env.mails = true → 0 < st.mails))

instance (env : Env) (st : State) : Decidable (Settled env st) := inferInstanceAs (Decidable (_ ∨ _))

def HasJob (st : State) : Prop := st.status = .rendering → st.job ≠ .over

instance (st : State) : Decidable (HasJob st) := inferInstanceAs (Decidable (_ → _))

def AllOrNothing (env : Env) (trace : List State) : Prop :=
  (∀ st ∈ trace.getLast?, Settled env st) ∧ ∀ st ∈ trace, HasJob st

instance (env : Env) (trace : List State) : Decidable (AllOrNothing env trace) := inferInstanceAs (Decidable (_ ∧ _))

def Attempt.fate (env : Env) (a : Attempt) : Option Failure := if a.load then a.early env else some .permanent

def Attempt.delivers (env : Env) (a : Attempt) : Bool := env.uploads.all a.put && (!env.mails || a.send)

/-- The first attempt that does not fail for a short time before its commit, or the last. -/
def deciding (env : Env) (plan : ℕ → Attempt) : ℕ → ℕ → ℕ
  | 0, n => n
  | left + 1, n => if (plan n).fate env = some .transient then deciding env plan left (n + 1) else n

/-- The deciding attempt commits and then delivers, or it fails before its commit and
the revert works. -/
def Attempt.clean (env : Env) (a : Attempt) : Bool := if a.fate env = none then a.delivers env else a.revert

variable {env : Env} {a : Attempt} {st : State} {plan : ℕ → Attempt}
variable {put : PdfKey → Bool} {ks objects : List PdfKey} {k : PdfKey}

attribute [local simp] State.over renderProtocol Settled AllOrNothing store Attempt.delivers

theorem store_all (put : PdfKey → Bool) (ks objects : List PdfKey) : (store put ks objects).2 = ks.all put := by
  induction ks generalizing objects with
  | nil => rfl
  | cons k ks ih =>
    rw [store, all_cons]
    cases put k with
    | true => simpa using ih (k :: objects)
    | false => rfl

theorem store_keeps (h : k ∈ objects) : k ∈ (store put ks objects).1 := by
  induction ks generalizing objects with
  | nil => exact h
  | cons j ks ih =>
    rw [store]
    split
    · exact ih (mem_cons_of_mem _ h)
    · exact h

theorem store_new (h : k ∈ (store put ks objects).1) : k ∈ objects ∨ (k ∈ ks ∧ put k = true) := by
  induction ks generalizing objects with
  | nil => exact .inl h
  | cons j ks ih =>
    rw [store] at h
    split at h
    · next hput =>
        rcases ih h with h | h
        · rcases mem_cons.mp h with rfl | h
          · exact .inr ⟨mem_cons_self, hput⟩
          · exact .inl h
        · exact .inr ⟨mem_cons_of_mem _ h.1, h.2⟩
    · exact .inl h

theorem store_mem (h : ks.all put = true) (hk : k ∈ ks) : k ∈ (store put ks objects).1 := by
  induction ks generalizing objects with
  | nil => cases hk
  | cons j ks ih =>
    simp only [all_cons, Bool.and_eq_true] at h
    rw [store, if_pos h.1]
    rcases mem_cons.mp hk with rfl | hk
    · exact store_keeps mem_cons_self
    · exact ih h.2 hk

theorem store_covers (put : PdfKey → Bool) (ks : List PdfKey) :
    (∀ k ∈ ks, k ∈ (store put ks []).1) ↔ ks.all put = true := by
  constructor
  · intro h
    refine all_eq_true.mpr fun k hk => ?_
    exact ((store_new (h k hk)).resolve_left (by simp)).2
  · exact fun h k hk => store_mem h hk

theorem finalizeAttempt_fails (hst : st.status ≠ .final) {f : Failure} (h : a.fate env = some f) :
    finalizeAttempt env a st = (st, some f) := by
  unfold Attempt.fate at h
  unfold finalizeAttempt
  cases hload : a.load with
  | false =>
    simp only [hload, Bool.false_eq_true, if_false, Option.some.injEq] at h
    simp [h]
  | true =>
    simp only [hload, if_true] at h
    simp [hst, h]

theorem finalizeAttempt_final (hst : st.status = .final) : (finalizeAttempt env a st).1 = st := by
  unfold finalizeAttempt
  split
  · rfl
  · simp

theorem revert_final (hst : st.status = .final) : revert a st = st := by simp [revert, hst]

theorem settled_final (hst : st.status = .final) :
    Settled env st ↔ (∀ k ∈ st.keys, k ∈ st.objects) ∧ (env.mails = true → 0 < st.mails) := by
  simp [Settled, hst]

structure Pending (st : State) : Prop where
  status : st.status = .rendering
  objects : st.objects = []
  mails : st.mails = 0

theorem finalizeAttempt_commits (hst : Pending st) (h : a.fate env = none) :
    (finalizeAttempt env a st).1.status = .final ∧
      (Settled env (finalizeAttempt env a st).1 ↔ a.delivers env = true) := by
  have hload : a.load = true := by
    by_contra hload
    simp [Attempt.fate, hload] at h
  have hearly : a.early env = none := by simpa [Attempt.fate, hload] using h
  have hcovers := store_covers a.put env.uploads
  have hstored := store_all a.put env.uploads []
  unfold finalizeAttempt
  simp only [hload, Bool.not_true, Bool.false_eq_true, if_false, hst.status, reduceCtorEq, hearly, hst.objects]
  cases hall : env.uploads.all a.put with
  | false =>
    rw [hall] at hstored
    simp only [hstored, Bool.not_false, if_true]
    refine ⟨trivial, ?_⟩
    rw [settled_final rfl, hcovers]
    simp [Attempt.delivers, hall]
  | true =>
    rw [hall] at hstored
    have hmem := hcovers.mpr hall
    simp only [hstored, Bool.not_true, Bool.false_eq_true, if_false]
    cases hmails : env.mails && !a.send with
    | true =>
      obtain ⟨hqueue, hsend⟩ := Bool.and_eq_true_iff.mp hmails
      simp only [if_true]
      refine ⟨trivial, ?_⟩
      rw [settled_final rfl]
      have hsend : a.send = false := by simpa using hsend
      simp [Attempt.delivers, hqueue, hsend, hst.mails]
    | false =>
      simp only [Bool.false_eq_true, if_false]
      have hdelivers : a.delivers env = true := by
        cases hqueue : env.mails with
        | false => simp [Attempt.delivers, hall, hqueue]
        | true =>
          have hsend : a.send = true := by simpa [hqueue] using hmails
          simp [Attempt.delivers, hall, hsend]
      refine ⟨trivial, ?_⟩
      rw [settled_final rfl, iff_true_right hdelivers]
      exact ⟨hmem, fun hqueue => by simp [hqueue]⟩

theorem settled_over : Settled env st.over ↔ Settled env st := Iff.rfl

theorem renderProtocol_final (hst : st.status = .final) (left n : ℕ) :
    (renderProtocol env plan left n st).getLast? = some st.over ∧
      ∀ x ∈ renderProtocol env plan left n st, x.status = .final := by
  induction left generalizing n with
  | zero =>
    have hsame : (finalizeAttempt env (plan n) st).1 = st := finalizeAttempt_final hst
    rw [renderProtocol]
    split
    · next st' heq =>
        obtain rfl : st' = st := by rw [heq] at hsame; exact hsame
        simp [State.over, hst]
    · next st' f heq =>
        obtain rfl : st' = st := by rw [heq] at hsame; exact hsame
        simp [revert_final hst, State.over, hst]
  | succ left ih =>
    have hsame : (finalizeAttempt env (plan n) st).1 = st := finalizeAttempt_final hst
    rw [renderProtocol]
    split
    · next st' heq =>
        obtain rfl : st' = st := by rw [heq] at hsame; exact hsame
        simp [State.over, hst]
    · next st' heq =>
        obtain rfl : st' = st := by rw [heq] at hsame; exact hsame
        obtain ⟨hlast, hall⟩ := ih (n + 1)
        refine ⟨?_, fun x hx => ?_⟩
        · rw [getLast?_cons, hlast]
          rfl
        · rcases mem_cons.mp hx with rfl | hx
          · exact hst
          · exact hall x hx
    · next st' heq =>
        obtain rfl : st' = st := by rw [heq] at hsame; exact hsame
        simp [revert_final hst, State.over, hst]

theorem allOrNothing_singleton : AllOrNothing env [st] ↔ Settled env st ∧ HasJob st := by
  simp [AllOrNothing]

theorem allOrNothing_cons {rest : List State} (hne : rest ≠ []) :
    AllOrNothing env (st :: rest) ↔ HasJob st ∧ AllOrNothing env rest := by
  obtain ⟨x, xs, rfl⟩ := exists_cons_of_ne_nil hne
  simp only [AllOrNothing, getLast?_cons_cons, forall_mem_cons (a := st)]
  constructor
  · rintro ⟨hlast, hst, hall⟩
    exact ⟨hst, hlast, hall⟩
  · rintro ⟨hst, hlast, hall⟩
    exact ⟨hlast, hst, hall⟩

theorem renderProtocol_ne_nil (left n : ℕ) : renderProtocol env plan left n st ≠ [] := by
  cases left with
  | zero =>
    rw [renderProtocol]
    split <;> simp
  | succ left =>
    rw [renderProtocol]
    split <;> simp

/-- A revert that works leaves a draft without a mail, and one that fails leaves a
protocol under render without a job. -/
theorem reverted_iff (hst : Pending st) : AllOrNothing env [(revert a st).over] ↔ a.revert = true := by
  rw [allOrNothing_singleton]
  cases hrevert : a.revert with
  | true => simp [revert, hst.status, hrevert, State.over, Settled, HasJob, hst.mails]
  | false => simp [revert, hst.status, hrevert, State.over, Settled, HasJob]

theorem final_iff (hst : st.status = .final) : AllOrNothing env [st.over] ↔ Settled env st := by
  rw [allOrNothing_singleton, settled_over]
  exact and_iff_left fun h => by
    rw [State.over, hst] at h
    cases h

theorem reverted_final_iff (hst : st.status = .final) : AllOrNothing env [(revert a st).over] ↔ Settled env st := by
  rw [revert_final hst]
  exact final_iff hst

theorem clean_of_fails {f : Failure} (h : a.fate env = some f) : a.clean env = a.revert := by simp [Attempt.clean, h]

theorem clean_of_commits (h : a.fate env = none) : a.clean env = a.delivers env := by simp [Attempt.clean, h]

theorem renderSync_iff (hst : Pending st) : AllOrNothing env [renderSync env a st] ↔ a.clean env = true := by
  have hne : st.status ≠ .final := by simp [hst.status]
  rw [renderSync]
  cases hfate : a.fate env with
  | some f => rw [finalizeAttempt_fails hne hfate, clean_of_fails hfate, reverted_iff hst]
  | none =>
    obtain ⟨hfinal, hsettled⟩ := finalizeAttempt_commits hst hfate
    rw [clean_of_commits hfate, ← hsettled]
    generalize finalizeAttempt env a st = result at hfinal
    obtain ⟨st', r⟩ := result
    cases r with
    | none => exact final_iff hfinal
    | some f => exact reverted_final_iff hfinal

theorem retried_final_iff (hst : st.status = .final) (left n : ℕ) :
    AllOrNothing env (st :: renderProtocol env plan left n st) ↔ Settled env st := by
  have hjobs : ∀ x : State, x.status = .final → HasJob x := fun x hx h => by
    rw [hx] at h
    cases h
  obtain ⟨hlast, hall⟩ : (renderProtocol env plan left n st).getLast? = some st.over ∧
      ∀ x ∈ renderProtocol env plan left n st, x.status = .final := renderProtocol_final hst left n
  rw [allOrNothing_cons (renderProtocol_ne_nil left n), AllOrNothing, hlast]
  constructor
  · intro h
    exact settled_over.mp (h.2.1 st.over rfl)
  · intro h
    refine ⟨hjobs st hst, fun x hx => ?_, fun x hx => hjobs x (hall x hx)⟩
    rw [← Option.some.inj hx]
    exact h

theorem renderProtocol_iff (hst : Pending st) (hjob : st.job = .queued) (left n : ℕ) :
    AllOrNothing env (renderProtocol env plan left n st) ↔ (plan (deciding env plan left n)).clean env = true := by
  have hne : st.status ≠ .final := by simp [hst.status]
  induction left generalizing n with
  | zero =>
    have hone : renderProtocol env plan 0 n st = [renderSync env (plan n) st] := by
      rw [renderProtocol, renderSync]
      split <;> rfl
    rw [hone, deciding]
    exact renderSync_iff hst
  | succ left ih =>
    rw [renderProtocol, deciding]
    cases hfate : (plan n).fate env with
    | some f =>
      rw [finalizeAttempt_fails hne hfate]
      cases f with
      | transient =>
        have hst' : HasJob st := fun _ => by simp [hjob]
        exact (allOrNothing_cons (renderProtocol_ne_nil left (n + 1))).trans
          ((and_iff_right hst').trans (by simpa using ih (n + 1)))
      | permanent =>
        simp only [Option.some.injEq, reduceCtorEq, if_false]
        rw [clean_of_fails hfate, reverted_iff hst]
    | none =>
      obtain ⟨hfinal, hsettled⟩ := finalizeAttempt_commits hst hfate
      simp only [reduceCtorEq, if_false]
      rw [clean_of_commits hfate, ← hsettled]
      generalize finalizeAttempt env (plan n) st = result at hfinal
      obtain ⟨st', r⟩ := result
      cases r with
      | none => exact final_iff hfinal
      | some f =>
        cases f with
        | permanent => exact reverted_final_iff hfinal
        | transient => exact retried_final_iff hfinal left (n + 1)

/-- The attempt that decides: the request itself without a queue. -/
def decidingAttempt (env : Env) (maxTries : ℕ) (enqueue : Option Bool) (plan : ℕ → Attempt) : Attempt :=
  if enqueue = none then plan 1 else plan (deciding env plan (maxTries - 1) 1)

/-- A finalization is all or nothing, and a protocol under render always has a job,
exactly when the start does not commit, or the enqueue works and the deciding
attempt is clean. -/
theorem finalization_allOrNothing_iff (env : Env) (maxTries : ℕ) (startCommit : Bool) (enqueue : Option Bool)
    (plan : ℕ → Attempt) :
    AllOrNothing env (finalization env maxTries startCommit enqueue plan) ↔
      startCommit = false ∨
        (enqueue ≠ some false ∧ (decidingAttempt env maxTries enqueue plan).clean env = true) := by
  cases startCommit with
  | false =>
    refine iff_of_true ?_ (.inl rfl)
    simp [finalization, AllOrNothing, State.draft, Settled, HasJob]
  | true =>
    let started : State := { State.draft with status := .rendering, job := .request }
    have hstarted : HasJob started := fun _ => by simp [started]
    cases enqueue with
    | none =>
      have h : AllOrNothing env [renderSync env (plan 1) started] ↔ (plan 1).clean env = true :=
        renderSync_iff ⟨rfl, rfl, rfl⟩
      simp only [finalization, Bool.not_true, Bool.false_eq_true, if_false]
      rw [allOrNothing_cons (by simp), and_iff_right hstarted, h]
      simp [decidingAttempt]
    | some ok =>
      cases ok with
      | false => simp [finalization, AllOrNothing, State.draft, State.over, Settled]
      | true =>
        have h : AllOrNothing env (renderProtocol env plan (maxTries - 1) 1 { started with job := .queued }) ↔
            (plan (deciding env plan (maxTries - 1) 1)).clean env = true := renderProtocol_iff ⟨rfl, rfl, rfl⟩ rfl _ _
        have hqueued : HasJob { started with job := .queued } := fun _ => by simp
        simp only [finalization, Bool.not_true, Bool.false_eq_true, if_false]
        rw [allOrNothing_cons (by simp), and_iff_right hstarted,
          allOrNothing_cons (renderProtocol_ne_nil _ _), and_iff_right hqueued, h]
        simp [decidingAttempt]

def uploadFails : Attempt := ⟨true, fun _ => none, true, fun _ => false, true, true, true⟩

/-- The failed upload leaves a final protocol without its PDF and without its mail. -/
theorem uploadFails_not_allOrNothing :
    (finalization ⟨true, false, true⟩ 4 true (some true) fun _ => uploadFails).getLast? =
        some ⟨.final, [.internalPdf], [], 0, .over⟩ ∧
      ¬ AllOrNothing ⟨true, false, true⟩ (finalization ⟨true, false, true⟩ 4 true (some true) fun _ => uploadFails) := by
  decide

end AllOrNothing

end Minutes
