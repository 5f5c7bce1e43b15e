import StupaWorkflow.MagicLinkRuns

/-!
The life of the magic links. In every run the confirmation is final and the flow starts at most
once.
-/
namespace MagicLinks
open Py ReadCommitted List

section Rules

def Closed (d : Db) : Prop :=
  d.anonymizedAt.isSome = true → d.email = none ∧ d.links = [] ∧ ∀ s ∈ d.sessions, s.revokedAt.isSome = true

def Allowed : Request → Db → Db → Prop
  | .verify token now _, _, e => ∀ l ∈ e.links, l.token ≠ token →
      (∃ r ∈ e.links, r.token = token ∧ l.createdAt ≤ r.createdAt) → l.validAt now = false
  | .discard _, d, _ => d.unconfirmed = true
  | .request _ _ _, _, _ | .setArchived _ _, _, _ | .anonymize _, _, _ => True

instance : (r : Request) → (d e : Db) → Decidable (Allowed r d e)
  | .verify token now _, _, e => inferInstanceAs (Decidable (∀ l ∈ e.links, l.token ≠ token →
      (∃ r ∈ e.links, r.token = token ∧ l.createdAt ≤ r.createdAt) → l.validAt now = false))
  | .discard _, d, _ => inferInstanceAs (Decidable (d.unconfirmed = true))
  | .request _ _ _, _, _ | .setArchived _ _, _, _ | .anonymize _, _, _ => isTrue trivial

/-- A request finds the address that it matched, a verify finds its link and no older link
that its UPDATE did not see, and an anonymization saw every link and session. -/
def InTime : Request → Db → Db → Prop
  | .request email _ _, d, _ => d.email = some email
  | .verify token _ _, d, e => ∃ r ∈ d.links, r.token = token ∧
      ∀ l ∈ d.links, l.createdAt ≤ r.createdAt → ∃ s ∈ e.seen, l.token ∈ s.links
  | .anonymize _, d, e => ∃ s ∈ e.seen, (∀ l ∈ d.links, l.token ∈ s.links) ∧ ∀ x ∈ d.sessions, x.sid ∈ s.sessions
  | .setArchived _ _, _, _ | .discard _, _, _ => True

instance : (r : Request) → (d e : Db) → Decidable (InTime r d e)
  | .request email _ _, d, _ => inferInstanceAs (Decidable (d.email = some email))
  | .verify token _ _, d, e => inferInstanceAs (Decidable (∃ r ∈ d.links, r.token = token ∧
      ∀ l ∈ d.links, l.createdAt ≤ r.createdAt → ∃ s ∈ e.seen, l.token ∈ s.links))
  | .anonymize _, d, e => inferInstanceAs (Decidable (∃ s ∈ e.seen, (∀ l ∈ d.links, l.token ∈ s.links) ∧
      ∀ x ∈ d.sessions, x.sid ∈ s.sessions))
  | .setArchived _ _, _, _ | .discard _, _, _ => isTrue trivial

variable {d e : Db}

theorem verify_ends_older {token : ℕ} {now sessionEnd : Time} (hinv : Inv d)
    (heffect : Effect (.verify token now sessionEnd) d e) (htime : InTime (.verify token now sessionEnd) d e) :
    Allowed (.verify token now sessionEnd) d e := by
  obtain ⟨b, tokens, seen, hcovers, rfl⟩ := heffect
  obtain ⟨r₀, hr₀, hredeemed₀, hall⟩ := htime
  have hlinks : (confirmIf b now d).links = d.links := by cases b <;> rfl
  intro l' hl' hne ⟨r', hr', hredeemed, hle⟩
  have hback : ∀ x' ∈ ((((confirmIf b now d).expire tokens now).openSession sessionEnd).note seen []).links,
      ∃ x ∈ d.links, x' = if tokens.contains x.token && x.validAt now then { x with expiresAt := some now } else x := by
    intro x' hx'
    obtain ⟨x, hx, heq⟩ := mem_map.mp hx'
    exact ⟨x, hlinks ▸ hx, heq.symm⟩
  obtain ⟨l, hl, rfl⟩ := hback l' hl'
  obtain ⟨r, hr, rfl⟩ := hback r' hr'
  have hkeep : ∀ x : MagicLink, (if tokens.contains x.token && x.validAt now then { x with expiresAt := some now } else x).token =
      x.token ∧ (if tokens.contains x.token && x.validAt now then { x with expiresAt := some now } else x).createdAt =
        x.createdAt := by
    intro x
    split <;> exact ⟨rfl, rfl⟩
  rw [(hkeep l).1] at hne
  rw [(hkeep r).1] at hredeemed
  rw [(hkeep l).2, (hkeep r).2] at hle
  have hsame : r = r₀ := inj_on_of_nodup_map hinv.distinct hr hr₀ (hredeemed.trans hredeemed₀.symm)
  obtain ⟨s, hs, hseen⟩ := hall l hl (hsame ▸ hle)
  obtain rfl := Option.some.inj hs
  split
  next => exact (validAt_some (l := l)).trans (by simp)
  next hnot =>
    by_contra hvalid
    have hvalid : l.validAt now = true := by simpa using hvalid
    have hmem := hcovers l hl hseen hne ⟨r, hr, hredeemed, hle⟩ hvalid
    exact hnot (by simp [hvalid, hmem])

theorem commit_allowed {r : Request} (hinv : Inv d) (heffect : Effect r d e) (htime : InTime r d e) : Allowed r d e := by
  cases r with
  | verify token now sessionEnd => exact verify_ends_older hinv heffect htime
  | discard cutoff => exact heffect.1
  | request email start expiresAt => trivial
  | setArchived archived now => trivial
  | anonymize now => trivial

/-- A commit in time opens no access after an anonymization. -/
theorem commit_closed {r : Request} (h : Closed d) (heffect : Effect r d e) (htime : InTime r d e) : Closed e := by
  cases r with
  | request email start expiresAt =>
    rw [show e = d.issue start expiresAt from heffect]
    intro hanon
    have hnone := (h hanon).1
    rw [show d.email = some email from htime] at hnone
    cases hnone
  | verify token now sessionEnd =>
    obtain ⟨b, tokens, seen, _, rfl⟩ := heffect
    obtain ⟨r, hr, _⟩ := htime
    intro hanon
    have hanon : d.anonymizedAt.isSome = true := by cases b <;> exact hanon
    rw [(h hanon).2.1] at hr
    cases hr
  | setArchived archived now =>
    obtain ⟨tokens, archivedAt, _, rfl⟩ := heffect
    intro hanon
    obtain ⟨hemail, hlinks, hsessions⟩ := h hanon
    refine ⟨hemail, ?_, hsessions⟩
    rw [Db.archive, Db.expire, hlinks]
    rfl
  | anonymize now =>
    obtain ⟨tokens, sids, seen, hsids, rfl⟩ := heffect
    obtain ⟨s, hs, hlinks, hsessions⟩ := htime
    obtain rfl := Option.some.inj hs
    intro _
    refine ⟨rfl, filter_eq_nil_iff.mpr fun l hl => ?_, fun x' hx' => ?_⟩
    · simpa using hlinks l hl
    · obtain ⟨x, hx, rfl⟩ := mem_map.mp hx'
      split
      next => rfl
      next hnot =>
        rw [Option.isSome_iff_ne_none]
        intro hopen
        exact hnot (by simpa using hsids x hx (hsessions x hx) hopen)
  | discard cutoff =>
    obtain ⟨_, rfl⟩ := heffect
    exact fun _ => ⟨rfl, rfl, fun x hx => by cases hx⟩

theorem submitted_inv (email : Text) (createdAt : Time) (confirmedAt : Option Time) :
    Inv (submitted email createdAt confirmedAt) where
  tokens l hl := by cases hl
  distinct := nodup_nil
  sids s hs := by cases hs
  starts := Nat.zero_le 1
  started h := by cases h

theorem submitted_closed (email : Text) (createdAt : Time) (confirmedAt : Option Time) :
    Closed (submitted email createdAt confirmedAt) := by
  intro h
  cases h

end Rules

section Runs

/-- In a run whose commits are all in time, an anonymization stays the end of all access, and a
verify leaves no older link valid. In every run the flow starts at most once, a confirmed
application stays, and links only fade. -/
theorem run_lifecycle (email : Text) (createdAt : Time) (confirmedAt : Option Time) {es fs : List (Event Request)}
    {s s' : Sys Request Db Key Problem} (hrun : run script ⟨submitted email createdAt confirmedAt, []⟩ es = some s)
    (htime : Guarded InTime script ⟨submitted email createdAt confirmedAt, []⟩ es) (hrun' : run script s fs = some s') :
    Closed s.db ∧ Guarded Allowed script ⟨submitted email createdAt confirmedAt, []⟩ es ∧
      s'.db.starts ≤ 1 ∧ Stays s.db s'.db ∧ Fades s.db s'.db := by
  have hstart : Sound contract (⟨submitted email createdAt confirmedAt, []⟩ : Sys Request Db Key Problem) :=
    sound_start (submitted_inv email createdAt confirmedAt)
  have hsound : Sound contract s := run_sound script_keeps (submitted_inv email createdAt confirmedAt) ⟨es, hrun⟩
  obtain ⟨hsound', hstays, hfades⟩ := sound_run_keeps (R := fun d e => Stays d e ∧ Fades d e) script_keeps
    (fun d => ⟨Stays.refl d, Fades.refl d⟩) (fun h h' => ⟨h.1.trans h'.1, h.2.trans h'.2⟩)
    (fun _ hguar => ⟨hguar.2.2.1, hguar.2.2.2.1⟩) hsound hrun'
  refine ⟨?_, ?_, hsound'.inv.starts, hstays, hfades⟩
  · exact guarded_run (J := Closed) script_keeps (fun _ _ h hguar htime => commit_closed h hguar.2.2.2.2 htime) hstart
      (submitted_closed email createdAt confirmedAt) htime hrun
  · exact Guarded.imp script_keeps (fun hinv hguar htime => commit_allowed hinv hguar.2.2.2.2 htime) hstart htime

def steps (i n : ℕ) : List (Event Request) := List.replicate n (.step i)

def guest : Db := submitted (text "a@b") 0 none

/-- Two links, the redeem of the newer one and the anonymization, one after the other. -/
def calmGuest : List (Event Request) :=
  .start (.request (text "a@b") 1 none) :: steps 0 4 ++ .start (.request (text "a@b") 2 none) :: steps 1 4 ++
    .start (.verify 1 5 90) :: steps 2 11 ++ .start (.anonymize 7) :: steps 3 10

theorem calmGuest_lifecycle :
    ∃ s, run script ⟨guest, []⟩ calmGuest = some s ∧ s.db.starts = 1 ∧ s.db.anonymizedAt = some 7 ∧ Closed s.db := by
  have htime : Guarded InTime script ⟨guest, []⟩ calmGuest := by decide +kernel
  have hrun : (run script ⟨guest, []⟩ calmGuest).map (fun s => (s.db.starts, s.db.anonymizedAt)) = some (1, some 7) := by
    decide +kernel
  obtain ⟨s, hs, heq⟩ := Option.map_eq_some_iff.mp hrun
  obtain ⟨hstarts, hanon⟩ := Prod.mk.inj heq
  exact ⟨s, hs, hstarts, hanon, (run_lifecycle (text "a@b") 0 none hs htime (show run script s [] = some s from rfl)).1⟩

/-- The transaction of an older link commits between the UPDATE and the commit of a redeem. -/
def slowRequest : List (Event Request) :=
  .start (.request (text "a@b") 1 none) :: steps 0 3 ++ .start (.request (text "a@b") 2 none) :: steps 1 4 ++
    .start (.verify 0 5 90) :: steps 2 9 ++ .step 0 :: steps 2 1

def lateAccess : List (Event Request) :=
  .start (.request (text "a@b") 1 none) :: steps 0 4 ++ .start (.request (text "a@b") 2 none) :: .step 1 ::
    .start (.verify 0 3 90) :: .step 2 :: .start (.anonymize 4) :: steps 3 9 ++ steps 1 3 ++ steps 2 9

theorem openPaths_not_closed :
    (∃ s, run script ⟨guest, []⟩ slowRequest = some s ∧ ¬ Guarded Allowed script ⟨guest, []⟩ slowRequest) ∧
    (∃ s, run script ⟨guest, []⟩ lateAccess = some s ∧ s.db.anonymizedAt = some 4 ∧ s.db.links.length = 1 ∧
      s.db.sessions.map ApplicantSession.revokedAt = [none] ∧ ¬ Closed s.db) := by
  refine ⟨?_, ?_⟩
  · have hrun : (run script ⟨guest, []⟩ slowRequest).isSome := by decide +kernel
    obtain ⟨s, hs⟩ := Option.isSome_iff_exists.mp hrun
    exact ⟨s, hs, by decide +kernel⟩
  · have hrun : (run script ⟨guest, []⟩ lateAccess).map
        (fun s => (s.db.anonymizedAt, s.db.links.length, s.db.sessions.map ApplicantSession.revokedAt)) =
          some (some 4, 1, [none]) := by decide +kernel
    obtain ⟨s, hs, heq⟩ := Option.map_eq_some_iff.mp hrun
    simp only [Prod.mk.injEq] at heq
    obtain ⟨hanon, hlen, hsessions⟩ := heq
    refine ⟨s, hs, hanon, hlen, hsessions, fun hclosed => ?_⟩
    have hnone := (hclosed (by rw [hanon]; rfl)).2.1
    rw [hnone] at hlen
    cases hlen

end Runs

end MagicLinks
