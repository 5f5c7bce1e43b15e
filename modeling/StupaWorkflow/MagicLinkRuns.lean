import StupaWorkflow.MagicLinkModel
import StupaWorkflow.Tables

/-!
What the interleavings of the access paths keep. The conditional update and the locks of the
application row make the confirmation final.
-/
namespace MagicLinks
open Py ReadCommitted List

section Relations

def Stays (d e : Db) : Prop :=
  ∀ a, d.application = some a → a.emailConfirmedAt.isSome = true →
    ∃ b, e.application = some b ∧ b.emailConfirmedAt.isSome = true

/-- A link is new, or it is an old one that is valid at no later time than before; a
session is new, or an old one that stays revoked. -/
structure Fades (d e : Db) : Prop where
  next : d.next ≤ e.next
  links : ∀ l' ∈ e.links, d.next ≤ l'.token ∨ ∃ l ∈ d.links, l.token = l'.token ∧ l.createdAt = l'.createdAt ∧
    ∀ t, l.validAt t = false → l'.validAt t = false
  sessions : ∀ s' ∈ e.sessions, d.next ≤ s'.sid ∨ ∃ s ∈ d.sessions, s.sid = s'.sid ∧
    (s.revokedAt.isSome = true → s'.revokedAt.isSome = true)

variable {d e f : Db}

theorem Stays.refl (d : Db) : Stays d d := fun a ha hc => ⟨a, ha, hc⟩

theorem Stays.trans (h : Stays d e) (h' : Stays e f) : Stays d f := by
  intro a ha hc
  obtain ⟨b, hb, hcb⟩ := h a ha hc
  exact h' b hb hcb

theorem Fades.refl (d : Db) : Fades d d where
  next := le_rfl
  links l hl := .inr ⟨l, hl, rfl, rfl, fun _ h => h⟩
  sessions s hs := .inr ⟨s, hs, rfl, fun h => h⟩

theorem Fades.trans (h : Fades d e) (h' : Fades e f) : Fades d f where
  next := h.next.trans h'.next
  links l'' hl'' := by
    rcases h'.links l'' hl'' with hnew | ⟨l', hl', htoken', hcreated', hvalid'⟩
    · exact .inl (h.next.trans hnew)
    · rcases h.links l' hl' with hnew | ⟨l, hl, htoken, hcreated, hvalid⟩
      · exact .inl (htoken' ▸ hnew)
      · exact .inr ⟨l, hl, htoken.trans htoken', hcreated.trans hcreated', fun t ht => hvalid' t (hvalid t ht)⟩
  sessions s'' hs'' := by
    rcases h'.sessions s'' hs'' with hnew | ⟨s', hs', hsid', hrevoked'⟩
    · exact .inl (h.next.trans hnew)
    · rcases h.sessions s' hs' with hnew | ⟨s, hs, hsid, hrevoked⟩
      · exact .inl (hsid' ▸ hnew)
      · exact .inr ⟨s, hs, hsid.trans hsid', fun ht => hrevoked' (hrevoked ht)⟩

/-- The tokens are distinct and below the next one, and the flow was started at most
once, by the confirmation. -/
structure Inv (d : Db) : Prop where
  tokens : ∀ l ∈ d.links, l.token < d.next
  distinct : (d.links.map MagicLink.token).Nodup
  sids : ∀ s ∈ d.sessions, s.sid < d.next
  starts : d.starts ≤ 1
  started : d.starts = 1 → ∃ a, d.application = some a ∧ a.emailConfirmedAt.isSome = true

end Relations

section Writes

variable {d : Db}

theorem validAt_some {t now : Time} {l : MagicLink} : ({ l with expiresAt := some t } : MagicLink).validAt now = decide (now < t) := rfl

theorem over_of_not_valid {l : MagicLink} {t : Time} (h : l.validAt t = false) : ∃ x, l.expiresAt = some x ∧ x ≤ t := by
  unfold MagicLink.validAt at h
  cases hx : l.expiresAt with
  | none => simp [hx] at h
  | some x =>
    refine ⟨x, rfl, ?_⟩
    simpa [hx] using h

theorem expire_fades (tokens : List ℕ) (now : Time) (d : Db) : Fades d (d.expire tokens now) where
  next := le_rfl
  links l' hl' := by
    obtain ⟨l, hl, rfl⟩ := mem_map.mp hl'
    refine .inr ⟨l, hl, ?_⟩
    split
    next hcond =>
      refine ⟨rfl, rfl, fun t ht => ?_⟩
      obtain ⟨x, hx, hle⟩ := over_of_not_valid ht
      have hvalid : l.validAt now = true := (Bool.and_eq_true _ _ ▸ hcond).2
      simp only [MagicLink.validAt, hx, Option.all_some, decide_eq_true_eq] at hvalid
      rw [validAt_some, decide_eq_false_iff_not]
      exact not_lt.mpr (hvalid.le.trans hle)
    next => exact ⟨rfl, rfl, fun _ ht => ht⟩
  sessions s hs := .inr ⟨s, hs, rfl, fun h => h⟩

theorem expire_tokens (tokens : List ℕ) (now : Time) (d : Db) :
    (d.expire tokens now).links.map MagicLink.token = d.links.map MagicLink.token := by
  rw [Db.expire, map_map]
  refine map_congr_left fun l _ => ?_
  simp only [Function.comp]
  split <;> rfl

theorem issue_fades (start : Time) (expiresAt : Option Time) (d : Db) : Fades d (d.issue start expiresAt) where
  next := Nat.le_succ _
  links l' hl' := by
    rcases mem_append.mp hl' with hold | hnew
    · exact .inr ⟨l', hold, rfl, rfl, fun _ h => h⟩
    · rw [mem_singleton.mp hnew]
      exact .inl le_rfl
  sessions s hs := .inr ⟨s, hs, rfl, fun h => h⟩

theorem openSession_fades (sessionEnd : Time) (d : Db) : Fades d (d.openSession sessionEnd) where
  next := Nat.le_succ _
  links l hl := .inr ⟨l, hl, rfl, rfl, fun _ h => h⟩
  sessions s' hs' := by
    rcases mem_append.mp hs' with hold | hnew
    · exact .inr ⟨s', hold, rfl, fun h => h⟩
    · rw [mem_singleton.mp hnew]
      exact .inl le_rfl

theorem deleteLinks_fades (tokens : List ℕ) (d : Db) : Fades d (d.deleteLinks tokens) where
  next := le_rfl
  links l hl := .inr ⟨l, (mem_filter.mp hl).1, rfl, rfl, fun _ h => h⟩
  sessions s hs := .inr ⟨s, hs, rfl, fun h => h⟩

theorem revoke_fades (sids : List ℕ) (now : Time) (d : Db) : Fades d (d.revoke sids now) where
  next := le_rfl
  links l hl := .inr ⟨l, hl, rfl, rfl, fun _ h => h⟩
  sessions s' hs' := by
    obtain ⟨s, hs, rfl⟩ := mem_map.mp hs'
    refine .inr ⟨s, hs, ?_⟩
    split
    · exact ⟨rfl, fun _ => rfl⟩
    · exact ⟨rfl, fun h => h⟩

theorem remove_fades (d : Db) : Fades d d.remove where
  next := le_rfl
  links l hl := by cases hl
  sessions s hs := by cases hs

theorem Fades.of_eq {e : Db} (hnext : e.next = d.next) (hlinks : e.links = d.links) (hsessions : e.sessions = d.sessions) :
    Fades d e where
  next := hnext.ge
  links l hl := .inr ⟨l, hlinks ▸ hl, rfl, rfl, fun _ h => h⟩
  sessions s hs := .inr ⟨s, hsessions ▸ hs, rfl, fun h => h⟩

theorem Inv.expire (h : Inv d) (tokens : List ℕ) (now : Time) : Inv (d.expire tokens now) where
  tokens l' hl' := by
    have htoken : l'.token ∈ (d.expire tokens now).links.map MagicLink.token := mem_map_of_mem hl'
    rw [expire_tokens] at htoken
    obtain ⟨l, hl, heq⟩ := mem_map.mp htoken
    exact heq ▸ h.tokens l hl
  distinct := (expire_tokens tokens now d).symm ▸ h.distinct
  sids := h.sids
  starts := h.starts
  started := h.started

theorem Inv.issue (h : Inv d) (start : Time) (expiresAt : Option Time) : Inv (d.issue start expiresAt) where
  tokens l hl := by
    rcases mem_append.mp hl with hold | hnew
    · exact Nat.lt_succ_of_lt (h.tokens l hold)
    · rw [mem_singleton.mp hnew]
      exact Nat.lt_succ_self _
  distinct := Table.nodup_insert h.distinct fun l hl => (h.tokens l hl).ne
  sids s hs := Nat.lt_succ_of_lt (h.sids s hs)
  starts := h.starts
  started := h.started

theorem Inv.openSession (h : Inv d) (sessionEnd : Time) : Inv (d.openSession sessionEnd) where
  tokens l hl := Nat.lt_succ_of_lt (h.tokens l hl)
  distinct := h.distinct
  sids s hs := by
    rcases mem_append.mp hs with hold | hnew
    · exact Nat.lt_succ_of_lt (h.sids s hold)
    · rw [mem_singleton.mp hnew]
      exact Nat.lt_succ_self _
  starts := h.starts
  started := h.started

theorem Inv.deleteLinks (h : Inv d) (tokens : List ℕ) : Inv (d.deleteLinks tokens) where
  tokens l hl := h.tokens l (mem_filter.mp hl).1
  distinct := h.distinct.sublist (filter_sublist.map _)
  sids := h.sids
  starts := h.starts
  started := h.started

theorem Inv.revoke (h : Inv d) (sids : List ℕ) (now : Time) : Inv (d.revoke sids now) where
  tokens := h.tokens
  distinct := h.distinct
  sids s' hs' := by
    obtain ⟨s, hs, rfl⟩ := mem_map.mp hs'
    have hlt : s.sid < d.next := h.sids s hs
    split <;> exact hlt
  starts := h.starts
  started := h.started

theorem Inv.archive (h : Inv d) (archivedAt : Option Time) : Inv (d.archive archivedAt) where
  tokens := h.tokens
  distinct := h.distinct
  sids := h.sids
  starts := h.starts
  started hs := by
    obtain ⟨a, ha, hc⟩ := h.started hs
    exact ⟨{ a with archivedAt := archivedAt }, by rw [Db.archive, ha]; rfl, hc⟩

theorem Inv.forget (h : Inv d) (now : Time) : Inv (d.forget now) := ⟨h.tokens, h.distinct, h.sids, h.starts, h.started⟩

theorem Inv.note (h : Inv d) (links sessions : List ℕ) : Inv (d.note links sessions) :=
  ⟨h.tokens, h.distinct, h.sids, h.starts, h.started⟩

theorem unconfirmed_iff : d.unconfirmed = true ↔ ∃ a, d.application = some a ∧ a.emailConfirmedAt = none := by
  simp [Db.unconfirmed, Option.any_eq_true]

theorem Inv.not_started (h : Inv d) (hun : d.unconfirmed = true) : d.starts = 0 := by
  obtain ⟨a, ha, hnone⟩ := unconfirmed_iff.mp hun
  have hle := h.starts
  by_contra hne
  obtain ⟨b, hb, hc⟩ := h.started (by omega)
  obtain rfl := Option.some.inj (ha.symm.trans hb)
  rw [hnone] at hc
  cases hc

theorem Inv.confirm (h : Inv d) (hun : d.unconfirmed = true) (now : Time) : Inv (d.confirm now) where
  tokens := h.tokens
  distinct := h.distinct
  sids := h.sids
  starts := by
    have hzero := h.not_started hun
    show d.starts + 1 ≤ 1
    omega
  started _ := by
    obtain ⟨a, ha, _⟩ := unconfirmed_iff.mp hun
    exact ⟨{ a with emailConfirmedAt := some now }, by rw [Db.confirm, ha]; rfl, rfl⟩

theorem Inv.remove (h : Inv d) (hun : d.unconfirmed = true) : Inv d.remove where
  tokens l hl := by cases hl
  distinct := nodup_nil
  sids s hs := by cases hs
  starts := h.starts
  started hs := by
    have hzero := h.not_started hun
    have hs : d.starts = 1 := hs
    omega

end Writes

section Contract

def Writes (held : List Key) : Prop := Key.application .noKeyUpdate ∈ held ∨ Key.application .update ∈ held

/-- Every link that the statement saw, is older and is still valid, is one of these. -/
def Covers (d : Db) (token : ℕ) (now : Time) (tokens seen : List ℕ) : Prop :=
  ∀ l ∈ d.links, l.token ∈ seen → l.token ≠ token → (∃ r ∈ d.links, r.token = token ∧ l.createdAt ≤ r.createdAt) →
    l.validAt now = true → l.token ∈ tokens

def confirmIf (b : Bool) (now : Time) (d : Db) : Db := if b then d.confirm now else d

def Effect : Request → Db → Db → Prop
  | .request _ start expiresAt, d, e => e = d.issue start expiresAt
  | .verify token now sessionEnd, d, e => ∃ b tokens seen, Covers d token now tokens seen ∧
      e = (((confirmIf b now d).expire tokens now).openSession sessionEnd).note seen []
  | .setArchived archived now, d, e => ∃ tokens archivedAt, (tokens = [] ∨ archived = true) ∧
      e = (d.expire tokens now).archive archivedAt
  | .anonymize now, d, e => ∃ tokens sids seen,
      (∀ s ∈ d.sessions, s.sid ∈ seen → s.revokedAt = none → s.sid ∈ sids) ∧
      e = (((d.deleteLinks tokens).revoke sids now).forget now).note tokens seen
  | .discard _, d, e => d.unconfirmed = true ∧ e = d.remove

/-- The application row changes under the lock of a writer and goes under the lock of the
discard; links and sessions only fade. -/
def contract : Contract Request Db Key where
  inv := Inv
  rely held d e :=
    (Writes held → e.application = d.application) ∧
    (Key.application .keyShare ∈ held → d.application.isSome = true → e.application.isSome = true) ∧
    Stays d e ∧ Fades d e
  guar r held d e :=
    (¬ Writes held → e.application = d.application) ∧
    (Key.application .update ∉ held → d.application.isSome = true → e.application.isSome = true) ∧
    Stays d e ∧ Fades d e ∧ Effect r d e
  refl _ d := ⟨fun _ => rfl, fun _ h => h, Stays.refl d, Fades.refl d⟩
  trans h h' := ⟨fun hk => (h'.1 hk).trans (h.1 hk), fun hk hsome => h'.2.1 hk (h.2.1 hk hsome),
    h.2.2.1.trans h'.2.2.1, h.2.2.2.trans h'.2.2.2⟩
  compat := by
    rintro r held other d e _ ⟨hrow, hthere, hstays, hfades, _⟩ hfree
    have happart : ∀ m m', Key.application m ∈ other → Key.application m' ∈ held → m.conflict m' = false :=
      fun m m' hm hm' => hfree _ hm _ hm'
    refine ⟨fun hother => hrow ?_, fun hshare => hthere fun hupdate => ?_, hstays, hfades⟩
    · rintro (hheld | hheld)
      · rcases hother with hk | hk
        · exact absurd (happart _ _ hk hheld) (by decide)
        · exact absurd (happart _ _ hk hheld) (by decide)
      · rcases hother with hk | hk
        · exact absurd (happart _ _ hk hheld) (by decide)
        · exact absurd (happart _ _ hk hheld) (by decide)
    · exact absurd (happart _ _ hshare hupdate) (by decide)

theorem rely_mono {held held' : List Key} {d e : Db} (hsub : held ⊆ held') (h : contract.rely held' d e) :
    contract.rely held d e :=
  ⟨fun hw => h.1 (hw.imp (fun hk => hsub hk) fun hk => hsub hk), fun hk => h.2.1 (hsub hk), h.2.2⟩

variable {r : Request} {l : Loc Db Key} {d : Db}

theorem wp_checkForeignKey {Q : Unit → Loc Db Key → Db → Prop}
    (h : ∀ e, contract.rely l.held d e → contract.inv e →
      Q () ⟨l.pend, .application .keyShare :: l.held⟩ e) :
    wp contract r checkForeignKey Q l d := by
  rw [checkForeignKey, wp_do, lockApplication, wp_lockRow]
  intro e hrely hinv
  cases happ : (l.pend e).application with
  | none => simp [wp_require]
  | some a =>
    simp only [Option.map_some, wp_require]
    exact fun _ => h e hrely hinv

theorem publish_wp {held : List Key} {w : Db → Db}
    (hinv : ∀ e, contract.rely held d e → Inv e → Inv (w e))
    (hguar : ∀ e, contract.rely held d e → Inv e → contract.guar r held e (w e)) :
    wp contract r (Prog.publish : P Unit) (fun _ _ _ => True) ⟨w, held⟩ d := by
  rw [wp_publish]
  exact fun e hrely he => ⟨hinv e hrely he, hguar e hrely he, trivial⟩

theorem guar_of_same {held : List Key} {e : Db} (happ : e.application = d.application) (hfades : Fades d e)
    (heffect : Effect r d e) : contract.guar r held d e :=
  ⟨fun _ => happ, fun _ hsome => happ ▸ hsome, fun a ha hc => ⟨a, happ ▸ ha, hc⟩, hfades, heffect⟩

theorem requestMagicLink_keeps (email : Text) (start : Time) (expiresAt : Option Time) :
    Keeps contract (.request email start expiresAt) (requestMagicLink email start expiresAt) := by
  intro d _
  rw [requestMagicLink, wp_do, wp_query]
  intro e _ _
  split
  · rw [wp_do]
    apply wp_checkForeignKey
    intro f _ _
    simp only [wp_do, wp_update]
    exact publish_wp (fun g _ hg => hg.issue start expiresAt) fun g _ _ => guar_of_same rfl (issue_fades start expiresAt g) rfl
  · trivial

end Contract

section Verify

variable {r : Request} {d : Db}
variable {now : Time} {b : Bool}

/-- The row is confirmed only while this transaction holds its lock. -/
theorem wp_confirmEmail {Q : Unit → Loc Db Key → Db → Prop}
    (h : ∀ e held b, contract.rely [] d e → (b = true → Writes held ∧ e.unconfirmed = true) → contract.inv e →
      Q () ⟨confirmIf b now, held⟩ e) :
    wp contract r (confirmEmail now) Q .fresh d := by
  have hskip : confirmIf false now = id := rfl
  rw [confirmEmail, wp_do, wp_query]
  intro e he hinv
  split
  · rw [wp_do, lockApplication, wp_lockRow]
    intro f hf hinvf
    have hrely : contract.rely [] d f := contract.trans he hf
    cases happ : (Loc.fresh.pend f).application with
    | none =>
      simp only [Option.map_none, Db.unconfirmed, happ, Option.any_none, Bool.false_eq_true, if_false]
      exact h f [] false hrely (by simp) hinvf
    | some a =>
      simp only [Option.map_some]
      split
      next hun => exact h f _ true hrely (fun _ => ⟨.inl mem_cons_self, hun⟩) hinvf
      next => exact h f _ false hrely (by simp) hinvf
  · exact h e [] false he (by simp) hinv

theorem covers_fades {e f : Db} {token : ℕ} (hinv : Inv e) (htoken : token < e.next) (hfades : Fades e f) :
    Covers f token now (e.olderThan token now) (e.links.map MagicLink.token) := by
  intro l' hl' hseen hne ⟨r', hr', hredeemed, hle⟩ hvalid'
  obtain ⟨l₀, hl₀, heq⟩ := mem_map.mp hseen
  have hold : l'.token < e.next := heq ▸ hinv.tokens l₀ hl₀
  rcases hfades.links l' hl' with hnew | ⟨l, hl, htl, hcl, hvl⟩
  · omega
  rcases hfades.links r' hr' with hnew | ⟨r, hr, htr, hcr, _⟩
  · omega
  have hfound : e.link token = some r := Table.find_of_mem hinv.distinct hr (htr.trans hredeemed)
  have hvalid : l.validAt now = true := by
    by_contra hnot
    rw [hvl now (by simpa using hnot)] at hvalid'
    cases hvalid'
  rw [Db.olderThan, hfound, ← htl]
  refine mem_map_of_mem (mem_filter.mpr ⟨hl, ?_⟩)
  simp only [Bool.and_eq_true, decide_eq_true_eq, hvalid, and_true, htl]
  exact ⟨hne, by rw [hcl, hcr]; exact hle⟩

theorem wp_expireOlder {token : ℕ} {w : Db → Db} {held : List Key} {Q : List ℕ → Loc Db Key → Db → Prop}
    (hw : ∀ x, (w x).links = x.links) (htoken : token < d.next)
    (h : ∀ e held' tokens seen, held ⊆ held' → contract.rely held d e →
      (∀ f, Fades e f → Covers f token now tokens seen) → Q seen ⟨(·.expire tokens now) ∘ w, held'⟩ e) :
    wp contract r (expireOlder token now) Q ⟨w, held⟩ d := by
  rw [expireOlder, wp_do, wp_query]
  intro e he hinv
  have hsame : (w e).olderThan token now = e.olderThan token now := by simp [Db.olderThan, Db.link, hw]
  have hlt : token < e.next := lt_of_lt_of_le htoken he.2.2.2.next
  rw [wp_do]
  apply wp_lockAll _ rely_mono hinv
  intro f held' hsub _ hf _
  simp only [wp_do, wp_update, wp_return, hw, hsame]
  exact h f held' _ _ hsub (contract.trans he hf) fun g hg => covers_fades hinv hlt (hf.2.2.2.trans hg)

theorem confirmIf_stays (d : Db) : Stays d (confirmIf b now d) := by
  intro a ha hc
  cases b with
  | false => exact ⟨a, ha, hc⟩
  | true => exact ⟨{ a with emailConfirmedAt := some now }, by simp [confirmIf, Db.confirm, ha], rfl⟩

theorem confirmIf_isSome (d : Db) : (confirmIf b now d).application.isSome = d.application.isSome := by
  cases b with
  | false => rfl
  | true => simp [confirmIf, Db.confirm]

theorem confirmIf_fades (d : Db) : Fades d (confirmIf b now d) := by
  cases b with
  | false => exact Fades.refl d
  | true => exact Fades.of_eq rfl rfl rfl

theorem Inv.confirmIf (h : Inv d) (hun : b = true → d.unconfirmed = true) : Inv (confirmIf b now d) := by
  cases b with
  | false => exact h
  | true => exact h.confirm (hun rfl) now

theorem verifyMagicLink_keeps (token : ℕ) (now sessionEnd : Time) :
    Keeps contract (.verify token now sessionEnd) (verifyMagicLink token now sessionEnd) := by
  intro d _
  rw [verifyMagicLink, wp_do, wp_query]
  intro e _ hinv
  simp only [wp_do, wp_ofOption, wp_require]
  intro link hlink _
  have htoken : token < e.next := by
    obtain ⟨hmem, hkey⟩ := Table.of_find hlink
    exact hkey ▸ Inv.tokens hinv link hmem
  apply wp_confirmEmail
  intro f held b hf hb _
  have hlinks : ∀ x, (confirmIf b now x).links = x.links := fun x => by cases b <;> rfl
  apply wp_expireOlder hlinks (lt_of_lt_of_le htoken hf.2.2.2.next)
  intro g held' tokens seen hsub hg hcovers
  apply wp_checkForeignKey
  intro x hx _
  simp only [wp_update]
  -- the row that the UPDATE confirmed is locked until the commit
  have hrow : ∀ y, contract.rely (Key.application .keyShare :: held') x y → b = true → y.unconfirmed = true := by
    intro y hy hbt
    obtain ⟨hwrites, hun⟩ := hb hbt
    have hwrites' : Writes held' := hwrites.imp (fun hk => hsub hk) fun hk => hsub hk
    have hfy : y.application = f.application :=
      ((rely_mono (subset_cons_self _ _) hy).1 hwrites').trans ((hx.1 hwrites').trans (hg.1 hwrites))
    rwa [Db.unconfirmed, hfy]
  refine publish_wp (fun y hy hinvy => ?_) fun y hy hinvy => ⟨fun hnot => ?_, fun _ hsome => ?_, ?_, ?_, ?_⟩
  · exact (((hinvy.confirmIf (hrow y hy)).expire tokens now).openSession sessionEnd).note _ _
  · have hfalse : b = false := by
      by_contra hbt
      refine hnot ((hb (by simpa using hbt)).1.imp (fun hk => ?_) fun hk => ?_)
      · exact mem_cons_of_mem _ (hsub hk)
      · exact mem_cons_of_mem _ (hsub hk)
    rw [hfalse]
    rfl
  · exact (confirmIf_isSome y).trans hsome
  · exact confirmIf_stays y
  · exact ((confirmIf_fades y).trans (expire_fades tokens now _)).trans
      ((openSession_fades sessionEnd _).trans (Fades.of_eq rfl rfl rfl))
  · exact ⟨b, tokens, seen, hcovers y (hx.2.2.2.trans hy.2.2.2), rfl⟩

end Verify

section Closing

variable {r : Request} {d : Db}

theorem wp_lockRow_noKeyUpdate {l : Loc Db Key} {problem : Problem} {rest : P Unit}
    {Q : Unit → Loc Db Key → Db → Prop}
    (h : ∀ e, contract.rely l.held d e → contract.inv e →
      wp contract r rest Q ⟨l.pend, .application .noKeyUpdate :: l.held⟩ e) :
    wp contract r (do let db ← lockApplication .noKeyUpdate; Prog.require db.application.isSome problem; rest) Q l d := by
  rw [wp_do, lockApplication, wp_lockRow]
  intro e hrely hinv
  cases happ : (l.pend e).application with
  | none => simp [wp_do, wp_require]
  | some a =>
    simp only [Option.map_some, wp_do, wp_require]
    exact fun _ => h e hrely hinv

theorem archive_stays (archivedAt : Option Time) (d : Db) : Stays d (d.archive archivedAt) :=
  fun a ha hc => ⟨{ a with archivedAt := archivedAt }, by rw [Db.archive, ha]; rfl, hc⟩

theorem setArchived_keeps (archived : Bool) (now : Time) :
    Keeps contract (.setArchived archived now) (setArchived archived now) := by
  intro d _
  rw [setArchived, wp_do, wp_query]
  intro e _ hinv
  simp only [wp_do, wp_ofOption]
  intro app _
  split
  · have hclose : ∀ (tokens : List ℕ) (held : List Key) (f : Db), (tokens = [] ∨ archived = true) →
        wp contract (.setArchived archived now) (do
          let db ← lockApplication .noKeyUpdate
          Prog.require db.application.isSome .notFound
          (do Prog.update (·.archive (if archived then some now else none)); Prog.publish))
          (fun _ _ _ => True) ⟨(·.expire tokens now), held⟩ f := by
      intro tokens held f htokens
      apply wp_lockRow_noKeyUpdate
      intro g _ _
      simp only [wp_do, wp_update]
      refine publish_wp (fun x _ hx => (hx.expire tokens now).archive _) fun x _ _ =>
        ⟨fun hnot => absurd (.inl mem_cons_self) hnot, fun _ hsome => ?_, archive_stays _ _, ?_, tokens, _, htokens, rfl⟩
      · exact (Option.isSome_map ..).trans hsome
      · exact (expire_fades tokens now x).trans (Fades.of_eq rfl rfl rfl)
    rw [wp_do]
    cases archived with
    | false =>
      have hid : (·.expire [] now) = (id : Db → Db) := by
        funext x
        simp [Db.expire]
      have hgo := hclose [] [] e (.inl rfl)
      rw [hid] at hgo
      exact hgo
    | true =>
      rw [expireLinks, if_pos rfl, wp_do, wp_query]
      intro f _ hinvf
      rw [wp_do]
      apply wp_lockAll _ rely_mono hinvf
      intro g held _ _ _ _
      rw [wp_update]
      exact hclose _ held g (.inr rfl)
  · trivial

theorem anonymize_keeps (now : Time) : Keeps contract (.anonymize now) (anonymize now) := by
  intro d _
  rw [anonymize]
  apply wp_lockRow_noKeyUpdate
  intro e _ _
  rw [wp_do, wp_query]
  intro f _ hinvf
  rw [wp_do]
  apply wp_lockAll _ rely_mono hinvf
  intro g held hsub _ _ _
  simp only [wp_do, wp_update, wp_query]
  intro x _ hinvx
  refine publish_wp (fun y _ hy => (((hy.deleteLinks _).revoke _ now).forget now).note _ _) fun y hy _ =>
    ⟨fun hnot => absurd (.inl (hsub mem_cons_self)) hnot, fun _ hsome => hsome, Stays.refl y, ?_, _, _, _, ?_, rfl⟩
  · exact ((deleteLinks_fades _ y).trans (revoke_fades _ now _)).trans (Fades.of_eq rfl rfl rfl)
  · -- a session that the UPDATE saw open is one that it revokes
    intro s' hs' hseen hopen
    obtain ⟨s₀, hs₀, heq⟩ := mem_map.mp hseen
    have hs₀ : s₀ ∈ x.sessions := hs₀
    have hlt := Inv.sids hinvx s₀ hs₀
    rcases hy.2.2.2.sessions s' hs' with hnew | ⟨s, hs, hsid, hrevoked⟩
    · omega
    · rw [← hsid]
      refine mem_map_of_mem (mem_filter.mpr ⟨hs, ?_⟩)
      rw [Option.isNone_iff_eq_none]
      by_contra hne
      have hstill := hrevoked (Option.isSome_iff_ne_none.mpr hne)
      rw [hopen] at hstill
      cases hstill

theorem discardUnconfirmed_keeps (cutoff : Time) : Keeps contract (.discard cutoff) (discardUnconfirmed cutoff) := by
  intro d _
  rw [discardUnconfirmed, wp_do, wp_tryLock]
  intro e _ _
  refine ⟨?_, ?_⟩
  · rw [wp_do, wp_query]
    intro f _ _
    simp only [Bool.true_and]
    split
    next hdue =>
      simp only [wp_do, wp_update]
      obtain ⟨a, ha, hcond⟩ := (Option.any_eq_true _ _).mp hdue
      have ha : f.application = some a := ha
      have hnone : a.emailConfirmedAt = none := by
        simp only [Bool.and_eq_true, Option.isNone_iff_eq_none] at hcond
        exact hcond.1
      -- the lock keeps the unconfirmed row until the commit
      have hun : ∀ g, contract.rely [.application .update] f g → g.unconfirmed = true := fun g hg =>
        unconfirmed_iff.mpr ⟨a, (hg.1 (.inr mem_cons_self)).trans ha, hnone⟩
      refine publish_wp (fun g hg hinv => hinv.remove (hun g hg)) fun g hg _ =>
        ⟨fun hnot => absurd (.inr mem_cons_self) hnot, fun hnot => absurd mem_cons_self hnot, ?_, ?_, hun g hg, rfl⟩
      · intro b hb hc
        obtain ⟨c, hc', hcnone⟩ := unconfirmed_iff.mp (hun g hg)
        obtain rfl := Option.some.inj (hb.symm.trans hc')
        rw [hcnone] at hc
        cases hc
      · exact remove_fades g
    next => trivial
  · rw [wp_do, wp_query]
    intro f _ _
    simp [wp_return]

theorem script_keeps (r : Request) : Keeps contract r (script r) := by
  cases r with
  | request email start expiresAt => exact requestMagicLink_keeps email start expiresAt
  | verify token now sessionEnd => exact verifyMagicLink_keeps token now sessionEnd
  | setArchived archived now => exact setArchived_keeps archived now
  | anonymize now => exact anonymize_keeps now
  | discard cutoff => exact discardUnconfirmed_keeps cutoff

end Closing

end MagicLinks
