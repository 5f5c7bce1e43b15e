import StupaWorkflow.OAuthChains

/-!
The operations of the OAuth server keep the contract of the chains, and what
follows for every interleaving of them.
-/
namespace OAuth
open Py ReadCommitted List

section Calculus

variable {r : Request} {l : Loc Db Key} {d e : Db}
variable {Q : Unit → Loc Db Key → Db → Prop}

theorem rely_mono {held held' : List Key} (hsub : held ⊆ held') (h : contract.rely held' d e) :
    contract.rely held d e := by
  refine Relation.ReflTransGen.mono ?_ _ _ h
  rintro d e ⟨locks, ch, hinv, ha, he, free⟩
  exact ⟨locks, ch, hinv, ha, he, fun k hk => free k (hsub hk)⟩

def Ready (l : Loc Db Key) (d : Db) : Prop :=
  ∀ e, contract.rely l.held d e → Inv e → ∃ ch, Allowed l.held e ch ∧ l.pend e = ch.apply e

theorem wp_publish_ready (h : Ready l d) :
    wp contract r (Prog.publish : P Unit) (fun _ _ _ => True) l d := by
  rw [wp_publish]
  intro e hr hinv
  obtain ⟨ch, ha, he⟩ := h e hr hinv
  exact ⟨he ▸ ha.inv hinv, ⟨ch, ha, he⟩, trivial⟩

theorem wp_refuse {α : Type} {Q : α → Loc Db Key → Db → Prop} (h : Ready l d) (description : String) :
    wp contract r (refuse description) Q l d := by
  rw [refuse, wp_do]
  exact wp_mono (fun _ _ _ _ => trivial) (wp_publish_ready h)

/-- A commit without pending writes changes nothing. -/
def Change.idle : Change := ⟨0, [], none, none, none, none⟩

theorem ready_idle (held : List Key) (d : Db) : Ready ⟨id, held⟩ d := by
  intro e _ _
  refine ⟨.idle, ⟨?_, ?_, ?_, ?_, ?_⟩, ?_⟩
  all_goals simp [Change.idle, Change.apply]

theorem wp_check {ok : Bool} {description : String} {held : List Key} (h : ok = true → Q () ⟨id, held⟩ d) :
    wp contract r (check ok description) Q ⟨id, held⟩ d := by
  unfold check
  split
  · exact h ‹_›
  · exact wp_refuse (ready_idle held d) description

theorem wp_found {α : Type} {Q : α → Loc Db Key → Db → Prop} {row : Option α} {description : String}
    {held : List Key} (h : ∀ a, row = some a → Q a ⟨id, held⟩ d) :
    wp contract r (found row description) Q ⟨id, held⟩ d := by
  unfold found
  split
  · exact h _ rfl
  · exact wp_refuse (ready_idle held d) description

theorem wp_insertToken {t : Token} (h : ∀ e, contract.rely l.held d e → Inv e →
      (∀ u ∈ (l.pend e).tokens, u.id ≠ t.id ∧ u.refreshHash ≠ t.refreshHash) →
      Q () ⟨Db.addToken t ∘ l.pend, .refreshHash t.refreshHash :: .accessHash t.accessHash :: .token t.id :: l.held⟩ e) :
    wp contract r (insertToken t) Q l d := by
  simp only [insertToken, wp_do, wp_lockRow, wp_require, wp_update]
  intro e₁ hr₁ _ e₂ hr₂ _ e₃ hr₃ hinv₃ hfresh
  have hr : contract.rely l.held d e₃ :=
    (hr₁.trans (rely_mono (by simp) hr₂)).trans (rely_mono (by simp) hr₃)
  refine h e₃ hr hinv₃ fun u hu => ?_
  have := all_eq_true.mp hfresh u hu
  simp only [ne_eq, Bool.and_eq_true, decide_eq_true_eq] at this
  exact ⟨by simpa using this.1.1, by simpa using this.2⟩

end Calculus

section Issue

variable {r : Request}
variable {d : Db}

theorem isUnused_iff {i : ℕ} : d.isUnused i = true ↔ ∃ c ∈ d.codes, c.id = i ∧ c.usedAt = none := by
  simp [Db.isUnused]

theorem isActive_iff {i : ℕ} : d.isActive i = true ↔ ∃ t ∈ d.tokens, t.id = i ∧ t.active = true := by
  simp [Db.isActive]

theorem redeem_ready {held : List Key} {t : Token} {now : Time} {c : Code} (hc : c ∈ d.codes) (hunused : c.usedAt = none)
    (hm : Matches t c) (hparent : t.parent = none) (hactive : t.active = true) (hcode : Key.code t.code ∈ held)
    (hid : Key.token t.id ∈ held) (hhash : Key.refreshHash t.refreshHash ∈ held)
    (hfresh : ∀ u ∈ d.tokens, u.id ≠ t.id ∧ u.refreshHash ≠ t.refreshHash) :
    Ready ⟨Db.addToken t ∘ Db.useCode now t.code, held⟩ d := by
  intro e hr hinv
  have hc' : c ∈ e.codes := rely_code hr (hm.code ▸ hcode) hc
  refine ⟨⟨now, [], some t.code, some t, none, none⟩, ⟨by simp, ?_, ?_, by simp, by simp⟩, ?_⟩
  · intro i hi
    rwa [← Option.mem_some_iff.mp hi]
  · intro u hu
    rw [← Option.mem_some_iff.mp hu]
    exact ⟨hid, hhash, rely_fresh hr hid hhash hfresh, hactive, .inl ⟨hparent, rfl, c, hc', hunused, hm⟩⟩
  · simp [Change.apply, Db.addToken, Db.useCode]

theorem rotate_ready {held : List Key} {t u : Token} {now : Time} (hu : u ∈ d.tokens) (hua : u.active = true)
    (hcont : Continues t u) (hparent : t.parent = some u.id) (hactive : t.active = true) (huheld : Key.token u.id ∈ held)
    (hid : Key.token t.id ∈ held) (hhash : Key.refreshHash t.refreshHash ∈ held)
    (hfresh : ∀ w ∈ d.tokens, w.id ≠ t.id ∧ w.refreshHash ≠ t.refreshHash) :
    Ready ⟨Db.addToken t ∘ Db.revoke now u.id, held⟩ d := by
  intro e hr hinv
  have hu' : u ∈ e.tokens := rely_token hr huheld hu
  refine ⟨⟨now, [u.id], none, some t, none, none⟩, ⟨?_, by simp, ?_, by simp, by simp⟩, ?_⟩
  · intro i hi
    rwa [mem_singleton.mp hi]
  · intro w hw
    rw [← Option.mem_some_iff.mp hw]
    exact ⟨hid, hhash, rely_fresh hr hid hhash hfresh, hactive, .inr ⟨u, hu', hparent, by simp, hua, hcont⟩⟩
  · simp [Change.apply, Db.addToken, Db.revoke]

theorem wp_hashToken {Q : Digest → Loc Db Key → Db → Prop} {l : Loc Db Key} {token : Text} (h : ∀ hash, Q hash l d) :
    wp contract r (hashToken token) Q l d := by
  simp only [hashToken, wp_ofOption]
  exact fun hash _ => h hash

theorem exchange_keeps (x : Exchange) : Keeps contract (.exchange x) (script (.exchange x)) := by
  intro d _
  simp only [script, exchangeCode, wp_do]
  refine wp_hashToken fun hash => ?_
  rw [wp_query]
  intro d₁ _ hinv₁
  refine wp_found fun row hrow => wp_check fun _ => wp_check fun _ => wp_check fun hbind => ?_
  have hmem : row ∈ d₁.codes := mem_of_find?_eq_some hrow
  have hclient : row.clientId = x.clientId := by
    simp only [Bool.and_eq_true, decide_eq_true_eq] at hbind
    exact hbind.1
  simp only [wp_ofExcept]
  refine fun verified _ => wp_check fun _ => ?_
  rw [wp_lockRow]
  intro d₂ hr₂ hinv₂
  split
  · next hkey =>
      refine wp_check fun hunused => ?_
      simp only [id] at hkey hunused
      simp [hunused] at hkey
  · next k hkey =>
      refine wp_check fun hunused => ?_
      simp only [id] at hkey hunused
      rw [if_pos hunused, Option.some.injEq] at hkey
      subst hkey
      obtain ⟨c, hc, hcid, hcnone⟩ := isUnused_iff.mp hunused
      simp only [wp_update, issueTokens, wp_do]
      refine wp_hashToken fun accessHash => wp_hashToken fun refreshHash => ?_
      refine wp_insertToken fun d₃ hr₃ hinv₃ hfresh => wp_publish_ready ?_
      have hc₃ : c ∈ d₃.codes := rely_code hr₃ (by simp [hcid]) hc
      obtain ⟨c', hc', hm⟩ := rely_codeRow (hr₂.trans (rely_mono (by simp) hr₃)) hmem
        (t := ⟨x.fresh.id, row.principalId, x.clientId, accessHash, refreshHash, row.scope, row.accessTtl,
          expiry x.now row.accessTtl, expiry x.now (row.accessTtl.map fun _ => x.refreshTtl), none, row.id, none⟩)
        ⟨rfl, rfl, hclient.symm, rfl, rfl⟩
      have hsame : c' = c := hinv₃.codes c' hc' c hc₃ (hm.code.symm.trans hcid.symm)
      exact redeem_ready hc₃ hcnone (hsame ▸ hm) rfl rfl (by simp) (by simp) (by simp) hfresh

theorem authorize_keeps (c : Code) : Keeps contract (.authorize c) (script (.authorize c)) := by
  intro d _
  simp only [script, createAuthorizationCode, wp_do, wp_lockRow, wp_require, wp_update]
  intro d₁ _ _ d₂ _ _ hfresh
  refine wp_publish_ready fun e hr hinv => ?_
  have hnew : ∀ u ∈ d₂.codes, u.id ≠ c.id := by
    intro u hu
    have := all_eq_true.mp hfresh u hu
    simp only [ne_eq, Bool.and_eq_true, decide_eq_true_eq] at this
    simpa using this.1
  refine ⟨⟨0, [], none, none, some { c with usedAt := none }, none⟩, ⟨by simp, by simp, by simp, ?_, by simp⟩, ?_⟩
  · intro k hk
    rw [← Option.mem_some_iff.mp hk]
    exact ⟨rfl, by simp, rely_freshCode hr (by simp) hnew⟩
  · simp [Change.apply, Db.addCode, Loc.fresh]

end Issue

section Revoke

variable {r : Request}
variable {held : List Key} {ids done : List ℕ} {now : Time} {d : Db} {i principalId : ℕ}
  {Q : Bool → Loc Db Key → Db → Prop} {onlyActive : Bool} {l : Loc Db Key} {clientId : Option Text}

def revoked (now : Time) (ids : List ℕ) (d : Db) : Db := { d with tokens := d.tokens.map (Token.mark now ids) }

theorem revoked_nil (now : Time) : revoked now [] = id := by
  funext d
  simp [revoked]

theorem revoke_comp_revoked (now : Time) (i : ℕ) (ids : List ℕ) :
    Db.revoke now i ∘ revoked now ids = revoked now (i :: ids) := by
  funext d
  simp [Db.revoke, revoked]

theorem hasSuccessor_revoked (now : Time) (ids : List ℕ) (d : Db) (i : ℕ) :
    (revoked now ids d).hasSuccessor i = d.hasSuccessor i := by
  simp [Db.hasSuccessor, revoked, Function.comp_def]

def revokeChange (now : Time) (ids : List ℕ) (entry : Option Revocation) : Change := ⟨now, ids, none, none, none, entry⟩

theorem allowed_revoke (now : Time) (hheld : ∀ i ∈ ids, Key.token i ∈ held) (d : Db) :
    Allowed held d (revokeChange now ids none) :=
  ⟨hheld, by simp [revokeChange], by simp [revokeChange], by simp [revokeChange], by simp [revokeChange]⟩

theorem dead_apply_entry {entry : Option Revocation} {chain : ℕ} (h : Dead ((revokeChange now ids none).apply d) chain) :
    Dead ((revokeChange now ids entry).apply d) chain := h

/-- The chain of the row cannot live on: it has no active row, or its last row is
locked and about to be revoked. -/
def Sealed (held : List Key) (done : List ℕ) (d : Db) (i : ℕ) : Prop :=
  ∃ t ∈ d.tokens, t.id = i ∧ (Dead d t.code ∨ (i ∈ done ∧ Key.token i ∈ held ∧ d.hasSuccessor i = false))

theorem Sealed.mono {held' : List Key} {done' : List ℕ} (h : Sealed held done d i) (hheld : held ⊆ held') (hdone : done ⊆ done') :
    Sealed held' done' d i := by
  obtain ⟨t, ht, hid, hdead | ⟨hi, hk, hlast⟩⟩ := h
  · exact ⟨t, ht, hid, .inl hdead⟩
  · exact ⟨t, ht, hid, .inr ⟨hdone hi, hheld hk, hlast⟩⟩

theorem Sealed.rely {e : Db} (h : Sealed held done d i) (hr : contract.rely held d e) : Sealed held done e i := by
  obtain ⟨t, ht, hid, hstate⟩ := h
  obtain ⟨u, hu, huid, hcont, hdead⟩ := rely_row hr ht
  refine ⟨u, hu, huid.trans hid, ?_⟩
  rcases hstate with hd | ⟨hi, hk, hlast⟩
  · exact .inl (hcont.code ▸ hdead hd)
  · exact .inr ⟨hi, hk, rely_no_successor hr hk hlast⟩

theorem Sealed.dead (h : Sealed held done d i) (now : Time) (hinv : Inv d) (hheld : ∀ j ∈ done, Key.token j ∈ held) :
    ∃ t ∈ d.tokens, t.id = i ∧ Dead ((revokeChange now done none).apply d) t.code := by
  have ha := allowed_revoke now hheld d
  obtain ⟨t, ht, hid, hdead | ⟨hi, _, hlast⟩⟩ := h
  · exact ⟨t, ht, hid, ha.dead hinv ht hdead⟩
  · refine ⟨t, ht, hid, ?_⟩
    have hmem : t.mark now done ∈ ((revokeChange now done none).apply d).tokens :=
      mem_apply_tokens.mpr (.inl ⟨t, ht, rfl⟩)
    have hlast' : ((revokeChange now done none).apply d).hasSuccessor (t.mark now done).id = false := by
      rw [mark_id, hid, Bool.eq_false_iff, Ne, hasSuccessor_apply, hlast]
      simp [revokeChange]
    have hdead := (ha.inv hinv).dead_of_last hmem hlast' (mark_inactive (.inr (hid ▸ hi)))
    simpa using hdead

/-- The state of a revocation under way: the pending writes revoke locked rows. -/
structure Revoking (now : Time) (done : List ℕ) (l : Loc Db Key) : Prop where
  pend : l.pend = revoked now done
  held : ∀ i ∈ done, Key.token i ∈ l.held

theorem wp_revokeRow (hl : Revoking now done l) (hrow : ∃ t ∈ d.tokens, t.id = i)
    (h : ∀ calm done' l' e, contract.rely l.held d e → Inv e → Revoking now done' l' → l.held ⊆ l'.held →
      done ⊆ done' → (calm = true → Sealed l'.held done' e i) → Q calm l' e) :
    wp contract r (revokeRow onlyActive now i) Q l d := by
  obtain ⟨t, ht, rfl⟩ := hrow
  rw [revokeRow, wp_do, wp_lockRow]
  intro e hr hinv
  obtain ⟨u, hu, hid, _, _⟩ := rely_row hr ht
  rw [hl.pend]
  by_cases hskip : (onlyActive && !(revoked now done e).isActive t.id) = true
  · -- the condition of the update no longer holds, so the row stays as it is
    simp only [hskip, if_true, wp_return, hasSuccessor_revoked]
    refine h _ done l e hr hinv hl (fun _ hk => hk) (fun _ hi => hi) fun hcalm => ?_
    have hlast : e.hasSuccessor u.id = false := by simpa [hid] using hcalm
    refine ⟨u, hu, hid, ?_⟩
    have hinactive : (u.mark now done).active = false := by
      cases hact : (u.mark now done).active with
      | false => rfl
      | true =>
        have : (revoked now done e).isActive t.id = true :=
          isActive_iff.mpr ⟨_, mem_map_of_mem hu, by simpa using hid, hact⟩
        simp [this] at hskip
    by_cases hdone : u.id ∈ done
    · exact .inr ⟨hid ▸ hdone, hl.held _ (hid ▸ hdone), hid ▸ hlast⟩
    · rw [mark_of_not_mem hdone] at hinactive
      exact .inl (hinv.dead_of_last hu hlast hinactive)
  · rw [Bool.not_eq_true] at hskip
    simp only [hskip, Bool.false_eq_true, if_false, wp_do, wp_update, wp_return, hasSuccessor_revoked]
    refine h _ (t.id :: done) _ e hr hinv ⟨?_, ?_⟩ (by simp) (by simp) fun hcalm => ?_
    · exact revoke_comp_revoked now t.id done
    · intro j hj
      rcases mem_cons.mp hj with rfl | hj
      · exact mem_cons_self
      · exact mem_cons_of_mem _ (hl.held j hj)
    · exact ⟨u, hu, hid, .inr ⟨mem_cons_self, mem_cons_self, by simpa using hcalm⟩⟩

theorem wp_revokeRows (hinv : Inv d) (hl : Revoking now done l) (hrows : ∀ i ∈ ids, ∃ t ∈ d.tokens, t.id = i)
    (h : ∀ calm done' l' e, contract.rely l.held d e → Inv e → Revoking now done' l' → l.held ⊆ l'.held →
      done ⊆ done' → (calm = true → ∀ i ∈ ids, Sealed l'.held done' e i) → Q calm l' e) :
    wp contract r (revokeRows onlyActive now ids) Q l d := by
  induction ids generalizing Q done l d with
  | nil => exact h true done l d .refl hinv hl (fun _ hk => hk) (fun _ hi => hi) (by simp)
  | cons i ids ih =>
    rw [revokeRows, wp_do]
    refine wp_revokeRow hl (hrows i (by simp)) fun calm done₁ l₁ e₁ hr₁ hinv₁ hl₁ hheld₁ hdone₁ hseal₁ => ?_
    rw [wp_do]
    have hrows₁ : ∀ j ∈ ids, ∃ t ∈ e₁.tokens, t.id = j := by
      intro j hj
      obtain ⟨t, ht, hid⟩ := hrows j (mem_cons_of_mem _ hj)
      obtain ⟨u, hu, huid, _⟩ := rely_row hr₁ ht
      exact ⟨u, hu, huid.trans hid⟩
    refine ih hinv₁ hl₁ hrows₁ fun rest done₂ l₂ e₂ hr₂ hinv₂ hl₂ hheld₂ hdone₂ hseal₂ => ?_
    refine h _ done₂ l₂ e₂ (hr₁.trans (rely_mono hheld₁ hr₂)) hinv₂ hl₂ (fun _ hk => hheld₂ (hheld₁ hk))
      (fun _ hi => hdone₂ (hdone₁ hi)) fun hboth j hj => ?_
    rw [Bool.and_eq_true] at hboth
    rcases mem_cons.mp hj with rfl | hj
    · exact ((hseal₁ hboth.1).rely hr₂).mono hheld₂ hdone₂
    · exact hseal₂ hboth.2 j hj

theorem revoke_ready {covered : List ℕ} {calm : Bool} (hl : Revoking now done l)
    (hdead : calm = true → ∀ i ∈ covered, ∀ e, contract.rely l.held d e → Inv e →
      ∃ t ∈ e.tokens, t.id = i ∧ Dead ((revokeChange now done none).apply e) t.code) :
    Ready ⟨Db.record ⟨covered, calm⟩ ∘ l.pend, l.held⟩ d := by
  intro e hr hinv
  refine ⟨revokeChange now done (some ⟨covered, calm⟩), ⟨hl.held, by simp [revokeChange], by simp [revokeChange],
    by simp [revokeChange], ?_⟩, ?_⟩
  · intro x hx hcalm i hi
    rw [revokeChange, Option.mem_some_iff] at hx
    subst hx
    obtain ⟨t, ht, hid, hchain⟩ := hdead hcalm i hi e hr hinv
    exact ⟨t, ht, hid, dead_apply_entry hchain⟩
  · simp [hl.pend, revoked, revokeChange, Change.apply, Db.record]

theorem family_of_chain (hinv : Inv d) {t u : Token} (ht : t ∈ d.family principalId clientId) (hu : u ∈ d.tokens)
    (hcode : u.code = t.code) : u ∈ d.family principalId clientId := by
  simp only [Db.family, mem_filter, Bool.and_eq_true, decide_eq_true_eq] at ht ⊢
  obtain ⟨ht, hprincipal, hclient⟩ := ht
  obtain ⟨c, hc, _, hm⟩ := hinv.origin t ht
  obtain ⟨k, hk, _, hm'⟩ := hinv.origin u hu
  obtain rfl := hinv.codes k hk c hc (hm'.code.symm.trans (hcode.trans hm.code))
  have hsame : u.clientId = t.clientId := hm'.client.trans hm.client.symm
  exact ⟨hu, (hm'.principal.trans hm.principal.symm).trans hprincipal, by simpa [hsame] using hclient⟩

theorem wp_revokeFamily {Q : Unit → Loc Db Key → Db → Prop} (h : ∀ l e, Ready l e → Q () l e) :
    wp contract r (revokeFamily onlyActive principalId clientId now) Q ⟨id, held⟩ d := by
  rw [revokeFamily, wp_do, wp_query]
  intro d₁ _ hinv₁
  simp only [id, wp_do, wp_update]
  have hrows : ∀ i ∈ ((d₁.family principalId clientId).filter Token.active).map (·.id), ∃ t ∈ d₁.tokens, t.id = i := by
    intro i hi
    obtain ⟨t, ht, rfl⟩ := mem_map.mp hi
    exact ⟨t, mem_of_mem_filter (mem_of_mem_filter ht), rfl⟩
  have hstart : Revoking now [] (⟨id, held⟩ : Loc Db Key) := ⟨(revoked_nil now).symm, by simp⟩
  refine wp_revokeRows hinv₁ hstart hrows fun calm done l e hr hinv hl hheld _ hseal => h _ e ?_
  refine revoke_ready hl fun hcalm i hi f hrf hinvf => ?_
  obtain ⟨t, ht, rfl⟩ := mem_map.mp hi
  have htd : t ∈ d₁.tokens := mem_of_mem_filter ht
  have hrall : contract.rely held d₁ f := hr.trans (rely_mono hheld hrf)
  obtain ⟨w, hw, hwid, hwcont, hwdead⟩ := rely_row hrall htd
  by_cases hchain : ∃ u ∈ d₁.tokens, u.code = t.code ∧ u.active = true
  · -- the active row of the chain was locked and revoked
    obtain ⟨u, hu, hucode, hua⟩ := hchain
    have hlisted : u.id ∈ ((d₁.family principalId clientId).filter Token.active).map (·.id) :=
      mem_map_of_mem (mem_filter.mpr ⟨family_of_chain hinv₁ ht hu hucode, hua⟩)
    obtain ⟨v, hv, hvid, hvdead⟩ := ((hseal hcalm u.id hlisted).rely hrf).dead now hinvf hl.held
    obtain ⟨v', hv', hvid', hvcont, _⟩ := rely_row hrall hu
    obtain rfl := hinvf.ids v hv v' hv' (hvid.trans hvid'.symm)
    refine ⟨w, hw, hwid, ?_⟩
    rwa [hwcont.code, ← hucode, ← hvcont.code]
  · have hdead₁ : Dead d₁ t.code := by
      intro u hu hucode
      cases hua : u.active with
      | false => rfl
      | true => exact absurd ⟨u, hu, hucode, hua⟩ hchain
    refine ⟨w, hw, hwid, ?_⟩
    have := hwdead hdead₁
    rw [← hwcont.code] at this
    exact (allowed_revoke now hl.held f).dead hinvf hw this

theorem revokeAll_keeps (principalId : ℕ) (now : Time) :
    Keeps contract (.revokeAll principalId now) (script (.revokeAll principalId now)) := by
  intro d _
  rw [script, revokeAllGrants, wp_do]
  exact wp_revokeFamily fun l e hready => wp_publish_ready hready

theorem revoke_keeps (owner : Option ℕ) (id : ℕ) (now : Time) :
    Keeps contract (.revoke owner id now) (script (.revoke owner id now)) := by
  intro d _
  simp only [script, revokeGrant, wp_do, wp_query, wp_ofOption, wp_require]
  intro d₁ _ hinv₁ row hrow _
  have hmem : row ∈ d₁.tokens := mem_of_find?_eq_some hrow
  have hid : row.id = id := by simpa using List.find?_some hrow
  split
  · rw [wp_do]
    have hstart : Revoking now [] (Loc.fresh : Loc Db Key) := ⟨(revoked_nil now).symm, by simp⟩
    refine wp_revokeRow hstart ⟨row, hmem, hid⟩ fun calm done l e hr hinv hl _ _ hseal => ?_
    rw [wp_do, wp_update]
    refine wp_publish_ready (revoke_ready hl fun hcalm i hi f hrf hinvf => ?_)
    obtain rfl := mem_singleton.mp hi
    exact ((hseal hcalm).rely hrf).dead now hinvf hl.held
  · exact trivial

theorem refresh_keeps (x : Refresh) : Keeps contract (.refresh x) (script (.refresh x)) := by
  intro d _
  simp only [script, refreshTokens, wp_do]
  refine wp_hashToken fun hash => ?_
  rw [wp_query]
  intro d₁ _ hinv₁
  refine wp_found fun row hrow => ?_
  have hmem : row ∈ d₁.tokens := mem_of_find?_eq_some hrow
  split
  · rw [wp_do]
    exact wp_revokeFamily fun l e hready => wp_refuse hready _
  · simp only [wp_do]
    refine wp_check fun hclient => wp_check fun _ => wp_check fun _ => ?_
    rw [decide_eq_true_eq] at hclient
    rw [wp_lockRow]
    intro d₂ hr₂ hinv₂
    split
    · next hkey =>
        refine wp_check fun hactive => ?_
        simp only [id] at hkey hactive
        simp [hactive] at hkey
    · next k hkey =>
        refine wp_check fun hactive => ?_
        simp only [id] at hkey hactive
        rw [if_pos hactive, Option.some.injEq] at hkey
        subst hkey
        obtain ⟨u, hu, huid, hua⟩ := isActive_iff.mp hactive
        obtain ⟨u', hu', huid', hcont, _⟩ := rely_row hr₂ hmem
        obtain rfl := hinv₂.ids u hu u' hu' (huid.trans huid'.symm)
        simp only [wp_update, issueTokens, wp_do]
        refine wp_hashToken fun accessHash => wp_hashToken fun refreshHash => ?_
        refine wp_insertToken fun d₃ hr₃ _ hfresh => wp_publish_ready ?_
        have hu₃ : u ∈ d₃.tokens := rely_token hr₃ (by simp [huid]) hu
        have hfresh₃ : ∀ w ∈ d₃.tokens, w.id ≠ x.fresh.id ∧ w.refreshHash ≠ refreshHash := by
          intro w hw
          simpa using hfresh _ (mem_map_of_mem hw)
        rw [← huid]
        exact rotate_ready hu₃ hua
          ⟨hcont.code.symm, hcont.principal.symm, hclient.symm.trans hcont.client.symm, hcont.scope.symm,
            hcont.ttl.symm⟩ rfl rfl (by simp) (by simp) (by simp) hfresh₃

theorem script_keeps (r : Request) : Keeps contract r (script r) := by
  cases r with
  | authorize c => exact authorize_keeps c
  | exchange x => exact exchange_keeps x
  | refresh x => exact refresh_keeps x
  | revoke owner id now => exact revoke_keeps owner id now
  | revokeAll principalId now => exact revokeAll_keeps principalId now

end Revoke

section Laws

/-- The row with this id and the rows that rotations made of it. -/
inductive Descends (d : Db) (i : ℕ) : Token → Prop
  | self {t : Token} (ht : t ∈ d.tokens) (hid : t.id = i) : Descends d i t
  | rotated {t u : Token} (hu : Descends d i u) (ht : t ∈ d.tokens) (hp : t.parent = some u.id) : Descends d i t

variable {d : Db} {s : Sys Request Db Key Failure}

theorem Descends.mem {i : ℕ} {t : Token} (h : Descends d i t) : t ∈ d.tokens := by
  cases h <;> assumption

theorem Descends.code (hinv : Inv d) {i : ℕ} {t r : Token} (h : Descends d i t) (hr : r ∈ d.tokens) (hid : r.id = i) :
    t.code = r.code := by
  induction h with
  | self ht hid' => rw [hinv.ids _ ht r hr (hid'.trans hid.symm)]
  | rotated hu ht hp ih =>
    obtain ⟨w, hw, hwid, hwcode, _⟩ := hinv.parent _ ht _ hp
    rw [← hwcode, hinv.ids w hw _ hu.mem hwid, ih]

end Laws

end OAuth
