import StupaWorkflow.OAuthModel

/-!
The chains of token pairs. Every commit is one `Change` of the rows; what it may
do is said once in `Allowed`, and the invariant of the chains and the facts that
a transaction relies on follow from it.
-/
namespace OAuth
open Py ReadCommitted

/-- What a commit does: rows set to revoked, a code set to used, and new rows. -/
structure Change where
  now : Time
  ids : List ℕ
  used : Option ℕ
  row : Option Token
  code : Option Code
  entry : Option Revocation

def Change.apply (ch : Change) (d : Db) : Db where
  codes := d.codes.map (Code.mark ch.now ch.used) ++ ch.code.toList
  tokens := d.tokens.map (Token.mark ch.now ch.ids) ++ ch.row.toList
  revocations := d.revocations ++ ch.entry.toList

def Dead (d : Db) (chain : ℕ) : Prop := ∀ t ∈ d.tokens, t.code = chain → t.active = false

/-- The pair has the owner, the client, the scope and the lifetime of its code. -/
structure Matches (t : Token) (c : Code) : Prop where
  code : t.code = c.id
  principal : t.principalId = c.principalId
  client : t.clientId = c.clientId
  scope : t.scope = c.scope
  ttl : t.accessTtl = c.accessTtl

structure Continues (t u : Token) : Prop where
  code : t.code = u.code
  principal : t.principalId = u.principalId
  client : t.clientId = u.clientId
  scope : t.scope = u.scope
  ttl : t.accessTtl = u.accessTtl

/-- A new pair comes from the code redeemed with it or from an active pair that
the same commit revokes. -/
structure NewToken (held : List Key) (d : Db) (ch : Change) (t : Token) : Prop where
  idHeld : Key.token t.id ∈ held
  hashHeld : Key.refreshHash t.refreshHash ∈ held
  fresh : ∀ u ∈ d.tokens, u.id ≠ t.id ∧ u.refreshHash ≠ t.refreshHash
  active : t.active = true
  source : (t.parent = none ∧ ch.used = some t.code ∧ ∃ c ∈ d.codes, c.usedAt = none ∧ Matches t c) ∨
    ∃ u ∈ d.tokens, t.parent = some u.id ∧ u.id ∈ ch.ids ∧ u.active = true ∧ Continues t u

structure Allowed (held : List Key) (d : Db) (ch : Change) : Prop where
  ids : ∀ i ∈ ch.ids, Key.token i ∈ held
  used : ∀ i ∈ ch.used, Key.code i ∈ held
  row : ∀ t ∈ ch.row, NewToken held d ch t
  code : ∀ c ∈ ch.code, c.usedAt = none ∧ Key.code c.id ∈ held ∧ ∀ u ∈ d.codes, u.id ≠ c.id
  entry : ∀ x ∈ ch.entry, x.undisturbed = true → ∀ i ∈ x.covered,
    ∃ t ∈ d.tokens, t.id = i ∧ Dead (ch.apply d) t.code

structure Inv (d : Db) : Prop where
  ids : ∀ t ∈ d.tokens, ∀ u ∈ d.tokens, t.id = u.id → t = u
  hashes : ∀ t ∈ d.tokens, ∀ u ∈ d.tokens, t.refreshHash = u.refreshHash → t = u
  codes : ∀ c ∈ d.codes, ∀ k ∈ d.codes, c.id = k.id → c = k
  origin : ∀ t ∈ d.tokens, ∃ c ∈ d.codes, c.usedAt.isSome ∧ Matches t c
  parent : ∀ t ∈ d.tokens, ∀ p ∈ t.parent, ∃ u ∈ d.tokens, u.id = p ∧ u.code = t.code ∧ u.active = false
  root : ∀ t ∈ d.tokens, ∀ u ∈ d.tokens, t.parent = none → u.parent = none → t.code = u.code → t = u
  child : ∀ t ∈ d.tokens, ∀ u ∈ d.tokens, ∀ p, t.parent = some p → u.parent = some p → t = u
  last : ∀ t ∈ d.tokens, ∀ u ∈ d.tokens, t.code = u.code →
    d.hasSuccessor t.id = false → d.hasSuccessor u.id = false → t = u
  killed : ∀ x ∈ d.revocations, x.undisturbed = true → ∀ i ∈ x.covered,
    ∃ t ∈ d.tokens, t.id = i ∧ Dead d t.code

theorem inv_empty : Inv Db.empty := by
  constructor <;> simp [Db.empty]

section Mark

variable {now : Time} {ids : List ℕ}
variable {used : Option ℕ}

@[simp] theorem mark_id (t : Token) : (t.mark now ids).id = t.id := by unfold Token.mark; split <;> rfl
@[simp] theorem mark_code (t : Token) : (t.mark now ids).code = t.code := by unfold Token.mark; split <;> rfl
@[simp] theorem mark_parent (t : Token) : (t.mark now ids).parent = t.parent := by unfold Token.mark; split <;> rfl
@[simp] theorem mark_refreshHash (t : Token) : (t.mark now ids).refreshHash = t.refreshHash := by
  unfold Token.mark; split <;> rfl

theorem mark_continues (t : Token) : Continues (t.mark now ids) t := by
  unfold Token.mark; split <;> exact ⟨rfl, rfl, rfl, rfl, rfl⟩

theorem mark_inactive {t : Token} (h : t.active = false ∨ t.id ∈ ids) : (t.mark now ids).active = false := by
  unfold Token.mark
  split
  · rfl
  · exact h.resolve_right ‹_›

theorem mark_of_not_mem {t : Token} (h : t.id ∉ ids) : t.mark now ids = t := if_neg h

@[simp] theorem mark_nil : Token.mark now [] = id := by
  funext t
  exact mark_of_not_mem (by simp)

@[simp] theorem mark_mark (id : ℕ) (t : Token) : (t.mark now ids).mark now [id] = t.mark now (id :: ids) := by
  by_cases h : t.id ∈ ids
  · rw [Token.mark, mark_id, Token.mark, Token.mark, if_pos h, if_pos (List.mem_cons_of_mem _ h)]
    split <;> rfl
  · rw [mark_of_not_mem h]
    simp [Token.mark, h]

@[simp] theorem codeMark_id (used : Option ℕ) (c : Code) : (c.mark now used).id = c.id := by
  unfold Code.mark; split <;> rfl

theorem codeMark_of_ne {c : Code} (h : used ≠ some c.id) : c.mark now used = c := if_neg h

@[simp] theorem codeMark_none : Code.mark now none = id := by
  funext c
  exact codeMark_of_ne (by simp)

theorem codeMark_used {c : Code} (h : c.usedAt.isSome ∨ used = some c.id) : (c.mark now used).usedAt.isSome := by
  unfold Code.mark
  split
  · rfl
  · exact h.resolve_right ‹_›

theorem codeMark_matches {t : Token} {c : Code} (h : Matches t c) : Matches t (c.mark now used) := by
  unfold Code.mark
  split
  · exact ⟨h.code, h.principal, h.client, h.scope, h.ttl⟩
  · exact h

end Mark

theorem Continues.refl (t : Token) : Continues t t := ⟨rfl, rfl, rfl, rfl, rfl⟩

theorem Continues.trans {t u w : Token} (h : Continues t u) (k : Continues u w) : Continues t w :=
  ⟨h.code.trans k.code, h.principal.trans k.principal, h.client.trans k.client, h.scope.trans k.scope,
    h.ttl.trans k.ttl⟩

theorem Matches.of_continues {t u : Token} {c : Code} (h : Continues t u) (m : Matches u c) : Matches t c :=
  ⟨h.code.trans m.code, h.principal.trans m.principal, h.client.trans m.client, h.scope.trans m.scope,
    h.ttl.trans m.ttl⟩

section Apply

variable {held : List Key} {d : Db} {ch : Change}
variable {t u : Token}

theorem mem_apply_tokens : t ∈ (ch.apply d).tokens ↔ (∃ u ∈ d.tokens, u.mark ch.now ch.ids = t) ∨ ch.row = some t := by
  simp [Change.apply]

theorem mem_apply_codes {c : Code} :
    c ∈ (ch.apply d).codes ↔ (∃ k ∈ d.codes, k.mark ch.now ch.used = c) ∨ ch.code = some c := by
  simp [Change.apply]

theorem hasSuccessor_iff {i : ℕ} : d.hasSuccessor i = true ↔ ∃ t ∈ d.tokens, t.parent = some i := by
  simp [Db.hasSuccessor]

theorem hasSuccessor_apply {i : ℕ} :
    (ch.apply d).hasSuccessor i = true ↔ d.hasSuccessor i = true ∨ ∃ t ∈ ch.row, t.parent = some i := by
  simp only [hasSuccessor_iff, mem_apply_tokens]
  constructor
  · rintro ⟨t, ⟨u, hu, rfl⟩ | hrow, hp⟩
    · exact .inl ⟨u, hu, by simpa using hp⟩
    · exact .inr ⟨t, hrow, hp⟩
  · rintro (⟨t, ht, hp⟩ | ⟨t, hrow, hp⟩)
    · exact ⟨_, .inl ⟨t, ht, rfl⟩, by simpa using hp⟩
    · exact ⟨t, .inr hrow, hp⟩

theorem no_successor_of_apply {i : ℕ} (h : (ch.apply d).hasSuccessor i = false) : d.hasSuccessor i = false := by
  rw [Bool.eq_false_iff] at h ⊢
  exact fun hd => h (hasSuccessor_apply.mpr (.inl hd))

theorem Inv.no_successor (h : Inv d) (ht : t ∈ d.tokens) (ha : t.active = true) : d.hasSuccessor t.id = false := by
  rw [Bool.eq_false_iff]
  intro hs
  obtain ⟨u, hu, hp⟩ := hasSuccessor_iff.mp hs
  obtain ⟨w, hw, hid, _, hdead⟩ := h.parent u hu t.id hp
  rw [h.ids w hw t ht hid, ha] at hdead
  cases hdead

theorem Inv.dead_of_last (h : Inv d) (ht : t ∈ d.tokens) (hlast : d.hasSuccessor t.id = false) (hrev : t.active = false) :
    Dead d t.code := by
  intro u hu hcode
  cases hb : u.active with
  | false => rfl
  | true =>
    rw [h.last u hu t ht hcode (h.no_successor hu hb) hlast, hrev] at hb
    cases hb

theorem Inv.no_rows (h : Inv d) {c : Code} (hc : c ∈ d.codes) (hunused : c.usedAt = none) :
    ∀ u ∈ d.tokens, u.code ≠ c.id := by
  intro u hu heq
  obtain ⟨k, hk, hused, hm⟩ := h.origin u hu
  rw [h.codes k hk c hc (hm.code.symm.trans heq), hunused] at hused
  cases hused

theorem NewToken.cases (hn : NewToken held d ch t) (h : Inv d) :
    (t.parent = none ∧ ch.used = some t.code ∧ (∀ u ∈ d.tokens, u.code ≠ t.code) ∧
      ∃ c ∈ d.codes, c.usedAt = none ∧ Matches t c) ∨
    ∃ u ∈ d.tokens, t.parent = some u.id ∧ u.id ∈ ch.ids ∧ u.active = true ∧ Continues t u ∧
      d.hasSuccessor u.id = false := by
  obtain ⟨hp, hused, c, hc, hunused, hm⟩ | ⟨u, hu, hp, hi, ha, hcont⟩ := hn.source
  · refine .inl ⟨hp, hused, ?_, c, hc, hunused, hm⟩
    rw [hm.code]
    exact h.no_rows hc hunused
  · exact .inr ⟨u, hu, hp, hi, ha, hcont, h.no_successor hu ha⟩

theorem NewToken.not_dead (hn : NewToken held d ch t) (h : Inv d) (hu : u ∈ d.tokens) (hdead : Dead d u.code) :
    t.code ≠ u.code := by
  intro heq
  obtain ⟨_, _, hnew, _⟩ | ⟨w, hw, _, _, ha, hcont, _⟩ := hn.cases h
  · exact hnew u hu heq.symm
  · rw [hdead w hw (hcont.code.symm.trans heq)] at ha
    cases ha

theorem Allowed.dead (ha : Allowed held d ch) (h : Inv d) (ht : t ∈ d.tokens) (hdead : Dead d t.code) :
    Dead (ch.apply d) t.code := by
  intro u hu hcode
  obtain ⟨w, hw, rfl⟩ | hrow := mem_apply_tokens.mp hu
  · exact mark_inactive (.inl (hdead w hw (by simpa using hcode)))
  · exact absurd hcode ((ha.row u hrow).not_dead h ht hdead)

/-- Two rows after a commit with a common value that a mark keeps and that a new
row does not share with an old one. -/
theorem Allowed.eq_of_key {β : Type*} (key : Token → β) (hkey : ∀ t, key (t.mark ch.now ch.ids) = key t)
    (hold : ∀ t ∈ d.tokens, ∀ u ∈ d.tokens, key t = key u → t = u)
    (hnew : ∀ t ∈ ch.row, ∀ u ∈ d.tokens, key u ≠ key t) :
    ∀ t ∈ (ch.apply d).tokens, ∀ u ∈ (ch.apply d).tokens, key t = key u → t = u := by
  intro t ht u hu heq
  obtain ⟨t₀, ht₀, rfl⟩ | hrow := mem_apply_tokens.mp ht <;> obtain ⟨u₀, hu₀, rfl⟩ | hrow' := mem_apply_tokens.mp hu
  · rw [hkey, hkey] at heq
    rw [hold t₀ ht₀ u₀ hu₀ heq]
  · exact absurd (by rwa [hkey] at heq) (hnew u hrow' t₀ ht₀)
  · exact absurd (by rw [hkey] at heq; exact heq.symm) (hnew t hrow u₀ hu₀)
  · exact Option.some.inj (hrow.symm.trans hrow')

theorem Allowed.codes (ha : Allowed held d ch) (h : Inv d) :
    ∀ c ∈ (ch.apply d).codes, ∀ k ∈ (ch.apply d).codes, c.id = k.id → c = k := by
  intro c hc k hk heq
  obtain ⟨c₀, hc₀, rfl⟩ | hnew := mem_apply_codes.mp hc <;> obtain ⟨k₀, hk₀, rfl⟩ | hnew' := mem_apply_codes.mp hk
  · rw [h.codes c₀ hc₀ k₀ hk₀ (by simpa using heq)]
  · exact absurd (by simpa using heq) ((ha.code k hnew').2.2 c₀ hc₀)
  · exact absurd (by simpa using heq.symm) ((ha.code c hnew).2.2 k₀ hk₀)
  · exact Option.some.inj (hnew.symm.trans hnew')

theorem Allowed.origin (ha : Allowed held d ch) (h : Inv d) :
    ∀ t ∈ (ch.apply d).tokens, ∃ c ∈ (ch.apply d).codes, c.usedAt.isSome ∧ Matches t c := by
  have hold : ∀ t u : Token, u ∈ d.tokens → Continues t u →
      ∃ c ∈ (ch.apply d).codes, c.usedAt.isSome ∧ Matches t c := by
    intro t u hu hcont
    obtain ⟨c, hc, hused, hm⟩ := h.origin u hu
    exact ⟨_, mem_apply_codes.mpr (.inl ⟨c, hc, rfl⟩), codeMark_used (.inl hused),
      codeMark_matches (.of_continues hcont hm)⟩
  intro t ht
  obtain ⟨u, hu, rfl⟩ | hrow := mem_apply_tokens.mp ht
  · exact hold _ u hu (mark_continues u)
  · obtain ⟨_, hused, c, hc, _, hm⟩ | ⟨u, hu, _, _, _, hcont⟩ := (ha.row t hrow).source
    · exact ⟨_, mem_apply_codes.mpr (.inl ⟨c, hc, rfl⟩), codeMark_used (.inr (hm.code ▸ hused)), codeMark_matches hm⟩
    · exact hold t u hu hcont

theorem Allowed.parent (ha : Allowed held d ch) (h : Inv d) :
    ∀ t ∈ (ch.apply d).tokens, ∀ p ∈ t.parent,
      ∃ u ∈ (ch.apply d).tokens, u.id = p ∧ u.code = t.code ∧ u.active = false := by
  intro t ht p hp
  obtain ⟨u, hu, rfl⟩ | hrow := mem_apply_tokens.mp ht
  · obtain ⟨w, hw, hid, hcode, hdead⟩ := h.parent u hu p (by simpa using hp)
    exact ⟨_, mem_apply_tokens.mpr (.inl ⟨w, hw, rfl⟩), by simpa using hid, by simpa using hcode,
      mark_inactive (.inl hdead)⟩
  · obtain ⟨hnone, _⟩ | ⟨u, hu, hsome, hi, _, hcont⟩ := (ha.row t hrow).source
    · rw [hnone] at hp
      cases hp
    · rw [hsome, Option.mem_some_iff] at hp
      exact ⟨_, mem_apply_tokens.mpr (.inl ⟨u, hu, rfl⟩), by simpa using hp, by simpa using hcont.code.symm,
        mark_inactive (.inr hi)⟩

theorem NewToken.not_root (hn : NewToken held d ch t) (h : Inv d) (ht : t.parent = none) (hu : u ∈ d.tokens) :
    u.code ≠ t.code := by
  obtain ⟨_, _, hnew, _⟩ | ⟨w, _, hsome, _⟩ := hn.cases h
  · exact hnew u hu
  · rw [ht] at hsome
    cases hsome

theorem Allowed.root (ha : Allowed held d ch) (h : Inv d) :
    ∀ t ∈ (ch.apply d).tokens, ∀ u ∈ (ch.apply d).tokens,
      t.parent = none → u.parent = none → t.code = u.code → t = u := by
  intro t ht u hu hpt hpu heq
  obtain ⟨t₀, ht₀, rfl⟩ | hrow := mem_apply_tokens.mp ht <;> obtain ⟨u₀, hu₀, rfl⟩ | hrow' := mem_apply_tokens.mp hu
  · rw [h.root t₀ ht₀ u₀ hu₀ (by simpa using hpt) (by simpa using hpu) (by simpa using heq)]
  · exact absurd (by simpa using heq) ((ha.row u hrow').not_root h hpu ht₀)
  · exact absurd (by simpa using heq.symm) ((ha.row t hrow).not_root h hpt hu₀)
  · exact Option.some.inj (hrow.symm.trans hrow')

theorem NewToken.not_child (hn : NewToken held d ch t) (h : Inv d) {p : ℕ} (ht : t.parent = some p) (hu : u ∈ d.tokens) :
    u.parent ≠ some p := by
  intro hp
  obtain ⟨hnone, _⟩ | ⟨w, _, hsome, _, _, _, hlast⟩ := hn.cases h
  · rw [hnone] at ht
    cases ht
  · rw [ht, Option.some.injEq] at hsome
    rw [← hsome, hasSuccessor_iff.mpr ⟨u, hu, hp⟩] at hlast
    cases hlast

theorem Allowed.child (ha : Allowed held d ch) (h : Inv d) :
    ∀ t ∈ (ch.apply d).tokens, ∀ u ∈ (ch.apply d).tokens, ∀ p, t.parent = some p → u.parent = some p → t = u := by
  intro t ht u hu p hpt hpu
  obtain ⟨t₀, ht₀, rfl⟩ | hrow := mem_apply_tokens.mp ht <;> obtain ⟨u₀, hu₀, rfl⟩ | hrow' := mem_apply_tokens.mp hu
  · rw [h.child t₀ ht₀ u₀ hu₀ p (by simpa using hpt) (by simpa using hpu)]
  · exact absurd (by simpa using hpt) ((ha.row u hrow').not_child h hpu ht₀)
  · exact absurd (by simpa using hpu) ((ha.row t hrow).not_child h hpt hu₀)
  · exact Option.some.inj (hrow.symm.trans hrow')

theorem NewToken.succeeds (hn : NewToken held d ch t) (hrow : ch.row = some t) (h : Inv d) (hu : u ∈ d.tokens)
    (hcode : u.code = t.code) : (ch.apply d).hasSuccessor u.id = true := by
  obtain ⟨_, _, hnew, _⟩ | ⟨w, hw, hp, _, _, hcont, hlast⟩ := hn.cases h
  · exact absurd hcode (hnew u hu)
  · cases hs : d.hasSuccessor u.id with
    | true => exact hasSuccessor_apply.mpr (.inl hs)
    | false =>
      rw [h.last u hu w hw (hcode.trans hcont.code) hs hlast]
      exact hasSuccessor_apply.mpr (.inr ⟨t, hrow, hp⟩)

theorem Allowed.last (ha : Allowed held d ch) (h : Inv d) :
    ∀ t ∈ (ch.apply d).tokens, ∀ u ∈ (ch.apply d).tokens, t.code = u.code →
      (ch.apply d).hasSuccessor t.id = false → (ch.apply d).hasSuccessor u.id = false → t = u := by
  intro t ht u hu heq hst hsu
  obtain ⟨t₀, ht₀, rfl⟩ | hrow := mem_apply_tokens.mp ht <;> obtain ⟨u₀, hu₀, rfl⟩ | hrow' := mem_apply_tokens.mp hu
  · rw [mark_id] at hst hsu
    rw [h.last t₀ ht₀ u₀ hu₀ (by simpa using heq) (no_successor_of_apply hst) (no_successor_of_apply hsu)]
  · have := (ha.row u hrow').succeeds hrow' h ht₀ (by simpa using heq)
    simp [this] at hst
  · have := (ha.row t hrow).succeeds hrow h hu₀ (by simpa using heq.symm)
    simp [this] at hsu
  · exact Option.some.inj (hrow.symm.trans hrow')

theorem Allowed.killed (ha : Allowed held d ch) (h : Inv d) :
    ∀ x ∈ (ch.apply d).revocations, x.undisturbed = true → ∀ i ∈ x.covered,
      ∃ t ∈ (ch.apply d).tokens, t.id = i ∧ Dead (ch.apply d) t.code := by
  intro x hx hcalm i hi
  have hmem : x ∈ d.revocations ∨ ch.entry = some x := by simpa [Change.apply] using hx
  obtain ⟨t, ht, hid, hdead⟩ : ∃ t ∈ d.tokens, t.id = i ∧ Dead (ch.apply d) t.code := by
    rcases hmem with hold | hnew
    · obtain ⟨t, ht, hid, hdead⟩ := h.killed x hold hcalm i hi
      exact ⟨t, ht, hid, ha.dead h ht hdead⟩
    · exact ha.entry x hnew hcalm i hi
  exact ⟨_, mem_apply_tokens.mpr (.inl ⟨t, ht, rfl⟩), by simpa using hid, by simpa using hdead⟩

theorem Allowed.inv (ha : Allowed held d ch) (h : Inv d) : Inv (ch.apply d) where
  ids := eq_of_key (·.id) (fun _ => mark_id _) h.ids fun t hrow u hu => ((ha.row t hrow).fresh u hu).1
  hashes := eq_of_key (·.refreshHash) (fun _ => mark_refreshHash _) h.hashes fun t hrow u hu =>
    ((ha.row t hrow).fresh u hu).2
  codes := ha.codes h
  origin := ha.origin h
  parent := ha.parent h
  root := ha.root h
  child := ha.child h
  last := ha.last h
  killed := ha.killed h

end Apply

section Rely

/-- A commit of another transaction, whose locks are not ours. -/
def Other (held : List Key) (d e : Db) : Prop :=
  ∃ locks ch, Inv d ∧ Allowed locks d ch ∧ e = ch.apply d ∧ ∀ k ∈ held, k ∉ locks

/-- The agreement of the operations: a commit is an allowed change, and between
two statements other transactions commit such changes under other locks. -/
def contract : Contract Request Db Key where
  inv := Inv
  rely held := Relation.ReflTransGen (Other held)
  guar _ held d e := ∃ ch, Allowed held d ch ∧ e = ch.apply d
  refl _ _ := .refl
  trans := Relation.ReflTransGen.trans
  compat hinv g free := by
    obtain ⟨ch, ha, he⟩ := g
    exact .single ⟨_, ch, hinv, ha, he, fun _ hk => free.not_mem hk⟩

variable {held : List Key} {d e : Db}
variable {t : Token}

theorem rely_stable {p : Db → Prop} (hstep : ∀ {d e}, Other held d e → p d → p e)
    (hr : contract.rely held d e) (h : p d) : p e := by
  induction hr with
  | refl => exact h
  | tail _ hlast ih => exact hstep hlast ih

theorem rely_token (hr : contract.rely held d e) (hheld : Key.token t.id ∈ held) (h : t ∈ d.tokens) : t ∈ e.tokens := by
  refine rely_stable (p := fun d => t ∈ d.tokens) ?_ hr h
  rintro d e ⟨locks, ch, _, ha, rfl, free⟩ ht
  have hi : t.id ∉ ch.ids := fun hi => free _ hheld (ha.ids _ hi)
  exact mem_apply_tokens.mpr (.inl ⟨t, ht, mark_of_not_mem hi⟩)

theorem rely_no_successor {i : ℕ} (hr : contract.rely held d e) (hheld : Key.token i ∈ held)
    (h : d.hasSuccessor i = false) : e.hasSuccessor i = false := by
  refine rely_stable (p := fun d => d.hasSuccessor i = false) ?_ hr h
  rintro d e ⟨locks, ch, hinv, ha, rfl, free⟩ hd
  rw [Bool.eq_false_iff, Ne, hasSuccessor_apply, hd]
  rintro (hs | ⟨t, hrow, hp⟩)
  · cases hs
  · obtain ⟨hnone, _⟩ | ⟨u, _, hsome, hi, _⟩ := (ha.row t hrow).source
    · simp [hnone] at hp
    · rw [hp, Option.some.injEq] at hsome
      exact free _ hheld (ha.ids _ (hsome ▸ hi))

theorem rely_row (hr : contract.rely held d e) (h : t ∈ d.tokens) :
    ∃ u ∈ e.tokens, u.id = t.id ∧ Continues u t ∧ (Dead d t.code → Dead e t.code) := by
  refine rely_stable (p := fun e => ∃ u ∈ e.tokens, u.id = t.id ∧ Continues u t ∧ (Dead d t.code → Dead e t.code)) ?_ hr
    ⟨t, h, rfl, .refl t, id⟩
  rintro d' e' ⟨locks, ch, hinv, ha, rfl, _⟩ ⟨u, hu, hid, hcont, hdead⟩
  refine ⟨_, mem_apply_tokens.mpr (.inl ⟨u, hu, rfl⟩), by simpa using hid, (mark_continues u).trans hcont, fun hd => ?_⟩
  rw [← hcont.code] at hdead ⊢
  exact ha.dead hinv hu (hdead (hcont.code ▸ hd))

theorem rely_codeRow {c : Code} (hr : contract.rely held d e) (h : c ∈ d.codes) (hm : Matches t c) :
    ∃ k ∈ e.codes, Matches t k := by
  refine rely_stable (p := fun e => ∃ k ∈ e.codes, Matches t k) ?_ hr ⟨c, h, hm⟩
  rintro d' e' ⟨locks, ch, _, ha, rfl, _⟩ ⟨k, hk, hm⟩
  exact ⟨_, mem_apply_codes.mpr (.inl ⟨k, hk, rfl⟩), codeMark_matches hm⟩

theorem rely_code {c : Code} (hr : contract.rely held d e) (hheld : Key.code c.id ∈ held)
    (h : c ∈ d.codes) : c ∈ e.codes := by
  refine rely_stable (p := fun d => c ∈ d.codes) ?_ hr h
  rintro d e ⟨locks, ch, _, ha, rfl, free⟩ hc
  refine mem_apply_codes.mpr (.inl ⟨c, hc, codeMark_of_ne fun hused => ?_⟩)
  exact free _ hheld (ha.used _ hused)

theorem rely_fresh (hr : contract.rely held d e) (hid : Key.token t.id ∈ held) (hhash : Key.refreshHash t.refreshHash ∈ held)
    (h : ∀ u ∈ d.tokens, u.id ≠ t.id ∧ u.refreshHash ≠ t.refreshHash) :
    ∀ u ∈ e.tokens, u.id ≠ t.id ∧ u.refreshHash ≠ t.refreshHash := by
  refine rely_stable (p := fun d => ∀ u ∈ d.tokens, u.id ≠ t.id ∧ u.refreshHash ≠ t.refreshHash) ?_ hr h
  rintro d e ⟨locks, ch, _, ha, rfl, free⟩ hd u hu
  obtain ⟨w, hw, rfl⟩ | hrow := mem_apply_tokens.mp hu
  · simpa using hd w hw
  · have hn := ha.row u hrow
    exact ⟨fun heq => free _ hid (heq ▸ hn.idHeld), fun heq => free _ hhash (heq ▸ hn.hashHeld)⟩

theorem rely_freshCode {i : ℕ} (hr : contract.rely held d e) (hheld : Key.code i ∈ held)
    (h : ∀ c ∈ d.codes, c.id ≠ i) : ∀ c ∈ e.codes, c.id ≠ i := by
  refine rely_stable (p := fun d => ∀ c ∈ d.codes, c.id ≠ i) ?_ hr h
  rintro d e ⟨locks, ch, _, ha, rfl, free⟩ hd c hc
  obtain ⟨k, hk, rfl⟩ | hnew := mem_apply_codes.mp hc
  · simpa using hd k hk
  · rintro rfl
    exact free _ hheld (ha.code c hnew).2.1

end Rely

end OAuth
