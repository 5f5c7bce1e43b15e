import StupaWorkflow.DraftFiles

/-!
What every interleaving of the draft writers keeps.
-/
namespace Files.Draft
open Py Filenames StorageKeys Uploads ReadCommitted List

section Contract

variable (s : Settings)

/-- What the committed rows satisfy: one owner or one existing token for each
attachment, and the limits of each token. -/
structure Inv (db : Db) : Prop where
  ids : (db.attachments.map (·.id)).Nodup
  hashes : (db.tokens.map (·.tokenHash)).Nodup
  oneOwner : ∀ a ∈ db.attachments, a.numNonnulls = 1
  issued : ∀ a ∈ db.attachments, ∀ h, a.draftTokenHash = some h → (db.token h).isSome
  files : ∀ h, (db.draftsOf h).length ≤ s.attachmentDraftMaxFiles
  bytes : ∀ h, db.draftBytes h ≤ s.attachmentDraftMaxBytes

def DraftAt (db : Db) (h : Digest) (id : Uuid) : Prop := ∃ a, db.row id = some a ∧ a.draftTokenHash = some h

def Same (d e : Db) : Key → Prop
  | .attachment id => e.row id = d.row id
  | .token h => e.token h = d.token h ∧ ∀ id, DraftAt e h id → DraftAt d h id
  | .upload h => (e.draftsOf h).length ≤ (d.draftsOf h).length ∧ e.draftBytes h ≤ d.draftBytes h

def KeepsBound (d e : Db) : Prop :=
  ∀ id a, d.row id = some a → a.draftTokenHash = none →
    ∃ b, e.row id = some b ∧ b.draftTokenHash = none ∧ b.ownerIds = a.ownerIds

def Binds (owner : Owner) (ids : List Uuid) (d e : Db) : Prop :=
  ∃ h, ∀ id ∈ ids, ∃ a, d.row id = some a ∧ a.draftTokenHash = some h ∧ e.row id = some (a.bind owner)

def RemovesExpired (now : Time) (d e : Db) : Prop :=
  ∀ id a, d.row id = some a → e.row id = none →
    ∃ h t, a.draftTokenHash = some h ∧ d.token h = some t ∧ t.expiresAt ≤ now

def Effect (r : DraftRequest) (d e : Db) : Prop :=
  match r with
  | .create owner _ ids _ _ => Binds owner ids d e
  | .purgeBatch now | .purgeTokens now => RemovesExpired now d e
  | _ => True

def contract : Contract DraftRequest Db Key where
  inv := Inv s
  rely held d e := ∀ k ∈ held, Same d e k
  guar r held d e := (∀ k, k ∉ held → Same d e k) ∧ KeepsBound d e ∧ Effect r d e
  refl held d k _ := by
    cases k with
    | attachment id => rfl
    | token h => exact ⟨rfl, fun _ hd => hd⟩
    | upload h => exact ⟨le_refl _, le_refl _⟩
  trans {held d e f} h h' k hk := by
    have hd := h k hk
    have he := h' k hk
    cases k with
    | attachment id => exact he.trans hd
    | token h => exact ⟨he.1.trans hd.1, fun id hid => hd.2 id (he.2 id hid)⟩
    | upload h => exact ⟨he.1.trans hd.1, he.2.trans hd.2⟩
  compat _ hguar hfree k hk := hguar.1 k (hfree.not_mem hk)

end Contract

section Rows

variable {s : Settings} {d e : Db} {id : Uuid} {a b : Attachment} {h : Digest}

theorem row_of_mem (hids : (d.attachments.map (·.id)).Nodup) (ha : a ∈ d.attachments) : d.row a.id = some a :=
  Table.find_of_mem hids ha rfl

theorem token_some {t : DraftToken} (hr : d.token h = some t) : t ∈ d.tokens ∧ t.tokenHash = h := Table.of_find hr

/-- How a statement changes the rows one by one: a row may go, lose its token for
an owner or change its scan columns. -/
structure Shrinks (g : Attachment → Option Attachment) : Prop where
  id : ∀ a b, g a = some b → b.id = a.id
  size : ∀ a b, g a = some b → b.size = a.size
  draft : ∀ a b h, g a = some b → b.draftTokenHash = some h → a.draftTokenHash = some h ∧ b.applicationId = a.applicationId
  oneOwner : ∀ a b, g a = some b → a.numNonnulls = 1 → b.numNonnulls = 1

variable {g : Attachment → Option Attachment}

theorem row_filterMap (hids : (d.attachments.map (·.id)).Nodup) (hg : Shrinks g)
    (he : e.attachments = d.attachments.filterMap g) (id : Uuid) : e.row id = (d.row id).bind g := by
  unfold Db.row
  rw [he]
  generalize d.attachments = rows at hids
  clear he
  induction rows with
  | nil => rfl
  | cons a rest ih =>
    simp only [map_cons, nodup_cons] at hids
    rw [find?_cons]
    by_cases hid : a.id = id
    · rw [decide_eq_true hid, filterMap_cons]
      cases hga : g a with
      | none =>
        -- the id is gone: the other rows have other ids
        simp only [Option.bind_some, hga]
        refine find?_eq_none.mpr fun b hb => ?_
        obtain ⟨c, hc, hcb⟩ := mem_filterMap.mp hb
        have hne : c.id ≠ a.id := fun heq => hids.1 (heq ▸ mem_map_of_mem hc)
        simpa [hg.id c b hcb, ← hid] using hne
      | some b =>
        simp only [Option.bind_some, hga]
        rw [find?_cons_of_pos (by simp [hg.id a b hga, hid])]
    · rw [decide_eq_false hid, filterMap_cons]
      cases hga : g a with
      | none => exact ih hids.2
      | some b =>
        rw [find?_cons_of_neg (by simp [hg.id a b hga, hid])]
        exact ih hids.2

theorem drafts_filterMap (hg : Shrinks g) (rows : List Attachment) (h : Digest) :
    ((rows.filterMap g).filter (·.draftOf h)).length ≤ (rows.filter (·.draftOf h)).length ∧
      (((rows.filterMap g).filter (·.draftOf h)).map (·.size)).sum ≤ ((rows.filter (·.draftOf h)).map (·.size)).sum := by
  induction rows with
  | nil => exact ⟨le_refl _, le_refl _⟩
  | cons a rest ih =>
    have hmore : (rest.filter (·.draftOf h)).length ≤ ((a :: rest).filter (·.draftOf h)).length ∧
        ((rest.filter (·.draftOf h)).map (·.size)).sum ≤ (((a :: rest).filter (·.draftOf h)).map (·.size)).sum := by
      rw [filter_cons]
      split
      · simp
      · exact ⟨le_refl _, le_refl _⟩
    rw [filterMap_cons]
    cases hga : g a with
    | none => exact ⟨ih.1.trans hmore.1, ih.2.trans hmore.2⟩
    | some b =>
      simp only
      by_cases hb : b.draftOf h
      · have hdraft : b.draftTokenHash = some h ∧ b.applicationId = none := by
          simpa [Attachment.draftOf, and_comm] using hb
        obtain ⟨hhash, happ⟩ := hg.draft a b h hga hdraft.1
        have ha : a.draftOf h := by simp [Attachment.draftOf, hhash, ← happ, hdraft.2]
        simp only [filter_cons, hb, ha, if_true, length_cons, map_cons, sum_cons,
          hg.size a b hga]
        exact ⟨Nat.succ_le_succ ih.1, Nat.add_le_add_left ih.2 _⟩
      · simp only [filter_cons (x := b), hb, Bool.false_eq_true, if_false]
        exact ⟨ih.1.trans hmore.1, ih.2.trans hmore.2⟩

theorem inv_filterMap (hinv : Inv s d) (hg : Shrinks g) (he : e.attachments = d.attachments.filterMap g)
    (hhashes : (e.tokens.map (·.tokenHash)).Nodup)
    (hissued : ∀ a ∈ e.attachments, ∀ h, a.draftTokenHash = some h → (e.token h).isSome) : Inv s e := by
  have hdrafts := drafts_filterMap hg d.attachments
  refine ⟨?_, hhashes, ?_, hissued, ?_, ?_⟩
  · rw [he]
    exact Table.nodup_filterMap hinv.ids hg.id
  · intro b hb
    rw [he] at hb
    obtain ⟨a, ha, hab⟩ := mem_filterMap.mp hb
    exact hg.oneOwner a b hab (hinv.oneOwner a ha)
  · intro h
    rw [Db.draftsOf, he]
    exact (hdrafts h).1.trans (hinv.files h)
  · intro h
    rw [Db.draftBytes, Db.draftsOf, he]
    exact (hdrafts h).2.trans (hinv.bytes h)

theorem inv_filterMap_same (hinv : Inv s d) (hg : Shrinks g) (he : e.attachments = d.attachments.filterMap g)
    (ht : e.tokens = d.tokens) : Inv s e := by
  refine inv_filterMap hinv hg he (ht ▸ hinv.hashes) fun b hb h hh => ?_
  rw [he] at hb
  obtain ⟨a, ha, hab⟩ := mem_filterMap.mp hb
  rw [Db.token, ht]
  exact hinv.issued a ha h (hg.draft a b h hab hh).1

/-- Keys that nobody locked stay the same when rows only shrink: the changed rows
and tokens are locked. -/
theorem same_filterMap (hinv : Inv s d) (hg : Shrinks g) (he : e.attachments = d.attachments.filterMap g)
    {held : List Key} (hrow : ∀ id, Key.attachment id ∉ held → ∀ a, d.row id = some a → g a = some a)
    (htoken : ∀ h, Key.token h ∉ held → e.token h = d.token h) : ∀ k, k ∉ held → Same d e k := by
  intro k hk
  have hrows := row_filterMap hinv.ids hg he
  cases k with
  | attachment id =>
    rw [Same, hrows]
    cases hd : d.row id with
    | none => rfl
    | some a => exact hrow id hk a hd
  | token h =>
    refine ⟨htoken h hk, ?_⟩
    rintro id ⟨b, hb, hh⟩
    rw [hrows] at hb
    obtain ⟨a, ha, hab⟩ := Option.bind_eq_some_iff.mp hb
    exact ⟨a, ha, (hg.draft a b h hab hh).1⟩
  | upload h =>
    have := drafts_filterMap hg d.attachments h
    simpa only [Same, Db.draftBytes, Db.draftsOf, he] using this

end Rows

section Statements

variable {s : Settings} {d : Db} {id : Uuid}
variable {p : Attachment → Bool} {a : Attachment}

def dropIf (p : Attachment → Bool) (a : Attachment) : Option Attachment := if p a then none else some a

theorem dropIf_some {b : Attachment} (h : dropIf p a = some b) : p a = false ∧ b = a := by
  unfold dropIf at h
  split at h
  · cases h
  · next hp => exact ⟨by simpa using hp, (Option.some.inj h).symm⟩

theorem shrinks_dropIf (p : Attachment → Bool) : Shrinks (dropIf p) where
  id a b h := by rw [(dropIf_some h).2]
  size a b h := by rw [(dropIf_some h).2]
  draft a b k h hk := by
    rw [(dropIf_some h).2] at hk ⊢
    exact ⟨hk, rfl⟩
  oneOwner a b h ha := by rwa [(dropIf_some h).2]

theorem filterMap_dropIf (p : Attachment → Bool) (rows : List Attachment) :
    rows.filter (fun a => !p a) = rows.filterMap (dropIf p) := by
  rw [← filterMap_eq_filter]
  congr 1
  funext a
  cases hp : p a <;> simp [dropIf, hp, Option.guard]

theorem deleteWhere_rows (p : Attachment → Bool) (d : Db) :
    (d.deleteWhere p).attachments = d.attachments.filterMap (dropIf p) := filterMap_dropIf p d.attachments

def changeIf (p : Attachment → Bool) (f : Attachment → Attachment) (a : Attachment) : Option Attachment :=
  some (if p a then f a else a)

theorem updateWhere_rows (p : Attachment → Bool) (f : Attachment → Attachment) (d : Db) :
    (d.updateWhere p f).attachments = d.attachments.filterMap (changeIf p f) := by
  rw [Db.updateWhere, ← filterMap_eq_map]
  rfl

theorem shrinks_changeIf {f : Attachment → Attachment} (hid : ∀ a, (f a).id = a.id) (hsize : ∀ a, (f a).size = a.size)
    (hdraft : ∀ a h, (f a).draftTokenHash = some h → a.draftTokenHash = some h ∧ (f a).applicationId = a.applicationId)
    (hone : ∀ a, p a → a.numNonnulls = 1 → (f a).numNonnulls = 1) : Shrinks (changeIf p f) where
  id a b h := by
    obtain rfl := Option.some.inj h
    split
    · exact hid a
    · rfl
  size a b h := by
    obtain rfl := Option.some.inj h
    split
    · exact hsize a
    · rfl
  draft a b k h hk := by
    obtain rfl := Option.some.inj h
    split at hk
    · next hp =>
        rw [if_pos hp]
        exact hdraft a k hk
    · next hp =>
        rw [if_neg hp]
        exact ⟨hk, rfl⟩
  oneOwner a b h ha := by
    obtain rfl := Option.some.inj h
    split
    · next hp => exact hone a hp ha
    · exact ha

theorem bind_keeps (owner : Owner) (a : Attachment) :
    (a.bind owner).id = a.id ∧ (a.bind owner).size = a.size ∧ (a.bind owner).draftTokenHash = none := by
  rcases owner with i | i | ⟨kind, i⟩
  · exact ⟨rfl, rfl, rfl⟩
  · exact ⟨rfl, rfl, rfl⟩
  · cases kind <;> exact ⟨rfl, rfl, rfl⟩

theorem bindable_spec {ids : List Uuid} {h : Digest} :
    a.bindable ids h = true ↔ a.id ∈ ids ∧ a.ownerIds.all (·.isNone) = true ∧ a.draftTokenHash = some h := by
  simp [Attachment.bindable, and_assoc]

theorem bind_numNonnulls (owner : Owner) (h : a.ownerIds.all (·.isNone) = true) : (a.bind owner).numNonnulls = 1 := by
  obtain ⟨id, application, ticket, note, todo, comment, hash, size, key, scanned, result⟩ := a
  simp only [Attachment.ownerIds, all_cons, all_nil, Bool.and_true, Bool.and_eq_true,
    Option.isNone_iff_eq_none] at h
  obtain ⟨rfl, rfl, rfl, rfl, rfl⟩ := h
  rcases owner with i | i | ⟨kind, i⟩
  · rfl
  · rfl
  · cases kind <;> rfl

theorem shrinks_bind (owner : Owner) (ids : List Uuid) (h : Digest) :
    Shrinks (changeIf (·.bindable ids h) (·.bind owner)) :=
  shrinks_changeIf (fun a => (bind_keeps owner a).1) (fun a => (bind_keeps owner a).2.1)
    (fun a k hk => by
      rw [(bind_keeps owner a).2.2] at hk
      cases hk)
    (fun a hp _ => bind_numNonnulls owner (bindable_spec.mp hp).2.1)

theorem shrinks_scan (verdict : ScanVerdict) (p : Attachment → Bool) :
    Shrinks (changeIf p (recordVerdict verdict)) :=
  shrinks_changeIf (fun _ => rfl) (fun _ => rfl) (fun _ _ hk => ⟨hk, rfl⟩) (fun _ _ ha => ha)

theorem draftOf_spec {h : Digest} : a.draftOf h = true ↔ a.applicationId = none ∧ a.draftTokenHash = some h := by
  simp [Attachment.draftOf]

end Statements

section Commit

variable {s : Settings} {r : DraftRequest} {d e : Db} {held : List Key} {g : Attachment → Option Attachment}

theorem keepsBound_filterMap (hinv : Inv s d) (hg : Shrinks g) (he : e.attachments = d.attachments.filterMap g)
    (hbound : ∀ i a, d.row i = some a → a.draftTokenHash = none →
      ∃ b, g a = some b ∧ b.draftTokenHash = none ∧ b.ownerIds = a.ownerIds) : KeepsBound d e := by
  intro i a ha hnone
  obtain ⟨b, hb, hb'⟩ := hbound i a ha hnone
  exact ⟨b, by rw [row_filterMap hinv.ids hg he, ha, Option.bind_some, hb], hb'⟩

theorem commit_rows (hinv : Inv s d) (hg : Shrinks g) (he : e.attachments = d.attachments.filterMap g)
    (ht : e.tokens = d.tokens)
    (hrow : ∀ i, Key.attachment i ∉ held → ∀ a, d.row i = some a → g a = some a)
    (hbound : ∀ i a, d.row i = some a → a.draftTokenHash = none →
      ∃ b, g a = some b ∧ b.draftTokenHash = none ∧ b.ownerIds = a.ownerIds)
    (heffect : (∀ i, e.row i = (d.row i).bind g) → Effect r d e) :
    Inv s e ∧ (contract s).guar r held d e := by
  have hsame : ∀ k, k ∉ held → Same d e k := same_filterMap hinv hg he hrow fun h _ => by rw [Db.token, Db.token, ht]
  exact ⟨inv_filterMap_same hinv hg he ht, hsame, keepsBound_filterMap hinv hg he hbound,
    heffect (row_filterMap hinv.ids hg he)⟩

def Locked (p : Attachment → Bool) (held : List Key) (d : Db) (rows : List Attachment) : Prop :=
  ∀ a ∈ rows, Key.attachment a.id ∈ held ∧ d.row a.id = some a ∧ p a = true

theorem Locked.stable {p : Attachment → Bool} {rows : List Attachment} (h : Locked p held d rows)
    (hrely : (contract s).rely held d e) : Locked p held e rows := by
  intro a ha
  obtain ⟨hk, hrow, hp⟩ := h a ha
  exact ⟨hk, (hrely _ hk).trans hrow, hp⟩

end Commit

section Programs

variable {U : Unicode} {O : Outside} {s : Settings} {r : DraftRequest} {d : Db} {held : List Key}
variable {p : Attachment → Bool} {ids : List Uuid} {now : Time} {h : Digest} {hashes : List Digest}

theorem wp_lockMatching {i : Uuid} {Q : Option Attachment → Loc Db Key → Db → Prop}
    (hmiss : ∀ e, (contract s).rely held d e → Inv s e → (e.row i).filter p = none → Q none ⟨id, held⟩ e)
    (hlock : ∀ e a, (contract s).rely held d e → Inv s e → e.row i = some a → p a = true →
      Q (some a) ⟨id, .attachment i :: held⟩ e) :
    wp (contract s) r (lockMatching p i) Q ⟨id, held⟩ d := by
  rw [lockMatching, wp_do, wp_lockRow]
  intro e hrely hinv
  cases hrow : (e.row i).filter p with
  | none =>
    simp only [id_eq, hrow, Option.map_none, wp_return]
    exact hmiss e hrely hinv hrow
  | some a =>
    simp only [id_eq, hrow, Option.map_some, wp_return]
    obtain ⟨ha, hp⟩ := Option.filter_eq_some_iff.mp hrow
    exact hlock e a hrely hinv ha hp

/-- A statement over several rows: it returns locked rows, and `D` holds of every
row that it did not lock. -/
theorem wp_lockAll {is : List Uuid} {D : Uuid → Db → Prop} {Q : List Attachment → Loc Db Key → Db → Prop}
    (hdone : ∀ i e, (e.row i).filter p = none → D i e) (hstable : ∀ i e f, (contract s).rely held e f → D i e → D i f)
    (h : ∀ rows held' e, (∀ k ∈ held, k ∈ held') → (contract s).rely held d e → Locked p held' e rows →
      (∀ i ∈ is, Key.attachment i ∈ held' ∨ D i e) → Q rows ⟨id, held'⟩ e) :
    wp (contract s) r (Prog.collect (fun _ => lockMatching p) is []) Q ⟨id, held⟩ d := by
  -- the entries that are no longer to come are locked or done
  let J (rest : List Uuid) (rows : List Attachment) (l : Loc Db Key) (e : Db) : Prop :=
    ∃ held', l = ⟨id, held'⟩ ∧ (∀ k ∈ held, k ∈ held') ∧ (contract s).rely held d e ∧ Locked p held' e rows ∧
      ∀ i ∈ is, i ∈ rest ∨ Key.attachment i ∈ held' ∨ D i e
  have hstart : J is [] ⟨id, held⟩ d :=
    ⟨held, rfl, fun _ hk => hk, (contract s).refl _ _, by simp [Locked], fun i hi => .inl hi⟩
  refine wp_mono ?_ (wp_collect _ J ?_ is [] hstart)
  · rintro rows _ e ⟨held', rfl, hsub, hrely, hlocked, hall⟩
    exact h rows held' e hsub hrely hlocked fun i hi => (hall i hi).resolve_left (by simp)
  · rintro i rest rows _ e ⟨held', rfl, hsub, hrely, hlocked, hall⟩
    have hold : ∀ f, (contract s).rely held' e f → (contract s).rely held e f := fun f hf k hk => hf k (hsub k hk)
    apply wp_lockMatching
    · intro f hf hinv hnone
      refine ⟨held', rfl, hsub, (contract s).trans hrely (hold f hf), by simpa using hlocked.stable hf, ?_⟩
      intro j hj
      rcases hall j hj with hrest | hkey | hd
      · rcases mem_cons.mp hrest with rfl | hrest
        · exact .inr (.inr (hdone j f hnone))
        · exact .inl hrest
      · exact .inr (.inl hkey)
      · exact .inr (.inr (hstable j e f (hold f hf) hd))
    · intro f a hf hinv hrow hp
      refine ⟨_, rfl, fun k hk => mem_cons_of_mem _ (hsub k hk), (contract s).trans hrely (hold f hf), ?_, ?_⟩
      · intro b hb
        rcases mem_append.mp hb with hb | hb
        · obtain ⟨hk, hbrow, hbp⟩ := hlocked.stable hf b hb
          exact ⟨mem_cons_of_mem _ hk, hbrow, hbp⟩
        · obtain rfl : b = a := by simpa using hb
          rw [(row_some hrow).2]
          exact ⟨mem_cons_self, hrow, hp⟩
      · intro j hj
        rcases hall j hj with hrest | hkey | hd
        · rcases mem_cons.mp hrest with rfl | hrest
          · exact .inr (.inl mem_cons_self)
          · exact .inl hrest
        · exact .inr (.inl (mem_cons_of_mem _ hkey))
        · exact .inr (.inr (hstable j e f (hold f hf) hd))

theorem delete_keeps (i : Uuid) (token : Text) : Keeps (contract s) (.delete i token) (delete s i token) := by
  intro d _
  simp only [delete, wp_do, wp_ofExcept, wp_query, wp_require]
  intro hash _ e _ _ _
  apply wp_lockMatching
  · intro f _ _ _ h
    cases h
  · intro f a _ _ hrow hp _
    rw [wp_update, wp_publish]
    intro c _ hinv
    have hcommit : Inv s (c.deleteWhere fun a => a.id = i && a.draftOf hash) ∧
        (contract s).guar (.delete i token) [.attachment i] c (c.deleteWhere fun a => a.id = i && a.draftOf hash) := by
      refine commit_rows hinv (shrinks_dropIf _) (deleteWhere_rows _ _) rfl ?_ ?_ (fun _ => trivial)
      · intro j hj b hb
        have hne : b.id ≠ i := by
          rw [(row_some hb).2]
          simpa using hj
        simp [dropIf, hne]
      · intro j b hb hnone
        exact ⟨b, by simp [dropIf, Attachment.draftOf, hnone], hnone, rfl⟩
    exact ⟨hcommit.1, hcommit.2, trivial⟩

theorem finalizeScan_keeps (i : Uuid) (verdict : ScanVerdict) :
    Keeps (contract s) (.finalizeScan i verdict) (finalizeScan i verdict) := by
  intro d _
  rw [finalizeScan, wp_do, wp_query]
  intro e _ hinv
  cases hload : e.row i with
  | none =>
    simp only [Loc.fresh, id_eq, hload]
    trivial
  | some a =>
    simp only [Loc.fresh, id_eq, hload]
    split
    · rw [wp_do]
      apply wp_lockMatching
      · intro f _ _ _
        simp
      · intro f b _ _ _ _
        simp only [Option.isSome_some, wp_do, wp_require, wp_update, wp_publish]
        intro _ c _ hinv
        have hcommit : Inv s (c.updateWhere (·.id = i) (recordVerdict verdict)) ∧
            (contract s).guar (.finalizeScan i verdict) [.attachment i] c
              (c.updateWhere (·.id = i) (recordVerdict verdict)) := by
          refine commit_rows hinv (shrinks_scan verdict _) (updateWhere_rows _ _ _) rfl ?_ ?_ (fun _ => trivial)
          · intro j hj b hb
            have hne : b.id ≠ i := by
              rw [(row_some hb).2]
              simpa using hj
            simp [changeIf, hne]
          · intro j b _ hnone
            refine ⟨_, rfl, ?_, ?_⟩
            · split
              · exact hnone
              · exact hnone
            · split
              · rfl
              · rfl
        exact ⟨hcommit.1, hcommit.2, trivial⟩
    · rw [wp_publish]
      intro c _ hinv
      have hsame : ∀ k, Same c c k := fun k => (contract s).refl [k] c k mem_cons_self
      exact ⟨hinv, ⟨fun k _ => hsame k, fun j b hb hnone => ⟨b, hb, hnone, rfl⟩, trivial⟩, trivial⟩

theorem missingDrafts_empty {rows : List Attachment} {expiresAt : Option Time}
    (h : (missingDrafts ids rows expiresAt now).isEmpty = true) {i : Uuid} (hi : i ∈ ids) : ∃ a ∈ rows, a.id = i := by
  rw [List.isEmpty_iff, missingDrafts, List.filter_eq_nil_iff] at h
  have hany := h i (List.mem_eraseDups.mpr hi)
  simp only [Bool.not_eq_true', Bool.not_eq_false, List.any_eq_true, Bool.and_eq_true, decide_eq_true_eq] at hany
  obtain ⟨a, ha, hid, _⟩ := hany
  exact ⟨a, ha, hid⟩

theorem draft_bindable {a : Attachment} (hone : a.numNonnulls = 1) (hl : a.listedDraft ids h = true) :
    a.bindable ids h = true := by
  simp only [Attachment.listedDraft, Bool.and_eq_true, contains_iff_mem, draftOf_spec] at hl
  obtain ⟨hid, _, hhash⟩ := hl
  refine bindable_spec.mpr ⟨hid, ?_, hhash⟩
  simp only [Attachment.numNonnulls, hhash, Option.isSome_some, Bool.toNat_true, Nat.add_eq_right,
    countP_eq_zero] at hone
  refine all_eq_true.mpr fun x hx => ?_
  simpa using hone x hx

theorem create_keeps (owner : Owner) (parent : Uuid) (ids : List Uuid) (token : Text) (now : Time) :
    Keeps (contract s) (.create owner parent ids token now) (create s owner parent ids token now) := by
  intro d _
  simp only [create, wp_do, wp_ofExcept, wp_query]
  intro hash _ e _ _
  apply wp_lockAll (D := fun _ _ => True) (fun _ _ _ => trivial) (fun _ _ _ _ _ => trivial)
  intro rows held e' _ _ hlocked _ f hrely hinvf
  simp only [wp_require, wp_update, wp_publish]
  intro hmissing c hrely' hinv
  -- every listed draft is locked and still there at the commit
  have hcurrent : ∀ i ∈ ids, ∃ a, Key.attachment i ∈ held ∧ c.row i = some a ∧ a.listedDraft ids hash = true := by
    intro i hi
    obtain ⟨a, ha, rfl⟩ := missingDrafts_empty hmissing hi
    obtain ⟨hk, hrow, hp⟩ := (hlocked.stable hrely).stable hrely' a ha
    exact ⟨a, hk, hrow, hp⟩
  have hcommit : Inv s (({ c with owners := c.owners.add owner parent } : Db).updateWhere (·.bindable ids hash)
        (·.bind owner)) ∧
      (contract s).guar (.create owner parent ids token now) held c
        (({ c with owners := c.owners.add owner parent } : Db).updateWhere (·.bindable ids hash) (·.bind owner)) := by
    refine commit_rows hinv (shrinks_bind owner ids hash) (updateWhere_rows _ _ _) rfl ?_ ?_ ?_
    · intro i hi a ha
      have hnot : ¬ a.bindable ids hash = true := by
        intro hb
        rw [(row_some ha).2.symm] at hi
        exact hi (hcurrent a.id (bindable_spec.mp hb).1).choose_spec.1
      simp [changeIf, hnot]
    · intro i a ha hnone
      have hnot : ¬ a.bindable ids hash = true := fun hb => by
        have := (bindable_spec.mp hb).2.2
        rw [hnone] at this
        cases this
      exact ⟨a, by simp [changeIf, hnot], hnone, rfl⟩
    · intro hrows
      refine ⟨hash, fun i hi => ?_⟩
      obtain ⟨a, _, hrow, hl⟩ := hcurrent i hi
      have hb := draft_bindable (hinv.oneOwner a (row_some hrow).1) hl
      exact ⟨a, hrow, (bindable_spec.mp hb).2.2, by rw [hrows, hrow, Option.bind_some, changeIf, if_pos hb]⟩
  exact ⟨hcommit.1, hcommit.2, trivial⟩

def Purging (now : Time) (held : List Key) (d : Db) (ids : List Uuid) : Prop :=
  ∀ i ∈ ids, ∃ h, Key.attachment i ∈ held ∧ Key.token h ∈ held ∧ stillExpired d now i h = true

theorem Purging.stable {e : Db} (h : Purging now held d ids) (hrely : (contract s).rely held d e) : Purging now held e ids := by
  intro i hi
  obtain ⟨k, hrow, htoken, hexp⟩ := h i hi
  have hsame : e.row i = d.row i := hrely _ hrow
  have htok : e.token k = d.token k := (hrely _ htoken).1
  exact ⟨k, hrow, htoken, by rwa [stillExpired, hsame, htok]⟩

theorem Purging.mono {held' : List Key} (h : Purging now held d ids) (hsub : ∀ k ∈ held, k ∈ held') :
    Purging now held' d ids := by
  intro i hi
  obtain ⟨k, hrow, htoken, hexp⟩ := h i hi
  exact ⟨k, hsub _ hrow, hsub _ htoken, hexp⟩

theorem wp_lockExpired {draft : Uuid × Digest × Time} (h : Purging now held d ids) : wp (contract s) r (lockExpired now ids draft)
      (fun x l e => ∃ held', l = ⟨id, held'⟩ ∧ Purging now held' e (ids ++ x.toList)) ⟨id, held⟩ d := by
  unfold lockExpired
  split
  · exact ⟨held, rfl, by simpa using h⟩
  · rw [wp_do, wp_tryLock]
    intro e hrely _
    have he := h.stable hrely
    refine ⟨?_, ⟨held, rfl, by simpa using he⟩⟩
    simp only [Bool.not_true, Bool.false_eq_true, if_false, wp_do, wp_tryLock]
    have hkey : ∀ {k : Key} {l : List Key}, ∀ x ∈ l, x ∈ k :: l := fun x hx => mem_cons_of_mem _ hx
    intro f hf _
    have hgot := (he.mono hkey).stable hf
    refine ⟨?_, ⟨_, rfl, by simpa using hgot⟩⟩
    simp only [wp_query, wp_return]
    intro c hc _
    refine ⟨_, rfl, ?_⟩
    have hboth := (hgot.mono hkey).stable hc
    split
    · next hexp =>
        intro i hi
        rcases mem_append.mp hi with hi | hi
        · exact hboth i hi
        · obtain rfl : i = draft.1 := by simpa using hi
          exact ⟨draft.2.1, by simp, by simp, hexp⟩
    · simpa using hboth

theorem stillExpired_spec {i : Uuid} (hs : stillExpired d now i h = true) :
    ∃ a t, d.row i = some a ∧ a.draftTokenHash = some h ∧ d.token h = some t ∧ t.expiresAt ≤ now := by
  simp only [stillExpired, Bool.and_eq_true, Option.any_eq_true, decide_eq_true_eq] at hs
  obtain ⟨⟨a, ha, hdraft⟩, t, ht, hend⟩ := hs
  exact ⟨a, t, ha, (draftOf_spec.mp hdraft).2, ht, hend⟩

theorem purgeBatch_keeps (now : Time) : Keeps (contract s) (.purgeBatch now) (purgeBatch now) := by
  intro d _
  rw [purgeBatch, wp_do, wp_query]
  intro e _ _
  rw [wp_do]
  refine wp_mono ?_ (wp_collect _ (fun _ ids l e => ∃ held, l = ⟨id, held⟩ ∧ Purging now held e ids) ?_ _ []
    ⟨[], rfl, fun i hi => by cases hi⟩)
  · rintro ids _ f ⟨held, rfl, hpurging⟩
    split
    · trivial
    · simp only [wp_do, wp_update, wp_publish]
      intro c hrely hinv
      have hc := hpurging.stable hrely
      have hcommit : Inv s (c.deleteWhere fun a => ids.contains a.id) ∧
          (contract s).guar (.purgeBatch now) held c (c.deleteWhere fun a => ids.contains a.id) := by
        refine commit_rows hinv (shrinks_dropIf _) (deleteWhere_rows _ _) rfl ?_ ?_ ?_
        · intro i hi a ha
          have hnot : a.id ∉ ids := fun hmem => by
            rw [(row_some ha).2] at hmem
            exact hi (hc i hmem).choose_spec.1
          simp [dropIf, hnot]
        · intro i a ha hnone
          have hnot : a.id ∉ ids := fun hmem => by
            rw [(row_some ha).2] at hmem
            obtain ⟨h, _, _, hexp⟩ := hc i hmem
            obtain ⟨b, _, hb, hh, _⟩ := stillExpired_spec hexp
            rw [ha] at hb
            rw [← Option.some.inj hb, hnone] at hh
            cases hh
          exact ⟨a, by simp [dropIf, hnot], hnone, rfl⟩
        · intro hrows i a ha hgone
          rw [hrows, ha, Option.bind_some] at hgone
          have hmem : i ∈ ids := by
            by_contra hnot
            rw [← (row_some ha).2] at hnot
            simp [dropIf, hnot] at hgone
          obtain ⟨h, _, _, hexp⟩ := hc i hmem
          obtain ⟨b, t, hb, hh, ht, hend⟩ := stillExpired_spec hexp
          obtain rfl := Option.some.inj (ha.symm.trans hb)
          exact ⟨h, t, hh, ht, hend⟩
      exact ⟨hcommit.1, hcommit.2, trivial⟩
  · rintro draft rest ids _ f ⟨held, rfl, hpurging⟩
    exact wp_lockExpired hpurging

def PurgingTokens (now : Time) (held : List Key) (d : Db) (hashes : List Digest) : Prop :=
  ∀ h ∈ hashes, Key.token h ∈ held ∧ ∃ t, d.token h = some t ∧ t.expiresAt ≤ now

theorem PurgingTokens.stable {e : Db} (h : PurgingTokens now held d hashes) (hrely : (contract s).rely held d e) :
    PurgingTokens now held e hashes := by
  intro k hk
  obtain ⟨hheld, t, ht, hend⟩ := h k hk
  exact ⟨hheld, t, (hrely _ hheld).1.trans ht, hend⟩

theorem wp_lockExpiredToken {hash : Digest} (h : PurgingTokens now held d hashes) : wp (contract s) r (lockExpiredToken now hash)
      (fun x l e => ∃ held', l = ⟨id, held'⟩ ∧ PurgingTokens now held' e (hashes ++ x.toList)) ⟨id, held⟩ d := by
  rw [lockExpiredToken, wp_do, wp_lockRow]
  intro e hrely _
  have he := h.stable hrely
  by_cases hexp : (e.token hash).any (·.expiresAt ≤ now) = true
  · simp only [id_eq, hexp, if_true, wp_return]
    refine ⟨_, rfl, ?_⟩
    intro k hk
    rcases mem_append.mp hk with hk | hk
    · obtain ⟨hheld, hend⟩ := he k hk
      exact ⟨mem_cons_of_mem _ hheld, hend⟩
    · obtain rfl : k = hash := by simpa using hk
      obtain ⟨t, ht, hend⟩ := Option.any_eq_true _ _ |>.mp hexp
      exact ⟨mem_cons_self, t, ht, of_decide_eq_true hend⟩
  · simp only [id_eq, hexp, Bool.false_eq_true, if_false, wp_return]
    exact ⟨held, rfl, by simpa using he⟩

def cascades (d : Db) (hashes : List Digest) (a : Attachment) : Bool :=
  a.draftTokenHash.any fun h => d.tokens.any fun t => hashes.contains t.tokenHash && t.tokenHash = h

theorem cascades_spec {a : Attachment} (h : cascades d hashes a = true) : ∃ k ∈ hashes, a.draftTokenHash = some k := by
  simp only [cascades, Option.any_eq_true, any_eq_true, Bool.and_eq_true, contains_iff_mem,
    decide_eq_true_eq] at h
  obtain ⟨k, hk, t, _, hmem, rfl⟩ := h
  exact ⟨_, hmem, hk⟩

theorem deleteTokens_rows (hashes : List Digest) :
    (d.deleteTokens fun t => hashes.contains t.tokenHash).attachments =
      d.attachments.filterMap (dropIf (cascades d hashes)) :=
  filterMap_dropIf (cascades d hashes) d.attachments

theorem deleteTokens_token (hashes : List Digest) (hnot : h ∉ hashes) :
    (d.deleteTokens fun t => hashes.contains t.tokenHash).token h = d.token h := by
  simp only [Db.token, Db.deleteTokens, find?_filter]
  congr 1
  funext t
  by_cases ht : t.tokenHash = h
  · simp [ht, hnot]
  · simp [ht]

theorem deleteTokens_inv (hinv : Inv s d) : Inv s (d.deleteTokens fun t => hashes.contains t.tokenHash) := by
  refine inv_filterMap hinv (shrinks_dropIf _) (deleteTokens_rows hashes) ?_ ?_
  · exact hinv.hashes.sublist (filter_sublist.map _)
  · intro a ha h hh
    rw [deleteTokens_rows] at ha
    obtain ⟨b, hb, hdrop⟩ := mem_filterMap.mp ha
    obtain ⟨hkeep, rfl⟩ := dropIf_some hdrop
    have hissued := hinv.issued a hb h hh
    have hnot : h ∉ hashes := by
      intro hmem
      obtain ⟨t, ht⟩ := Option.isSome_iff_exists.mp hissued
      have htrue : cascades d hashes a = true := by
        simp only [cascades, hh, Option.any_some, any_eq_true, Bool.and_eq_true, contains_iff_mem,
          decide_eq_true_eq]
        exact ⟨t, (token_some ht).1, (token_some ht).2 ▸ hmem, (token_some ht).2⟩
      rw [hkeep] at htrue
      cases htrue
    rwa [deleteTokens_token hashes hnot]

theorem purgeTokens_keeps (now : Time) : Keeps (contract s) (.purgeTokens now) (purgeTokens now) := by
  intro d _
  rw [purgeTokens, wp_do, wp_query]
  intro e _ _
  simp only
  rw [wp_do]
  refine wp_mono ?_ (wp_collect _ (fun _ hashes l e => ∃ held, l = ⟨id, held⟩ ∧ PurgingTokens now held e hashes) ?_
    _ [] ⟨[], rfl, fun i hi => by cases hi⟩)
  · rintro hashes _ f ⟨held, rfl, hpurging⟩
    simp only [wp_do, wp_query]
    intro g hrelyg hinvg
    have hg := hpurging.stable hrelyg
    -- a draft of a locked token was there when the cascade started, so it is locked by now
    apply wp_lockAll (D := fun i e => ∀ h ∈ hashes, ¬ DraftAt e h i)
    · rintro i e hnone h hmem ⟨a, ha, hh⟩
      simp [ha, ofTokens, hh, hmem] at hnone
    · intro i e f hrely hgone h hmem hdraft
      exact hgone h hmem ((hrely _ (hg h hmem).1).2 i hdraft)
    · intro rows held' f' hsub hrely' hlocked hall
      rw [wp_update, wp_publish]
      intro c hrelyc hinv
      have hold : (contract s).rely held g c := (contract s).trans hrely' fun k hk => hrelyc k (hsub k hk)
      have hc := hg.stable hold
      have hdrafts : ∀ i a, c.row i = some a → cascades c hashes a = true → Key.attachment i ∈ held' := by
        intro i a ha hcas
        obtain ⟨h, hmem, hh⟩ := cascades_spec hcas
        have htoken := (hg h hmem).1
        obtain ⟨b, hb, hbh⟩ := (hold _ htoken).2 i ⟨a, ha, hh⟩
        have hlisted : i ∈ (g.attachments.filter (ofTokens hashes)).map (·.id) := by
          rw [← (row_some hb).2]
          exact mem_map_of_mem (mem_filter.mpr ⟨(row_some hb).1, by simp [ofTokens, hbh, hmem]⟩)
        refine (hall i hlisted).resolve_right fun hgone => ?_
        exact hgone h hmem ((hrelyc _ (hsub _ htoken)).2 i ⟨a, ha, hh⟩)
      have hrows := deleteTokens_rows (d := c) hashes
      have hshrinks := shrinks_dropIf (cascades c hashes)
      refine ⟨deleteTokens_inv hinv, ⟨?_, ?_, ?_⟩, trivial⟩
      · refine same_filterMap hinv hshrinks hrows ?_ ?_
        · intro i hi a ha
          have hnot : cascades c hashes a ≠ true := fun hcas => hi (hdrafts i a ha hcas)
          simp [dropIf, hnot]
        · intro h hh
          exact deleteTokens_token hashes fun hmem => hh (hsub _ (hg h hmem).1)
      · refine keepsBound_filterMap hinv hshrinks hrows ?_
        intro i a ha hnone
        exact ⟨a, by simp [dropIf, cascades, hnone], hnone, rfl⟩
      · intro i a ha hgone
        have hgone := (row_filterMap hinv.ids hshrinks hrows i).symm.trans hgone
        rw [ha, Option.bind_some] at hgone
        have hcas : cascades c hashes a = true := by
          by_contra hnot
          simp [dropIf, hnot] at hgone
        obtain ⟨h, hmem, hh⟩ := cascades_spec hcas
        obtain ⟨_, t, ht, hend⟩ := hc h hmem
        exact ⟨h, t, hh, ht, hend⟩
  · rintro hash rest hashes _ f ⟨held, rfl, hpurging⟩
    exact wp_lockExpiredToken hpurging

theorem checkQuota_ok {size : ℕ} {u : Unit} (hq : checkQuota s d h size = .ok u) :
    (d.draftsOf h).length + 1 ≤ s.attachmentDraftMaxFiles ∧ d.draftBytes h + size ≤ s.attachmentDraftMaxBytes := by
  unfold checkQuota at hq
  split at hq
  · cases hq
  · split at hq
    · cases hq
    · omega

theorem upsertToken_hashes (h : Digest) (t : Time) :
    (d.upsertToken h t).tokens.map (·.tokenHash) =
      if (d.token h).isSome then d.tokens.map (·.tokenHash) else d.tokens.map (·.tokenHash) ++ [h] := by
  unfold Db.upsertToken
  split
  · rw [map_map]
    refine map_congr_left fun x _ => ?_
    simp only [Function.comp]
    split <;> rfl
  · simp

theorem upsertToken_rows (h : Digest) (t : Time) : (d.upsertToken h t).attachments = d.attachments := by
  unfold Db.upsertToken
  split <;> rfl

theorem token_isSome : (d.token h).isSome = true ↔ h ∈ d.tokens.map (·.tokenHash) := by
  simp [Db.token, find?_isSome]

theorem upsertToken_other {h' : Digest} (t : Time) (hne : h' ≠ h) : (d.upsertToken h t).token h' = d.token h' := by
  unfold Db.upsertToken
  split
  · simp only [Db.token, find?_map]
    have hcond : ((fun x : DraftToken => decide (x.tokenHash = h')) ∘
        fun x => if x.tokenHash = h then { x with expiresAt := t } else x) = fun x => decide (x.tokenHash = h') := by
      funext x
      simp only [Function.comp]
      split <;> rfl
    rw [hcond]
    cases hfind : d.tokens.find? (·.tokenHash = h') with
    | none => rfl
    | some x =>
      have hx : x.tokenHash = h' := by simpa using find?_some hfind
      simp [hx, hne]
  · simp [Db.token, find?_append, hne.symm]

theorem row_append (a : Attachment) (i : Uuid) :
    (d.append a).row i = (d.row i).or (if a.id = i then some a else none) := by
  rw [Db.row, Db.append, find?_append, Db.row]
  congr 1
  by_cases h : a.id = i <;> simp [h]

theorem commit_upload {t : Time} (row : Attachment) (hinv : Inv s d) (hnew : d.row row.id = none) (hallowed : row.allowed = true)
    (hhash : row.draftTokenHash = some h) (hfiles : (d.draftsOf h).length + 1 ≤ s.attachmentDraftMaxFiles)
    (hbytes : d.draftBytes h + row.size ≤ s.attachmentDraftMaxBytes) (heffect : ∀ e, Effect r d e) :
    Inv s ((d.upsertToken h t).append row) ∧
      (contract s).guar r [.attachment row.id, .token h, .upload h] d ((d.upsertToken h t).append row) := by
  have hattachments : ((d.upsertToken h t).append row).attachments = d.attachments ++ [row] := by
    rw [Db.append, upsertToken_rows]
  have htokens : ∀ k, ((d.upsertToken h t).append row).token k = (d.upsertToken h t).token k := fun _ => rfl
  have hrows : ∀ i, ((d.upsertToken h t).append row).row i = (d.row i).or (if row.id = i then some row else none) := by
    intro i
    rw [row_append, Db.row, upsertToken_rows, Db.row]
  have hother : ∀ k, k ≠ h → ((d.upsertToken h t).append row).draftsOf k = d.draftsOf k := by
    intro k hk
    rw [Db.draftsOf, hattachments, filter_append, filter_singleton]
    simp [Attachment.draftOf, hhash, hk.symm, Db.draftsOf]
  have hown : (((d.upsertToken h t).append row).draftsOf h).length ≤ (d.draftsOf h).length + 1 ∧
      ((d.upsertToken h t).append row).draftBytes h ≤ d.draftBytes h + row.size := by
    rw [Db.draftBytes, Db.draftsOf, hattachments, filter_append, filter_singleton, Db.draftBytes, Db.draftsOf]
    cases row.draftOf h with
    | true => simp
    | false => simp
  refine ⟨⟨?_, ?_, ?_, ?_, ?_, ?_⟩, ?_, ?_, heffect _⟩
  · rw [hattachments]
    refine Table.nodup_insert hinv.ids fun b hb heq => ?_
    have hrow := row_of_mem hinv.ids hb
    have heq : b.id = row.id := heq
    rw [heq, hnew] at hrow
    cases hrow
  · show ((d.upsertToken h t).tokens.map (·.tokenHash)).Nodup
    rw [upsertToken_hashes]
    split
    · exact hinv.hashes
    · next hnone =>
        rw [token_isSome] at hnone
        rw [nodup_append]
        refine ⟨hinv.hashes, by simp, fun i hi j hj heq => hnone ?_⟩
        rw [mem_singleton.mp hj] at heq
        exact heq ▸ hi
  · intro a ha
    rw [hattachments] at ha
    rcases mem_append.mp ha with ha | ha
    · exact hinv.oneOwner a ha
    · rw [mem_singleton.mp ha]
      simp only [Attachment.allowed, Bool.and_eq_true, beq_iff_eq] at hallowed
      exact hallowed.2
  · intro a ha k hk
    have hmem : k = h ∨ k ∈ d.tokens.map (·.tokenHash) := by
      rw [hattachments] at ha
      rcases mem_append.mp ha with ha | ha
      · exact .inr (token_isSome.mp (hinv.issued a ha k hk))
      · rw [mem_singleton.mp ha, hhash] at hk
        exact .inl (Option.some.inj hk).symm
    rw [htokens, token_isSome, upsertToken_hashes]
    split
    · next hsome => exact hmem.elim (fun heq => heq ▸ token_isSome.mp hsome) (fun hk => hk)
    · exact hmem.elim (fun heq => by simp [heq]) (fun hk => mem_append_left _ hk)
  · intro k
    by_cases hk : k = h
    · exact hk ▸ hown.1.trans hfiles
    · exact hother k hk ▸ hinv.files k
  · intro k
    by_cases hk : k = h
    · exact hk ▸ hown.2.trans hbytes
    · rw [Db.draftBytes, hother k hk]
      exact hinv.bytes k
  · intro k hk
    simp only [mem_cons, not_mem_nil, or_false, not_or] at hk
    cases k with
    | attachment i =>
      have hne : row.id ≠ i := fun heq => hk.1 (heq ▸ rfl)
      rw [Same, hrows, if_neg hne, Option.or_none]
    | token k =>
      have hne : k ≠ h := fun heq => hk.2.1 (heq ▸ rfl)
      refine ⟨(htokens k).trans (upsertToken_other t hne), ?_⟩
      rintro i ⟨a, ha, hak⟩
      rw [hrows] at ha
      rcases Option.or_eq_some_iff.mp ha with ha | ⟨_, ha⟩
      · exact ⟨a, ha, hak⟩
      · split at ha
        · rw [← Option.some.inj ha, hhash] at hak
          exact absurd (Option.some.inj hak).symm hne
        · cases ha
    | upload k =>
      have hne : k ≠ h := fun heq => hk.2.2 (heq ▸ rfl)
      rw [Same, Db.draftBytes, hother k hne]
      exact ⟨le_refl _, le_refl _⟩
  · intro i a ha hnone
    exact ⟨a, by rw [hrows, ha, Option.some_or], hnone, rfl⟩

theorem upload_keeps (token : Option Text) (generated : Text) (filename : Option Text) (data : Bytes) (now : Time)
    (i : Uuid) : Keeps (contract s) (.upload token generated filename data now i)
      (upload U O s token generated filename data now i) := by
  intro d _
  simp only [upload, wp_do, wp_ofExcept, wp_lockRow, wp_query, wp_require, wp_update, wp_publish]
  rintro ⟨_, displayName⟩ _ hash _ d₁ _ _ d₂ hrely₂ _ _ d₃ _ _ _ hquota d₄ hrely₄ _ d₅ hrely₅ _ hrow c hrely hinv
  obtain ⟨hfiles, hbytes⟩ := checkQuota_ok hquota
  -- the advisory lock of the token keeps the counted drafts until the commit
  have hupload : Same d₃ c (.upload hash) := by
    have h₄ := hrely₄ (.upload hash) (by simp)
    have h₅ := hrely₅ (.upload hash) (by simp)
    have h₆ := hrely (.upload hash) (by simp)
    exact ⟨h₆.1.trans (h₅.1.trans h₄.1), h₆.2.trans (h₅.2.trans h₄.2)⟩
  have hid : c.row i = d₅.row i := hrely (.attachment i) (by simp)
  simp only [Bool.and_eq_true, Option.isNone_iff_eq_none] at hrow
  have hnone : c.row i = none := by
    rw [hid]
    have := hrow.2
    rwa [Function.comp, Db.row, upsertToken_rows] at this
  have hcommit := commit_upload (r := .upload token generated filename data now i)
    (t := now + days s.attachmentDraftTtlDays) (draftRow i hash data.length (draftKey U i displayName)) hinv hnone hrow.1 rfl
    ((Nat.add_le_add_right hupload.1 1).trans hfiles) ((Nat.add_le_add_right hupload.2 _).trans hbytes)
    (fun _ => trivial)
  exact ⟨hcommit.1, hcommit.2, trivial⟩

theorem script_keeps (r : DraftRequest) : Keeps (contract s) r (script U O s r) := by
  cases r with
  | upload token generated filename data now i => exact upload_keeps token generated filename data now i
  | delete i token => exact delete_keeps i token
  | create owner parent ids token now => exact create_keeps owner parent ids token now
  | purgeBatch now => exact purgeBatch_keeps now
  | purgeTokens now => exact purgeTokens_keeps now
  | finalizeScan i verdict => exact finalizeScan_keeps i verdict

end Programs

section Laws

variable {U : Unicode} {O : Outside} {s : Settings} {sys sys' : Sys DraftRequest Db Key Problem}

def noFiles (owners : Owners) : Db := ⟨owners, [], []⟩

theorem inv_noFiles (owners : Owners) : Inv s (noFiles owners) :=
  ⟨by simp [noFiles], by simp [noFiles], by simp [noFiles], by simp [noFiles],
    by simp [noFiles, Db.draftsOf], by simp [noFiles, Db.draftBytes, Db.draftsOf]⟩

theorem KeepsBound.refl (d : Db) : KeepsBound d d := fun _ a ha hnone => ⟨a, ha, hnone, rfl⟩

theorem KeepsBound.trans {a b c : Db} (h : KeepsBound a b) (h' : KeepsBound b c) : KeepsBound a c := by
  intro i x hx hnone
  obtain ⟨y, hy, hynone, howners⟩ := h i x hx hnone
  obtain ⟨z, hz, hznone, howners'⟩ := h' i y hy hynone
  exact ⟨z, hz, hznone, howners'.trans howners⟩

theorem commit_effect {owners : Owners} (h : Reachable (script U O s) (noFiles owners) sys) {i : ℕ}
    {t : Tx DraftRequest Db Key Problem} {next : P Unit} (hi : sys.live[i]? = some t) (hprog : t.prog = .commit next) :
    KeepsBound sys.db (t.loc.pend sys.db) ∧ Effect t.req sys.db (t.loc.pend sys.db) := by
  have hsound := run_sound script_keeps (C := contract s) (inv_noFiles owners) h
  exact (hsound.at_commit hi hprog).2.2

/-- In every committed state of every interleaving each attachment has one owner or one
existing token, and no token holds more than its limits. A bound file stays with its
owner. The rows change only when a transaction commits; a create that commits has bound
all its ids, and a purge takes only drafts whose token has ended by its time. -/
theorem draft_files {owners : Owners} (h : Reachable (script U O s) (noFiles owners) sys) :
    Inv s sys.db ∧ (∀ es sys', run (script U O s) sys es = some sys' → KeepsBound sys.db sys'.db) ∧
      (∀ ev sys', exec (script U O s) sys ev = some sys' →
        sys'.db = sys.db ∨ ∃ i t next, ev = .step i ∧ sys.live[i]? = some t ∧ t.prog = .commit next ∧
          sys'.db = t.loc.pend sys.db) ∧
      ∀ (i : ℕ) t next, sys.live[i]? = some t → t.prog = .commit next → Effect t.req sys.db (t.loc.pend sys.db) := by
  refine ⟨(run_sound script_keeps (C := contract s) (inv_noFiles owners) h).inv, ?_, fun ev sys' => exec_db,
    fun i t next hi hprog => (commit_effect h hi hprog).2⟩
  intro es sys' hrun
  have hsound := run_sound script_keeps (C := contract s) (inv_noFiles owners) h
  exact (sound_run_keeps script_keeps KeepsBound.refl KeepsBound.trans (fun _ hguar => hguar.2.1) hsound hrun).2

def pdfUploads : Outside := ⟨fun _ => pdfMime, fun _ => none, fun _ => .ok (), true, true⟩

def wizardLimits : Settings := ⟨1000, 7, 20, 1000, text "pepper"⟩

def wizardRun : List (Event DraftRequest) :=
  [.start (.upload none (text "t") (some (text "a.pdf")) [37] 0 3), .step 0, .step 0, .step 0, .step 0, .step 0, .step 0,
   .step 0, .step 0,
   .start (.create (.application 9) 0 [3] (text "t") 5), .step 1, .step 1,
   .start (.purgeBatch (days 8)), .step 2, .step 2, .step 1, .step 1, .step 1, .step 1]

theorem wizardRun_binds :
    ∃ sys, run (script asciiUnicode pdfUploads wizardLimits) ⟨noFiles ⟨[], [], []⟩, []⟩ wizardRun = some sys ∧
      sys.db.attachments.map (fun a => (a.id, a.applicationId, a.draftTokenHash)) = [(3, some 9, none)] ∧
      Inv wizardLimits sys.db := by
  have hrun : (run (script asciiUnicode pdfUploads wizardLimits) ⟨noFiles ⟨[], [], []⟩, []⟩ wizardRun).map
      (fun sys => sys.db.attachments.map fun a => (a.id, a.applicationId, a.draftTokenHash)) =
        some [(3, some 9, none)] := by decide +kernel
  obtain ⟨sys, hsys, hrows⟩ := Option.map_eq_some_iff.mp hrun
  exact ⟨sys, hsys, hrows, (draft_files ⟨wizardRun, hsys⟩).1⟩

end Laws

end Files.Draft
