import StupaWorkflow.Pointers
import StupaWorkflow.PyText
import StupaWorkflow.Tables
import StupaWorkflow.Transactions

/-!
Account merges at the same time. A merge locks its two accounts in the order of their ids, checks
them as locked, moves the earlier merges into the source on to the target and marks the source.
-/
namespace MergeChains
open Py ReadCommitted Pointers List
open Prog hiding bind pure

abbrev Uuid := ℕ

structure Principal where
  id : Uuid
  sub : Text
  displayName : Option Text
  email : Option Text
  active : Bool
  mergedInto : Option Uuid := none
  deriving DecidableEq

structure Db where
  principals : List Principal
  deriving DecidableEq

inductive Problem where
  | validation (code : Text)
  | notFound (id : Uuid)
  | conflict (code : Text)
  deriving DecidableEq

/-- A merge with what it reads of the other tables: an erasure of one of the accounts, a
conflict between them, and whether the admin holds the extra rights of the source. -/
structure MergeRequest where
  sourceId : Uuid
  targetId : Uuid
  actor : Text
  erased : Bool
  conflicts : Bool
  covered : Bool
  deriving DecidableEq

def Db.get (d : Db) (k : Uuid) : Option Principal := d.principals.find? fun p => p.id = k

/-- `merged_into` of an account. -/
def Db.into (d : Db) (k : Uuid) : Option Uuid := (d.get k).bind Principal.mergedInto

section Programs

/-- A row of `SELECT … FOR UPDATE`. -/
def lockPrincipal (k : Uuid) : Prog Db Uuid Problem (Option Principal) := do
  let d ← lockRow fun d => (d.get k).map Principal.id
  return d.get k

def lockPair (s t : Uuid) : Prog Db Uuid Problem (Principal × Principal) := do
  let lo ← lockPrincipal (min s t)
  let hi ← lockPrincipal (max s t)
  let source ← ofOption (if s ≤ t then lo else hi) (.notFound s)
  let target ← ofOption (if s ≤ t then hi else lo) (.notFound t)
  return (source, target)

def load (r : MergeRequest) : Prog Db Uuid Problem (Principal × Principal) := do
  require (r.sourceId ≠ r.targetId) (.validation (text "merge_same_principal"))
  let (source, target) ← lockPair r.sourceId r.targetId
  require source.mergedInto.isNone (.conflict (text "principal_already_merged"))
  require target.mergedInto.isNone (.conflict (text "merge_target_merged"))
  require target.active (.conflict (text "merge_target_inactive"))
  require (!r.erased) (.conflict (text "principal_erased"))
  return (source, target)

def lockMerged (s : Uuid) (k : Uuid) : Prog Db Uuid Problem (Option Uuid) := do
  let d ← lockRow fun d => (d.get k).map Principal.id
  return if d.into k = some s then some k else none

def Db.setMerged (d : Db) (ids : List Uuid) (t : Uuid) : Db :=
  ⟨d.principals.map fun p => if p.id ∈ ids then { p with mergedInto := some t } else p⟩

def Db.retire (d : Db) (s t : Uuid) : Db :=
  ⟨d.principals.map fun p => if p.id = s then { p with mergedInto := some t, active := false } else p⟩

/-- `_source_row`: earlier merges into the source move on, then the source is marked. -/
def sourceRow (s t : Uuid) : Prog Db Uuid Problem Unit := do
  let d ← query
  let earlier := (d.principals.filter fun p => p.mergedInto = some s).map Principal.id
  let moved ← collect (fun _ => lockMerged s) earlier []
  update fun d => d.setMerged moved t
  update fun d => d.retire s t

def script (r : MergeRequest) : Prog Db Uuid Problem Unit := do
  let (source, target) ← load r
  require (source.sub ≠ r.actor) (.conflict (text "merge_own_account"))
  require (!r.conflicts) (.conflict (text "merge_conflict"))
  require r.covered (.conflict (text "merge_privileges"))
  sourceRow source.id target.id
  publish

end Programs

section Displays

/-- What a display shows for a stored `sub` or id. -/
structure PrincipalRef where
  id : Uuid
  displayName : Option Text
  email : Option Text
  ownName : Option Text
  deriving DecidableEq

/-- `a or b`: an empty text counts as none. -/
def textOr (a b : Option Text) : Option Text := if a.all List.isEmpty then b else a

def Db.ref (d : Db) (p : Principal) : PrincipalRef :=
  let own := textOr p.displayName p.email
  match p.mergedInto.bind d.get with
  | some t => ⟨t.id, t.displayName, t.email, own⟩
  | none => ⟨p.id, p.displayName, p.email, own⟩

def Db.refsBySub (d : Db) (subs : List Text) : List (Text × PrincipalRef) :=
  (d.principals.filter fun p => p.sub ∈ subs && !p.sub.isEmpty).map fun p => (p.sub, d.ref p)

def Db.refsById (d : Db) (ids : List Uuid) : List (Uuid × PrincipalRef) :=
  (d.principals.filter fun p => p.id ∈ ids).map fun p => (p.id, d.ref p)

end Displays

section Agreement

/-- The keys of the table, and no pointer to a merged account. -/
structure Wf (d : Db) : Prop where
  ids : (d.principals.map Principal.id).Nodup
  target : ∀ p q, d.into p = some q → q ∈ d.principals.map Principal.id
  flat : Flat d.into

/-- What a lock keeps: where the account points, and what points to it. -/
structure Rely (held : List Uuid) (d e : Db) : Prop where
  ids : e.principals.map Principal.id = d.principals.map Principal.id
  own : ∀ k ∈ held, e.into k = d.into k
  incoming : ∀ k ∈ held, ∀ p, e.into p = some k ↔ d.into p = some k

/-- A commit changes locked accounts only, and moves none from or to an account that is
not locked. -/
structure Guar (held : List Uuid) (d e : Db) : Prop where
  ids : e.principals.map Principal.id = d.principals.map Principal.id
  locked : ∀ p, e.into p = d.into p ∨
    (p ∈ held ∧ (∀ k, d.into p = some k → k ∈ held) ∧ ∀ k, e.into p = some k → k ∈ held)

theorem Rely.trans {held : List Uuid} {d e f : Db} (h : Rely held d e) (h' : Rely held e f) : Rely held d f where
  ids := h'.ids.trans h.ids
  own k hk := (h'.own k hk).trans (h.own k hk)
  incoming k hk p := (h'.incoming k hk p).trans (h.incoming k hk p)

def contract : Contract MergeRequest Db Uuid where
  inv := Wf
  rely := Rely
  guar _ := Guar
  refl _ _ := ⟨rfl, fun _ _ => rfl, fun _ _ _ => Iff.rfl⟩
  trans := Rely.trans
  compat {r held other d e} _ hguar hapart := by
    refine ⟨hguar.ids, fun k hk => ?_, fun k hk p => ?_⟩
    · rcases hguar.locked k with hsame | ⟨hheld, _⟩
      · exact hsame
      · exact absurd hheld (hapart.not_mem hk)
    · rcases hguar.locked p with hsame | ⟨_, hfrom, hto⟩
      · rw [hsame]
      · exact ⟨fun h => absurd (hto k h) (hapart.not_mem hk), fun h => absurd (hfrom k h) (hapart.not_mem hk)⟩

end Agreement

section Lookups

variable {d e : Db} {k s t : Uuid}

theorem Wf.get_of_mem (h : Wf d) {p : Principal} (hp : p ∈ d.principals) : d.get p.id = some p :=
  Table.find_of_mem h.ids hp rfl

theorem Wf.into_of_mem (h : Wf d) {p : Principal} (hp : p ∈ d.principals) : d.into p.id = p.mergedInto := by
  rw [Db.into, h.get_of_mem hp]
  rfl

theorem exists_of_into (h : d.into k = some t) : ∃ p ∈ d.principals, p.id = k ∧ p.mergedInto = some t := by
  obtain ⟨p, hp, hmerged⟩ := Option.bind_eq_some_iff.mp h
  obtain ⟨hmem, hid⟩ := Table.of_find hp
  exact ⟨p, hmem, hid, hmerged⟩

theorem exists_of_id (hk : k ∈ d.principals.map Principal.id) : ∃ p ∈ d.principals, p.id = k := mem_map.mp hk

theorem get_map {f : Principal → Principal} (hf : ∀ p, (f p).id = p.id) (k : Uuid) :
    (⟨d.principals.map f⟩ : Db).get k = (d.get k).map f := by
  rw [Db.get, Db.get, find?_map]
  congr 1
  congr 1
  funext p
  simp [hf]

theorem setMerged_ids (d : Db) (ids : List Uuid) (t : Uuid) :
    (d.setMerged ids t).principals.map Principal.id = d.principals.map Principal.id := by
  rw [Db.setMerged, map_map]
  refine map_congr_left fun p _ => ?_
  simp only [Function.comp_apply]
  split <;> rfl

theorem retire_ids (d : Db) (s t : Uuid) :
    (d.retire s t).principals.map Principal.id = d.principals.map Principal.id := by
  rw [Db.retire, map_map]
  refine map_congr_left fun p _ => ?_
  simp only [Function.comp_apply]
  split <;> rfl

theorem get_of_known {k : Uuid} (hk : k ∈ d.principals.map Principal.id) : ∃ p, d.get k = some p := by
  obtain ⟨p, hp, rfl⟩ := exists_of_id hk
  rw [← Option.isSome_iff_exists, Db.get, find?_isSome]
  exact ⟨p, hp, by simp⟩

theorem setMerged_into {ids : List Uuid} (hids : ∀ k ∈ ids, k ∈ d.principals.map Principal.id) (k : Uuid) :
    (d.setMerged ids t).into k = if k ∈ ids then some t else d.into k := by
  have hget : (d.setMerged ids t).get k =
      (d.get k).map fun p => if p.id ∈ ids then { p with mergedInto := some t } else p :=
    get_map (fun p => by split <;> rfl) k
  rw [Db.into, hget]
  split
  next hk =>
    obtain ⟨p, hp⟩ := get_of_known (hids k hk)
    have hid : p.id = k := (Table.of_find hp).2
    simp [hp, hid, hk]
  next hk =>
    rw [Db.into]
    cases hp : d.get k with
    | none => rfl
    | some p =>
      have hid : p.id = k := (Table.of_find hp).2
      simp [hid, hk]

theorem retire_into (hs : s ∈ d.principals.map Principal.id) (k : Uuid) :
    (d.retire s t).into k = if k = s then some t else d.into k := by
  have hget : (d.retire s t).get k =
      (d.get k).map fun p => if p.id = s then { p with mergedInto := some t, active := false } else p :=
    get_map (fun p => by split <;> rfl) k
  rw [Db.into, hget]
  split
  next hk =>
    subst hk
    obtain ⟨p, hp⟩ := get_of_known hs
    have hid : p.id = k := (Table.of_find hp).2
    simp [hp, hid]
  next hk =>
    rw [Db.into]
    cases hp : d.get k with
    | none => rfl
    | some p =>
      have hid : p.id = k := (Table.of_find hp).2
      simp [hid, hk]

theorem merged_into (hs : s ∈ d.principals.map Principal.id) {moved : List Uuid}
    (hmoved : ∀ p, p ∈ moved ↔ d.into p = some s) : ((d.setMerged moved t).retire s t).into = redirect d.into s t := by
  have hknown : ∀ k ∈ moved, k ∈ d.principals.map Principal.id := by
    intro k hk
    obtain ⟨p, hp, rfl, _⟩ := exists_of_into ((hmoved k).mp hk)
    exact mem_map_of_mem hp
  funext k
  rw [retire_into (setMerged_ids d moved t ▸ hs), setMerged_into hknown, redirect]
  by_cases hk : k = s
  · rw [if_pos hk, if_pos (.inl hk)]
  · rw [if_neg hk]
    by_cases hinto : d.into k = some s
    · rw [if_pos ((hmoved k).mpr hinto), if_pos (.inr hinto)]
    · have hnot : k ∉ moved := fun h => hinto ((hmoved k).mp h)
      rw [if_neg hnot, if_neg (by simp [hk, hinto])]

end Lookups

section Steps

variable {r : MergeRequest} {held : List Uuid} {d : Db} {k s t : Uuid}
variable {e : Db}

theorem Rely.known (h : Rely held d e) (hk : k ∈ d.principals.map Principal.id) : k ∈ e.principals.map Principal.id := h.ids ▸ hk

theorem wp_lockPrincipal {Q : Option Principal → Loc Db Uuid → Db → Prop}
    (hnone : ∀ e, Rely held d e → Wf e → Q none ⟨id, held⟩ e)
    (hsome : ∀ p e, Rely held d e → Wf e → p ∈ e.principals → p.id = k → Q (some p) ⟨id, k :: held⟩ e) :
    wp contract r (lockPrincipal k) Q ⟨id, held⟩ d := by
  simp only [lockPrincipal, wp_do, wp_lockRow, wp_return]
  intro e hrely hinv
  cases hget : e.get k with
  | none =>
    simp only [id_eq, hget, Option.map_none]
    exact hnone e hrely hinv
  | some p =>
    obtain ⟨hp, hid⟩ := Table.of_find hget
    simp only [id_eq, hget, Option.map_some, hid]
    exact hsome p e hrely hinv hp hid

theorem wp_lockPair {Q : Principal × Principal → Loc Db Uuid → Db → Prop}
    (hQ : ∀ source target locks e, source.id = s → target.id = t → s ∈ locks → t ∈ locks → Wf e →
      s ∈ e.principals.map Principal.id → t ∈ e.principals.map Principal.id → e.into s = source.mergedInto →
      e.into t = target.mergedInto → Q (source, target) ⟨id, locks⟩ e) :
    wp contract r (lockPair s t) Q ⟨id, []⟩ d := by
  simp only [lockPair, wp_do]
  refine wp_lockPrincipal (fun e _ _ => ?_) fun lo e _ hw hlo hloid => ?_
  · refine wp_lockPrincipal (fun f _ _ => ?_) fun hi f _ _ _ _ => ?_
    · simp
    · by_cases hst : s ≤ t <;> simp [hst]
  · have hloInto : e.into lo.id = lo.mergedInto := hw.into_of_mem hlo
    refine wp_lockPrincipal (fun f _ _ => ?_) fun hi f hrely hwf hhi hhiid => ?_
    · by_cases hst : s ≤ t <;> simp [hst]
    · have hhiInto : f.into hi.id = hi.mergedInto := hwf.into_of_mem hhi
      have hown : f.into lo.id = lo.mergedInto := by
        rw [← hloInto, hloid]
        exact hrely.own _ mem_cons_self
      have hloKnown : lo.id ∈ f.principals.map Principal.id := hrely.known (mem_map_of_mem hlo)
      have hhiKnown : hi.id ∈ f.principals.map Principal.id := mem_map_of_mem hhi
      by_cases hst : s ≤ t
      · rw [min_eq_left hst] at hloid
        rw [max_eq_right hst] at hhiid
        subst hloid hhiid
        simp only [hst, if_true, wp_ofOption, Option.some.injEq, wp_return]
        rintro _ rfl _ rfl
        exact hQ lo hi _ f rfl rfl (by simp [hst]) (by simp [hst]) hwf hloKnown hhiKnown hown hhiInto
      · have hts : t ≤ s := (not_le.mp hst).le
        rw [min_eq_right hts] at hloid
        rw [max_eq_left hts] at hhiid
        subst hloid hhiid
        simp only [hst, if_false, wp_ofOption, Option.some.injEq, wp_return]
        rintro _ rfl _ rfl
        exact hQ hi lo _ f rfl rfl (by simp [hts]) (by simp [hts]) hwf hhiKnown hloKnown hhiInto hown

/-- What is known before the writes: both accounts are locked and neither is merged. -/
structure Locked (s t : Uuid) (held : List Uuid) (e : Db) : Prop where
  wf : Wf e
  source : s ∈ held
  target : t ∈ held
  known : s ∈ e.principals.map Principal.id
  goal : t ∈ e.principals.map Principal.id
  fresh : e.into s = none
  free : e.into t = none

theorem Locked.rely {f : Db} (h : Locked s t held e) (hrely : Rely held e f) (hw : Wf f) : Locked s t held f where
  wf := hw
  source := h.source
  target := h.target
  known := hrely.known h.known
  goal := hrely.known h.goal
  fresh := (hrely.own s h.source).trans h.fresh
  free := (hrely.own t h.target).trans h.free

theorem Locked.lock (h : Locked s t held e) (k : Uuid) : Locked s t (k :: held) e :=
  { h with source := mem_cons_of_mem _ h.source, target := mem_cons_of_mem _ h.target }

theorem Locked.commit (h : Locked s t held e) (hne : s ≠ t) {moved : List Uuid} (hmoved : ∀ p, p ∈ moved ↔ e.into p = some s)
    (hheld : ∀ p ∈ moved, p ∈ held) : Wf ((e.setMerged moved t).retire s t) ∧ Guar held e ((e.setMerged moved t).retire s t) := by
  have hinto := merged_into (t := t) h.known hmoved
  have hids : ((e.setMerged moved t).retire s t).principals.map Principal.id = e.principals.map Principal.id := by
    rw [retire_ids, setMerged_ids]
  constructor
  · refine ⟨hids ▸ h.wf.ids, fun p q hq => ?_, ?_⟩
    · rw [hinto, redirect] at hq
      rw [hids]
      split at hq
      next => exact Option.some.inj hq ▸ h.goal
      next => exact h.wf.target p q hq
    · rw [hinto]
      exact h.wf.flat.redirect hne h.free
  · refine ⟨hids, fun p => ?_⟩
    rw [hinto, redirect]
    split
    next hp =>
      refine .inr ⟨?_, fun k hk => ?_, fun k hk => Option.some.inj hk ▸ h.target⟩
      · rcases hp with rfl | hp
        · exact h.source
        · exact hheld p ((hmoved p).mpr hp)
      · rcases hp with rfl | hp
        · rw [h.fresh] at hk
          cases hk
        · rw [hp] at hk
          exact Option.some.inj hk ▸ h.source
    next => exact .inl rfl

theorem wp_collectMerged {Q : List Uuid → Loc Db Uuid → Db → Prop} (h : Locked s t held e)
    (hQ : ∀ moved locks f, Locked s t locks f → (∀ p, p ∈ moved ↔ f.into p = some s) → (∀ p ∈ moved, p ∈ locks) →
      Q moved ⟨id, locks⟩ f) :
    wp contract r (collect (fun _ => lockMerged s)
      ((e.principals.filter fun p => p.mergedInto = some s).map Principal.id) []) Q ⟨id, held⟩ e := by
  have hstart : ∀ p, p ∈ (e.principals.filter fun p => p.mergedInto = some s).map Principal.id ↔ e.into p = some s := by
    intro p
    constructor
    · intro hp
      obtain ⟨x, hx, rfl⟩ := mem_map.mp hp
      obtain ⟨hx, hmerged⟩ := mem_filter.mp hx
      rw [h.wf.into_of_mem hx]
      simpa using hmerged
    · intro hp
      obtain ⟨x, hx, rfl, hmerged⟩ := exists_of_into hp
      exact mem_map_of_mem (mem_filter.mpr ⟨hx, by simpa using hmerged⟩)
  refine wp_mono ?_ (wp_collect _ (fun ids moved l f => ∃ locks, l = ⟨id, locks⟩ ∧ Locked s t locks f ∧
    (∀ p, p ∈ moved ++ ids ↔ f.into p = some s) ∧ ∀ p ∈ moved, p ∈ locks) ?_ _ [] ?_)
  · rintro moved l f ⟨locks, rfl, hlocked, hmoved, hheld⟩
    exact hQ moved locks f hlocked (by simpa using hmoved) hheld
  · rintro k ids moved l f ⟨locks, rfl, hlocked, hmoved, hheld⟩
    simp only [lockMerged, wp_do, wp_lockRow, wp_return]
    intro g hrely hw
    have hlocked' := hlocked.rely hrely hw
    have hmoved' : ∀ p, p ∈ moved ++ k :: ids ↔ g.into p = some s := by
      intro p
      rw [hmoved p]
      exact (hrely.incoming s hlocked.source p).symm
    -- the row still points to the source, which is locked
    have hk : g.into k = some s := (hmoved' k).mp (by simp)
    obtain ⟨x, hx, hid, _⟩ := exists_of_into hk
    have hget : g.get k = some x := hid ▸ hw.get_of_mem hx
    simp only [id_eq, hget, Option.map_some, hid, hk, if_true]
    refine ⟨k :: locks, rfl, hlocked'.lock k, by simpa using hmoved', fun p hp => ?_⟩
    rcases mem_append.mp hp with hp | hp
    · exact mem_cons_of_mem _ (hheld p hp)
    · simp only [Option.toList_some, mem_singleton] at hp
      exact hp ▸ mem_cons_self
  · exact ⟨held, rfl, h, by simpa using hstart, by simp⟩

theorem script_keeps (r : MergeRequest) : Keeps contract r (script r) := by
  intro d _
  simp only [script, load, wp_do, wp_require, decide_eq_true_eq]
  intro hne
  refine wp_lockPair fun source target locks e hs ht hsource htarget hw hsKnown htKnown hsInto htInto => ?_
  simp only [wp_return]
  intro hfresh hfree _ _ _ _ _
  have hlocked : Locked source.id target.id locks e := by
    rw [hs, ht]
    refine ⟨hw, hsource, htarget, hsKnown, htKnown, ?_, ?_⟩
    · rw [hsInto]
      exact Option.isNone_iff_eq_none.mp hfresh
    · rw [htInto]
      exact Option.isNone_iff_eq_none.mp hfree
  simp only [sourceRow, wp_do, wp_query]
  intro f hrely hwf
  refine wp_collectMerged (hlocked.rely hrely hwf) fun moved locks' g hg hmoved hheld => ?_
  simp only [wp_update, wp_publish]
  intro a hrely' hwa
  have hcommit := (hg.rely hrely' hwa).commit (hs ▸ ht ▸ hne)
    (fun p => (hmoved p).trans (hrely'.incoming source.id hg.source p).symm) hheld
  exact ⟨hcommit.1, hcommit.2, trivial⟩

end Steps

section Runs

/-- The display of an account is the one where following the merges ends. -/
def Shown (d : Db) (p : Principal) (ref : PrincipalRef) : Prop :=
  ∃ q ∈ d.principals, (∀ k, Ends d.into p.id k ↔ k = q.id) ∧ ref.id = q.id ∧ ref.displayName = q.displayName ∧
    ref.email = q.email

theorem Wf.shown {d : Db} (h : Wf d) {p : Principal} (hp : p ∈ d.principals) : Shown d p (d.ref p) := by
  have hinto := h.into_of_mem hp
  rw [Db.ref]
  cases hm : p.mergedInto with
  | none =>
    refine ⟨p, hp, fun k => ?_, rfl, rfl, rfl⟩
    rw [h.flat.ends_iff, once, hinto, hm]
    rfl
  | some t =>
    obtain ⟨q, hq, rfl⟩ := exists_of_id (h.target p.id t (hinto.trans hm))
    refine ⟨q, hq, fun k => ?_, ?_⟩
    · rw [h.flat.ends_iff, once, hinto, hm]
      rfl
    · simp [h.get_of_mem hq]

structure Chains (d : Db) : Prop where
  flat : ∀ p q, d.into p = some q → d.into q = none
  self : ∀ p, d.into p ≠ some p
  bySub : ∀ subs, ∀ x ∈ d.refsBySub subs, ∃ p ∈ d.principals, p.sub = x.1 ∧ Shown d p x.2
  byId : ∀ ids, ∀ x ∈ d.refsById ids, ∃ p ∈ d.principals, p.id = x.1 ∧ Shown d p x.2

theorem Wf.chains {d : Db} (h : Wf d) : Chains d where
  flat := h.flat
  self p hp := h.flat.ne hp rfl
  bySub subs x hx := by
    obtain ⟨p, hp, rfl⟩ := mem_map.mp hx
    exact ⟨p, mem_of_mem_filter hp, rfl, h.shown (mem_of_mem_filter hp)⟩
  byId ids x hx := by
    obtain ⟨p, hp, rfl⟩ := mem_map.mp hx
    exact ⟨p, mem_of_mem_filter hp, rfl, h.shown (mem_of_mem_filter hp)⟩

/-- Whatever merges run together in whatever order, the committed references are flat,
and a display that takes one step shows the last account. -/
theorem reachable_chains {d : Db} (h : Wf d) {s : Sys MergeRequest Db Uuid Problem} (hs : Reachable script d s) :
    Chains s.db := (run_sound script_keeps h hs).inv.chains

theorem wf_of_unmerged {d : Db} (hids : (d.principals.map Principal.id).Nodup)
    (hnone : ∀ p ∈ d.principals, p.mergedInto = none) : Wf d := by
  have hinto : ∀ k, d.into k = none := by
    intro k
    cases hk : d.into k with
    | none => rfl
    | some t =>
      obtain ⟨p, hp, _, hm⟩ := exists_of_into hk
      rw [hnone p hp] at hm
      cases hm
  exact ⟨hids, by simp [hinto], by simp [Flat, hinto]⟩

section Samples

def account (k : Uuid) (sub : String) : Principal := ⟨k, text sub, some (text sub), none, true, none⟩

def fourAccounts : Db := ⟨[account 1 "anna", account 2 "anna2", account 3 "anna3", account 4 "ann"]⟩

def mergeOf (s t : Uuid) : MergeRequest := ⟨s, t, text "root", false, false, true⟩

/-- The oldest account goes into the first; then the first goes into the second while the
second waits to go into the third. -/
def chained : List (Event MergeRequest) :=
  .start (mergeOf 4 1) :: List.replicate 6 (.step 0) ++ [.start (mergeOf 1 2), .start (mergeOf 2 3)] ++
    List.replicate 7 (.step 1) ++ List.replicate 8 (.step 2)

theorem chained_chains : ∃ s, run script ⟨fourAccounts, []⟩ chained = some s ∧
    s.db.principals.map Principal.mergedInto = [some 3, some 3, none, some 3] ∧ Chains s.db := by
  have hrun : (run script ⟨fourAccounts, []⟩ chained).map (fun s => s.db.principals.map Principal.mergedInto) =
      some [some 3, some 3, none, some 3] := by decide +kernel
  obtain ⟨s, hs, heq⟩ := Option.map_eq_some_iff.mp hrun
  have hwf : Wf fourAccounts := wf_of_unmerged (by decide) (by decide)
  exact ⟨s, hs, heq, reachable_chains hwf ⟨chained, hs⟩⟩

end Samples

end Runs

end MergeChains
