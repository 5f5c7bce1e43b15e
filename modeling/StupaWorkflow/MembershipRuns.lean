import StupaWorkflow.AccessContainment

/-!
Runs of the operations that change what the memberships depend on. Every operation but one syncs
the principals that it can affect.
-/
namespace Membership
open Py List

section Calls

variable {α : Type}

@[simp] theorem ensure_ok {ok : Bool} {code message : String} {u : Unit} :
    ensure ok code message = .ok u ↔ ok = true := by
  cases ok <;> simp [ensure]

@[simp] theorem found_ok {row : Option α} {message : String} {a : α} : found row message = .ok a ↔ row = some a := by
  cases row <;> simp [found]

end Calls

section Invariant

variable {d : Db}

/-- The tables are consistent, and the memberships are the derived ones. -/
structure Good (d : Db) : Prop where
  wf : Wf d
  subs : (d.principals.map (·.sub)).Nodup
  inSync : InSync d

theorem syncMany_spec (ps : List Principal) (hwf : Wf d) (hids : (ps.map (·.id)).Nodup) :
    Wf (ps.foldl syncPrincipal d) ∧ Grows d (ps.foldl syncPrincipal d) ∧
      (∀ q, q ∉ ps.map (·.id) → rowsOf (ps.foldl syncPrincipal d) q = rowsOf d q) ∧
      ∀ p ∈ ps, SyncedFor (ps.foldl syncPrincipal d) p := by
  induction ps generalizing d with
  | nil => exact ⟨hwf, .refl d, fun _ _ => rfl, by simp⟩
  | cons p ps ih =>
    simp only [map_cons, nodup_cons] at hids
    obtain ⟨hwf₁, hgr₁, hothers₁, hsynced⟩ := syncPrincipal_spec hwf p
    obtain ⟨hwf₂, hgr₂, hothers₂, hall⟩ := ih hwf₁ hids.2
    refine ⟨hwf₂, hgr₁.trans hgr₂, fun q hq => ?_, fun q hq => ?_⟩
    · simp only [map_cons, mem_cons, not_or] at hq
      exact (hothers₂ q hq.2).trans (hothers₁ q hq.1)
    · rcases mem_cons.mp hq with rfl | hq
      · exact hgr₂.syncedFor hwf₁ (hothers₂ q.id hids.1) hsynced
      · exact hall q hq

theorem syncAll_good (hwf : Wf d) (hsubs : (d.principals.map (·.sub)).Nodup) : Good (syncAll d) := by
  obtain ⟨hwf', hgr, _, hall⟩ := syncMany_spec d.principals hwf hwf.principalIds
  refine ⟨hwf', ?_, fun p hp => ?_⟩
  · rw [syncAll, hgr.principals]
    exact hsubs
  · rw [syncAll, hgr.principals] at hp
    exact hall p hp

theorem syncOne_good {p : Principal} (hwf : Wf d) (hsubs : (d.principals.map (·.sub)).Nodup) (hp : p ∈ d.principals)
    (hothers : ∀ q ∈ d.principals, q.id ≠ p.id → SyncedFor d q) : Good (syncPrincipal d p) := by
  obtain ⟨hwf', hgr, hrows, hsynced⟩ := syncPrincipal_spec hwf p
  refine ⟨hwf', ?_, fun q hq => ?_⟩
  · rw [hgr.principals]
    exact hsubs
  · rw [hgr.principals] at hq
    by_cases hid : q.id = p.id
    · rwa [inj_on_of_nodup_map hwf.principalIds hq hp hid]
    · exact hgr.syncedFor hwf (hrows q.id hid) (hothers q hq hid)

theorem SyncedFor.congr {e : Db} {p q : Principal} (h : SyncedFor d p) (hmaps : e.membershipMaps = d.membershipMaps)
    (hroleMaps : e.roleMaps = d.roleMaps) (hroles : e.roles = d.roles) (hrows : e.memberships = d.memberships)
    (hid : q.id = p.id) (hgroups : q.effectiveGroups = p.effectiveGroups) : SyncedFor e q := by
  obtain ⟨hunique, hright, hpresent⟩ := h
  constructor
  · simpa only [rowsOf, hrows, hid] using hunique
  · simpa only [rowsOf, hrows, hid, Leads, hmaps, hgroups, RightRole, Gives, hroleMaps, hroles] using hright
  · simpa only [rowsOf, hrows, hid, Leads, hmaps, hgroups] using hpresent

end Invariant

section Mappings

variable {d d' : Db}
variable {id : ℕ}

theorem createMembershipMapping_good {gremium : ℕ} {group : Text} (hd : Good d)
    (h : createMembershipMapping gremium group d = .ok d') : Good d' := by
  simp only [createMembershipMapping, flushMembershipMaps, bind_ok, ensure_ok, pure_ok] at h
  obtain ⟨_, _, _, _, rfl⟩ := h
  have hwf := hd.wf
  refine syncAll_good { hwf with principalFresh := ?_, roleFresh := ?_, rowFresh := ?_ } hd.subs
  · exact fun p hp => Nat.lt_succ_of_lt (hwf.principalFresh p hp)
  · exact fun r hr => Nat.lt_succ_of_lt (hwf.roleFresh r hr)
  · exact fun m hm => Nat.lt_succ_of_lt (hwf.rowFresh m hm)

theorem updateMembershipMapping_good {gremium : Option ℕ} {group : Option Text} (hd : Good d)
    (h : updateMembershipMapping id gremium group d = .ok d') : Good d' := by
  simp only [updateMembershipMapping, flushMembershipMaps, bind_ok, found_ok, ensure_ok, pure_ok] at h
  obtain ⟨_, _, _, _, _, _, rfl⟩ := h
  exact syncAll_good { hd.wf with } hd.subs

theorem deleteMembershipMapping_good (hd : Good d) (h : deleteMembershipMapping id d = .ok d') : Good d' := by
  simp only [deleteMembershipMapping, bind_ok, found_ok, pure_ok] at h
  obtain ⟨_, _, rfl⟩ := h
  exact syncAll_good { hd.wf with } hd.subs

theorem role_of_find {r : GremiumRole} (h : d.roles.find? (·.id = id) = some r) : r ∈ d.roles ∧ r.id = id :=
  ⟨mem_of_find?_eq_some h, by simpa using find?_some h⟩

theorem createRoleMapping_good {role : ℕ} {group : Text} (hd : Good d)
    (h : createRoleMapping role group d = .ok d') : Good d' := by
  simp only [createRoleMapping, flushRoleMaps, bind_ok, found_ok, ensure_ok, pure_ok] at h
  obtain ⟨r, hr, _, _, rfl⟩ := h
  have hwf := hd.wf
  refine syncAll_good { hwf with roleMaps := ?_, principalFresh := ?_, roleFresh := ?_, rowFresh := ?_ } hd.subs
  · intro m hm
    rcases mem_append.mp hm with hm | hm
    · exact hwf.roleMaps m hm
    · obtain rfl := mem_singleton.mp hm
      exact ⟨r, role_of_find hr⟩
  · exact fun p hp => Nat.lt_succ_of_lt (hwf.principalFresh p hp)
  · exact fun r hr => Nat.lt_succ_of_lt (hwf.roleFresh r hr)
  · exact fun m hm => Nat.lt_succ_of_lt (hwf.rowFresh m hm)

theorem updateRoleMapping_good {role : Option ℕ} {group : Option Text} (hd : Good d)
    (h : updateRoleMapping id role group d = .ok d') : Good d' := by
  simp only [updateRoleMapping, flushRoleMaps, bind_ok, found_ok, ensure_ok, pure_ok] at h
  obtain ⟨_, _, target, htarget, _, _, rfl⟩ := h
  refine syncAll_good { hd.wf with roleMaps := ?_ } hd.subs
  intro m hm
  obtain ⟨n, hn, rfl⟩ := mem_map.mp hm
  split
  · exact ⟨target, (role_of_find htarget).1, rfl⟩
  · exact hd.wf.roleMaps n hn

theorem deleteRoleMapping_good (hd : Good d) (h : deleteRoleMapping id d = .ok d') : Good d' := by
  simp only [deleteRoleMapping, bind_ok, found_ok, pure_ok] at h
  obtain ⟨_, _, rfl⟩ := h
  refine syncAll_good { hd.wf with roleMaps := ?_ } hd.subs
  exact fun m hm => hd.wf.roleMaps m (mem_filter.mp hm).1

end Mappings

section Roles

variable {d d' : Db}

theorem createRole_good {gremium : ℕ} {key : Text} {permissions : List Text} (hd : Good d)
    (h : createRole gremium key permissions d = .ok d') : Good d' := by
  simp only [createRole, bind_ok, ensure_ok, pure_ok] at h
  obtain ⟨_, _, _, hnew, rfl⟩ := h
  have hnew : ∀ r ∈ d.roles, ¬ (r.gremium = gremium ∧ r.key = key) := by
    simpa only [Bool.not_eq_true', any_eq_false, Bool.and_eq_true, decide_eq_true_eq] using hnew
  refine ⟨addRole_wf hd.wf _ hnew, hd.subs, fun p hp => ?_⟩
  exact (addRole_grows gremium key _ d).syncedFor hd.wf rfl (hd.inSync p hp)

/-- A role that no row and no mapping names decides nothing. -/
theorem deleteRole_good {id : ℕ} (hd : Good d) (h : deleteRole id d = .ok d') : Good d' := by
  simp only [deleteRole, bind_ok, found_ok, ensure_ok, pure_ok] at h
  obtain ⟨row, _, _, _, _, hrows, _, hmaps, rfl⟩ := h
  simp only [Bool.not_eq_true', any_eq_false, decide_eq_true_eq] at hrows hmaps
  have hwf := hd.wf
  have hkeep : ∀ {r : GremiumRole}, r ∈ d.roles → r.id ≠ id → r ∈ d.roles.filter (·.id ≠ id) :=
    fun hr hid => mem_filter.mpr ⟨hr, decide_eq_true hid⟩
  have hsub : List.Sublist (d.roles.filter (·.id ≠ id)) d.roles := filter_sublist
  refine ⟨{ hwf with
    roleIds := hwf.roleIds.sublist (hsub.map _)
    roleKeys := hwf.roleKeys.sublist (hsub.map _)
    roleMaps := ?_
    roleFresh := fun r hr => hwf.roleFresh r (hsub.subset hr) }, hd.subs, fun p hp => ?_⟩
  · intro m hm
    obtain ⟨r, hr, hid⟩ := hwf.roleMaps m hm
    exact ⟨r, hkeep hr fun heq => hmaps m hm (hid.symm.trans heq), hid⟩
  · obtain ⟨hunique, hright, hpresent⟩ := hd.inSync p hp
    refine ⟨hunique, fun m hm => ?_, hpresent⟩
    obtain ⟨hleads, r, hr, hid, hrg, hcase⟩ := hright m hm
    have hother : r.id ≠ id := fun heq => hrows m (mem_filter.mp hm).1 (hid.symm.trans heq)
    refine ⟨hleads, r, hkeep hr hother, hid, hrg, ?_⟩
    rcases hcase with ⟨hgives, hbest⟩ | ⟨hnone, hkey⟩
    · exact .inl ⟨hgives, fun s hs => hbest s (hsub.subset hs)⟩
    · exact .inr ⟨fun s hs => hnone s (hsub.subset hs), hkey⟩

end Roles

section Accounts

variable {d d' : Db}
variable {groups : List Text}

theorem mapPrincipals_spec (hd : Good d) {f : Principal → Principal}
    (hf : ∀ q ∈ d.principals, (f q).id = q.id ∧ (f q).sub = q.sub) :
    Wf { d with principals := d.principals.map f } ∧ ((d.principals.map f).map (·.sub)).Nodup ∧
      ∀ q ∈ d.principals, (f q).effectiveGroups = q.effectiveGroups →
        SyncedFor { d with principals := d.principals.map f } (f q) := by
  refine ⟨mapPrincipals_wf hd.wf fun q hq => (hf q hq).1, ?_, fun q hq hgroups => ?_⟩
  · have hsubs : (d.principals.map f).map (·.sub) = d.principals.map (·.sub) := by
      rw [map_map]
      exact map_congr_left fun q hq => (hf q hq).2
    exact hsubs ▸ hd.subs
  · exact (hd.inSync q hq).congr rfl rfl rfl rfl (hf q hq).1 hgroups

theorem setGroups_spec {p : Principal} (hd : Good d) (hp : p ∈ d.principals) (groups : List Text) :
    Wf (d.setGroups p.id groups) ∧ ((d.setGroups p.id groups).principals.map (·.sub)).Nodup ∧
      { p with groups } ∈ (d.setGroups p.id groups).principals ∧
      ∀ q ∈ (d.setGroups p.id groups).principals, q.id ≠ p.id → SyncedFor (d.setGroups p.id groups) q := by
  obtain ⟨hwf, hsubs, hsynced⟩ := mapPrincipals_spec hd
    (f := fun q => if q.id = p.id then { q with groups } else q) (fun q _ => by split <;> exact ⟨rfl, rfl⟩)
  refine ⟨hwf, hsubs, mem_map.mpr ⟨p, hp, by simp⟩, fun q hq hother => ?_⟩
  obtain ⟨q₀, hq₀, rfl⟩ := mem_map.mp hq
  refine hsynced q₀ hq₀ ?_
  have hne : q₀.id ≠ p.id := fun hsame => by simp [hsame] at hother
  rw [if_neg hne]

theorem upsertPrincipal_spec {sub : Text} {p : Principal} (hd : Good d) (h : upsertPrincipal sub groups d = .ok (d', p)) :
    Wf d' ∧ (d'.principals.map (·.sub)).Nodup ∧ p ∈ d'.principals ∧
      (∀ q ∈ d'.principals, q.id ≠ p.id → SyncedFor d' q) ∧
      ∀ q ∈ d.principals, q.sub = sub → p.active = q.active := by
  have hwf := hd.wf
  unfold upsertPrincipal at h
  split at h
  · next hnone =>
      obtain ⟨rfl, rfl⟩ := Prod.mk.inj (Except.ok.inj h)
      have hnew : ∀ q ∈ d.principals, q.sub ≠ sub := by
        simpa using hnone
      refine ⟨{ hwf with
        principalIds := ?_
        principalFresh := ?_
        roleFresh := fun r hr => Nat.lt_succ_of_lt (hwf.roleFresh r hr)
        rowFresh := fun m hm => Nat.lt_succ_of_lt (hwf.rowFresh m hm) }, ?_, by simp, ?_, ?_⟩
      · exact Table.nodup_insert hwf.principalIds fun q hq => (hwf.principalFresh q hq).ne
      · intro q hq
        rcases mem_append.mp hq with hq | hq
        · exact Nat.lt_succ_of_lt (hwf.principalFresh q hq)
        · obtain rfl := mem_singleton.mp hq
          exact Nat.lt_succ_self _
      · exact Table.nodup_insert hd.subs hnew
      · intro q hq hid
        rcases mem_append.mp hq with hq | hq
        · exact (hd.inSync q hq).congr rfl rfl rfl rfl rfl rfl
        · obtain rfl := mem_singleton.mp hq
          exact absurd rfl hid
      · intro q hq hsub
        exact absurd hsub (hnew q hq)
  · next p₀ hfind =>
      split at h
      · cases h
      · obtain ⟨rfl, rfl⟩ := Prod.mk.inj (Except.ok.inj h)
        have hmem := mem_of_find?_eq_some hfind
        have hsub := find?_some hfind
        rw [decide_eq_true_eq] at hsub
        obtain ⟨hwf', hsubs, hp, hothers⟩ := setGroups_spec hd hmem groups
        refine ⟨hwf', hsubs, hp, hothers, fun q hq hqsub => ?_⟩
        rw [inj_on_of_nodup_map hd.subs hq hmem (hqsub.trans hsub.symm)]

theorem login_good {sub : Text} (hd : Good d) (h : login sub groups d = .ok d') : Good d' := by
  simp only [login, bind_ok, ensure_ok, pure_ok] at h
  obtain ⟨⟨d₁, p⟩, hupsert, _, _, rfl⟩ := h
  obtain ⟨hwf, hsubs, hp, hothers, _⟩ := upsertPrincipal_spec hd hupsert
  exact syncOne_good hwf hsubs hp hothers

theorem renewSession_good {id : ℕ} (hd : Good d) (h : renewSession id groups d = .ok d') : Good d' := by
  simp only [renewSession, bind_ok, found_ok, ensure_ok] at h
  obtain ⟨row, hrow, _, hactive, ⟨d₁, p⟩, hupsert, h⟩ := h
  obtain ⟨hwf, hsubs, hp, hothers, hsame⟩ := upsertPrincipal_spec hd hupsert
  rw [hsame row (mem_of_find?_eq_some hrow) rfl, if_pos hactive, pure_ok] at h
  exact h ▸ syncOne_good hwf hsubs hp hothers

def afterMerge (source target : ℕ) (locked p : Principal) : Principal :=
  if p.id = source then locked
  else if p.mergedInto = some source then { p with mergedInto := some target } else p

theorem afterMerge_other {source target : ℕ} {locked p : Principal} (hother : p.id ≠ source) :
    (afterMerge source target locked p).id = p.id ∧ (afterMerge source target locked p).sub = p.sub ∧
      (afterMerge source target locked p).effectiveGroups = p.effectiveGroups := by
  unfold afterMerge
  rw [if_neg hother]
  split
  · next hmerged => exact ⟨rfl, rfl, by simp [Principal.effectiveGroups, hmerged]⟩
  · exact ⟨rfl, rfl, rfl⟩

theorem mergePrincipals_good {source target : ℕ} {allowed : Bool} (hd : Good d)
    (h : mergePrincipals source target allowed d = .ok d') : Good d' := by
  simp only [mergePrincipals, bind_ok, found_ok, ensure_ok, pure_ok] at h
  obtain ⟨_, _, old, hold, _, _, _, _, _, _, _, _, _, _, rfl⟩ := h
  have hmem := mem_of_find?_eq_some hold
  have hid := find?_some hold
  rw [decide_eq_true_eq] at hid
  set locked : Principal := { old with mergedInto := some target, active := false } with hlocked
  have hrow : ∀ q ∈ d.principals, (afterMerge source target locked q).id = q.id ∧
      (afterMerge source target locked q).sub = q.sub := by
    intro q hq
    by_cases hsame : q.id = source
    · obtain rfl := inj_on_of_nodup_map hd.wf.principalIds hq hmem (hsame.trans hid.symm)
      simp [afterMerge, hsame, hlocked]
    · exact ⟨(afterMerge_other hsame).1, (afterMerge_other hsame).2.1⟩
  obtain ⟨hwf, hsubs, hsynced⟩ := mapPrincipals_spec hd hrow
  refine syncOne_good hwf hsubs (mem_map.mpr ⟨old, hmem, by simp [hid]⟩) fun q hq hother => ?_
  obtain ⟨q₀, hq₀, rfl⟩ := mem_map.mp hq
  have hother : q₀.id ≠ source := fun hsame => hother ((hrow q₀ hq₀).1.trans (hsame.trans hid.symm))
  exact hsynced q₀ hq₀ (afterMerge_other hother).2.2

end Accounts

section Revoke

variable {a a' : Access} {p : Principal} {plan : RevokePlan} {deactivate : Bool}

theorem deactivate_good {d : Db} (hd : Good d) (id : ℕ) (deactivate : Bool) :
    Good { d with principals := d.principals.map fun q =>
      if q.id = id && deactivate then { q with active := false } else q } := by
  have hrow : ∀ q : Principal, (if q.id = id && deactivate then { q with active := false } else q).id = q.id ∧
      (if q.id = id && deactivate then { q with active := false } else q).sub = q.sub ∧
      (if q.id = id && deactivate then { q with active := false } else q).effectiveGroups = q.effectiveGroups := by
    intro q
    split <;> exact ⟨rfl, rfl, rfl⟩
  obtain ⟨hwf, hsubs, hsynced⟩ := mapPrincipals_spec hd fun q _ => ⟨(hrow q).1, (hrow q).2.1⟩
  refine ⟨hwf, hsubs, fun q hq => ?_⟩
  obtain ⟨q₀, hq₀, rfl⟩ := mem_map.mp hq
  exact hsynced q₀ hq₀ (hrow q₀).2.2

theorem revokeAccess_good {id : ℕ} {gremiumIds roleIds : List ℕ} {deactivate : Bool} {actor : Text}
    (ha : Good a.core) (h : revokeAccess id gremiumIds roleIds deactivate actor a = .ok a') : Good a'.core := by
  simp only [revokeAccess, bind_ok, found_ok, ensure_ok] at h
  obtain ⟨p, hfind, _, _, _, _, h⟩ := h
  have hp := mem_of_find?_eq_some hfind
  split at h
  · cases h
  · next plan _ =>
      obtain rfl := Except.ok.inj h
      obtain ⟨hwf, hsubs, hrow, hothers⟩ := setGroups_spec ha hp (p.without plan.removedGroups).groups
      exact deactivate_good (syncOne_good (p := p.without plan.removedGroups) hwf hsubs hrow hothers) p.id deactivate

end Revoke

section Rank

variable {d d' : Db}
variable {permissions : List GremiumPermission}

theorem RankLe.total (r s : GremiumRole) : RankLe r s ∨ RankLe s r := by
  cases hlt : rankLt s r
  · exact .inl (rankLt_eq_false.mp hlt)
  · exact .inr (rankLe_of_rankLt hlt)

def First (d : Db) (groups : List Text) (r : GremiumRole) : Prop :=
  ∀ s ∈ d.roles, s.id ≠ r.id → s.gremium = r.gremium → Gives d groups s → RankLe r s

def KeepsFirst (d : Db) (id : ℕ) (permissions : List GremiumPermission) : Prop :=
  ∀ p ∈ d.principals, ∀ r ∈ d.roles, r.id = id → Leads d p.effectiveGroups r.gremium → Gives d p.effectiveGroups r →
    (First d p.effectiveGroups { r with permissions } ↔ First d p.effectiveGroups r)

def edited (id : ℕ) (permissions : List GremiumPermission) (r : GremiumRole) : GremiumRole :=
  if r.id = id then { r with permissions } else r

theorem edited_fields (id : ℕ) (permissions : List GremiumPermission) (r : GremiumRole) :
    (edited id permissions r).id = r.id ∧ (edited id permissions r).gremium = r.gremium ∧
      (edited id permissions r).key = r.key := by
  unfold edited
  split <;> exact ⟨rfl, rfl, rfl⟩

theorem gives_edited {id : ℕ} {groups : List Text} {r : GremiumRole} :
    Gives (d.setPermissions id permissions) groups (edited id permissions r) ↔ Gives d groups r := by
  simp only [Gives, (edited_fields id permissions r).1]
  rfl

theorem best_edited (hwf : Wf d) {id : ℕ} {groups : List Text} {g : ℕ}
    (hfirst : ∀ r ∈ d.roles, r.id = id → r.gremium = g → Gives d groups r →
      (First d groups { r with permissions } ↔ First d groups r))
    {r s : GremiumRole} (hr : r ∈ d.roles) (hrg : r.gremium = g) (hgives : Gives d groups r)
    (hbest : ∀ s ∈ d.roles, s.gremium = g → Gives d groups s → RankLe r s) (hs : s ∈ d.roles) (hsg : s.gremium = g)
    (hsgives : Gives d groups s) : RankLe (edited id permissions r) (edited id permissions s) := by
  have hall : First d groups r := fun t ht _ htg => hbest t ht (htg.trans hrg)
  unfold edited
  by_cases hrid : r.id = id <;> by_cases hsid : s.id = id
  · obtain rfl := inj_on_of_nodup_map hwf.roleIds hr hs (hrid.trans hsid.symm)
    exact .refl _
  · rw [if_pos hrid, if_neg hsid]
    exact (hfirst r hr hrid hrg hgives).mpr hall s hs (fun h => hsid (h.trans hrid)) (hsg.trans hrg.symm) hsgives
  · rw [if_neg hrid, if_pos hsid]
    rcases RankLe.total r { s with permissions } with hle | hge
    · exact hle
    · -- then the edited role comes first now, so it came first before, so it is the best one
      have hnow : First d groups { s with permissions } :=
        fun t ht _ htg htgives => hge.trans (hbest t ht (htg.trans hsg) htgives)
      have hbefore := (hfirst s hs hsid hsg hsgives).mp hnow
      have hle := hbefore r hr (fun h => hrid (h.trans hsid)) (hrg.trans hsg.symm) hgives
      have hsame := eq_of_rankLe hwf hr hs (hrg.trans hsg.symm) (hbest s hs hsg hsgives) hle
      exact absurd (hsame ▸ hsid) hrid
  · rw [if_neg hrid, if_neg hsid]
    exact hbest s hs hsg hsgives

theorem setPermissions_good (hd : Good d) {id : ℕ} (hfirst : KeepsFirst d id permissions) :
    Good (d.setPermissions id permissions) := by
  have hwf := hd.wf
  refine ⟨{ hwf with roleIds := ?_, roleKeys := ?_, roleMaps := ?_, roleFresh := ?_ }, hd.subs, fun p hp => ?_⟩
  · have hids : (d.roles.map (edited id permissions)).map (·.id) = d.roles.map (·.id) := by
      rw [map_map]
      exact map_congr_left fun r _ => (edited_fields id permissions r).1
    exact hids ▸ hwf.roleIds
  · have hkeys : (d.roles.map (edited id permissions)).map (fun r => (r.gremium, r.key)) =
        d.roles.map fun r => (r.gremium, r.key) := by
      rw [map_map]
      exact map_congr_left fun r _ =>
        Prod.ext (edited_fields id permissions r).2.1 (edited_fields id permissions r).2.2
    exact hkeys ▸ hwf.roleKeys
  · intro m hm
    obtain ⟨r, hr, hid⟩ := hwf.roleMaps m hm
    exact ⟨edited id permissions r, mem_map_of_mem hr, (edited_fields id permissions r).1.trans hid⟩
  · intro r hr
    obtain ⟨r₀, hr₀, rfl⟩ := mem_map.mp hr
    exact (edited_fields id permissions r₀).1.symm ▸ hwf.roleFresh r₀ hr₀
  · obtain ⟨hunique, hright, hpresent⟩ := hd.inSync p hp
    refine ⟨hunique, fun m hm => ?_, hpresent⟩
    obtain ⟨hleads, r, hr, hid, hrg, hcase⟩ := hright m hm
    obtain ⟨heid, heg, hekey⟩ := edited_fields id permissions r
    refine ⟨hleads, edited id permissions r, mem_map_of_mem hr, heid.trans hid, heg.trans hrg, ?_⟩
    rcases hcase with ⟨hgives, hbest⟩ | ⟨hnone, hkey⟩
    · refine .inl ⟨gives_edited.mpr hgives, fun s hs hsg hsgives => ?_⟩
      obtain ⟨s₀, hs₀, rfl⟩ := mem_map.mp hs
      refine best_edited hwf ?_ hr hrg hgives hbest hs₀ ((edited_fields id permissions s₀).2.1.symm.trans hsg)
        (gives_edited.mp hsgives)
      intro t ht htid htg htgives
      exact hfirst p hp t ht htid (htg ▸ hleads) htgives
    · refine .inr ⟨fun s hs hsg hsgives => ?_, hekey.trans hkey⟩
      obtain ⟨s₀, hs₀, rfl⟩ := mem_map.mp hs
      exact hnone s₀ hs₀ ((edited_fields id permissions s₀).2.1.symm.trans hsg) (gives_edited.mp hsgives)

end Rank

section Runs

/-- The requests that change the memberships or what they depend on. -/
inductive Op where
  | createMembershipMapping (gremium : ℕ) (group : Text)
  | updateMembershipMapping (id : ℕ) (gremium : Option ℕ) (group : Option Text)
  | deleteMembershipMapping (id : ℕ)
  | createRoleMapping (role : ℕ) (group : Text)
  | updateRoleMapping (id : ℕ) (role : Option ℕ) (group : Option Text)
  | deleteRoleMapping (id : ℕ)
  | createRole (gremium : ℕ) (key : Text) (permissions : List Text)
  | updateRole (id : ℕ) (permissions : Option (List Text))
  | deleteRole (id : ℕ)
  | login (sub : Text) (groups : List Text)
  | renewSession (id : ℕ) (groups : List Text)
  | mergePrincipals (source target : ℕ) (allowed : Bool)
  | revokeAccess (id : ℕ) (gremiumIds roleIds : List ℕ) (deactivate : Bool) (actor : Text)

def onCore (call : Db → Call) (a : Access) : Except Problem Access :=
  (call a.core).map fun core => { a with core }

def Op.call : Op → Access → Except Problem Access
  | .createMembershipMapping gremium group => onCore (Membership.createMembershipMapping gremium group)
  | .updateMembershipMapping id gremium group => onCore (Membership.updateMembershipMapping id gremium group)
  | .deleteMembershipMapping id => onCore (Membership.deleteMembershipMapping id)
  | .createRoleMapping role group => onCore (Membership.createRoleMapping role group)
  | .updateRoleMapping id role group => onCore (Membership.updateRoleMapping id role group)
  | .deleteRoleMapping id => onCore (Membership.deleteRoleMapping id)
  | .createRole gremium key permissions => onCore (Membership.createRole gremium key permissions)
  | .updateRole id permissions => onCore (Membership.updateRole id permissions)
  | .deleteRole id => onCore (Membership.deleteRole id)
  | .login sub groups => onCore (Membership.login sub groups)
  | .renewSession id groups => onCore (Membership.renewSession id groups)
  | .mergePrincipals source target allowed => onCore (Membership.mergePrincipals source target allowed)
  | .revokeAccess id gremiumIds roleIds deactivate actor =>
    Membership.revokeAccess id gremiumIds roleIds deactivate actor

def Op.apply (a : Access) (op : Op) : Access :=
  match op.call a with
  | .ok a' => a'
  | .error _ => a

def run (a : Access) (ops : List Op) : Access := ops.foldl Op.apply a

def Op.Steady (a : Access) : Op → Prop
  | .updateRole id (some permissions) => KeepsFirst a.core id (sanitizePerms permissions)
  | _ => True

def SteadyRun (a : Access) : List Op → Prop
  | [] => True
  | op :: ops => op.Steady a ∧ SteadyRun (op.apply a) ops

theorem onCore_ok {call : Db → Call} {a a' : Access} (h : onCore call a = .ok a') : call a.core = .ok a'.core := by
  unfold onCore at h
  cases hcall : call a.core with
  | error e => simp [hcall, Except.map] at h
  | ok core =>
    simp only [hcall, Except.map, Except.ok.injEq] at h
    rw [← h]

theorem Op.call_good {a a' : Access} {op : Op} (ha : Good a.core) (hsteady : op.Steady a) (h : op.call a = .ok a') :
    Good a'.core := by
  cases op with
  | createMembershipMapping gremium group => exact createMembershipMapping_good ha (onCore_ok h)
  | updateMembershipMapping id gremium group => exact updateMembershipMapping_good ha (onCore_ok h)
  | deleteMembershipMapping id => exact deleteMembershipMapping_good ha (onCore_ok h)
  | createRoleMapping role group => exact createRoleMapping_good ha (onCore_ok h)
  | updateRoleMapping id role group => exact updateRoleMapping_good ha (onCore_ok h)
  | deleteRoleMapping id => exact deleteRoleMapping_good ha (onCore_ok h)
  | createRole gremium key permissions => exact createRole_good ha (onCore_ok h)
  | updateRole id permissions =>
    have h := onCore_ok h
    simp only [Membership.updateRole, bind_ok, found_ok] at h
    obtain ⟨_, _, h⟩ := h
    cases permissions with
    | none => exact pure_ok.mp h ▸ ha
    | some permissions => exact pure_ok.mp h ▸ setPermissions_good ha hsteady
  | deleteRole id => exact deleteRole_good ha (onCore_ok h)
  | login sub groups => exact login_good ha (onCore_ok h)
  | renewSession id groups => exact renewSession_good ha (onCore_ok h)
  | mergePrincipals source target allowed => exact mergePrincipals_good ha (onCore_ok h)
  | revokeAccess id gremiumIds roleIds deactivate actor => exact revokeAccess_good ha h

theorem Op.apply_good {a : Access} {op : Op} (ha : Good a.core) (hsteady : op.Steady a) : Good (op.apply a).core := by
  unfold Op.apply
  split
  · next a' h => exact call_good ha hsteady h
  · exact ha

theorem run_good {a : Access} {ops : List Op} (ha : Good a.core) (hsteady : SteadyRun a ops) :
    Good (run a ops).core := by
  induction ops generalizing a with
  | nil => exact ha
  | cons op ops ih => exact ih (Op.apply_good ha hsteady.1) hsteady.2

theorem SteadyRun.take {a : Access} {ops : List Op} (h : SteadyRun a ops) (n : ℕ) : SteadyRun a (ops.take n) := by
  induction ops generalizing a n with
  | nil => simpa using h
  | cons op ops ih =>
    cases n with
    | zero => trivial
    | succ n => exact ⟨h.1, ih h.2 n⟩

section Decide

instance (r s : GremiumRole) : Decidable (RankLe r s) :=
  inferInstanceAs (Decidable (_ ∨ _ ∧ r.key ≤ s.key))

instance (d : Db) (groups : List Text) (g : ℕ) : Decidable (Leads d groups g) :=
  inferInstanceAs (Decidable (∃ m ∈ d.membershipMaps, _))

instance (d : Db) (groups : List Text) (r : GremiumRole) : Decidable (Gives d groups r) :=
  inferInstanceAs (Decidable (∃ m ∈ d.roleMaps, _))

instance (d : Db) (groups : List Text) (g : ℕ) (r : GremiumRole) : Decidable (RightRole d groups g r) :=
  inferInstanceAs (Decidable (_ ∧ (_ ∧ (∀ s ∈ d.roles, s.gremium = g → Gives d groups s → _) ∨
    (∀ s ∈ d.roles, s.gremium = g → ¬ Gives d groups s) ∧ _)))

instance (d : Db) (groups : List Text) (r : GremiumRole) : Decidable (First d groups r) :=
  inferInstanceAs (Decidable (∀ s ∈ d.roles, s.id ≠ r.id → s.gremium = r.gremium → Gives d groups s → _))

instance (d : Db) (id : ℕ) (permissions : List GremiumPermission) : Decidable (KeepsFirst d id permissions) :=
  inferInstanceAs (Decidable (∀ p ∈ d.principals, ∀ r ∈ d.roles, r.id = id → Leads d p.effectiveGroups r.gremium →
    Gives d p.effectiveGroups r → _))

instance (a : Access) : (op : Op) → Decidable (op.Steady a)
  | .updateRole id (some permissions) => inferInstanceAs (Decidable (KeepsFirst a.core id (sanitizePerms permissions)))
  | .updateRole _ none | .createMembershipMapping .. | .updateMembershipMapping .. | .deleteMembershipMapping ..
  | .createRoleMapping .. | .updateRoleMapping .. | .deleteRoleMapping .. | .createRole .. | .deleteRole .. | .login ..
  | .renewSession .. | .mergePrincipals .. | .revokeAccess .. => isTrue trivial

instance decidableSteadyRun : (a : Access) → (ops : List Op) → Decidable (SteadyRun a ops)
  | _, [] => isTrue trivial
  | a, op :: ops =>
    have := decidableSteadyRun (op.apply a) ops
    inferInstanceAs (Decidable (op.Steady a ∧ SteadyRun (op.apply a) ops))

end Decide

/-- In every state of a run whose role edits change nobody's first role, the
memberships are the derived ones. -/
theorem memberships_derived {a : Access} (hwf : Wf a.core) (hprincipals : a.core.principals = []) {ops : List Op}
    (hsteady : SteadyRun a ops) (n : ℕ) : InSync (run a (ops.take n)).core := by
  have hgood : Good a.core := ⟨hwf, by simp [hprincipals], by simp [InSync, hprincipals]⟩
  exact (run_good hgood (hsteady.take n)).inSync

def emptyAccess (gremien : List ℕ) : Access := ⟨Db.empty gremien, [], [], [], [], [], []⟩

def boardOps : List Op :=
  [.createRole 1 (text "chair") [text "vote.cast"], .createRole 1 (text "guest") [],
   .createRoleMapping 0 (text "board"), .createRoleMapping 1 (text "board"),
   .createMembershipMapping 1 (text "board"), .login (text "p") [text "board"]]

def steadyOps : List Op :=
  boardOps ++ [.updateRole 0 (some [text "vote.cast", text "vote.manage"]), .updateRole 1 (some [text "vote.cast"]),
    .renewSession 5 [], .login (text "p") [text "board"], .login (text "q") [text "board"],
    .deleteRoleMapping 2, .mergePrincipals 5 8 true]

theorem steadyOps_derived : SteadyRun (emptyAccess [1]) steadyOps ∧
    (run (emptyAccess [1]) steadyOps).core.memberships = [⟨9, 8, 1, 1⟩] ∧
    InSync (run (emptyAccess [1]) steadyOps).core := by
  have hsteady : SteadyRun (emptyAccess [1]) steadyOps := by decide +kernel
  have hwf : Wf (emptyAccess [1]).core := by constructor <;> decide
  exact ⟨hsteady, by decide +kernel, memberships_derived hwf rfl hsteady steadyOps.length⟩

/-- The other role has more permissions after the edit, and the row keeps the old one. -/
def staleOps : List Op := boardOps ++ [.updateRole 1 (some [text "vote.cast", text "todo.write"])]

theorem staleOps_not_inSync : ¬ InSync (run (emptyAccess [1]) staleOps).core := by
  intro h
  have hroles : ∀ p ∈ (run (emptyAccess [1]) staleOps).core.principals,
      ∀ m ∈ rowsOf (run (emptyAccess [1]) staleOps).core p.id, ∃ r ∈ (run (emptyAccess [1]) staleOps).core.roles,
        r.id = m.role ∧ RightRole (run (emptyAccess [1]) staleOps).core p.effectiveGroups m.gremium r :=
    fun p hp m hm => ((h p hp).right m hm).2
  revert hroles
  decide +kernel

end Runs

end Membership
