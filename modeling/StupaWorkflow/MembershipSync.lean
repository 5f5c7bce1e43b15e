import StupaWorkflow.MembershipModel
import StupaWorkflow.Tables

/-!
What the memberships should be, said without the sync, and the proof that one
sync of a principal makes them so and leaves everyone else alone.
-/
namespace Membership
open Py List

def Leads (d : Db) (groups : List Text) (g : ℕ) : Prop := ∃ m ∈ d.membershipMaps, m.gremium = g ∧ m.group ∈ groups

def Gives (d : Db) (groups : List Text) (r : GremiumRole) : Prop := ∃ m ∈ d.roleMaps, m.role = r.id ∧ m.group ∈ groups

def RankLe (r s : GremiumRole) : Prop :=
  s.permissions.length < r.permissions.length ∨ (s.permissions.length = r.permissions.length ∧ r.key ≤ s.key)

/-- The given role with the best rank, or `member` when no role of the Gremium is given. -/
def RightRole (d : Db) (groups : List Text) (g : ℕ) (r : GremiumRole) : Prop :=
  r.gremium = g ∧
    ((Gives d groups r ∧ ∀ s ∈ d.roles, s.gremium = g → Gives d groups s → RankLe r s) ∨
      ((∀ s ∈ d.roles, s.gremium = g → ¬ Gives d groups s) ∧ r.key = memberKey))

def rowsOf (d : Db) (principal : ℕ) : List MembershipRow := d.memberships.filter fun m => m.principal = principal

/-- The rows of the principal are those that its groups define: one for each
Gremium that a group leads into, with the right role. -/
structure SyncedFor (d : Db) (p : Principal) : Prop where
  unique : ((rowsOf d p.id).map (·.gremium)).Nodup
  right : ∀ m ∈ rowsOf d p.id, Leads d p.effectiveGroups m.gremium ∧
    ∃ r ∈ d.roles, r.id = m.role ∧ RightRole d p.effectiveGroups m.gremium r
  present : ∀ g, Leads d p.effectiveGroups g → ∃ m ∈ rowsOf d p.id, m.gremium = g

def InSync (d : Db) : Prop := ∀ p ∈ d.principals, SyncedFor d p

/-- The constraints of the schema and the ids handed out so far. -/
structure Wf (d : Db) : Prop where
  principalIds : (d.principals.map (·.id)).Nodup
  roleIds : (d.roles.map (·.id)).Nodup
  roleKeys : (d.roles.map fun r => (r.gremium, r.key)).Nodup
  rowIds : (d.memberships.map (·.id)).Nodup
  roleMaps : ∀ m ∈ d.roleMaps, ∃ r ∈ d.roles, r.id = m.role
  principalFresh : ∀ p ∈ d.principals, p.id < d.nextId
  roleFresh : ∀ r ∈ d.roles, r.id < d.nextId
  rowFresh : ∀ m ∈ d.memberships, m.id < d.nextId

structure Grows (d e : Db) : Prop where
  gremien : e.gremien = d.gremien
  principals : e.principals = d.principals
  membershipMaps : e.membershipMaps = d.membershipMaps
  roleMaps : e.roleMaps = d.roleMaps
  roles : ∃ new, e.roles = d.roles ++ new ∧ ∀ r ∈ new, d.nextId ≤ r.id
  nextId : d.nextId ≤ e.nextId

theorem Grows.refl (d : Db) : Grows d d := ⟨rfl, rfl, rfl, rfl, ⟨[], by simp⟩, le_rfl⟩

theorem Grows.trans {d e f : Db} (h : Grows d e) (k : Grows e f) : Grows d f := by
  obtain ⟨new, hnew, hid⟩ := h.roles
  obtain ⟨more, hmore, hid'⟩ := k.roles
  refine ⟨k.gremien.trans h.gremien, k.principals.trans h.principals, k.membershipMaps.trans h.membershipMaps,
    k.roleMaps.trans h.roleMaps, ⟨new ++ more, by simp [hmore, hnew], ?_⟩, h.nextId.trans k.nextId⟩
  intro r hr
  rcases mem_append.mp hr with hr | hr
  · exact hid r hr
  · exact h.nextId.trans (hid' r hr)

section Frame

variable {d e : Db} {groups : List Text} {g : ℕ}
variable {r : GremiumRole}

theorem Grows.leads (h : Grows d e) : Leads e groups g ↔ Leads d groups g := by
  simp only [Leads, h.membershipMaps]

theorem Grows.gives (h : Grows d e) : Gives e groups r ↔ Gives d groups r := by
  simp only [Gives, h.roleMaps]

theorem Grows.mem_roles (h : Grows d e) (hr : r ∈ d.roles) : r ∈ e.roles := by
  obtain ⟨new, hnew, _⟩ := h.roles
  simp [hnew, hr]

theorem Grows.old_of_gives (h : Grows d e) (hwf : Wf d) (hr : r ∈ e.roles) (hg : Gives d groups r) : r ∈ d.roles := by
  obtain ⟨new, hnew, hid⟩ := h.roles
  obtain ⟨m, hm, hrole, _⟩ := hg
  obtain ⟨s, hs, hsid⟩ := hwf.roleMaps m hm
  rw [hnew] at hr
  rcases mem_append.mp hr with hr | hr
  · exact hr
  · have := hid r hr
    have := hwf.roleFresh s hs
    omega

theorem Grows.rightRole (h : Grows d e) (hwf : Wf d) (hr : RightRole d groups g r) : RightRole e groups g r := by
  obtain ⟨hgr, ⟨hgives, hbest⟩ | ⟨hnone, hkey⟩⟩ := hr
  · refine ⟨hgr, .inl ⟨h.gives.mpr hgives, fun s hs hsg hsgives => ?_⟩⟩
    have hsgives := h.gives.mp hsgives
    exact hbest s (h.old_of_gives hwf hs hsgives) hsg hsgives
  · refine ⟨hgr, .inr ⟨fun s hs hsg hsgives => ?_, hkey⟩⟩
    have hsgives := h.gives.mp hsgives
    exact hnone s (h.old_of_gives hwf hs hsgives) hsg hsgives

theorem Grows.syncedFor (h : Grows d e) (hwf : Wf d) {p : Principal} (hrows : rowsOf e p.id = rowsOf d p.id)
    (hp : SyncedFor d p) : SyncedFor e p where
  unique := hrows ▸ hp.unique
  right m hm := by
    obtain ⟨hleads, r, hr, hid, hright⟩ := hp.right m (hrows ▸ hm)
    exact ⟨h.leads.mpr hleads, r, h.mem_roles hr, hid, h.rightRole hwf hright⟩
  present g hg := by
    rw [hrows]
    exact hp.present g (h.leads.mp hg)

end Frame

section DefaultRole

variable {d : Db}

theorem addRole_grows (g : ℕ) (key : Text) (perms : List GremiumPermission) (d : Db) :
    Grows d (d.addRole g key perms) :=
  ⟨rfl, rfl, rfl, rfl, ⟨_, rfl, by simp⟩, Nat.le_succ _⟩

theorem addRole_wf (h : Wf d) {g : ℕ} {key : Text} (perms : List GremiumPermission)
    (hnew : ∀ r ∈ d.roles, ¬ (r.gremium = g ∧ r.key = key)) : Wf (d.addRole g key perms) where
  principalIds := h.principalIds
  roleIds := Table.nodup_insert h.roleIds fun r hr => (h.roleFresh r hr).ne
  roleKeys := Table.nodup_insert h.roleKeys fun r hr heq => hnew r hr (Prod.mk.inj heq)
  rowIds := h.rowIds
  roleMaps m hm := by
    obtain ⟨r, hr, hid⟩ := h.roleMaps m hm
    exact ⟨r, by simp [Db.addRole, hr], hid⟩
  principalFresh p hp := Nat.lt_succ_of_lt (h.principalFresh p hp)
  roleFresh r hr := by
    simp only [Db.addRole, mem_append, mem_singleton] at hr ⊢
    rcases hr with hr | rfl
    · exact Nat.lt_succ_of_lt (h.roleFresh r hr)
    · exact Nat.lt_succ_self _
  rowFresh m hm := Nat.lt_succ_of_lt (h.rowFresh m hm)

theorem addRoles_spec (g : ℕ) (fs : List (Text × List GremiumPermission)) (h : Wf d) (hkeys : (fs.map (·.1)).Nodup)
    (hnew : ∀ f ∈ fs, ∀ r ∈ d.roles, ¬ (r.gremium = g ∧ r.key = f.1)) :
    Wf (fs.foldl (fun d f => d.addRole g f.1 f.2) d) ∧ Grows d (fs.foldl (fun d f => d.addRole g f.1 f.2) d) ∧
      (fs.foldl (fun d f => d.addRole g f.1 f.2) d).memberships = d.memberships ∧
      ∀ f ∈ fs, ∃ r ∈ (fs.foldl (fun d f => d.addRole g f.1 f.2) d).roles, r.gremium = g ∧ r.key = f.1 := by
  induction fs generalizing d with
  | nil => exact ⟨h, .refl d, rfl, by simp⟩
  | cons f fs ih =>
    simp only [map_cons, nodup_cons] at hkeys
    have hstep := addRole_wf h f.2 (hnew f (by simp))
    have hgrows := addRole_grows g f.1 f.2 d
    have hnew' : ∀ f' ∈ fs, ∀ r ∈ (d.addRole g f.1 f.2).roles, ¬ (r.gremium = g ∧ r.key = f'.1) := by
      intro f' hf' r hr
      simp only [Db.addRole, mem_append, mem_singleton] at hr
      rcases hr with hr | rfl
      · exact hnew f' (mem_cons_of_mem _ hf') r hr
      · rintro ⟨_, hkey⟩
        exact hkeys.1 (mem_map.mpr ⟨f', hf', hkey.symm⟩)
    obtain ⟨hwf, hgr, hrows, hhas⟩ := ih hstep hkeys.2 hnew'
    refine ⟨hwf, hgrows.trans hgr, hrows, fun f' hf' => ?_⟩
    rcases mem_cons.mp hf' with rfl | hf'
    · exact ⟨⟨d.nextId, g, f'.1, f'.2⟩, hgr.mem_roles (by simp [Db.addRole]), rfl, rfl⟩
    · exact hhas f' hf'

theorem findDefaultRole_spec {g : ℕ} {r : GremiumRole} (h : findDefaultRole d g = some r) :
    r ∈ d.roles ∧ r.gremium = g ∧ r.key = memberKey := by
  have hr := find?_some h
  simp only [Bool.and_eq_true, decide_eq_true_eq] at hr
  exact ⟨mem_of_find?_eq_some h, hr⟩

theorem findDefaultRole_isSome {g : ℕ} {r : GremiumRole} (hr : r ∈ d.roles) (hg : r.gremium = g)
    (hkey : r.key = memberKey) : (findDefaultRole d g).isSome := by
  unfold findDefaultRole
  rw [find?_isSome]
  exact ⟨r, hr, by simp [hg, hkey]⟩

theorem ensureDefaultRole_spec (h : Wf d) (g : ℕ) :
    Wf (ensureDefaultRole d g) ∧ Grows d (ensureDefaultRole d g) ∧
      (ensureDefaultRole d g).memberships = d.memberships ∧ (findDefaultRole (ensureDefaultRole d g) g).isSome := by
  unfold ensureDefaultRole
  split
  · exact ⟨h, .refl d, rfl, ‹_›⟩
  · next hmissing =>
      have hkeys : ((forcedGremiumRoles.filter fun f => !d.roles.any fun r => r.gremium = g && r.key = f.1).map
          (·.1)).Nodup := List.Nodup.sublist (filter_sublist.map _) (by decide)
      obtain ⟨hwf, hgr, hrows, hhas⟩ := addRoles_spec g _ h hkeys (by
        intro f hf r hr hboth
        have := (mem_filter.mp hf).2
        simp only [Bool.not_eq_true', any_eq_false, Bool.and_eq_true, decide_eq_true_eq] at this
        exact this r hr hboth)
      refine ⟨hwf, hgr, hrows, ?_⟩
      have hnone : ∀ r ∈ d.roles, ¬ (r.gremium = g ∧ r.key = memberKey) := by
        rintro r hr ⟨hrg, hkey⟩
        exact hmissing (findDefaultRole_isSome hr hrg hkey)
      have hlisted : (memberKey, [GremiumPermission.voteCast, .todoWrite]) ∈
          forcedGremiumRoles.filter fun f => !d.roles.any fun r => r.gremium = g && r.key = f.1 := by
        refine mem_filter.mpr ⟨by simp [forcedGremiumRoles], ?_⟩
        simp only [Bool.not_eq_true', any_eq_false, Bool.and_eq_true, decide_eq_true_eq]
        exact hnone
      obtain ⟨r, hr, hrg, hkey⟩ := hhas _ hlisted
      exact findDefaultRole_isSome hr hrg hkey

theorem ensureDefaultRoles_spec (h : Wf d) (gs : List ℕ) :
    Wf (gs.foldl ensureDefaultRole d) ∧ Grows d (gs.foldl ensureDefaultRole d) ∧
      (gs.foldl ensureDefaultRole d).memberships = d.memberships ∧
      ∀ g ∈ gs, (findDefaultRole (gs.foldl ensureDefaultRole d) g).isSome := by
  induction gs generalizing d with
  | nil => exact ⟨h, .refl d, rfl, by simp⟩
  | cons g gs ih =>
    obtain ⟨hwf, hgr, hrows, hhas⟩ := ensureDefaultRole_spec h g
    obtain ⟨hwf', hgr', hrows', hhas'⟩ := ih hwf
    refine ⟨hwf', hgr.trans hgr', hrows'.trans hrows, fun g' hg' => ?_⟩
    rcases mem_cons.mp hg' with rfl | hg'
    · obtain ⟨r, hr⟩ := Option.isSome_iff_exists.mp hhas
      obtain ⟨hmem, hrg, hkey⟩ := findDefaultRole_spec hr
      exact findDefaultRole_isSome (hgr'.mem_roles hmem) hrg hkey
    · exact hhas' g' hg'

end DefaultRole

section Rank

variable {r s : GremiumRole}

theorem rankLt_eq_false : rankLt s r = false ↔ RankLe r s := by
  simp only [rankLt, RankLe, Bool.or_eq_false_iff, Bool.and_eq_false_iff, decide_eq_false_iff_not, not_lt]
  constructor
  · rintro ⟨hle, hne | hkey⟩
    · exact .inl (lt_of_le_of_ne hle (Ne.symm hne))
    · rcases hle.lt_or_eq with hlt | heq
      · exact .inl hlt
      · exact .inr ⟨heq, hkey⟩
  · rintro (hlt | ⟨heq, hkey⟩)
    · exact ⟨hlt.le, .inl (Ne.symm hlt.ne)⟩
    · exact ⟨heq.le, .inr hkey⟩

theorem RankLe.refl (r : GremiumRole) : RankLe r r := .inr ⟨rfl, le_rfl⟩

theorem RankLe.trans {t : GremiumRole} (h : RankLe r s) (k : RankLe s t) : RankLe r t := by
  rcases h with h | ⟨h, hkey⟩ <;> rcases k with k | ⟨k, kkey⟩
  · exact .inl (k.trans h)
  · exact .inl (k ▸ h)
  · exact .inl (h ▸ k)
  · exact .inr ⟨k.trans h, hkey.trans kkey⟩

theorem rankLe_of_rankLt (h : rankLt r s = true) : RankLe r s := by
  simp only [rankLt, Bool.or_eq_true, Bool.and_eq_true, decide_eq_true_eq] at h
  rcases h with h | ⟨h, hkey⟩
  · exact .inl h
  · exact .inr ⟨h, hkey.le⟩

theorem eq_of_rankLe {d : Db} (hwf : Wf d) (hr : r ∈ d.roles) (hs : s ∈ d.roles) (hg : r.gremium = s.gremium) (h : RankLe r s)
    (k : RankLe s r) : r = s := by
  have hkey : r.key = s.key := by
    rcases h with h | ⟨_, hkey⟩ <;> rcases k with k | ⟨_, kkey⟩
    · omega
    · omega
    · omega
    · exact le_antisymm hkey kkey
  exact inj_on_of_nodup_map hwf.roleKeys hr hs (by rw [hg, hkey])

theorem foldl_best (r : GremiumRole) (rs : List GremiumRole) :
    (rs.foldl (fun best s => if rankLt s best then s else best) r) ∈ r :: rs ∧
      ∀ s ∈ r :: rs, RankLe (rs.foldl (fun best s => if rankLt s best then s else best) r) s := by
  induction rs generalizing r with
  | nil => simp [RankLe.refl]
  | cons s rs ih =>
    simp only [foldl_cons]
    obtain ⟨hmem, hle⟩ := ih (if rankLt s r then s else r)
    have hfirst := hle _ mem_cons_self
    have hboth : RankLe (if rankLt s r then s else r) r ∧ RankLe (if rankLt s r then s else r) s := by
      split
      · next hlt => exact ⟨rankLe_of_rankLt hlt, .refl s⟩
      · next hnot => exact ⟨.refl r, rankLt_eq_false.mp (by simpa using hnot)⟩
    refine ⟨?_, fun t ht => ?_⟩
    · rcases mem_cons.mp hmem with heq | hmem
      · rw [heq]
        split <;> simp
      · simp [hmem]
    · rcases mem_cons.mp ht with rfl | ht
      · exact hfirst.trans hboth.1
      · rcases mem_cons.mp ht with rfl | ht
        · exact hfirst.trans hboth.2
        · exact hle t (mem_cons_of_mem _ ht)

theorem bestRole_spec {rs : List GremiumRole} (h : bestRole rs = some r) : r ∈ rs ∧ ∀ s ∈ rs, RankLe r s := by
  cases rs with
  | nil => cases h
  | cons s rs =>
    obtain rfl := Option.some.inj h
    exact foldl_best s rs

theorem bestRole_isSome {rs : List GremiumRole} (h : rs ≠ []) : (bestRole rs).isSome := by
  cases rs with
  | nil => exact absurd rfl h
  | cons s rs => rfl

theorem RightRole.unique {d : Db} (hwf : Wf d) {groups : List Text} {g : ℕ} (hr : r ∈ d.roles) (hs : s ∈ d.roles)
    (h : RightRole d groups g r) (k : RightRole d groups g s) : r = s := by
  obtain ⟨hrg, h⟩ := h
  obtain ⟨hsg, k⟩ := k
  rcases h with ⟨hgives, hbest⟩ | ⟨hnone, hkey⟩ <;> rcases k with ⟨kgives, kbest⟩ | ⟨knone, kkey⟩
  · exact eq_of_rankLe hwf hr hs (hrg.trans hsg.symm) (hbest s hs hsg kgives) (kbest r hr hrg hgives)
  · exact absurd hgives (knone r hr hrg)
  · exact absurd kgives (hnone s hs hsg)
  · exact inj_on_of_nodup_map hwf.roleKeys hr hs (by rw [hrg, hsg, hkey, kkey])

end Rank

section Desired

variable {d : Db} {groups : List Text}
variable {g id : ℕ}

theorem mem_memberOf : g ∈ memberOf d groups ↔ Leads d groups g := by
  simp only [memberOf, mem_dedup, mem_map, mem_filter, decide_eq_true_eq, Leads]
  constructor
  · rintro ⟨m, ⟨hm, hgroup⟩, rfl⟩
    exact ⟨m, hm, rfl, hgroup⟩
  · rintro ⟨m, hm, rfl, hgroup⟩
    exact ⟨m, ⟨hm, hgroup⟩, rfl⟩

theorem mem_mappedRoles {r : GremiumRole} :
    r ∈ mappedRoles d groups ↔ r ∈ d.roles ∧ Leads d groups r.gremium ∧ Gives d groups r := by
  simp only [mappedRoles, mem_filter, Bool.and_eq_true, decide_eq_true_eq, mem_memberOf, any_eq_true, Gives]

structure Desired (d : Db) (groups : List Text) (desired : List (ℕ × ℕ)) : Prop where
  keys : (desired.map (·.1)).Nodup
  right : ∀ g id, (g, id) ∈ desired → Leads d groups g ∧ ∃ r ∈ d.roles, r.id = id ∧ RightRole d groups g r
  total : ∀ g, Leads d groups g → ∃ id, (g, id) ∈ desired

theorem keys_sublist (gs : List ℕ) (f : ℕ → Option GremiumRole) :
    List.Sublist ((gs.filterMap fun g => (f g).map fun r => (g, r.id)).map (·.1)) gs := by
  induction gs with
  | nil => exact List.Sublist.slnil
  | cons g gs ih =>
    cases hf : f g with
    | none => simpa [hf] using ih.cons g
    | some r => simpa [hf] using ih.cons_cons g

theorem mem_pairs {gs : List ℕ} {f : ℕ → Option GremiumRole} :
    (g, id) ∈ (gs.filterMap fun g => (f g).map fun r => (g, r.id)) ↔ g ∈ gs ∧ ∃ r, f g = some r ∧ r.id = id := by
  simp only [mem_filterMap, Option.map_eq_some_iff, Prod.mk.injEq]
  constructor
  · rintro ⟨g', hg', r, hr, rfl, rfl⟩
    exact ⟨hg', r, hr, rfl⟩
  · rintro ⟨hg, r, hr, rfl⟩
    exact ⟨g, hg, r, hr, rfl, rfl⟩

def givenRoles (d : Db) (groups : List Text) (g : ℕ) : List GremiumRole :=
  (mappedRoles d groups).filter fun r => r.gremium = g

theorem mem_givenRoles {r : GremiumRole} (hg : Leads d groups g) :
    r ∈ givenRoles d groups g ↔ r ∈ d.roles ∧ r.gremium = g ∧ Gives d groups r := by
  simp only [givenRoles, mem_filter, mem_mappedRoles, decide_eq_true_eq]
  constructor
  · rintro ⟨⟨hr, _, hgives⟩, rfl⟩
    exact ⟨hr, rfl, hgives⟩
  · rintro ⟨hr, rfl, hgives⟩
    exact ⟨⟨hr, hg, hgives⟩, rfl⟩

def bareGremien (d : Db) (groups : List Text) : List ℕ :=
  (memberOf d groups).filter fun g => !(mappedRoles d groups).any fun r => r.gremium = g

theorem mem_bareGremien : g ∈ bareGremien d groups ↔ Leads d groups g ∧ givenRoles d groups g = [] := by
  simp [bareGremien, givenRoles, mem_memberOf, filter_eq_nil_iff]

theorem desiredRoles_eq (d : Db) (groups : List Text) :
    desiredRoles d groups =
      ((bareGremien d groups).foldl ensureDefaultRole d,
        ((memberOf d groups).filterMap fun g => (bestRole (givenRoles d groups g)).map fun r => (g, r.id)) ++
          (bareGremien d groups).filterMap fun g =>
            (findDefaultRole ((bareGremien d groups).foldl ensureDefaultRole d) g).map fun r => (g, r.id)) := rfl

theorem desiredRoles_spec (hwf : Wf d) (groups : List Text) :
    Wf (desiredRoles d groups).1 ∧ Grows d (desiredRoles d groups).1 ∧
      (desiredRoles d groups).1.memberships = d.memberships ∧
      Desired (desiredRoles d groups).1 groups (desiredRoles d groups).2 := by
  obtain ⟨hwf', hgr, hrows, hdefault⟩ := ensureDefaultRoles_spec hwf (bareGremien d groups)
  rw [desiredRoles_eq]
  refine ⟨hwf', hgr, hrows, ?_, ?_, ?_⟩
  · -- a Gremium with a best role has a given role, so it is not bare
    rw [map_append, nodup_append]
    refine ⟨(nodup_dedup _).sublist (keys_sublist _ _),
      ((nodup_dedup _).filter _).sublist (keys_sublist _ _), ?_⟩
    rintro g hg _ hg' rfl
    obtain ⟨⟨_, id⟩, hpair, rfl⟩ := mem_map.mp hg
    obtain ⟨_, r, hr, _⟩ := mem_pairs.mp hpair
    have hbare := mem_bareGremien.mp ((keys_sublist _ _).subset hg')
    rw [hbare.2] at hr
    cases hr
  · intro g id hmem
    rcases mem_append.mp hmem with hmem | hmem
    · obtain ⟨hg, r, hr, hid⟩ := mem_pairs.mp hmem
      have hleads := mem_memberOf.mp hg
      obtain ⟨hrmem, hbest⟩ := bestRole_spec hr
      obtain ⟨hrd, hrg, hgives⟩ := (mem_givenRoles hleads).mp hrmem
      refine ⟨hgr.leads.mpr hleads, r, hgr.mem_roles hrd, hid, hgr.rightRole hwf ⟨hrg, .inl ⟨hgives, ?_⟩⟩⟩
      exact fun s hs hsg hsgives => hbest s ((mem_givenRoles hleads).mpr ⟨hs, hsg, hsgives⟩)
    · obtain ⟨hg, r, hr, hid⟩ := mem_pairs.mp hmem
      obtain ⟨hleads, hnone⟩ := mem_bareGremien.mp hg
      obtain ⟨hrd, hrg, hkey⟩ := findDefaultRole_spec hr
      refine ⟨hgr.leads.mpr hleads, r, hrd, hid, hrg, .inr ⟨fun s hs hsg hsgives => ?_, hkey⟩⟩
      have hold := hgr.old_of_gives hwf hs (hgr.gives.mp hsgives)
      have hsmem := (mem_givenRoles hleads).mpr ⟨hold, hsg, hgr.gives.mp hsgives⟩
      simp [hnone] at hsmem
  · intro g hg
    have hleads := hgr.leads.mp hg
    by_cases hnone : givenRoles d groups g = []
    · have hbare := mem_bareGremien.mpr ⟨hleads, hnone⟩
      obtain ⟨r, hr⟩ := Option.isSome_iff_exists.mp (hdefault g hbare)
      exact ⟨r.id, mem_append_right _ (mem_pairs.mpr ⟨hbare, r, hr, rfl⟩)⟩
    · obtain ⟨r, hr⟩ := Option.isSome_iff_exists.mp (bestRole_isSome hnone)
      exact ⟨r.id, mem_append_left _ (mem_pairs.mpr ⟨mem_memberOf.mpr hleads, r, hr, rfl⟩)⟩

theorem Desired.desiredRole_eq {desired : List (ℕ × ℕ)} (h : (desired.map (·.1)).Nodup) :
    desiredRole desired g = some id ↔ (g, id) ∈ desired := by
  unfold desiredRole
  constructor
  · intro hsome
    obtain ⟨⟨g', i⟩, hfind, rfl⟩ := Option.map_eq_some_iff.mp hsome
    have hg := find?_some hfind
    rw [decide_eq_true_eq] at hg
    exact hg ▸ mem_of_find?_eq_some hfind
  · intro hmem
    cases hfind : desired.find? (fun pair => pair.1 = g) with
    | none =>
      have := find?_eq_none.mp hfind (g, id) hmem
      simp at this
    | some pair =>
      have hg := find?_some hfind
      rw [decide_eq_true_eq] at hg
      have hsame := inj_on_of_nodup_map h (mem_of_find?_eq_some hfind) hmem hg
      simp [hsame]

end Desired

section Sync

variable {d : Db} {p : Principal}
variable {existing : List MembershipRow} {f : MembershipRow → Option MembershipRow}

theorem addMemberships_spec (principal : ℕ) (pairs : List (ℕ × ℕ)) (hwf : Wf d) :
    Wf (pairs.foldl (Db.addMembership principal) d) ∧ Grows d (pairs.foldl (Db.addMembership principal) d) ∧
      ∃ added, (pairs.foldl (Db.addMembership principal) d).memberships = d.memberships ++ added ∧
        added.map (fun m => (m.principal, m.gremium, m.role)) = pairs.map fun pair => (principal, pair.1, pair.2) := by
  induction pairs generalizing d with
  | nil => exact ⟨hwf, .refl d, [], by simp, rfl⟩
  | cons pair pairs ih =>
    have hstep : Wf (Db.addMembership principal d pair) := by
      refine ⟨hwf.principalIds, hwf.roleIds, hwf.roleKeys, ?_, hwf.roleMaps,
        fun q hq => Nat.lt_succ_of_lt (hwf.principalFresh q hq),
        fun r hr => Nat.lt_succ_of_lt (hwf.roleFresh r hr), ?_⟩
      · exact Table.nodup_insert hwf.rowIds fun m hm => (hwf.rowFresh m hm).ne
      · intro m hm
        simp only [Db.addMembership, mem_append, mem_singleton] at hm ⊢
        rcases hm with hm | rfl
        · exact Nat.lt_succ_of_lt (hwf.rowFresh m hm)
        · exact Nat.lt_succ_self _
    obtain ⟨hwf', hgr, added, hadded, hmap⟩ := ih hstep
    have hgrows : Grows d (Db.addMembership principal d pair) :=
      ⟨rfl, rfl, rfl, rfl, ⟨[], by simp [Db.addMembership]⟩, Nat.le_succ _⟩
    refine ⟨hwf', hgrows.trans hgr, ⟨d.nextId, principal, pair.1, pair.2⟩ :: added, ?_, by simp [hmap]⟩
    rw [foldl_cons, hadded]
    simp [Db.addMembership]

theorem syncedRow_some {desired : List (ℕ × ℕ)} {m n : MembershipRow} (h : syncedRow desired existing m = some n) :
    ∃ role, desiredRole desired m.gremium = some role ∧ n = { m with role } ∧
      (existing.find? fun k => k.gremium = m.gremium).map (·.id) = some m.id := by
  unfold syncedRow at h
  split at h
  · cases h
  · next role hrole =>
      split at h
      · next hfirst => exact ⟨role, hrole, (Option.some.inj h).symm, hfirst⟩
      · cases h

def rewriteRows (principal : ℕ) (f : MembershipRow → Option MembershipRow) (ms : List MembershipRow) :
    List MembershipRow :=
  ms.filterMap fun m => if m.principal = principal then f m else some m

theorem rewriteRows_other {principal q : ℕ} (hq : q ≠ principal) (hf : ∀ m n, f m = some n → n.principal = m.principal)
    (ms : List MembershipRow) :
    (rewriteRows principal f ms).filter (fun m => m.principal = q) = ms.filter fun m => m.principal = q := by
  induction ms with
  | nil => rfl
  | cons m ms ih =>
    unfold rewriteRows at ih ⊢
    by_cases hm : m.principal = principal
    · have hmq : ¬ m.principal = q := fun heq => hq (heq.symm.trans hm)
      cases hfm : f m with
      | none => simp [hm, hfm, Ne.symm hq, ih]
      | some n =>
        have hnq : ¬ n.principal = q := hf m n hfm ▸ hmq
        simp [hm, hfm, hnq, Ne.symm hq, ih]
    · by_cases hmq : m.principal = q
      · simp [hmq, hq, ih]
      · simp [hm, hmq, ih]

theorem rewriteRows_own {principal : ℕ} (hf : ∀ m n, f m = some n → n.principal = m.principal) (ms : List MembershipRow) :
    (rewriteRows principal f ms).filter (fun m => m.principal = principal) =
      (ms.filter fun m => m.principal = principal).filterMap f := by
  induction ms with
  | nil => rfl
  | cons m ms ih =>
    unfold rewriteRows at ih ⊢
    by_cases hm : m.principal = principal
    · cases hfm : f m with
      | none => simp [hm, hfm, ih]
      | some n => simp [hm, hfm, hf m n hfm, ih]
    · simp [hm, ih]

theorem rewriteRows_ids (principal : ℕ) (hf : ∀ m n, f m = some n → n.id = m.id) (ms : List MembershipRow) :
    List.Sublist ((rewriteRows principal f ms).map (·.id)) (ms.map (·.id)) := by
  induction ms with
  | nil => exact List.Sublist.slnil
  | cons m ms ih =>
    unfold rewriteRows at ih ⊢
    by_cases hm : m.principal = principal
    · cases hfm : f m with
      | none => simpa [hm, hfm] using ih.cons _
      | some n => simpa [hm, hfm, hf m n hfm] using ih
    · simpa [hm] using ih

/-- The rows that stay have different Gremien: of each only the first one stays. -/
theorem kept_nodup (desired : List (ℕ × ℕ)) (hids : (existing.map (·.id)).Nodup) :
    ((existing.filterMap (syncedRow desired existing)).map (·.gremium)).Nodup := by
  have hsub : List.Sublist ((existing.filterMap (syncedRow desired existing)).map (·.id)) (existing.map (·.id)) := by
    have : ∀ ms : List MembershipRow,
        List.Sublist ((ms.filterMap (syncedRow desired existing)).map (·.id)) (ms.map (·.id)) := by
      intro ms
      induction ms with
      | nil => exact List.Sublist.slnil
      | cons m ms ih =>
        cases hf : syncedRow desired existing m with
        | none => simpa [hf] using ih.cons _
        | some n =>
          obtain ⟨role, _, rfl, _⟩ := syncedRow_some hf
          simpa [hf] using ih
    exact this existing
  have hnodup := hids.sublist hsub
  refine List.Nodup.map_on ?_ (List.Nodup.of_map _ hnodup)
  intro a ha b hb hg
  obtain ⟨m, _, hma⟩ := mem_filterMap.mp ha
  obtain ⟨n, _, hnb⟩ := mem_filterMap.mp hb
  obtain ⟨_, _, rfl, hfirst⟩ := syncedRow_some hma
  obtain ⟨_, _, rfl, hfirst'⟩ := syncedRow_some hnb
  refine inj_on_of_nodup_map hnodup ha hb ?_
  simp only at hg
  rw [hg, hfirst'] at hfirst
  exact (Option.some.inj hfirst).symm

theorem rewrite_wf (hwf : Wf d) (principal : ℕ) (desired : List (ℕ × ℕ)) (existing : List MembershipRow) :
    Wf { d with memberships := rewriteRows principal (syncedRow desired existing) d.memberships } := by
  have hids : ∀ m n, syncedRow desired existing m = some n → n.id = m.id := by
    intro m n h
    obtain ⟨_, _, rfl, _⟩ := syncedRow_some h
    rfl
  have hsub := rewriteRows_ids principal hids d.memberships
  refine ⟨hwf.principalIds, hwf.roleIds, hwf.roleKeys, hwf.rowIds.sublist hsub, hwf.roleMaps, hwf.principalFresh,
    hwf.roleFresh, fun m hm => ?_⟩
  obtain ⟨n, hn, hid⟩ := mem_map.mp (hsub.subset (mem_map_of_mem hm))
  exact hid ▸ hwf.rowFresh n hn

theorem syncPrincipal_rows (hwf : Wf d) (p : Principal) :
    let desired := (desiredRoles d p.effectiveGroups).2
    let kept := (rowsOf d p.id).filterMap (syncedRow desired (rowsOf d p.id))
    Wf (syncPrincipal d p) ∧ Grows (desiredRoles d p.effectiveGroups).1 (syncPrincipal d p) ∧
      (∀ q, q ≠ p.id → rowsOf (syncPrincipal d p) q = rowsOf d q) ∧
      ∃ added, rowsOf (syncPrincipal d p) p.id = kept ++ added ∧
        added.map (fun m => (m.gremium, m.role)) = desired.filter fun pair => pair.1 ∉ kept.map (·.gremium) := by
  intro desired kept
  obtain ⟨hwf₁, _, hrows, _⟩ := desiredRoles_spec hwf p.effectiveGroups
  have hwf₂ := rewrite_wf hwf₁ p.id desired (rowsOf d p.id)
  obtain ⟨hwf', hgr, added, hadded, hmap⟩ :=
    addMemberships_spec p.id (desired.filter fun pair => pair.1 ∉ kept.map (·.gremium)) hwf₂
  have hsync : syncPrincipal d p = (desired.filter fun pair => pair.1 ∉ kept.map (·.gremium)).foldl
      (Db.addMembership p.id) { (desiredRoles d p.effectiveGroups).1 with
        memberships := rewriteRows p.id (syncedRow desired (rowsOf d p.id)) (desiredRoles d p.effectiveGroups).1.memberships } := by
    have hexisting : (desiredRoles d p.effectiveGroups).1.memberships.filter (fun m => m.principal = p.id) =
        rowsOf d p.id := by rw [hrows]; rfl
    simp only [syncPrincipal, hexisting]
    rfl
  have howner : ∀ m ∈ added, m.principal = p.id := by
    intro m hm
    have hmem : (m.principal, m.gremium, m.role) ∈ added.map fun m => (m.principal, m.gremium, m.role) :=
      mem_map_of_mem hm
    rw [hmap] at hmem
    obtain ⟨pair, _, heq⟩ := mem_map.mp hmem
    exact (Prod.mk.inj heq).1.symm
  have hf : ∀ m n, syncedRow desired (rowsOf d p.id) m = some n → n.principal = m.principal := by
    intro m n h
    obtain ⟨_, _, rfl, _⟩ := syncedRow_some h
    rfl
  rw [hsync]
  refine ⟨hwf', ⟨hgr.gremien, hgr.principals, hgr.membershipMaps, hgr.roleMaps, hgr.roles, hgr.nextId⟩, ?_, added, ?_, ?_⟩
  · intro q hq
    have hnone : added.filter (fun m => m.principal = q) = [] :=
      filter_eq_nil_iff.mpr fun m hm heq => hq ((of_decide_eq_true heq).symm.trans (howner m hm))
    rw [rowsOf, hadded, filter_append, hnone, append_nil, rewriteRows_other hq hf, hrows, rowsOf]
  · have hall : added.filter (fun m => m.principal = p.id) = added :=
      filter_eq_self.mpr fun m hm => decide_eq_true (howner m hm)
    rw [rowsOf, hadded, filter_append, hall, rewriteRows_own hf, hrows]
    rfl
  · have := congrArg (List.map fun x : ℕ × ℕ × ℕ => x.2) hmap
    simpa [map_map, Function.comp_def] using this

theorem syncPrincipal_spec (hwf : Wf d) (p : Principal) :
    Wf (syncPrincipal d p) ∧ Grows d (syncPrincipal d p) ∧
      (∀ q, q ≠ p.id → rowsOf (syncPrincipal d p) q = rowsOf d q) ∧ SyncedFor (syncPrincipal d p) p := by
  obtain ⟨hwf₁, hgr₁, _, hdes⟩ := desiredRoles_spec hwf p.effectiveGroups
  obtain ⟨hwf', hgr, hothers, added, hrows, hmap⟩ := syncPrincipal_rows hwf p
  generalize (desiredRoles d p.effectiveGroups).2 = desired at *
  have hids : ((rowsOf d p.id).map (·.id)).Nodup := hwf.rowIds.sublist (filter_sublist.map _)
  have hkeys : added.map (·.gremium) = (desired.filter fun pair => pair.1 ∉
      ((rowsOf d p.id).filterMap (syncedRow desired (rowsOf d p.id))).map (·.gremium)).map (·.1) := by
    rw [← hmap, map_map]
    rfl
  have hright : ∀ g id, (g, id) ∈ desired → Leads (syncPrincipal d p) p.effectiveGroups g ∧
      ∃ r ∈ (syncPrincipal d p).roles, r.id = id ∧ RightRole (syncPrincipal d p) p.effectiveGroups g r := by
    intro g id hmem
    obtain ⟨hleads, r, hr, hid, hrole⟩ := hdes.right g id hmem
    exact ⟨hgr.leads.mpr hleads, r, hgr.mem_roles hr, hid, hgr.rightRole hwf₁ hrole⟩
  refine ⟨hwf', hgr₁.trans hgr, hothers, ?_, ?_, ?_⟩
  · rw [hrows, map_append, nodup_append]
    refine ⟨kept_nodup desired hids, ?_, ?_⟩
    · rw [hkeys]
      exact hdes.keys.sublist (filter_sublist.map _)
    · rintro g hg _ hg' rfl
      rw [hkeys] at hg'
      obtain ⟨pair, hpair, rfl⟩ := mem_map.mp hg'
      exact (of_decide_eq_true (mem_filter.mp hpair).2) hg
  · intro m hm
    rw [hrows] at hm
    rcases mem_append.mp hm with hm | hm
    · obtain ⟨n, _, hsome⟩ := mem_filterMap.mp hm
      obtain ⟨role, hrole, rfl, _⟩ := syncedRow_some hsome
      exact hright _ _ ((Desired.desiredRole_eq hdes.keys).mp hrole)
    · have hmem : (m.gremium, m.role) ∈ added.map fun m => (m.gremium, m.role) := mem_map_of_mem hm
      rw [hmap] at hmem
      exact hright _ _ (mem_filter.mp hmem).1
  · intro g hg
    obtain ⟨id, hid⟩ := hdes.total g (hgr.leads.mp hg)
    rw [hrows]
    by_cases hkept : g ∈ ((rowsOf d p.id).filterMap (syncedRow desired (rowsOf d p.id))).map (·.gremium)
    · obtain ⟨m, hm, hmg⟩ := mem_map.mp hkept
      exact ⟨m, mem_append_left _ hm, hmg⟩
    · have hnew : (g, id) ∈ added.map fun m => (m.gremium, m.role) := by
        rw [hmap]
        exact mem_filter.mpr ⟨hid, decide_eq_true hkept⟩
      obtain ⟨m, hm, heq⟩ := mem_map.mp hnew
      exact ⟨m, mem_append_right _ hm, (Prod.mk.inj heq).1⟩

theorem syncPrincipal_keeps (hwf : Wf d) {m : MembershipRow} (hm : m ∈ rowsOf d p.id)
    (hunique : ((rowsOf d p.id).map (·.gremium)).Nodup) (hleads : Leads d p.effectiveGroups m.gremium)
    {r : GremiumRole} (hr : r ∈ d.roles) (hid : r.id = m.role)
    (hright : RightRole d p.effectiveGroups m.gremium r) : m ∈ rowsOf (syncPrincipal d p) p.id := by
  obtain ⟨hwf₁, hgr₁, _, hdes⟩ := desiredRoles_spec hwf p.effectiveGroups
  obtain ⟨_, _, _, added, hrows, _⟩ := syncPrincipal_rows hwf p
  obtain ⟨id, hmem⟩ := hdes.total m.gremium (hgr₁.leads.mpr hleads)
  obtain ⟨_, s, hs, hsid, hsright⟩ := hdes.right m.gremium id hmem
  have hsame : r = s := (hgr₁.rightRole hwf hright).unique hwf₁ (hgr₁.mem_roles hr) hs hsright
  have hrole : desiredRole (desiredRoles d p.effectiveGroups).2 m.gremium = some m.role := by
    rw [Desired.desiredRole_eq hdes.keys, ← hid, hsame, hsid]
    exact hmem
  have hfirst : ((rowsOf d p.id).find? fun n => n.gremium = m.gremium).map (·.id) = some m.id := by
    cases hfind : (rowsOf d p.id).find? (fun n => n.gremium = m.gremium) with
    | none =>
      have := find?_eq_none.mp hfind m hm
      simp at this
    | some n =>
      have hg := find?_some hfind
      rw [decide_eq_true_eq] at hg
      rw [inj_on_of_nodup_map hunique (mem_of_find?_eq_some hfind) hm hg]
      rfl
  rw [hrows]
  refine mem_append_left _ (mem_filterMap.mpr ⟨m, hm, ?_⟩)
  simp only [syncedRow, hrole, hfirst, if_true]

end Sync

theorem mapPrincipals_wf {d : Db} (h : Wf d) {f : Principal → Principal} (hf : ∀ q ∈ d.principals, (f q).id = q.id) :
    Wf { d with principals := d.principals.map f } := by
  refine { h with principalIds := ?_, principalFresh := fun q hq => ?_ }
  · have hids : (d.principals.map f).map (·.id) = d.principals.map (·.id) := by
      rw [map_map]
      exact map_congr_left hf
    exact hids ▸ h.principalIds
  · obtain ⟨r, hr, rfl⟩ := mem_map.mp hq
    rw [hf r hr]
    exact h.principalFresh r hr

theorem setGroups_wf {d : Db} (h : Wf d) (id : ℕ) (groups : List Text) : Wf (d.setGroups id groups) := by
  refine mapPrincipals_wf h fun q _ => ?_
  split <;> rfl

end Membership
