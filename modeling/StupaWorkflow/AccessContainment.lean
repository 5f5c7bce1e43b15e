import StupaWorkflow.AccessRevoke

/-!
An accepted selection is closed: every group that goes leads to selected entries
only. So the sync after the revoke finds nothing in the selected Gremien and the
same groups as before in all others.
-/
namespace Membership
open Py List

section Closure

variable {snap : Snapshot} {gremien roles : List ℕ} {group : Text} {i : ℕ}
variable {pairs : List (Text × ℕ)}

theorem mem_targetsOf : i ∈ targetsOf pairs group ↔ (group, i) ∈ pairs := by
  simp only [targetsOf, mem_map, mem_filter, decide_eq_true_eq]
  constructor
  · rintro ⟨⟨g, j⟩, ⟨hmem, rfl⟩, rfl⟩
    exact hmem
  · intro hmem
    exact ⟨(group, i), ⟨hmem, rfl⟩, rfl⟩

theorem mem_removedGroups :
    group ∈ removedGroups snap gremien roles ↔
      (∃ g ∈ gremien, (group, g) ∈ gremiumPairs snap) ∨ ∃ r ∈ roles, (group, r) ∈ rolePairs snap := by
  simp only [removedGroups, groupTargets, mem_map, mem_filter, mem_dedup, mem_append,
    Bool.or_eq_true, any_eq_true, decide_eq_true_eq]
  constructor
  · rintro ⟨_, ⟨⟨γ, _, rfl⟩, hhit⟩, rfl⟩
    rcases hhit with ⟨g, hg, hchosen⟩ | ⟨r, hr, hchosen⟩
    · exact .inl ⟨g, hchosen, mem_targetsOf.mp hg⟩
    · exact .inr ⟨r, hchosen, mem_targetsOf.mp hr⟩
  · rintro (⟨g, hchosen, hpair⟩ | ⟨r, hchosen, hpair⟩)
    · exact ⟨_, ⟨⟨group, ⟨_, .inl hpair, rfl⟩, rfl⟩, .inl ⟨g, mem_targetsOf.mpr hpair, hchosen⟩⟩, rfl⟩
    · exact ⟨_, ⟨⟨group, ⟨_, .inr hpair, rfl⟩, rfl⟩, .inr ⟨r, mem_targetsOf.mpr hpair, hchosen⟩⟩, rfl⟩

theorem closed_of_missing {removed : List Text} {chosen : List ℕ} (h : missingOf pairs removed chosen = [])
    (hgroup : group ∈ removed) (hpair : (group, i) ∈ pairs) : i ∈ chosen := by
  by_contra hnot
  have : i ∈ missingOf pairs removed chosen := by
    simp only [missingOf, mem_dedup, mem_filter, mem_flatMap, decide_eq_true_eq]
    exact ⟨⟨group, hgroup, mem_targetsOf.mpr hpair⟩, hnot⟩
  simp [h] at this

/-- What an accepted selection guarantees, and what its plan holds. -/
structure Accepted (snap : Snapshot) (gremiumIds roleIds : List ℕ) (plan : RevokePlan) : Prop where
  groups : ∀ γ, γ ∈ plan.removedGroups ↔ γ ∈ snap.groups ∧ γ ∈ removedGroups snap gremiumIds.dedup roleIds.dedup
  closedGremien : ∀ γ g, γ ∈ plan.removedGroups → (γ, g) ∈ gremiumPairs snap → g ∈ gremiumIds
  closedRoles : ∀ γ r, γ ∈ plan.removedGroups → (γ, r) ∈ rolePairs snap → r ∈ roleIds
  held : ∀ r ∈ roleIds, r ∈ heldRoles snap
  assignments : plan.assignments = (snap.assignments.filter (·.role.id ∈ roleIds.dedup)).map (·.id)
  pool : plan.pool = (snap.pool.filter (·.gremium ∈ gremiumIds.dedup)).map (·.id)
  delegations : plan.delegations =
    ((snap.delegations.filter (·.gremium ∈ gremiumIds.dedup)).filter (·.status = .planned)).map (·.id)

theorem planRevoke_ok {gremiumIds roleIds : List ℕ} {deactivate : Bool} {plan : RevokePlan}
    (h : planRevoke snap gremiumIds roleIds deactivate = .ok plan) : Accepted snap gremiumIds roleIds plan := by
  unfold planRevoke at h
  simp only at h
  split at h
  · cases h
  · split at h
    · cases h
    · next hknown =>
        split at h
        · cases h
        · next hcomplete =>
            obtain rfl := Except.ok.inj h
            simp only [Bool.or_eq_true, Bool.not_eq_true', isEmpty_eq_false_iff, not_or, not_not] at hcomplete
            refine ⟨?_, ?_, ?_, ?_, rfl, rfl, rfl⟩
            · intro γ
              simp
            · intro γ g hγ hpair
              exact mem_dedup.mp (closed_of_missing hcomplete.1 (by simpa using (mem_filter.mp hγ).2) hpair)
            · intro γ r hγ hpair
              exact mem_dedup.mp (closed_of_missing hcomplete.2 (by simpa using (mem_filter.mp hγ).2) hpair)
            · intro r hr
              simp only [Bool.not_eq_true', isEmpty_eq_false_iff, not_not, append_eq_nil_iff, errorsFor,
                map_eq_nil_iff, filter_eq_nil_iff, decide_eq_true_eq] at hknown
              exact hknown.2 r (mem_dedup.mpr hr)

end Closure

section Snapshot

variable {a : Access} {p : Principal}

structure AccessWf (a : Access) : Prop where
  core : Wf a.core
  roleIds : (a.roles.map (·.id)).Nodup
  assignmentIds : (a.assignments.map (·.id)).Nodup
  poolIds : (a.pool.map (·.id)).Nodup
  delegationIds : (a.delegations.map (·.id)).Nodup

theorem pair_of_map {m : MembershipMapping} (hm : m ∈ a.core.membershipMaps) (hgroup : m.group ∈ p.groups) :
    (m.group, m.gremium) ∈ gremiumPairs (snapshot a p) := by
  refine mem_append_left _ (mem_filter.mpr ⟨?_, decide_eq_true hgroup⟩)
  exact mem_map.mpr ⟨m, mem_filter.mpr ⟨hm, by simpa using hgroup⟩, rfl⟩

theorem mem_effectiveGroups {γ : Text} : γ ∈ p.effectiveGroups ↔ p.mergedInto = none ∧ γ ∈ p.groups := by
  cases hmerged : p.mergedInto <;> simp [Principal.effectiveGroups, hmerged]

theorem tied_of_leads {g : ℕ} (h : Leads a.core p.effectiveGroups g) : g ∈ tiedGremien (snapshot a p) := by
  obtain ⟨m, hm, rfl, hgroup⟩ := h
  have hgroup := (mem_effectiveGroups.mp hgroup).2
  have : (m.group, m.gremium) ∈ (snapshot a p).membershipMaps :=
    mem_map.mpr ⟨m, mem_filter.mpr ⟨hm, by simpa using hgroup⟩, rfl⟩
  simp only [tiedGremien, mem_append]
  exact .inl (.inl (.inr (mem_map_of_mem this)))

theorem pair_of_roleMap (hwf : Wf a.core) {m : RoleMapping} (hm : m ∈ a.core.roleMaps) (hgroup : m.group ∈ p.groups)
    {r : GremiumRole} (hr : r ∈ a.core.roles) (hid : m.role = r.id) (htied : r.gremium ∈ tiedGremien (snapshot a p)) :
    (m.group, r.gremium) ∈ gremiumPairs (snapshot a p) := by
  have hmap : (m.group, r.gremium, r.id) ∈ (snapshot a p).roleMaps := by
    refine mem_filterMap.mpr ⟨m, mem_filter.mpr ⟨hm, by simpa using hgroup⟩, ?_⟩
    rw [Table.find_of_mem hwf.roleIds hr hid.symm]
    rfl
  refine mem_append_right _ (mem_map.mpr ⟨_, mem_filter.mpr ⟨hmap, ?_⟩, rfl⟩)
  simp only [Bool.and_eq_true, decide_eq_true_eq]
  exact ⟨hgroup, htied⟩

theorem pair_of_groupMap (hwf : AccessWf a) {m : GroupMapping} (hm : m ∈ a.groupMaps) (hgroup : m.group ∈ p.groups)
    {r : Role} (hr : r ∈ a.roles) (hid : m.role = r.id) (hkey : r.key ≠ memberKey) :
    (m.group, r.id) ∈ rolePairs (snapshot a p) := by
  have hmap : (m.group, r) ∈ (snapshot a p).groupMaps := by
    refine mem_filterMap.mpr ⟨m, mem_filter.mpr ⟨hm, by simpa using hgroup⟩, ?_⟩
    rw [Table.find_of_mem hwf.roleIds hr hid.symm]
    rfl
  refine mem_map.mpr ⟨_, mem_filter.mpr ⟨hmap, ?_⟩, rfl⟩
  simp only [Bool.and_eq_true, decide_eq_true_eq]
  exact ⟨hgroup, hkey⟩

/-- A held role is a row of the role table, other than `member`. -/
theorem role_of_held {i : ℕ} (h : i ∈ heldRoles (snapshot a p)) : ∃ r ∈ a.roles, r.id = i ∧ r.key ≠ memberKey := by
  obtain ⟨r, hr, rfl⟩ := mem_map.mp h
  obtain ⟨hmem, hkey⟩ := mem_filter.mp hr
  refine ⟨r, ?_, rfl, by simpa using hkey⟩
  rcases mem_append.mp hmem with hmem | hmem
  · obtain ⟨⟨_, _⟩, hx, rfl⟩ := mem_map.mp hmem
    obtain ⟨m, _, hsome⟩ := mem_filterMap.mp hx
    obtain ⟨s, hs, heq⟩ := Option.map_eq_some_iff.mp hsome
    rw [← (Prod.mk.inj heq).2]
    exact mem_of_find?_eq_some hs
  · obtain ⟨_, hx, rfl⟩ := mem_map.mp hmem
    obtain ⟨x, _, hsome⟩ := mem_filterMap.mp hx
    obtain ⟨s, hs, rfl⟩ := Option.map_eq_some_iff.mp hsome
    exact mem_of_find?_eq_some hs

end Snapshot

section Groups

variable {a : Access} {p : Principal} {gremiumIds roleIds : List ℕ} {plan : RevokePlan}
variable {γ : Text} {g : ℕ}

theorem mem_without {gone : List Text} : γ ∈ (p.without gone).groups ↔ γ ∈ p.groups ∧ γ ∉ gone := by
  simp [Principal.without]

theorem mem_without_effective {gone : List Text} : γ ∈ (p.without gone).effectiveGroups ↔ γ ∈ p.effectiveGroups ∧ γ ∉ gone := by
  rw [mem_effectiveGroups, mem_effectiveGroups, mem_without, and_assoc]
  rfl

theorem removed_of_gremium (hok : Accepted (snapshot a p) gremiumIds roleIds plan) (hγ : γ ∈ p.groups) (hg : g ∈ gremiumIds)
    (hpair : (γ, g) ∈ gremiumPairs (snapshot a p)) : γ ∈ plan.removedGroups :=
  (hok.groups γ).mpr ⟨hγ, mem_removedGroups.mpr (.inl ⟨g, mem_dedup.mpr hg, hpair⟩)⟩

theorem removed_of_role (hok : Accepted (snapshot a p) gremiumIds roleIds plan) {r : ℕ} (hγ : γ ∈ p.groups) (hr : r ∈ roleIds)
    (hpair : (γ, r) ∈ rolePairs (snapshot a p)) : γ ∈ plan.removedGroups :=
  (hok.groups γ).mpr ⟨hγ, mem_removedGroups.mpr (.inr ⟨r, mem_dedup.mpr hr, hpair⟩)⟩

theorem not_leads_selected (hok : Accepted (snapshot a p) gremiumIds roleIds plan) (hg : g ∈ gremiumIds) :
    ¬ Leads a.core (p.without plan.removedGroups).effectiveGroups g := by
  rintro ⟨m, hm, rfl, hgroup⟩
  obtain ⟨hown, hleft⟩ := mem_without_effective.mp hgroup
  have hown := (mem_effectiveGroups.mp hown).2
  exact hleft (removed_of_gremium hok hown hg (pair_of_map hm hown))

theorem leads_other (hok : Accepted (snapshot a p) gremiumIds roleIds plan) (hg : g ∉ gremiumIds) :
    Leads a.core (p.without plan.removedGroups).effectiveGroups g ↔ Leads a.core p.effectiveGroups g := by
  constructor
  · rintro ⟨m, hm, rfl, hgroup⟩
    exact ⟨m, hm, rfl, (mem_without_effective.mp hgroup).1⟩
  · rintro ⟨m, hm, rfl, hgroup⟩
    refine ⟨m, hm, rfl, mem_without_effective.mpr ⟨hgroup, fun hgone => hg ?_⟩⟩
    exact hok.closedGremien _ _ hgone (pair_of_map hm (mem_effectiveGroups.mp hgroup).2)

theorem gives_other (hwf : Wf a.core) (hok : Accepted (snapshot a p) gremiumIds roleIds plan) {r : GremiumRole}
    (hr : r ∈ a.core.roles) (hg : r.gremium ∉ gremiumIds) (hleads : Leads a.core p.effectiveGroups r.gremium) :
    Gives a.core (p.without plan.removedGroups).effectiveGroups r ↔ Gives a.core p.effectiveGroups r := by
  constructor
  · rintro ⟨m, hm, hid, hgroup⟩
    exact ⟨m, hm, hid, (mem_without_effective.mp hgroup).1⟩
  · rintro ⟨m, hm, hid, hgroup⟩
    refine ⟨m, hm, hid, mem_without_effective.mpr ⟨hgroup, fun hgone => hg ?_⟩⟩
    exact hok.closedGremien _ _ hgone
      (pair_of_roleMap hwf hm (mem_effectiveGroups.mp hgroup).2 hr hid (tied_of_leads hleads))

theorem rightRole_other (hwf : Wf a.core) (hok : Accepted (snapshot a p) gremiumIds roleIds plan) (hg : g ∉ gremiumIds)
    (hleads : Leads a.core p.effectiveGroups g) {r : GremiumRole} (hr : r ∈ a.core.roles)
    (hright : RightRole a.core p.effectiveGroups g r) : RightRole a.core (p.without plan.removedGroups).effectiveGroups g r := by
  have hgives : ∀ s ∈ a.core.roles, s.gremium = g →
      (Gives a.core (p.without plan.removedGroups).effectiveGroups s ↔ Gives a.core p.effectiveGroups s) := by
    rintro s hs rfl
    exact gives_other hwf hok hs hg hleads
  obtain ⟨hrg, ⟨hgiven, hbest⟩ | ⟨hnone, hkey⟩⟩ := hright
  · exact ⟨hrg, .inl ⟨(hgives r hr hrg).mpr hgiven,
      fun s hs hsg hsgiven => hbest s hs hsg ((hgives s hs hsg).mp hsgiven)⟩⟩
  · exact ⟨hrg, .inr ⟨fun s hs hsg hsgiven => hnone s hs hsg ((hgives s hs hsg).mp hsgiven), hkey⟩⟩

end Groups

section Rows

variable {a : Access} {p : Principal} {gremiumIds roleIds : List ℕ} {plan : RevokePlan} {deactivate : Bool}
variable {m : MembershipRow}

theorem applyPlan_sync (hwf : Wf a.core) :
    (∀ r ∈ a.core.roles, r ∈ (applyPlan a p plan deactivate).core.roles) ∧
      (∀ q, q ≠ p.id → rowsOf (applyPlan a p plan deactivate).core q = rowsOf a.core q) ∧
      ((rowsOf (applyPlan a p plan deactivate).core p.id).map (·.gremium)).Nodup ∧
      ∀ m ∈ rowsOf (applyPlan a p plan deactivate).core p.id,
        Leads a.core (p.without plan.removedGroups).effectiveGroups m.gremium := by
  obtain ⟨_, hgr, hothers, hsynced⟩ := syncPrincipal_spec
    (setGroups_wf hwf p.id (p.without plan.removedGroups).groups) (p.without plan.removedGroups)
  exact ⟨fun r hr => hgr.mem_roles hr, hothers, hsynced.unique, fun m hm => hgr.leads.mp (hsynced.right m hm).1⟩

theorem row_kept (hwf : Wf a.core) (hp : SyncedFor a.core p) (hok : Accepted (snapshot a p) gremiumIds roleIds plan)
    (hm : m ∈ rowsOf a.core p.id) (hg : m.gremium ∉ gremiumIds) : m ∈ rowsOf (applyPlan a p plan deactivate).core p.id := by
  obtain ⟨hleads, r, hr, hid, hright⟩ := hp.right m hm
  exact syncPrincipal_keeps (p := p.without plan.removedGroups)
    (setGroups_wf hwf p.id (p.without plan.removedGroups).groups) hm hp.unique ((leads_other hok hg).mpr hleads) hr hid
    (rightRole_other hwf hok hg hleads hr hright)

theorem row_other (hwf : Wf a.core) (hp : SyncedFor a.core p) (hok : Accepted (snapshot a p) gremiumIds roleIds plan)
    (hg : m.gremium ∉ gremiumIds) : m ∈ rowsOf (applyPlan a p plan deactivate).core p.id ↔ m ∈ rowsOf a.core p.id := by
  constructor
  · intro hm
    obtain ⟨_, _, hunique, hleads⟩ := applyPlan_sync (p := p) hwf
    obtain ⟨n, hn, hng⟩ := hp.present m.gremium ((leads_other hok hg).mp (hleads m hm))
    have hkept : n ∈ rowsOf (applyPlan a p plan deactivate).core p.id := row_kept hwf hp hok hn (hng ▸ hg)
    rwa [inj_on_of_nodup_map hunique hm hkept hng.symm]
  · intro hm
    exact row_kept hwf hp hok hm hg

theorem row_selected (hwf : Wf a.core) (hok : Accepted (snapshot a p) gremiumIds roleIds plan)
    (hm : m ∈ rowsOf (applyPlan a p plan deactivate).core p.id) : m.gremium ∉ gremiumIds := by
  intro hg
  obtain ⟨_, _, _, hleads⟩ := applyPlan_sync (p := p) hwf
  exact not_leads_selected hok hg (hleads m hm)

end Rows

section Entries

variable {a : Access} {p : Principal} {gremiumIds roleIds : List ℕ} {plan : RevokePlan} {deactivate : Bool}

def HoldsRole (a : Access) (principal role : ℕ) : Prop :=
  (∃ q ∈ a.core.principals, q.id = principal ∧ ∃ m ∈ a.groupMaps, m.role = role ∧ m.group ∈ q.groups) ∨
    ∃ x ∈ a.assignments, x.principal = principal ∧ x.role = role

theorem mem_plan_assignments (hwf : AccessWf a) (hok : Accepted (snapshot a p) gremiumIds roleIds plan)
    {x : RoleAssignment} (hx : x ∈ a.assignments) {r : Role} (hr : r ∈ a.roles) (hid : r.id = x.role) :
    x.id ∈ plan.assignments ↔ x.principal = p.id ∧ x.role ∈ roleIds := by
  rw [hok.assignments]
  simp only [mem_map, mem_filter, mem_dedup, decide_eq_true_eq, snapshot, mem_filterMap,
    Option.map_eq_some_iff]
  constructor
  · rintro ⟨_, ⟨⟨y, ⟨hy, howner⟩, s, hs, rfl⟩, hchosen⟩, hsame⟩
    have hsid := List.find?_some hs
    rw [decide_eq_true_eq] at hsid
    obtain rfl := inj_on_of_nodup_map hwf.assignmentIds hy hx hsame
    exact ⟨howner, hsid ▸ hchosen⟩
  · rintro ⟨howner, hchosen⟩
    exact ⟨_, ⟨⟨x, ⟨hx, howner⟩, r, Table.find_of_mem hwf.roleIds hr hid, rfl⟩, hid ▸ hchosen⟩, rfl⟩

theorem mem_plan_pool (hwf : AccessWf a) (hok : Accepted (snapshot a p) gremiumIds roleIds plan) {e : PoolEntry}
    (he : e ∈ a.pool) : e.id ∈ plan.pool ↔ e.concerns p.id ∧ e.gremium ∈ gremiumIds := by
  rw [hok.pool]
  simp only [mem_map, mem_filter, mem_dedup, decide_eq_true_eq, snapshot]
  constructor
  · rintro ⟨f, ⟨⟨hf, hconcerns⟩, hchosen⟩, hsame⟩
    obtain rfl := inj_on_of_nodup_map hwf.poolIds hf he hsame
    exact ⟨hconcerns, hchosen⟩
  · rintro ⟨hconcerns, hchosen⟩
    exact ⟨e, ⟨⟨he, hconcerns⟩, hchosen⟩, rfl⟩

theorem mem_plan_delegations (hwf : AccessWf a) (hok : Accepted (snapshot a p) gremiumIds roleIds plan)
    {x : Delegation} (hx : x ∈ a.delegations) :
    x.id ∈ plan.delegations ↔ x.concerns p.id ∧ x.gremium ∈ gremiumIds ∧ a.statusOf x = some .planned := by
  rw [hok.delegations]
  simp only [mem_map, mem_filter, mem_dedup, decide_eq_true_eq, snapshot, mem_filterMap]
  constructor
  · rintro ⟨_, ⟨⟨⟨y, ⟨hy, hconcerns⟩, hsome⟩, hchosen⟩, hplanned⟩, hsame⟩
    split at hsome
    · next hstatus =>
        obtain rfl := Option.some.inj hsome
        obtain rfl := inj_on_of_nodup_map hwf.delegationIds hy hx hsame
        exact ⟨hconcerns, hchosen, hstatus⟩
    · obtain rfl := Option.some.inj hsome
      cases hplanned
    · cases hsome
  · rintro ⟨hconcerns, hchosen, hplanned⟩
    exact ⟨⟨x.id, x.gremium, .planned⟩, ⟨⟨⟨x, ⟨hx, hconcerns⟩, by simp [hplanned]⟩, hchosen⟩, rfl⟩, rfl⟩

theorem applyPlan_principals (hwf : Wf a.core) :
    (applyPlan a p plan deactivate).core.principals =
      (a.core.setGroups p.id (p.without plan.removedGroups).groups).principals.map fun q =>
        if q.id = p.id && deactivate then { q with active := false } else q := by
  obtain ⟨_, hgr, _⟩ := syncPrincipal_spec
    (setGroups_wf hwf p.id (p.without plan.removedGroups).groups) (p.without plan.removedGroups)
  exact congrArg (List.map _) hgr.principals

theorem groups_after (hwf : Wf a.core) (hp : p ∈ a.core.principals) {γ : Text} :
    (∃ q ∈ (applyPlan a p plan deactivate).core.principals, q.id = p.id ∧ γ ∈ q.groups) ↔
      γ ∈ (p.without plan.removedGroups).groups := by
  simp only [applyPlan_principals hwf, Db.setGroups, map_map, mem_map, Function.comp_apply]
  constructor
  · rintro ⟨_, ⟨r, _, rfl⟩, hid, hγ⟩
    by_cases hsame : r.id = p.id
    · cases deactivate <;> simpa [hsame] using hγ
    · simp [hsame] at hid
  · intro hγ
    refine ⟨_, ⟨p, hp, rfl⟩, ?_⟩
    cases deactivate <;> simpa using hγ

theorem groups_before (hwf : Wf a.core) (hp : p ∈ a.core.principals) {γ : Text} :
    (∃ q ∈ a.core.principals, q.id = p.id ∧ γ ∈ q.groups) ↔ γ ∈ p.groups := by
  constructor
  · rintro ⟨q, hq, hid, hγ⟩
    rwa [← inj_on_of_nodup_map hwf.principalIds hq hp hid]
  · intro hγ
    exact ⟨p, hp, rfl, hγ⟩

theorem not_holds_selected (hwf : AccessWf a) (hp : p ∈ a.core.principals)
    (hok : Accepted (snapshot a p) gremiumIds roleIds plan) {r : ℕ} (hr : r ∈ roleIds) :
    ¬ HoldsRole (applyPlan a p plan deactivate) p.id r := by
  obtain ⟨s, hs, rfl, hkey⟩ := role_of_held (hok.held r hr)
  rintro (⟨q, hq, hid, m, hm, hrole, hgroup⟩ | ⟨x, hx, howner, hrole⟩)
  · obtain ⟨hown, hleft⟩ := mem_without.mp ((groups_after hwf.core hp).mp ⟨q, hq, hid, hgroup⟩)
    exact hleft (removed_of_role hok hown hr (pair_of_groupMap hwf hm hown hs hrole hkey))
  · obtain ⟨hx, hleft⟩ := mem_filter.mp hx
    have hgone := (mem_plan_assignments hwf hok hx hs hrole.symm).mpr ⟨howner, hrole ▸ hr⟩
    exact of_decide_eq_true hleft hgone

/-- Another role, `member` apart, is held as before. -/
theorem holds_other (hwf : AccessWf a) (hp : p ∈ a.core.principals)
    (hok : Accepted (snapshot a p) gremiumIds roleIds plan) {r : Role} (hr : r ∈ a.roles) (hother : r.id ∉ roleIds)
    (hkey : r.key ≠ memberKey) :
    HoldsRole (applyPlan a p plan deactivate) p.id r.id ↔ HoldsRole a p.id r.id := by
  constructor
  · rintro (⟨q, hq, hid, m, hm, hrole, hgroup⟩ | ⟨x, hx, howner, hrole⟩)
    · have hown := mem_without.mp ((groups_after hwf.core hp).mp ⟨q, hq, hid, hgroup⟩)
      exact .inl ⟨p, hp, rfl, m, hm, hrole, hown.1⟩
    · exact .inr ⟨x, (mem_filter.mp hx).1, howner, hrole⟩
  · rintro (⟨q, hq, hid, m, hm, hrole, hgroup⟩ | ⟨x, hx, howner, hrole⟩)
    · have hown := (groups_before hwf.core hp).mp ⟨q, hq, hid, hgroup⟩
      have hleft : m.group ∈ (p.without plan.removedGroups).groups := mem_without.mpr ⟨hown, fun hgone =>
        hother (hok.closedRoles _ _ hgone (pair_of_groupMap hwf hm hown hr hrole hkey))⟩
      obtain ⟨q', hq', hid', hgroup'⟩ := (groups_after hwf.core hp).mpr hleft
      exact .inl ⟨q', hq', hid', m, hm, hrole, hgroup'⟩
    · refine .inr ⟨x, mem_filter.mpr ⟨hx, decide_eq_true fun hgone => hother ?_⟩, howner, hrole⟩
      exact hrole ▸ ((mem_plan_assignments hwf hok hx hr hrole.symm).mp hgone).2

theorem mem_pool_after (hwf : AccessWf a) (hok : Accepted (snapshot a p) gremiumIds roleIds plan) {e : PoolEntry} :
    e ∈ (applyPlan a p plan deactivate).pool ↔ e ∈ a.pool ∧ ¬ (e.concerns p.id ∧ e.gremium ∈ gremiumIds) := by
  simp only [applyPlan, mem_filter, decide_eq_true_eq]
  exact and_congr_right fun he => not_congr (mem_plan_pool hwf hok he)

theorem mem_delegations_after (hwf : AccessWf a) (hok : Accepted (snapshot a p) gremiumIds roleIds plan)
    {x : Delegation} :
    x ∈ (applyPlan a p plan deactivate).delegations ↔
      x ∈ a.delegations ∧ ¬ (x.concerns p.id ∧ x.gremium ∈ gremiumIds ∧ a.statusOf x = some .planned) := by
  simp only [applyPlan, mem_filter, decide_eq_true_eq]
  exact and_congr_right fun hx => not_congr (mem_plan_delegations hwf hok hx)

end Entries

section Revoke

/-- Nothing ties the person to the selected Gremien and global roles. -/
structure Cleared (a : Access) (principal : ℕ) (gremiumIds roleIds : List ℕ) : Prop where
  memberships : ∀ m ∈ rowsOf a.core principal, m.gremium ∉ gremiumIds
  pool : ∀ e ∈ a.pool, e.concerns principal → e.gremium ∉ gremiumIds
  delegations : ∀ x ∈ a.delegations, x.concerns principal → a.statusOf x = some .planned → x.gremium ∉ gremiumIds
  roles : ∀ r ∈ roleIds, ¬ HoldsRole a principal r

structure Untouched (a a' : Access) (principal : ℕ) (gremiumIds roleIds : List ℕ) : Prop where
  memberships : ∀ m, m.gremium ∉ gremiumIds → (m ∈ rowsOf a'.core principal ↔ m ∈ rowsOf a.core principal)
  gremiumRoles : ∀ r ∈ a.core.roles, r ∈ a'.core.roles
  roles : ∀ r ∈ a.roles, r.id ∉ roleIds → r.key ≠ memberKey →
    (HoldsRole a' principal r.id ↔ HoldsRole a principal r.id)
  pool : ∀ e, e.gremium ∉ gremiumIds → (e ∈ a'.pool ↔ e ∈ a.pool)
  delegations : ∀ x, x.gremium ∉ gremiumIds → (x ∈ a'.delegations ↔ x ∈ a.delegations)
  others : ∀ q, q ≠ principal → rowsOf a'.core q = rowsOf a.core q

theorem revoke_complete_contained {a : Access} {p : Principal} {gremiumIds roleIds : List ℕ} {deactivate : Bool}
    {plan : RevokePlan} (hwf : AccessWf a) (hp : p ∈ a.core.principals) (hsync : SyncedFor a.core p)
    (hplan : planRevoke (snapshot a p) gremiumIds roleIds deactivate = .ok plan) :
    Cleared (applyPlan a p plan deactivate) p.id gremiumIds roleIds ∧
      Untouched a (applyPlan a p plan deactivate) p.id gremiumIds roleIds := by
  have hok := planRevoke_ok hplan
  obtain ⟨hroles, hothers, _, _⟩ := applyPlan_sync (p := p) hwf.core
  constructor
  · refine ⟨fun m hm => row_selected hwf.core hok hm, ?_, ?_, fun r hr => not_holds_selected hwf hp hok hr⟩
    · intro e he hconcerns hg
      exact ((mem_pool_after hwf hok).mp he).2 ⟨hconcerns, hg⟩
    · intro x hx hconcerns hplanned hg
      exact ((mem_delegations_after hwf hok).mp hx).2 ⟨hconcerns, hg, hplanned⟩
  · refine ⟨fun m hg => row_other hwf.core hsync hok hg, hroles, ?_, ?_, ?_, hothers⟩
    · intro r hr hother hkey
      exact holds_other hwf hp hok hr hother hkey
    · intro e hg
      simp [mem_pool_after hwf hok, hg]
    · intro x hg
      simp [mem_delegations_after hwf hok, hg]

def boardPerson : Principal := ⟨0, text "p", [text "board", text "club"], none, true⟩

def boardTables : Db where
  gremien := [1, 2]
  principals := [boardPerson]
  roles := [⟨3, 1, text "chair", [.voteCast]⟩, ⟨4, 1, memberKey, []⟩]
  membershipMaps := [⟨5, 1, text "board"⟩, ⟨6, 2, text "club"⟩]
  roleMaps := [⟨7, 3, text "board"⟩]
  memberships := []
  nextId := 8

def boardAccess : Access where
  core := syncPrincipal boardTables boardPerson
  roles := [⟨0, text "admin"⟩, ⟨1, text "auditor"⟩]
  groupMaps := [⟨text "board", 0⟩, ⟨text "club", 1⟩]
  assignments := [⟨0, 0, 0⟩, ⟨1, 0, 1⟩]
  pool := [⟨0, 1, none, 0⟩, ⟨1, 2, none, 0⟩]
  meetings := [⟨0, .planned⟩, ⟨1, .live⟩]
  delegations := [⟨0, 1, 0, 0, 9⟩, ⟨1, 1, 1, 0, 9⟩]

theorem revoke_board : ∃ plan, planRevoke (snapshot boardAccess boardPerson) [1] [0] false = .ok plan ∧
    plan.removedGroups = [text "board"] ∧ plan.delegations = [0] ∧
    Cleared (applyPlan boardAccess boardPerson plan false) 0 [1] [0] ∧
    Untouched boardAccess (applyPlan boardAccess boardPerson plan false) 0 [1] [0] := by
  have hrun : (planRevoke (snapshot boardAccess boardPerson) [1] [0] false).toOption.map
      (fun plan => (plan.removedGroups, plan.delegations)) = some ([text "board"], [0]) := by decide +kernel
  have hwf : Wf boardTables := by constructor <;> decide
  obtain ⟨hwf', hgr, _, hsync⟩ := syncPrincipal_spec hwf boardPerson
  obtain ⟨plan, hplan, heq⟩ := Option.map_eq_some_iff.mp hrun
  have hplan : planRevoke (snapshot boardAccess boardPerson) [1] [0] false = .ok plan := by
    cases hok : planRevoke (snapshot boardAccess boardPerson) [1] [0] false with
    | error e => simp [hok, Except.toOption] at hplan
    | ok plan' => simpa [hok, Except.toOption] using hplan
  have hp : boardPerson ∈ boardAccess.core.principals := by
    rw [boardAccess, hgr.principals]
    exact mem_cons_self
  exact ⟨plan, hplan, (Prod.mk.inj heq).1, (Prod.mk.inj heq).2,
    revoke_complete_contained ⟨hwf', by decide, by decide, by decide, by decide⟩ hp hsync hplan⟩

end Revoke

end Membership
