import StupaWorkflow.UuidText

/-!
Who may use which right: the principal of a request with the scope cap of its token, its
resolution from the role tables, and the Gremium roles.
-/
namespace Auth
open Py StorageKeys List

/-- The permission keys that the access rules name; the tables may hold other keys. -/
inductive Permission where
  | applicationRead
  | applicationReadAll
  | meetingViewAll
  | sessionManage
  | voteManage
  | voteCast
  | other (key : Text)
  deriving DecidableEq

structure Principal where
  sub : Text
  /-- The keys of the global roles. -/
  roles : List Text
  permissions : List Permission
  groups : List Text
  /-- `none` is a session; a token reaches only the permissions of its scope. -/
  scopePermissions : Option (List Permission)
  deriving DecidableEq

def Principal.scopeAllows (p : Principal) (perm : Permission) : Bool :=
  match p.scopePermissions with
  | none => true
  | some scope => scope.contains perm

def Principal.isAdmin (p : Principal) : Bool := p.roles.contains (text "admin")

def Principal.has (p : Principal) (perm : Permission) : Bool :=
  p.scopeAllows perm && (p.isAdmin || p.permissions.contains perm)

def Principal.inGroup (p : Principal) (group : Text) : Bool := p.groups.contains group

def adminBypass (p : Principal) (perm : Permission) : Bool := p.isAdmin && p.scopeAllows perm

structure PrincipalRow where
  id : Uuid
  sub : Text
  /-- `oidc_groups or []`. -/
  oidcGroups : List Text

structure RoleRow where
  id : Uuid
  key : Text
  permissions : List Permission

structure GremiumRole where
  id : Uuid
  permissions : List Permission

structure GremiumMembership where
  principal : Uuid
  gremium : Uuid
  role : Uuid

structure Substitute where
  gremium : Uuid
  substitute : Uuid

/-- The tables of the people and their rights. The column `sub` of a principal is unique. -/
structure People where
  principals : List PrincipalRow
  roles : List RoleRow
  /-- `role_assignment`: principal and role. -/
  assignments : List (Uuid × Uuid)
  /-- `group_mapping`: OIDC group and role. -/
  groupMaps : List (Text × Uuid)
  gremiumRoles : List GremiumRole
  memberships : List GremiumMembership
  substitutes : List Substitute

section Resolve

def voteGroupPrefix : Text := text "vote:"

def voteGroupKey (gremium : Text) : Text := voteGroupPrefix ++ gremium

def claimedGroups (row : PrincipalRow) : List Text :=
  row.oidcGroups.filter fun g => !voteGroupPrefix.isPrefixOf g

def roleIds (t : People) (row : PrincipalRow) : List Uuid :=
  (t.assignments.filter (·.1 = row.id)).map (·.2) ++
    (t.groupMaps.filter fun m => (claimedGroups row).contains m.1).map (·.2)

/-- The vote key of each Gremium where a role of the principal holds `vote.cast`. -/
def voteKeys (t : People) (principal : Uuid) : List Text :=
  (t.memberships.filter fun m => m.principal = principal &&
    t.gremiumRoles.any fun r => r.id = m.role && r.permissions.contains .voteCast).map
      fun m => voteGroupKey (Uuid.text m.gremium)

def resolvePrincipal (t : People) (row : PrincipalRow) : Principal where
  sub := row.sub
  roles := (t.roles.filter fun r => (roleIds t row).contains r.id).map (·.key)
  permissions := (t.roles.filter fun r => (roleIds t row).contains r.id).flatMap (·.permissions)
  groups := claimedGroups row ++ voteKeys t row.id
  scopePermissions := none

def requestPrincipal (t : People) (row : PrincipalRow) (scope : Option (List Permission)) : Principal :=
  { resolvePrincipal t row with scopePermissions := scope }

end Resolve

section Gremien

variable (t : People)

def activeGremiumRoles (sub : Text) : List (Uuid × GremiumRole) :=
  t.memberships.flatMap fun m =>
    if t.principals.any fun p => p.id = m.principal && p.sub = sub then
      (t.gremiumRoles.filter (·.id = m.role)).map fun r => (m.gremium, r)
    else []

def gremiumIdsWithPermission (sub : Text) (perm : Permission) : List Uuid :=
  ((activeGremiumRoles t sub).filter (·.2.permissions.contains perm)).map (·.1)

def gremiumMemberIds (sub : Text) : List Uuid := (activeGremiumRoles t sub).map (·.1)

/-- The id that the subquery on `sub` gives. -/
def principalIdOf (sub : Text) : Option Uuid := (t.principals.find? (·.sub = sub)).map (·.id)

def substituteGremienForSub (sub : Text) : List Uuid :=
  (t.substitutes.filter fun s => principalIdOf t sub = some s.substitute).map (·.gremium)

def gremiumReaderIds (sub : Text) : List Uuid := gremiumMemberIds t sub ++ substituteGremienForSub t sub

/-- The Gremien where a role of the principal grants the permission. No admin bypass. -/
def heldGremiumIds (p : Principal) (perm : Permission) : List Uuid :=
  if p.scopeAllows perm then gremiumIdsWithPermission t p.sub perm else []

def holdsGremiumPermission (p : Principal) (perm : Permission) (gremium : Uuid) : Bool :=
  (heldGremiumIds t p perm).contains gremium

end Gremien

section VoteKeys

theorem voteKey_canonical {t : People} {row : PrincipalRow} {scope : Option (List Permission)} {e : Text}
    (h : voteGroupKey e ∈ (requestPrincipal t row scope).groups) : ∃ g : Uuid, e = Uuid.text g := by
  have hnot : voteGroupKey e ∉ claimedGroups row := by
    intro hclaim
    have hpre : voteGroupPrefix.isPrefixOf (voteGroupKey e) = true :=
      isPrefixOf_iff_prefix.mpr (prefix_append _ _)
    simpa [hpre] using (mem_filter.mp hclaim).2
  rcases mem_append.mp h with hclaim | hkey
  · exact absurd hclaim hnot
  · obtain ⟨m, -, hm⟩ := mem_map.mp hkey
    exact ⟨m.gremium, (append_cancel_left hm).symm⟩

end VoteKeys

end Auth
