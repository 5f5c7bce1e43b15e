import Mathlib.Data.List.Dedup
import StupaWorkflow.PyText

/-!
Gremium memberships derived from the OIDC groups: the tables, the sync of one principal and of all
principals, and the services that change what the sync reads.
-/
namespace Membership
open Py

structure Problem where
  code : String
  message : String
  deriving DecidableEq

inductive GremiumPermission where
  | sessionManage
  | voteManage
  | voteCast
  | protocolWrite
  | protocolFinalize
  | todoWrite
  | todoConfigure
  deriving DecidableEq

def GremiumPermission.key : GremiumPermission → Text
  | .sessionManage => text "session.manage"
  | .voteManage => text "vote.manage"
  | .voteCast => text "vote.cast"
  | .protocolWrite => text "protocol.write"
  | .protocolFinalize => text "protocol.finalize"
  | .todoWrite => text "todo.write"
  | .todoConfigure => text "todo.configure"

def gremiumPermissions : List GremiumPermission :=
  [.sessionManage, .voteManage, .voteCast, .protocolWrite, .protocolFinalize, .todoWrite, .todoConfigure]

/-- `_sanitize_perms`: the known permissions, once each, in catalog order. -/
def sanitizePerms (perms : List Text) : List GremiumPermission :=
  gremiumPermissions.filter fun p => p.key ∈ perms

structure Principal where
  id : ℕ
  sub : Text
  /-- `oidc_groups or []`. -/
  groups : List Text
  mergedInto : Option ℕ
  active : Bool

structure GremiumRole where
  id : ℕ
  gremium : ℕ
  key : Text
  permissions : List GremiumPermission

structure MembershipMapping where
  id : ℕ
  gremium : ℕ
  group : Text

structure RoleMapping where
  id : ℕ
  role : ℕ
  group : Text

structure MembershipRow where
  id : ℕ
  principal : ℕ
  gremium : ℕ
  role : ℕ
  deriving DecidableEq

structure Db where
  gremien : List ℕ
  principals : List Principal
  roles : List GremiumRole
  membershipMaps : List MembershipMapping
  roleMaps : List RoleMapping
  memberships : List MembershipRow
  nextId : ℕ

/-- No principal, no role and no mapping yet. -/
def Db.empty (gremien : List ℕ) : Db := ⟨gremien, [], [], [], [], [], 0⟩

def memberKey : Text := text "member"

def forcedGremiumRoles : List (Text × List GremiumPermission) :=
  [(text "vorstand", gremiumPermissions), (text "manager", gremiumPermissions),
   (memberKey, [.voteCast, .todoWrite])]

def forcedRoleKeys : List Text := forcedGremiumRoles.map (·.1)

def Db.addRole (gremium : ℕ) (key : Text) (permissions : List GremiumPermission) (d : Db) : Db :=
  { d with roles := d.roles ++ [⟨d.nextId, gremium, key, permissions⟩], nextId := d.nextId + 1 }

def ensureForcedRoles (gremium : ℕ) (d : Db) : Db :=
  (forcedGremiumRoles.filter fun f => !d.roles.any fun r => r.gremium = gremium && r.key = f.1).foldl
    (fun d f => d.addRole gremium f.1 f.2) d

def findDefaultRole (d : Db) (gremium : ℕ) : Option GremiumRole :=
  d.roles.find? fun r => r.gremium = gremium && r.key = memberKey

def ensureDefaultRole (d : Db) (gremium : ℕ) : Db :=
  if (findDefaultRole d gremium).isSome then d else ensureForcedRoles gremium d

/-- `_role_rank` as an order: more permissions first, then the lower key. -/
def rankLt (r s : GremiumRole) : Bool :=
  s.permissions.length < r.permissions.length ||
    (s.permissions.length = r.permissions.length && r.key < s.key)

/-- `min(roles, key=_role_rank)`: the first of the best. -/
def bestRole : List GremiumRole → Option GremiumRole
  | [] => none
  | r :: rs => some (rs.foldl (fun best s => if rankLt s best then s else best) r)

def memberOf (d : Db) (groups : List Text) : List ℕ :=
  ((d.membershipMaps.filter fun m => m.group ∈ groups).map (·.gremium)).dedup

/-- The roles that the groups give in the Gremien of `memberOf`. -/
def mappedRoles (d : Db) (groups : List Text) : List GremiumRole :=
  d.roles.filter fun r =>
    r.gremium ∈ memberOf d groups && d.roleMaps.any fun m => m.role = r.id && m.group ∈ groups

/-- `_desired_roles`: the role of each Gremium. A missing default role is created. -/
def desiredRoles (d : Db) (groups : List Text) : Db × List (ℕ × ℕ) :=
  let mapped := mappedRoles d groups
  let gremien := memberOf d groups
  let best := gremien.filterMap fun g =>
    (bestRole (mapped.filter fun r => r.gremium = g)).map fun r => (g, r.id)
  let bare := gremien.filter fun g => !mapped.any fun r => r.gremium = g
  let d' := bare.foldl ensureDefaultRole d
  (d', best ++ bare.filterMap fun g => (findDefaultRole d' g).map fun r => (g, r.id))

def desiredRole (desired : List (ℕ × ℕ)) (gremium : ℕ) : Option ℕ :=
  (desired.find? fun pair => pair.1 = gremium).map (·.2)

/-- `_membership_action` for one row: gone, or with its role. The first row of a
Gremium stays when several exist. -/
def syncedRow (desired : List (ℕ × ℕ)) (existing : List MembershipRow) (m : MembershipRow) : Option MembershipRow :=
  match desiredRole desired m.gremium with
  | none => none
  | some role =>
    if (existing.find? fun n => n.gremium = m.gremium).map (·.id) = some m.id then some { m with role } else none

def Db.addMembership (principal : ℕ) (d : Db) (pair : ℕ × ℕ) : Db :=
  { d with memberships := d.memberships ++ [⟨d.nextId, principal, pair.1, pair.2⟩], nextId := d.nextId + 1 }

def Principal.effectiveGroups (p : Principal) : List Text := if p.mergedInto.isSome then [] else p.groups

/-- `sync_principal_memberships`. -/
def syncPrincipal (d : Db) (p : Principal) : Db :=
  let (d₁, desired) := desiredRoles d p.effectiveGroups
  let existing := d₁.memberships.filter fun m => m.principal = p.id
  let rows := d₁.memberships.filterMap fun m =>
    if m.principal = p.id then syncedRow desired existing m else some m
  let kept := (existing.filterMap (syncedRow desired existing)).map (·.gremium)
  (desired.filter fun pair => pair.1 ∉ kept).foldl (Db.addMembership p.id) { d₁ with memberships := rows }

/-- `sync_all_memberships`. -/
def syncAll (d : Db) : Db := d.principals.foldl syncPrincipal d

abbrev Call := Except Problem Db

def ensure (ok : Bool) (code message : String) : Except Problem Unit :=
  if ok then .ok () else .error ⟨code, message⟩

def found {α : Type} (row : Option α) (message : String) : Except Problem α :=
  match row with
  | some a => .ok a
  | none => .error ⟨"not_found", message⟩

section Mappings

def flushMembershipMaps (d : Db) : Except Problem Unit :=
  ensure (decide ((d.membershipMaps.map fun m => (m.gremium, m.group)).Nodup)) "group_mapping_exists"
    "this gremium already maps this OIDC group"

def flushRoleMaps (d : Db) : Except Problem Unit :=
  ensure (decide ((d.roleMaps.map fun m => (m.role, m.group)).Nodup)) "group_mapping_exists"
    "this gremium role already maps this OIDC group"

def createMembershipMapping (gremium : ℕ) (group : Text) (d : Db) : Call := do
  ensure (d.gremien.contains gremium) "not_found" "gremium not found"
  let d₁ := { d with membershipMaps := d.membershipMaps ++ [⟨d.nextId, gremium, group⟩], nextId := d.nextId + 1 }
  flushMembershipMaps d₁
  return syncAll d₁

def updateMembershipMapping (id : ℕ) (gremium : Option ℕ) (group : Option Text) (d : Db) : Call := do
  let _ ← found (d.membershipMaps.find? (·.id = id)) "gremium membership mapping not found"
  ensure (gremium.all d.gremien.contains) "not_found" "gremium not found"
  let d₁ := { d with membershipMaps := d.membershipMaps.map fun m =>
    if m.id = id then { m with gremium := gremium.getD m.gremium, group := group.getD m.group } else m }
  flushMembershipMaps d₁
  return syncAll d₁

def deleteMembershipMapping (id : ℕ) (d : Db) : Call := do
  let _ ← found (d.membershipMaps.find? (·.id = id)) "gremium membership mapping not found"
  return syncAll { d with membershipMaps := d.membershipMaps.filter (·.id ≠ id) }

def createRoleMapping (role : ℕ) (group : Text) (d : Db) : Call := do
  let _ ← found (d.roles.find? (·.id = role)) "gremium role not found"
  let d₁ := { d with roleMaps := d.roleMaps ++ [⟨d.nextId, role, group⟩], nextId := d.nextId + 1 }
  flushRoleMaps d₁
  return syncAll d₁

def updateRoleMapping (id : ℕ) (role : Option ℕ) (group : Option Text) (d : Db) : Call := do
  let row ← found (d.roleMaps.find? (·.id = id)) "gremium role mapping not found"
  let target ← found (d.roles.find? (·.id = role.getD row.role)) "gremium role not found"
  let d₁ := { d with roleMaps := d.roleMaps.map fun m =>
    if m.id = id then { m with role := target.id, group := group.getD m.group } else m }
  flushRoleMaps d₁
  return syncAll d₁

def deleteRoleMapping (id : ℕ) (d : Db) : Call := do
  let _ ← found (d.roleMaps.find? (·.id = id)) "gremium role mapping not found"
  return syncAll { d with roleMaps := d.roleMaps.filter (·.id ≠ id) }

end Mappings

section Roles

def createRole (gremium : ℕ) (key : Text) (permissions : List Text) (d : Db) : Call := do
  ensure (d.gremien.contains gremium) "integrity_error" "gremium does not exist"
  ensure (!d.roles.any fun r => r.gremium = gremium && r.key = key) "gremium_role_exists"
    "gremium role already exists in this gremium"
  return d.addRole gremium key (sanitizePerms permissions)

def Db.setPermissions (id : ℕ) (permissions : List GremiumPermission) (d : Db) : Db :=
  { d with roles := d.roles.map fun r => if r.id = id then { r with permissions } else r }

/-- The name of a role decides nothing, so only its permissions are here. -/
def updateRole (id : ℕ) (permissions : Option (List Text)) (d : Db) : Call := do
  let _ ← found (d.roles.find? (·.id = id)) "gremium role not found"
  match permissions with
  | none => return d
  | some perms => return d.setPermissions id (sanitizePerms perms)

def deleteRole (id : ℕ) (d : Db) : Call := do
  let row ← found (d.roles.find? (·.id = id)) "gremium role not found"
  ensure (!forcedRoleKeys.contains row.key) "gremium_role_forced" "forced gremium role cannot be deleted"
  ensure (!d.memberships.any (·.role = id)) "gremium_role_in_use" "gremium role is in use by a membership"
  ensure (!d.roleMaps.any (·.role = id)) "gremium_role_mapped" "gremium role is in use by a group mapping"
  return { d with roles := d.roles.filter (·.id ≠ id) }

end Roles

section Accounts

def Db.setGroups (id : ℕ) (groups : List Text) (d : Db) : Db :=
  { d with principals := d.principals.map fun p => if p.id = id then { p with groups } else p }

def upsertPrincipal (sub : Text) (groups : List Text) (d : Db) : Except Problem (Db × Principal) :=
  match d.principals.find? (·.sub = sub) with
  | none =>
    let p : Principal := ⟨d.nextId, sub, groups, none, true⟩
    .ok ({ d with principals := d.principals ++ [p], nextId := d.nextId + 1 }, p)
  | some p =>
    if p.mergedInto.isSome then
      .error ⟨"account_merged", "This account was merged into another account. Log in with that account."⟩
    else .ok (d.setGroups p.id groups, { p with groups })

/-- The OIDC callback. A deactivated principal gets no session, and the request
does not commit. -/
def login (sub : Text) (groups : List Text) (d : Db) : Call := do
  let (d₁, p) ← upsertPrincipal sub groups d
  ensure p.active "forbidden" "Account is deactivated."
  return syncPrincipal d₁ p

def renewSession (id : ℕ) (groups : List Text) (d : Db) : Call := do
  let row ← found (d.principals.find? (·.id = id)) "no session"
  ensure row.active "unauthorized" "no session"
  let (d₁, p) ← upsertPrincipal row.sub groups d
  if p.active then return syncPrincipal d₁ p else return d₁

/-- The merge locks the source as a reference to the target. `allowed` stands for
the checks of the merge that do not read the tables here (erased accounts,
conflicting data, privileges of the admin). -/
def mergePrincipals (source target : ℕ) (allowed : Bool) (d : Db) : Call := do
  ensure (source ≠ target) "merge_same_principal" "An account cannot be merged into itself."
  let old ← found (d.principals.find? (·.id = source)) "principal not found"
  let new ← found (d.principals.find? (·.id = target)) "principal not found"
  ensure old.mergedInto.isNone "principal_already_merged" "This account is already merged."
  ensure new.mergedInto.isNone "merge_target_merged" "The target account is merged into another account."
  ensure new.active "merge_target_inactive" "The target account is deactivated."
  ensure allowed "merge_conflict" "The accounts have conflicting data. Resolve the conflicts first."
  let locked := { old with mergedInto := some target, active := false }
  let d₁ := { d with principals := d.principals.map fun p =>
    if p.id = source then locked
    else if p.mergedInto = some source then { p with mergedInto := some target } else p }
  return syncPrincipal d₁ locked

end Accounts

end Membership
