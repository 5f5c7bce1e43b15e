import StupaWorkflow.MembershipSync

/-!
The revoke of the rights of one person: the snapshot, the check of a selection and the writes.
-/
namespace Membership
open Py

structure Role where
  id : ℕ
  key : Text
  deriving DecidableEq

structure GroupMapping where
  group : Text
  role : ℕ

structure RoleAssignment where
  id : ℕ
  principal : ℕ
  role : ℕ

/-- A substitute of one member, or of every member of the Gremium. -/
structure PoolEntry where
  id : ℕ
  gremium : ℕ
  member : Option ℕ
  substitute : ℕ

inductive MeetingStatus where
  | planned
  | live
  | closed
  deriving DecidableEq

structure Meeting where
  id : ℕ
  status : MeetingStatus

structure Delegation where
  id : ℕ
  gremium : ℕ
  meeting : ℕ
  delegator : ℕ
  delegate : ℕ

structure Access where
  core : Db
  roles : List Role
  groupMaps : List GroupMapping
  assignments : List RoleAssignment
  pool : List PoolEntry
  meetings : List Meeting
  delegations : List Delegation

section Snapshot

structure AssignmentFact where
  id : ℕ
  role : Role

structure DelegationFact where
  id : ℕ
  gremium : ℕ
  status : MeetingStatus

structure Snapshot where
  groups : List Text
  memberships : List ℕ
  assignments : List AssignmentFact
  pool : List PoolEntry
  delegations : List DelegationFact
  membershipMaps : List (Text × ℕ)
  roleMaps : List (Text × ℕ × ℕ)
  groupMaps : List (Text × Role)

def PoolEntry.concerns (e : PoolEntry) (principal : ℕ) : Bool :=
  e.substitute = principal || e.member = some principal

def Delegation.concerns (d : Delegation) (principal : ℕ) : Bool :=
  d.delegator = principal || d.delegate = principal

def Access.statusOf (a : Access) (d : Delegation) : Option MeetingStatus :=
  (a.meetings.find? (·.id = d.meeting)).map (·.status)

/-- `_load_mappings` and the other queries of `_snapshot`. -/
def snapshot (a : Access) (p : Principal) : Snapshot where
  groups := p.groups
  memberships := (rowsOf a.core p.id).map (·.gremium)
  assignments := (a.assignments.filter (·.principal = p.id)).filterMap fun x =>
    (a.roles.find? (·.id = x.role)).map fun r => ⟨x.id, r⟩
  pool := a.pool.filter (·.concerns p.id)
  delegations := (a.delegations.filter (·.concerns p.id)).filterMap fun x =>
    match a.statusOf x with
    | some .planned => some ⟨x.id, x.gremium, .planned⟩
    | some .live => some ⟨x.id, x.gremium, .live⟩
    | _ => none
  membershipMaps := (a.core.membershipMaps.filter (·.group ∈ p.groups)).map fun m => (m.group, m.gremium)
  roleMaps := (a.core.roleMaps.filter (·.group ∈ p.groups)).filterMap fun m =>
    (a.core.roles.find? (·.id = m.role)).map fun r => (m.group, r.gremium, r.id)
  groupMaps := (a.groupMaps.filter (·.group ∈ p.groups)).filterMap fun m =>
    (a.roles.find? (·.id = m.role)).map fun r => (m.group, r)

/-- The global roles of the person, without `member`. -/
def heldRoles (snap : Snapshot) : List ℕ :=
  ((snap.groupMaps.map (·.2) ++ snap.assignments.map (·.role)).filter (·.key ≠ memberKey)).map (·.id)

def tiedGremien (snap : Snapshot) : List ℕ :=
  snap.memberships ++ snap.membershipMaps.map (·.2) ++ snap.pool.map (·.gremium) ++ snap.delegations.map (·.gremium)

def gremiumPairs (snap : Snapshot) : List (Text × ℕ) :=
  snap.membershipMaps.filter (·.1 ∈ snap.groups) ++
    (snap.roleMaps.filter fun x => x.1 ∈ snap.groups && x.2.1 ∈ tiedGremien snap).map fun x => (x.1, x.2.1)

def rolePairs (snap : Snapshot) : List (Text × ℕ) :=
  (snap.groupMaps.filter fun x => x.1 ∈ snap.groups && x.2.key ≠ memberKey).map fun x => (x.1, x.2.id)

def targetsOf (pairs : List (Text × ℕ)) (group : Text) : List ℕ := (pairs.filter (·.1 = group)).map (·.2)

/-- `group_targets`: each group with its Gremien and its global roles. -/
def groupTargets (snap : Snapshot) : List (Text × List ℕ × List ℕ) :=
  ((gremiumPairs snap ++ rolePairs snap).map (·.1)).dedup.map fun group =>
    (group, targetsOf (gremiumPairs snap) group, targetsOf (rolePairs snap) group)

end Snapshot

section Plan

structure FieldError where
  field : String
  id : ℕ
  deriving DecidableEq

structure ValidationProblem where
  code : String
  message : String
  errors : List FieldError

structure RevokePlan where
  gremien : List ℕ
  roles : List ℕ
  removedGroups : List Text
  assignments : List ℕ
  pool : List ℕ
  delegations : List ℕ
  keptLive : ℕ

def removedGroups (snap : Snapshot) (gremien roles : List ℕ) : List Text :=
  ((groupTargets snap).filter fun t => t.2.1.any (· ∈ gremien) || t.2.2.any (· ∈ roles)).map (·.1)

/-- The entries that removed groups lead to and that are not selected. -/
def missingOf (pairs : List (Text × ℕ)) (removed : List Text) (chosen : List ℕ) : List ℕ :=
  ((removed.flatMap (targetsOf pairs)).filter (· ∉ chosen)).dedup

def errorsFor (field : String) (ids : List ℕ) : List FieldError := ids.map fun id => ⟨field, id⟩

def planRevoke (snap : Snapshot) (gremiumIds roleIds : List ℕ) (deactivate : Bool) :
    Except ValidationProblem RevokePlan :=
  let gremien := gremiumIds.dedup
  let roles := roleIds.dedup
  let unknown := errorsFor "gremiumIds" (gremien.filter (· ∉ tiedGremien snap)) ++
    errorsFor "globalRoleIds" (roles.filter (· ∉ heldRoles snap))
  let removed := removedGroups snap gremien roles
  let missingGremien := missingOf (gremiumPairs snap) removed gremien
  let missingRoles := missingOf (rolePairs snap) removed roles
  if gremien.isEmpty && roles.isEmpty && !deactivate then
    .error ⟨"revoke_empty", "Select at least one Gremium or role, or deactivate the account.", []⟩
  else if !unknown.isEmpty then
    .error ⟨"revoke_unknown_target", "The person has no tie to a selected Gremium or role.", unknown⟩
  else if !missingGremien.isEmpty || !missingRoles.isEmpty then
    .error ⟨"revoke_incomplete", "A removed SSO group also leads to an entry that is not selected.",
      errorsFor "gremiumIds" (missingGremien.mergeSort (· ≤ ·)) ++
        errorsFor "globalRoleIds" (missingRoles.mergeSort (· ≤ ·))⟩
  else
    let inChosen := snap.delegations.filter (·.gremium ∈ gremien)
    .ok
      { gremien
        roles
        removedGroups := snap.groups.filter (· ∈ removed)
        assignments := (snap.assignments.filter (·.role.id ∈ roles)).map (·.id)
        pool := (snap.pool.filter (·.gremium ∈ gremien)).map (·.id)
        delegations := (inChosen.filter (·.status = .planned)).map (·.id)
        keptLive := (inChosen.filter (·.status = .live)).length }

end Plan

section Apply

def Principal.without (p : Principal) (gone : List Text) : Principal :=
  { p with groups := p.groups.filter (· ∉ gone) }

/-- `_apply`: the writes, the sync and the deactivation. The sessions of the
person, which end too, are no part of these tables. -/
def applyPlan (a : Access) (p : Principal) (plan : RevokePlan) (deactivate : Bool) : Access :=
  let row := p.without plan.removedGroups
  let core := syncPrincipal (a.core.setGroups p.id row.groups) row
  { a with
    core := { core with principals := core.principals.map fun q =>
      if q.id = p.id && deactivate then { q with active := false } else q }
    assignments := a.assignments.filter (·.id ∉ plan.assignments)
    pool := a.pool.filter (·.id ∉ plan.pool)
    delegations := a.delegations.filter (·.id ∉ plan.delegations) }

/-- `PrincipalRevokeService.revoke` of the person with this id. -/
def revokeAccess (id : ℕ) (gremiumIds roleIds : List ℕ) (deactivate : Bool) (actor : Text) (a : Access) :
    Except Problem Access := do
  let p ← found (a.core.principals.find? (·.id = id)) "principal not found"
  ensure p.mergedInto.isNone "principal_merged" "A merged account holds no rights."
  ensure (p.sub ≠ actor) "revoke_own_account" "You cannot revoke the rights of your own account."
  match planRevoke (snapshot a p) gremiumIds roleIds deactivate with
  | .error problem => .error ⟨problem.code, problem.message⟩
  | .ok plan => .ok (applyPlan a p plan deactivate)

end Apply

end Membership
