import TenantAccess.Administration.Guard
import TenantAccess.Naming

/-!
# Resources and grants

Creating and deleting resources, and granting and revoking levels on them. Only owners change
grants, and no change of a grant takes the last owner away.
-/

namespace TenantAccess.Administration

variable {σ : Type} [Store.Backend σ]

open Transaction
open Store.Backend (ask)

/-- Creates a resource with the caller as its owner, if the role of the caller lets it create
resources of the kind. -/
def addResource (scope : Scope) (i : InitiativeId) (kind : ResourceKind) (name : String) :
    Transaction σ Resource := do
  let s ← current
  let initiative ← scope.findInitiative s i
  scope.needActiveTenant initiative
  Naming.checkDisplayName kind.word name
  let feature := Feature.toCreate kind
  if !scope.principal.may (Store.heldRole s initiative.id scope.principal.id) feature then
    check (.error (.featureDisabled feature))
  let resource : Resource := ⟨← fresh, kind, initiative.id, initiative.tenant, name⟩
  let _ ← change (.addResource resource)
  let _ ← change (.putUserGrant ⟨resource.id, scope.principal.id, .owner, resource.tenant⟩)
  report (.resourceCreated resource.id kind scope.principal.id)
  return resource

def dropResource (scope : Scope) (r : ResourceId) : Transaction σ Unit := do
  let _ ← scope.levelAtLeast (← current) r .owner
  let _ ← change (.removeResource r)
  report (.resourceDeleted r)

/-- Fails if a change of grants leaves a resource without an owner that has one now. -/
def needOwner (s : σ) (before after : Acl) : Except Failure Unit :=
  let members := Store.roleMap s before.resource.initiative
  if !(before.owners members).isEmpty && (after.owners members).isEmpty then
    .error (.lastOwner before.resource.id)
  else .ok ()

/-- Sets the level granted to a principal, which has to be a member of the tenant. -/
def share (scope : Scope) (r : ResourceId) (p : PrincipalId) (level : Level) :
    Transaction σ UserGrant := do
  let s ← current
  let (acl, _) ← scope.levelAtLeast s r .owner
  let _ ← knownPrincipal s p
  needTenantMember s acl.resource.tenant p
  needOwner s acl (acl.setUser p level)
  let grant : UserGrant := ⟨r, p, level, acl.resource.tenant⟩
  let _ ← change (.putUserGrant grant)
  report (.userGranted r p level)
  return grant

/-- Deletes a grant and answers whether there was one. On the access list `held` is what it grants, and
`without` is what is left. -/
def withdraw (scope : Scope) (r : ResourceId) (held : Acl → Option Level) (without : Acl → Acl)
    (removal : Store.Change) (event : Event) : Transaction σ Bool := do
  let s ← current
  let (acl, _) ← scope.levelAtLeast s r .owner
  if (held acl).isNone then return false
  needOwner s acl (without acl)
  let _ ← change removal
  report event
  return true

/-- Deletes the grant of a principal. -/
def unshare (scope : Scope) (r : ResourceId) (p : PrincipalId) : Transaction σ Bool :=
  withdraw scope r (·.direct? p) (·.removeUser p) (.removeUserGrant r p) (.userRevoked r p)

/-- Sets the level granted to the holders of a role of the same initiative. -/
def shareWithRole (scope : Scope) (r : ResourceId) (roleId : RoleId) (level : Level) :
    Transaction σ RoleGrant := do
  let s ← current
  let (acl, _) ← scope.levelAtLeast s r .owner
  let role ← found (ask (.role roleId) s) s!"role {roleId}"
  role.checkOn acl.resource
  needOwner s acl (acl.setRole role.id level)
  let grant : RoleGrant := ⟨r, role.id, level, acl.resource.tenant⟩
  let _ ← change (.putRoleGrant grant)
  report (.roleGranted r role.name level)
  return grant

/-- Deletes the grant to a role. -/
def unshareWithRole (scope : Scope) (r : ResourceId) (role : RoleId) : Transaction σ Bool :=
  withdraw scope r (·.levelOfRole? role) (·.removeRole role) (.removeRoleGrant r role)
    (.roleRevoked r role)

end TenantAccess.Administration
