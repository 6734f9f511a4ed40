import TenantAccess.Reference
import TenantAccess.Sight

/-!
# Rights to change things

What it takes to change the tenant of a scope or an initiative there. An initiative is in the hands
of the administrators of its tenant and of the platform and of the holders of a manager role in it.
-/

namespace TenantAccess

variable {σ : Type} [Store.Backend σ]

open Store.Backend (ask)

namespace Scope

variable (scope : Scope) (s : σ)

def needActiveTenant {α : Type} [InTenant α] (item : α) : Except Failure Unit :=
  if scope.mayChange item then .ok ()
  else .error (.forbidden "changes are limited to the active tenant")

def needTenantAdmin : Except Failure Unit :=
  if scope.mayManage then .ok ()
  else .error (.forbidden s!"tenant {scope.tenant} requires an admin")

/-- Whether a manager role is held in an initiative. -/
def isManagerOf (i : InitiativeId) : Bool :=
  (Store.heldRole s i scope.principal.id).any Role.isManager

def needManager (initiative : Initiative) : Except Failure Unit := do
  scope.needActiveTenant initiative
  if scope.mayManage || scope.isManagerOf s initiative.id then return ()
  throw (.forbidden s!"initiative {initiative.id} requires a manager")

/-- An initiative that may be changed. -/
def managedInitiative (id : InitiativeId) : Except Failure Initiative := do
  let initiative ← scope.findInitiative s id
  scope.needManager s initiative
  return initiative

/-- A role that may be changed, with its initiative. A role of an initiative out of sight is not
found. -/
def managedRole (id : RoleId) : Except Failure (Role × Initiative) := do
  let role ← found (ask (.role id) s) s!"role {id}"
  let initiative ← scope.disclose (ask (.initiative role.initiative) s) "role" id.hex
  scope.needManager s initiative
  return (role, initiative)

end Scope

namespace Administration

variable (s : σ)

/-- A role that is there and belongs to an initiative. -/
def roleIn (initiative : Initiative) (id : RoleId) : Except Failure Role := do
  let role ← found (ask (.role id) s) s!"role {id}"
  role.checkIn initiative
  return role

def knownPrincipal (id : PrincipalId) : Except Failure Principal :=
  found (ask (.principal id) s) s!"principal {id}"

/-- Only members of a tenant get memberships and grants there. -/
def needTenantMember (tenant : TenantId) (p : PrincipalId) : Except Failure Unit :=
  if (ask (.tenantMembership tenant p) s).isSome then .ok ()
  else .error (.invalidReference s!"principal {p} is not a member of tenant {tenant}")

end Administration

end TenantAccess
