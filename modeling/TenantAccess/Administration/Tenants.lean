import TenantAccess.Administration.Guard
import TenantAccess.Naming
import TenantAccess.Succession

/-!
# Principals and tenants

Registering principals, and creating tenants and their members.
-/

namespace TenantAccess.Administration

variable {σ : Type} [Store.Backend σ]

open Transaction

def register (name : String) (role : PlatformRole) : Transaction σ Principal := do
  Naming.checkDisplayName "principal" name
  let principal : Principal := ⟨← fresh, name, role⟩
  let _ ← change (.putPrincipal principal)
  report (.principalRegistered principal.id role)
  return principal

/-- Creates a tenant with its creator as the first administrator. -/
def foundTenant (creator : PrincipalId) (name : String) : Transaction σ Tenant := do
  Naming.checkDisplayName "tenant" name
  let _ ← knownPrincipal (← current) creator
  let tenant : Tenant := ⟨← fresh, name⟩
  let _ ← change (.addTenant tenant)
  let _ ← change (.putTenantMembership ⟨tenant.id, creator, .admin⟩)
  report (.tenantCreated tenant.id creator)
  return tenant

/-- Adds a principal to the active tenant, or changes its role there. -/
def bringIn (scope : Scope) (principal : PrincipalId) (role : TenantRole) :
    Transaction σ TenantMembership := do
  scope.needTenantAdmin
  let _ ← knownPrincipal (← current) principal
  let membership : TenantMembership := ⟨scope.tenant, principal, role⟩
  let _ ← change (.putTenantMembership membership)
  report (.tenantMemberAdded membership.tenant principal role)
  return membership

/-- Takes a principal out of the active tenant, of all its initiatives and of all grants there. -/
def expel (scope : Scope) (principal : PrincipalId) :
    Transaction σ HandoverReport := do
  scope.needTenantAdmin
  let wasMember ← change (.removeTenantMembership scope.tenant principal)
  if !wasMember then check (.error (.notFound s!"tenant membership of {principal}"))
  let result ← Succession.leaveTenant scope.tenant principal
  report (.tenantMemberRemoved scope.tenant principal)
  return result

end TenantAccess.Administration
