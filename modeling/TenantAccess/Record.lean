import TenantAccess.Feature
import TenantAccess.Identifier
import TenantAccess.Standing

/-!
# Records

The rows that are kept about tenants, principals, initiatives, roles, resources and grants, each
with the key that it is found by.
-/

namespace TenantAccess

/-- The boundary that isolates one group of users and their resources from all others. -/
structure Tenant where
  id : TenantId
  name : String
  deriving DecidableEq

instance : Keyed Tenant TenantId := ⟨Tenant.id⟩

/-- Someone who acts. -/
structure Principal where
  id : PrincipalId
  displayName : String
  platformRole : PlatformRole
  deriving DecidableEq

instance : Keyed Principal PrincipalId := ⟨Principal.id⟩

/-- Whether the principal administers the whole platform. -/
def Principal.isPlatformAdmin (p : Principal) : Bool := p.platformRole.isAdmin

/-- The role of a principal in a tenant. -/
structure TenantMembership where
  tenant : TenantId
  principal : PrincipalId
  role : TenantRole
  deriving DecidableEq

instance : Keyed TenantMembership (TenantId × PrincipalId) := ⟨fun m => (m.tenant, m.principal)⟩

/-- A group of resources inside one tenant. -/
structure Initiative where
  id : InitiativeId
  tenant : TenantId
  name : String
  deriving DecidableEq

instance : Keyed Initiative InitiativeId := ⟨Initiative.id⟩

/-- Switches a feature on or off for the holders of a role. -/
structure Toggle where
  role : RoleId
  feature : Feature
  enabled : Bool
  deriving DecidableEq

/-- A role of one initiative. -/
structure Role where
  id : RoleId
  initiative : InitiativeId
  name : String
  isManager : Bool
  position : UInt32
  toggles : List Toggle
  deriving DecidableEq

instance : Keyed Role RoleId := ⟨Role.id⟩

/-- The role that a principal holds in an initiative. -/
structure Membership where
  initiative : InitiativeId
  principal : PrincipalId
  role : RoleId
  deriving DecidableEq

instance : Keyed Membership (InitiativeId × PrincipalId) := ⟨fun m => (m.initiative, m.principal)⟩

/-- A resource of one initiative. The tenant is that of the initiative, kept here as well. -/
structure Resource where
  id : ResourceId
  kind : ResourceKind
  initiative : InitiativeId
  tenant : TenantId
  name : String
  deriving DecidableEq

instance : Keyed Resource ResourceId := ⟨Resource.id⟩

/-- A level on a resource for one principal. -/
structure UserGrant where
  resource : ResourceId
  principal : PrincipalId
  level : Level
  tenant : TenantId
  deriving DecidableEq

instance : Keyed UserGrant (ResourceId × PrincipalId) := ⟨fun g => (g.resource, g.principal)⟩

/-- A level on a resource for all who hold a role. -/
structure RoleGrant where
  resource : ResourceId
  role : RoleId
  level : Level
  tenant : TenantId
  deriving DecidableEq

instance : Keyed RoleGrant (ResourceId × RoleId) := ⟨fun g => (g.resource, g.role)⟩

/-- Rows that lie inside one tenant. -/
class InTenant (α : Type) where
  tenant : α → TenantId

instance : InTenant Initiative := ⟨Initiative.tenant⟩

instance : InTenant Resource := ⟨Resource.tenant⟩

instance : InTenant UserGrant := ⟨UserGrant.tenant⟩

instance : InTenant RoleGrant := ⟨RoleGrant.tenant⟩

end TenantAccess
