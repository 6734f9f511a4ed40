import TenantAccess.Record
import TenantAccess.Refusal

/-!
# Tenant scopes

What a principal that acts in a tenant may see and change at all, before any grant is looked at. It
changes rows of that tenant only. It sees rows of that tenant and, when it reads globally, of every
tenant that it belongs to; administrators of the platform see all rows. What it may not see is
reported like what is not there.
-/

namespace TenantAccess

/-! ## Reaches and horizons -/

/-- How far reads reach. -/
inductive Reach
  | activeTenant
  | global
  deriving DecidableEq, Repr

namespace Reach

def word : Reach → String
  | activeTenant => "active_tenant"
  | global => "global"

instance : Vocabulary Reach := ⟨"read mode", [activeTenant, global], word⟩

instance : Inhabited Reach := ⟨activeTenant⟩

end Reach

/-- The tenants whose rows are in sight. -/
inductive Horizon
  | all
  | tenants (ids : IdSet .tenant)

def Horizon.contains : Horizon → TenantId → Bool
  | all, _ => true
  | tenants ids, t => ids.contains t

/-! ## Scopes -/

/-- A principal that acts in a tenant which it may enter. -/
structure Scope where
  principal : Principal
  tenant : TenantId
  /-- Missing only for an administrator of the platform that does not belong to the tenant. -/
  tenantRole : Option TenantRole
  ownTenants : IdSet .tenant
  reach : Reach

namespace Scope

/-- The scope of a principal in a tenant. Only its own rows in `memberships` count, and the first
one for the tenant gives its role there. -/
def enter (principal : Principal) (tenant : TenantId) (memberships : List TenantMembership)
    (reach : Reach) : Except Refusal Scope :=
  let own := memberships.filter fun m => m.principal = principal.id
  let tenantRole := (own.find? fun m => m.tenant = tenant).map TenantMembership.role
  if tenantRole.isNone && !principal.isPlatformAdmin then .error (.notFound s!"tenant {tenant}")
  else .ok
    { principal
      tenant
      tenantRole
      ownTenants := .ofList (own.map TenantMembership.tenant)
      reach }

variable (scope : Scope)

def isPlatformAdmin : Bool := scope.principal.isPlatformAdmin

/-- Whether the principal is an administrator of the tenant itself. -/
def administers : Bool := scope.tenantRole.any TenantRole.isAdmin

/-- Whether the principal may manage the tenant. -/
def mayManage : Bool := scope.administers || scope.isPlatformAdmin

/-- Whether rows of a tenant may be seen. -/
def sees (t : TenantId) : Bool :=
  t = scope.tenant || scope.isPlatformAdmin ||
    scope.reach = .global && scope.ownTenants.contains t

def reaches {α : Type} [InTenant α] (item : α) : Bool := scope.sees (InTenant.tenant item)

/-- Whether a row may be changed: rows of the tenant may, however far reads reach. -/
def mayChange {α : Type} [InTenant α] (item : α) : Bool :=
  InTenant.tenant item = scope.tenant

/-- The rows that may be seen. -/
def visiblePart {α : Type} [InTenant α] (items : List α) : List α :=
  items.filter scope.reaches

/-- A row that was looked up, if it is there and may be seen. -/
def disclose {α : Type} [InTenant α] (item : Option α) (what id : String) : Except Refusal α :=
  match item.filter scope.reaches with
  | some x => .ok x
  | none => .error (.notFound s!"{what} {id}")

/-- The tenants that a listing draws from. -/
def horizon : Horizon :=
  if scope.isPlatformAdmin then .all
  else if scope.reach = .global then .tenants (scope.ownTenants.insert scope.tenant)
  else .tenants (.ofList [scope.tenant])

end Scope

end TenantAccess
