import TenantAccess.Scope
import TenantAccess.Succession

/-!
# Answers

What calls that succeed give.
-/

namespace TenantAccess

inductive Answer
  | principal (row : Principal)
  | tenant (row : Tenant)
  | tenantMembership (row : TenantMembership)
  | initiative (row : Initiative)
  | role (row : Role)
  | roles (rows : List Role)
  | membership (row : Membership)
  | resource (row : Resource)
  | userGrant (row : UserGrant)
  | roleGrant (row : RoleGrant)
  | scope (scope : Scope)
  | level (level : Option Level)
  /-- A level that was asked for at least. -/
  | granted (level : Level)
  | resourceIds (ids : IdSet .resource)
  | levels (resources : List (Resource × Level))
  | flag (value : Bool)
  | handover (report : HandoverReport)
  | done

end TenantAccess
