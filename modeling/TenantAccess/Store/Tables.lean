import TenantAccess.Role
import TenantAccess.Sorting
import TenantAccess.Store.Operation

/-!
# Rows in ordered tables

A store that keeps each kind of row in a table in the order of its keys, roles with their toggles
inside. Before a change is made every row that it refers to is looked up.
-/

namespace TenantAccess.Store

/-- All stored rows. -/
structure Tables where
  tenants : Table Tenant
  principals : Table Principal
  tenantMemberships : Table TenantMembership
  initiatives : Table Initiative
  roles : Table Role
  memberships : Table Membership
  resources : Table Resource
  userGrants : Table UserGrant
  roleGrants : Table RoleGrant

namespace Tables

def empty : Tables := ⟨∅, ∅, ∅, ∅, ∅, ∅, ∅, ∅, ∅⟩

def ask {α : Type} : Query α → Tables → α
  | .tenant id, t => t.tenants.find? id
  | .principal id, t => t.principals.find? id
  | .tenantMembership tenant principal, t => t.tenantMemberships.find? (tenant, principal)
  | .tenantMembershipsBy p, t => t.tenantMemberships.rows.filter fun m => m.principal = p
  | .initiative id, t => t.initiatives.find? id
  | .initiativesIn tenant, t => t.initiatives.rows.filter fun i => i.tenant = tenant
  | .role id, t => t.roles.find? id
  | .rolesIn i, t =>
    sortOn (fun r => r.position.toNat) (t.roles.rows.filter fun r => r.initiative = i)
  | .membership i p, t => t.memberships.find? (i, p)
  | .membershipsIn i, t => t.memberships.scanFrom (i, Id.least) fun m => m.initiative = i
  | .membershipsBy p, t => t.memberships.rows.filter fun m => m.principal = p
  | .resource id, t => t.resources.find? id
  | .resourcesIn i, t => t.resources.rows.filter fun r => r.initiative = i
  | .resourcesWithin tenants, t => t.resources.rows.filter fun r => tenants.contains r.tenant
  | .resources, t => t.resources.rows
  | .userGrants r, t => t.userGrants.rows.filter fun g => g.resource = r
  | .roleGrants r, t => t.roleGrants.rows.filter fun g => g.resource = r
  | .grantsToRole r, t => t.roleGrants.rows.filter fun g => g.role = r

/-- Fails unless there is a row with the key. -/
def demand {R : Type} {noun : Noun} [Keyed R (Id noun)] (table : Table R) (id : Id noun) :
    Except Error Unit :=
  if table.contains id then .ok () else .error (.constraint (.unknown id))

/-- Fails if there is a row with the key. -/
def demandFree {R : Type} {noun : Noun} [Keyed R (Id noun)] (table : Table R) (id : Id noun) :
    Except Error Unit :=
  if table.contains id then .error (.constraint (.taken id)) else .ok ()

/-- Whether another role of the initiative has the name of `row`. -/
def roleNameTaken (t : Tables) (row : Role) : Bool :=
  t.roles.rows.any fun r => r.initiative = row.initiative && r.name = row.name && r.id != row.id

/-- Each change as one step. -/
def step : Change → Step Tables
  | .addTenant row, t => do
    demandFree t.tenants row.id
    return (true, { t with tenants := t.tenants.insert row })
  | .putPrincipal row, t => .ok (true, { t with principals := t.principals.insert row })
  | .putTenantMembership row, t => do
    demand t.tenants row.tenant
    demand t.principals row.principal
    return (true, { t with tenantMemberships := t.tenantMemberships.insert row })
  | .removeTenantMembership tenant principal, t =>
    .ok (t.tenantMemberships.contains (tenant, principal),
      { t with tenantMemberships := t.tenantMemberships.erase (tenant, principal) })
  | .addInitiative row, t => do
    demand t.tenants row.tenant
    demandFree t.initiatives row.id
    return (true, { t with initiatives := t.initiatives.insert row })
  | .putRole row, t => do
    demand t.initiatives row.initiative
    if t.roleNameTaken row then throw (.constraint (.nameTaken row.name row.initiative))
    return (true, { t with roles := t.roles.insert row })
  | .removeRole role, t =>
    if t.memberships.rows.any fun m => m.role = role then
      .error (.constraint (.stillAssigned role))
    else if t.roles.contains role then
      .ok (true,
        { t with
          roles := t.roles.erase role
          roleGrants := t.roleGrants.filter fun g => g.role != role })
    else .ok (false, t)
  | .putToggle row, t =>
    match t.roles.find? row.role with
    | none => .error (.constraint (.unknown row.role))
    | some role =>
      .ok (true, { t with roles := t.roles.insert (role.withToggle row.feature row.enabled) })
  | .putMembership row, t => do
    demand t.initiatives row.initiative
    demand t.principals row.principal
    demand t.roles row.role
    return (true, { t with memberships := t.memberships.insert row })
  | .removeMembership i p, t =>
    .ok (t.memberships.contains (i, p), { t with memberships := t.memberships.erase (i, p) })
  | .addResource row, t => do
    demand t.initiatives row.initiative
    demand t.tenants row.tenant
    demandFree t.resources row.id
    return (true, { t with resources := t.resources.insert row })
  | .removeResource r, t =>
    if t.resources.contains r then
      .ok (true,
        { t with
          resources := t.resources.erase r
          userGrants := t.userGrants.filter fun g => g.resource != r
          roleGrants := t.roleGrants.filter fun g => g.resource != r })
    else .ok (false, t)
  | .putUserGrant row, t => do
    demand t.resources row.resource
    demand t.principals row.principal
    return (true, { t with userGrants := t.userGrants.insert row })
  | .removeUserGrant r p, t =>
    .ok (t.userGrants.contains (r, p), { t with userGrants := t.userGrants.erase (r, p) })
  | .putRoleGrant row, t => do
    demand t.resources row.resource
    demand t.roles row.role
    return (true, { t with roleGrants := t.roleGrants.insert row })
  | .removeRoleGrant r role, t =>
    .ok (t.roleGrants.contains (r, role), { t with roleGrants := t.roleGrants.erase (r, role) })

instance : Backend Tables where
  empty := empty
  ask := ask
  change c := (step c).run

end Tables

end TenantAccess.Store
