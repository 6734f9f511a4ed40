import TenantAccess.Store.Tables

/-!
# Rows in a relational database

A store that keeps rows in relations, in the order in which they were written. Toggles have a
relation of their own. Each statement is checked against the declared keys first and against the
declared references then; a deletion takes the rows that refer to the deleted ones along where the
reference says so. Lists are sorted when they are read.
-/

namespace TenantAccess.Store

/-- A role without its toggles. -/
structure RoleRow where
  id : RoleId
  initiative : InitiativeId
  name : String
  isManager : Bool
  position : UInt32
  deriving DecidableEq

/-- The relations of the schema. -/
structure Database where
  tenants : List Tenant
  principals : List Principal
  tenantMemberships : List TenantMembership
  initiatives : List Initiative
  roles : List RoleRow
  toggles : List Toggle
  memberships : List Membership
  resources : List Resource
  userGrants : List UserGrant
  roleGrants : List RoleGrant

namespace Database

def empty : Database := ⟨[], [], [], [], [], [], [], [], [], []⟩

/-- The toggles of a role, put into order one by one. -/
def assemble (d : Database) (row : RoleRow) : Role :=
  (d.toggles.filter fun t => t.role = row.id).foldl (fun r t => r.withToggle t.feature t.enabled)
    (Role.plain row.id row.initiative row.name row.isManager row.position)

/-- The place of a role among the roles of its initiative: by position, then by identifier. -/
def roleOrder (row : RoleRow) : Nat := row.position.toNat <<< 128 + row.id.value

/-- The rows that satisfy a condition, in the order of an identifier. -/
def select {R : Type} {noun : Noun} (rows : List R) (order : R → Id noun) (condition : R → Bool) :
    List R :=
  sortOn (fun r => (order r).value) (rows.filter condition)

/-! ## Questions -/

def ask {α : Type} : Query α → Database → α
  | .tenant id, d => d.tenants.find? fun t => t.id = id
  | .principal id, d => d.principals.find? fun p => p.id = id
  | .tenantMembership tenant principal, d =>
    d.tenantMemberships.find? fun m => m.tenant = tenant && m.principal = principal
  | .tenantMembershipsBy p, d =>
    select d.tenantMemberships TenantMembership.tenant fun m => m.principal = p
  | .initiative id, d => d.initiatives.find? fun i => i.id = id
  | .initiativesIn tenant, d => select d.initiatives Initiative.id fun i => i.tenant = tenant
  | .role id, d => (d.roles.find? fun r => r.id = id).map d.assemble
  | .rolesIn i, d =>
    (sortOn roleOrder (d.roles.filter fun r => r.initiative = i)).map d.assemble
  | .membership i p, d => d.memberships.find? fun m => m.initiative = i && m.principal = p
  | .membershipsIn i, d => select d.memberships Membership.principal fun m => m.initiative = i
  | .membershipsBy p, d => select d.memberships Membership.initiative fun m => m.principal = p
  | .resource id, d => d.resources.find? fun r => r.id = id
  | .resourcesIn i, d => select d.resources Resource.id fun r => r.initiative = i
  | .resourcesWithin tenants, d => select d.resources Resource.id fun r => tenants.contains r.tenant
  | .resources, d => select d.resources Resource.id fun _ => true
  | .userGrants r, d => select d.userGrants UserGrant.principal fun g => g.resource = r
  | .roleGrants r, d => select d.roleGrants RoleGrant.role fun g => g.resource = r
  | .grantsToRole r, d => select d.roleGrants RoleGrant.resource fun g => g.role = r

/-! ## Statements -/

/-- Fails if a key is already in use, or else if a referenced row is missing. -/
def enforce (keys : List (Bool × String)) (references : List Bool) : Except Error Unit :=
  match keys.find? Prod.fst with
  | some (_, columns) => .error (.constraint (.notUnique columns))
  | none => if references.all id then .ok () else .error (.constraint .danglingReference)

variable (d : Database)

def hasTenant (id : TenantId) : Bool := d.tenants.any fun t => t.id = id

def hasPrincipal (id : PrincipalId) : Bool := d.principals.any fun p => p.id = id

def hasInitiative (id : InitiativeId) : Bool := d.initiatives.any fun i => i.id = id

def hasRole (id : RoleId) : Bool := d.roles.any fun r => r.id = id

def hasResource (id : ResourceId) : Bool := d.resources.any fun r => r.id = id

/-- Amends the rows that satisfy a condition. -/
def amend {R : Type} (rows : List R) (condition : R → Bool) (update : R → R) : List R :=
  rows.map fun r => if condition r then update r else r

/-- The key that keeps the names of the roles of one initiative apart. -/
def roleNameKey : String := "initiative_roles.initiative_id, initiative_roles.name"

/-- Whether a role other than `id` has a name in an initiative. -/
def roleNameTaken (id : RoleId) (initiative : InitiativeId) (name : String) : Bool :=
  d.roles.any fun r => r.initiative = initiative && r.name = name && r.id != id

def addTenant (row : Tenant) : Step Database := fun d => do
  enforce [(d.hasTenant row.id, "tenants.id")] []
  return (true, { d with tenants := d.tenants ++ [row] })

def putPrincipal (row : Principal) : Step Database := fun d =>
  if d.hasPrincipal row.id then
    .ok (true,
      { d with
        principals := amend d.principals (fun p => p.id = row.id) fun p =>
          { p with displayName := row.displayName, platformRole := row.platformRole } })
  else .ok (true, { d with principals := d.principals ++ [row] })

def putTenantMembership (row : TenantMembership) : Step Database := fun d =>
  let same := fun m : TenantMembership => m.tenant = row.tenant && m.principal = row.principal
  if d.tenantMemberships.any same then
    .ok (true,
      { d with
        tenantMemberships := amend d.tenantMemberships same fun m => { m with role := row.role } })
  else do
    enforce [] [d.hasTenant row.tenant, d.hasPrincipal row.principal]
    return (true, { d with tenantMemberships := d.tenantMemberships ++ [row] })

def addInitiative (row : Initiative) : Step Database := fun d => do
  enforce [(d.hasInitiative row.id, "initiatives.id")] [d.hasTenant row.tenant]
  return (true, { d with initiatives := d.initiatives ++ [row] })

/-- An update leaves the initiative of the stored role alone. -/
def putRoleRow (row : Role) : Step Database := fun d =>
  match d.roles.find? fun r => r.id = row.id with
  | some stored => do
    enforce [(d.roleNameTaken row.id stored.initiative row.name, roleNameKey)] []
    return (true,
      { d with
        roles := amend d.roles (fun r => r.id = row.id) fun r =>
          { r with name := row.name, isManager := row.isManager, position := row.position } })
  | none => do
    enforce [(d.roleNameTaken row.id row.initiative row.name, roleNameKey)]
      [d.hasInitiative row.initiative]
    return (true,
      { d with
        roles := d.roles ++ [⟨row.id, row.initiative, row.name, row.isManager, row.position⟩] })

def removeToggles (role : RoleId) : Step Database := fun d =>
  .ok (d.toggles.any fun t => t.role = role,
    { d with toggles := d.toggles.filter fun t => t.role != role })

def putToggle (row : Toggle) : Step Database := fun d =>
  let same := fun t : Toggle => t.role = row.role && t.feature = row.feature
  if d.toggles.any same then
    .ok (true,
      { d with toggles := amend d.toggles same fun t => { t with enabled := row.enabled } })
  else do
    enforce [] [d.hasRole row.role]
    return (true, { d with toggles := d.toggles ++ [row] })

def removeRole (role : RoleId) : Step Database := fun d =>
  if d.memberships.any fun m => m.role = role then .error (.constraint (.stillAssigned role))
  else .ok (d.hasRole role,
    { d with
      roles := d.roles.filter fun r => r.id != role
      toggles := d.toggles.filter fun t => t.role != role
      roleGrants := d.roleGrants.filter fun g => g.role != role })

def putMembership (row : Membership) : Step Database := fun d =>
  let same := fun m : Membership => m.initiative = row.initiative && m.principal = row.principal
  if d.memberships.any same then do
    enforce [] [d.hasRole row.role]
    return (true,
      { d with memberships := amend d.memberships same fun m => { m with role := row.role } })
  else do
    enforce [] [d.hasInitiative row.initiative, d.hasPrincipal row.principal, d.hasRole row.role]
    return (true, { d with memberships := d.memberships ++ [row] })

def addResource (row : Resource) : Step Database := fun d => do
  enforce [(d.hasResource row.id, "resources.id")]
    [d.hasInitiative row.initiative, d.hasTenant row.tenant]
  return (true, { d with resources := d.resources ++ [row] })

def removeResource (r : ResourceId) : Step Database := fun d =>
  .ok (d.hasResource r,
    { d with
      resources := d.resources.filter fun x => x.id != r
      userGrants := d.userGrants.filter fun g => g.resource != r
      roleGrants := d.roleGrants.filter fun g => g.resource != r })

def putUserGrant (row : UserGrant) : Step Database := fun d =>
  let same := fun g : UserGrant => g.resource = row.resource && g.principal = row.principal
  if d.userGrants.any same then
    .ok (true,
      { d with
        userGrants := amend d.userGrants same fun g =>
          { g with level := row.level, tenant := row.tenant } })
  else do
    enforce [] [d.hasResource row.resource, d.hasPrincipal row.principal]
    return (true, { d with userGrants := d.userGrants ++ [row] })

def putRoleGrant (row : RoleGrant) : Step Database := fun d =>
  let same := fun g : RoleGrant => g.resource = row.resource && g.role = row.role
  if d.roleGrants.any same then
    .ok (true,
      { d with
        roleGrants := amend d.roleGrants same fun g =>
          { g with level := row.level, tenant := row.tenant } })
  else do
    enforce [] [d.hasResource row.resource, d.hasRole row.role]
    return (true, { d with roleGrants := d.roleGrants ++ [row] })

def removeTenantMembership (tenant : TenantId) (principal : PrincipalId) : Step Database := fun d =>
  let same := fun m : TenantMembership => m.tenant = tenant && m.principal = principal
  .ok (d.tenantMemberships.any same,
    { d with tenantMemberships := d.tenantMemberships.filter fun m => !same m })

def removeMembership (i : InitiativeId) (p : PrincipalId) : Step Database := fun d =>
  let same := fun m : Membership => m.initiative = i && m.principal = p
  .ok (d.memberships.any same,
    { d with memberships := d.memberships.filter fun m => !same m })

def removeUserGrant (r : ResourceId) (p : PrincipalId) : Step Database := fun d =>
  let same := fun g : UserGrant => g.resource = r && g.principal = p
  .ok (d.userGrants.any same, { d with userGrants := d.userGrants.filter fun g => !same g })

def removeRoleGrant (r : ResourceId) (role : RoleId) : Step Database := fun d =>
  let same := fun g : RoleGrant => g.resource = r && g.role = role
  .ok (d.roleGrants.any same, { d with roleGrants := d.roleGrants.filter fun g => !same g })

/-! ## Changes -/

/-- Each change is one statement, but for a role, whose toggles are written one by one after it. -/
def change : Change → Database → Except Error Bool × Database
  | .addTenant row => (addTenant row).run
  | .putPrincipal row => (putPrincipal row).run
  | .putTenantMembership row => (putTenantMembership row).run
  | .removeTenantMembership tenant principal => (removeTenantMembership tenant principal).run
  | .addInitiative row => (addInitiative row).run
  | .putRole row =>
    Step.runAll (putRoleRow row) (removeToggles row.id ::
      row.toggles.map fun t => putToggle { t with role := row.id })
  | .removeRole role => (removeRole role).run
  | .putToggle row => (putToggle row).run
  | .putMembership row => (putMembership row).run
  | .removeMembership i p => (removeMembership i p).run
  | .addResource row => (addResource row).run
  | .removeResource r => (removeResource r).run
  | .putUserGrant row => (putUserGrant row).run
  | .removeUserGrant r p => (removeUserGrant r p).run
  | .putRoleGrant row => (putRoleGrant row).run
  | .removeRoleGrant r role => (removeRoleGrant r role).run

instance : Backend Database where
  empty := empty
  ask := ask
  change := change

/-- The same rows in ordered tables. -/
def tables : Tables where
  tenants := .ofList d.tenants
  principals := .ofList d.principals
  tenantMemberships := .ofList d.tenantMemberships
  initiatives := .ofList d.initiatives
  roles := .ofList (d.roles.map d.assemble)
  memberships := .ofList d.memberships
  resources := .ofList d.resources
  userGrants := .ofList d.userGrants
  roleGrants := .ofList d.roleGrants

end Database

end TenantAccess.Store
