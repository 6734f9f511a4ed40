import TenantAccess.Administration.Members
import TenantAccess.Administration.Resources
import TenantAccess.Administration.Roles
import TenantAccess.Administration.Tenants

/-!
# Tenancies

Small ready-made sites: a tenant with an administrator and one initiative that it manages, and
several such tenants in one store.
-/

namespace TenantAccess.Scenario

/-! ## Plays -/

/-- A tenant with one initiative, both created by `admin`. -/
structure Tenancy where
  admin : Principal
  tenant : Tenant
  initiative : Initiative
  managerRole : Role
  memberRole : Role

/-- A store together with the settings and the identifiers that transactions on it use. -/
structure Site (σ : Type) where
  settings : Settings
  store : σ
  ids : Supply

/-- Transactions at a site. One that fails ends the sequence; what came before it stays. -/
abbrev Play (σ : Type) := ExceptT Failure (StateM (Site σ))

variable {σ : Type} [Store.Backend σ]

/-- The site of an empty store. -/
def Site.fresh (settings : Settings) (ids : Supply) : Site σ :=
  ⟨settings, Store.Backend.empty, ids⟩

/-- Makes one transaction. -/
def act {α : Type} (t : Transaction σ α) : Play σ α := fun site =>
  let out := t.commit site.store site.ids
  (out.result, { site with store := out.store, ids := out.ids })

/-- Makes one transaction on behalf of a caller. -/
def actAs {α : Type} (caller : Caller) (t : Settings → Scope → Transaction σ α) : Play σ α := do
  let settings := (← get).settings
  act (do t settings (← caller.openScope settings))

/-! ## Tenancies -/

namespace Tenancy

/-- A principal as a caller whose active tenant is that of the tenancy. -/
def caller (home : Tenancy) (p : Principal) : Caller :=
  ⟨p.id, p.platformRole, home.tenant.id, .activeTenant⟩

def adminCaller (home : Tenancy) : Caller := home.caller home.admin

/-- Sets up a tenant. The settings have to seed roles. -/
def setUp (adminName tenantName : String) : Play σ Tenancy := do
  let admin ← act (Administration.register adminName .member)
  let tenant ← act (Administration.foundTenant admin.id tenantName)
  let caller : Caller := ⟨admin.id, admin.platformRole, tenant.id, .activeTenant⟩
  let initiative ← actAs caller fun settings scope =>
    Administration.startInitiative settings scope "launch"
  let roles ← actAs caller fun _ scope => do scope.roles (← Transaction.current) initiative.id
  let named (name : String) : Except Failure Role :=
    found (roles.find? fun r => r.name = name) s!"role {name}"
  return ⟨admin, tenant, initiative, ← named Role.managerName, ← named Role.memberName⟩

/-- Registers an administrator of the platform, which belongs to no tenant. -/
def addPlatformAdmin (name : String) : Play σ Principal :=
  act (Administration.register name .admin)

variable (home : Tenancy)

/-- Registers a principal and brings it into the tenant as a plain member. -/
def addUser (name : String) : Play σ Principal := do
  let p ← act (Administration.register name .member)
  let _ ← actAs home.adminCaller fun _ scope => Administration.bringIn scope p.id .member
  return p

/-- Adds a user that holds a role in the initiative. -/
def addMember (name : String) (role : RoleId) : Play σ Principal := do
  let p ← home.addUser name
  let _ ← actAs home.adminCaller fun _ scope =>
    Administration.enrol scope home.initiative.id p.id role
  return p

/-- Adds a project that the administrator owns. -/
def addProject (name : String) : Play σ Resource :=
  actAs home.adminCaller fun _ scope =>
    Administration.addResource scope home.initiative.id .project name

/-- The level of a principal on a resource that it can see. -/
def levelInSight (p : Principal) (resource : ResourceId) : Play σ (Option Level) :=
  actAs (home.caller p) fun _ scope => do scope.level (← Transaction.current) resource

/-- The level of a principal on a resource, none also where it cannot see it. -/
def level (p : Principal) (resource : ResourceId) : Play σ (Option Level) :=
  tryCatch (home.levelInSight p resource) fun _ => pure none

end Tenancy

/-- Sets up `count` tenants at one site; the first is set up even when there are to be none. -/
def manyTenancies (count : Nat) : Play σ (List Tenancy) := do
  let first ← Tenancy.setUp "ada" "acme"
  let others ← (List.range' 1 (count - 1)).mapM fun i =>
    Tenancy.setUp s!"admin-{i}" s!"tenant-{i}"
  return (first :: others).take count

end TenantAccess.Scenario
