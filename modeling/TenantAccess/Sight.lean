import TenantAccess.Caller
import TenantAccess.Role
import TenantAccess.Store.Derived

/-!
# What is in sight

What a principal that acts in a tenant finds there and which level and features it has. The scope is
looked at before any grant, so that a row out of reach is reported like one that is not there.
-/

namespace TenantAccess.Scope

variable {σ : Type} [Store.Backend σ] (scope : Scope) (s : σ)

open Store.Backend (ask)

def findResource (id : ResourceId) : Except Failure Resource :=
  scope.disclose (ask (.resource id) s) "resource" id.hex

def findInitiative (id : InitiativeId) : Except Failure Initiative :=
  scope.disclose (ask (.initiative id) s) "initiative" id.hex

/-- The role held in an initiative. -/
def roleThere (i : InitiativeId) : Option RoleId :=
  (ask (.membership i scope.principal.id) s).map Membership.role

/-- The level on a resource with its access list. -/
def effective (resource : Resource) : Except Failure (Acl × Option Level) := do
  let acl ← Store.aclOf s resource
  return (acl, acl.effective scope.principal.id (scope.roleThere s resource.initiative))

/-- The level on a resource. -/
def level (id : ResourceId) : Except Failure (Option Level) := do
  return (← scope.effective s (← scope.findResource s id)).2

/-- The access list of a resource and the level on it, which has to be at least `minimum`. Above
`read` the resource has to lie in the tenant of the scope too. -/
def levelAtLeast (id : ResourceId) (minimum : Level) : Except Failure (Acl × Level) := do
  let resource ← scope.findResource s id
  let (acl, effective) ← scope.effective s resource
  if minimum.isChanging && !scope.mayChange resource then throw (.accessDenied minimum effective)
  let role := scope.roleThere s resource.initiative
  return (acl, ← acl.demand scope.principal.id role minimum)

/-- Whether there is a feature in an initiative. Administrators of the platform have it even where
there is no initiative. -/
def hasFeature (i : InitiativeId) (feature : Feature) : Except Failure Bool :=
  if scope.isPlatformAdmin then .ok true
  else do
    let initiative ← scope.findInitiative s i
    return scope.principal.may (Store.heldRole s initiative.id scope.principal.id) feature

/-- The roles of an initiative, by position. -/
def roles (i : InitiativeId) : Except Failure (List Role) := do
  let initiative ← scope.findInitiative s i
  return ask (.rolesIn initiative.id) s

/-- The resources that may be seen, whatever the level on them. -/
def visible : List Resource :=
  scope.visiblePart <|
    match scope.horizon with
    | .all => ask .resources s
    | .tenants ids => ask (.resourcesWithin ids.rows) s

def visibleIds : IdSet .resource := .ofList ((scope.visible s).map Resource.id)

/-- The level on a resource, when `roles` are the roles held in all initiatives. -/
def levelWith (roles : Table (InitiativeId × RoleId)) (resource : Resource) :
    Except Failure (Option Level) := do
  let acl ← Store.aclOf s resource
  return acl.effective scope.principal.id ((roles.find? resource.initiative).map Prod.snd)

/-- The resources in sight on which the level is at least `minimum`. -/
def usable (minimum : Level) : Except Failure (List (Resource × Level)) := do
  let roles := Table.ofList
    ((ask (.membershipsBy scope.principal.id) s).map fun m => (m.initiative, m.role))
  let levels ← (scope.visible s).mapM fun resource => do
    return (resource, ← scope.levelWith s roles resource)
  return levels.filterMap fun (resource, level) =>
    (level.filter (·.meets minimum)).map (resource, ·)

end TenantAccess.Scope
