import TenantAccess.Acl

/-!
# Handing ownership over

When a principal leaves an initiative, its own `owner` grants there go and every remaining manager
becomes an owner of the resources concerned; resources that nobody owns any more go to the managers
too. A plan lists the changes without making them, so that it can be applied to access lists and
to stored rows alike.
-/

namespace TenantAccess

/-- A resource without an owner in an initiative without a manager to take it over. -/
structure Ownerless where
  resource : ResourceId
  initiative : InitiativeId
  tenant : TenantId
  deriving DecidableEq

namespace Handover

/-- Changes to the grants of users. -/
structure Plan where
  /-- The `owner` grants to delete. -/
  revoke : List (ResourceId × PrincipalId)
  /-- The grants to set to `owner`. -/
  grantOwner : List (ResourceId × PrincipalId)
  /-- The resources that nobody can be made owner of. -/
  ownerless : List Ownerless
  deriving DecidableEq

namespace Plan

def empty : Plan := ⟨[], [], []⟩

instance : Append Plan :=
  ⟨fun a b => ⟨a.revoke ++ b.revoke, a.grantOwner ++ b.grantOwner, a.ownerless ++ b.ownerless⟩⟩

/-- One plan after the other. -/
def concat (plans : List Plan) : Plan := plans.foldr (· ++ ·) empty

/-- Whether the plan changes no grant. -/
def isIdle (plan : Plan) : Bool := plan.revoke.isEmpty && plan.grantOwner.isEmpty

end Plan

/-- The members that hold a manager role. -/
def managers (members : RoleMap) (managingRoles : IdSet .role) : IdSet .principal :=
  .ofList ((members.rows.filter fun m => managingRoles.contains m.2).map Prod.fst)

/-- Makes every manager an owner of one resource. Grants are only raised. -/
def absorb (acl : Acl) (managers : IdSet .principal) (members : RoleMap) : Plan where
  revoke := []
  grantOwner :=
    (managers.rows.filter fun m => acl.direct? m ≠ some .owner).map fun m => (acl.resource.id, m)
  ownerless :=
    if managers.isEmpty && (acl.owners members).isEmpty then
      [⟨acl.resource.id, acl.resource.initiative, acl.resource.tenant⟩]
    else []

/-- The plan for one resource of an initiative that `removed` has left. -/
def departure (removed : PrincipalId) (managers : IdSet .principal) (members : RoleMap)
    (acl : Acl) : Plan :=
  if acl.direct? removed = some .owner then
    ⟨[(acl.resource.id, removed)], [], []⟩ ++ absorb (acl.removeUser removed) managers members
  else .empty

/-- The plan for the resources of an initiative that `removed` has left; `members` are the members
that remain. -/
def departurePlan (removed : PrincipalId) (acls : List Acl) (members : RoleMap)
    (managingRoles : IdSet .role) : Plan :=
  .concat (acls.map (departure removed ((managers members managingRoles).erase removed) members))

/-- Gives each resource without an owner to all managers. -/
def vacancyPlan (acls : List Acl) (members : RoleMap) (managingRoles : IdSet .role) : Plan :=
  .concat ((acls.filter fun acl => (acl.owners members).isEmpty).map fun acl =>
    absorb acl (managers members managingRoles) members)

/-- Makes the changes of a plan to one access list, deletions first. -/
def Plan.applyTo (plan : Plan) (acl : Acl) : Acl :=
  let revoked := (plan.revoke.filter fun c => c.1 = acl.resource.id).foldl
    (fun a c => a.removeUser c.2) acl
  (plan.grantOwner.filter fun c => c.1 = acl.resource.id).foldl
    (fun a c => a.setUser c.2 .owner) revoked

def Plan.apply (plan : Plan) (acls : List Acl) : List Acl := acls.map plan.applyTo

end Handover

end TenantAccess
