import TenantAccess.Acl
import TenantAccess.Store.Operation

/-!
# What follows from stored rows

Access lists, the members and managers of an initiative and the role that a principal holds, put
together from the rows of any store.
-/

namespace TenantAccess.Store

variable {σ : Type} [Backend σ]

/-- The access list of a stored resource. -/
def aclOf (s : σ) (resource : Resource) : Except Error Acl :=
  match Acl.ofRows resource (Backend.ask (.userGrants resource.id) s)
      (Backend.ask (.roleGrants resource.id) s) with
  | .ok acl => .ok acl
  | .error cause => .error (.invalidData cause)

/-- The role of each member of an initiative. -/
def roleMap (s : σ) (i : InitiativeId) : RoleMap :=
  .ofList ((Backend.ask (.membershipsIn i) s).map fun m => (m.principal, m.role))

/-- The manager roles of an initiative. -/
def managingRoles (s : σ) (i : InitiativeId) : IdSet .role :=
  .ofList (((Backend.ask (.rolesIn i) s).filter Role.isManager).map Role.id)

/-- The role that a principal holds in an initiative. -/
def heldRole (s : σ) (i : InitiativeId) (p : PrincipalId) : Option Role :=
  match Backend.ask (.membership i p) s with
  | some m => Backend.ask (.role m.role) s
  | none => none

end TenantAccess.Store
