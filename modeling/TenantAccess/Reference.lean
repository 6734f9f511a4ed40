import TenantAccess.Record
import TenantAccess.Refusal

/-!
# References inside one initiative

A role, a resource and an initiative that are named together have to belong together.
-/

namespace TenantAccess

/-- A role is granted access to resources of its own initiative only. -/
def Role.checkOn (role : Role) (resource : Resource) : Except Refusal Unit :=
  if role.initiative = resource.initiative then .ok ()
  else .error (.invalidReference
    s!"role {role.id} belongs to initiative {role.initiative}, resource {resource.id} to initiative {resource.initiative}")

/-- A member of an initiative holds a role of that initiative. -/
def Role.checkIn (role : Role) (initiative : Initiative) : Except Refusal Unit :=
  if role.initiative = initiative.id then .ok ()
  else .error (.invalidReference
    s!"role {role.id} does not belong to initiative {initiative.id}")

/-- A resource lies in the tenant of its initiative. -/
def Resource.checkIn (resource : Resource) (initiative : Initiative) : Except Refusal Unit :=
  if resource.initiative = initiative.id ∧ resource.tenant = initiative.tenant then .ok ()
  else .error (.invalidReference
    s!"resource {resource.id} is not part of initiative {initiative.id}")

end TenantAccess
