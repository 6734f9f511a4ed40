import TenantAccess.Administration.Guard
import TenantAccess.Settings
import TenantAccess.Naming
import TenantAccess.Succession

/-!
# Initiatives and their roles

Creating initiatives, and creating, changing and deleting roles. The roles that an initiative
starts with keep their name and are not deleted.
-/

namespace TenantAccess.Administration

variable {σ : Type} [Store.Backend σ]

open Transaction
open Store.Backend (ask)

/-- Creates an initiative in the active tenant, with the seeded roles and the caller as its manager
if the settings ask for them. -/
def startInitiative (settings : Settings) (scope : Scope) (name : String) :
    Transaction σ Initiative := do
  scope.needTenantAdmin
  Naming.checkDisplayName "initiative" name
  let initiative : Initiative := ⟨← fresh, scope.tenant, name⟩
  let _ ← change (.addInitiative initiative)
  if settings.seedsRoles then
    let manager := Role.seededManager (← fresh) initiative.id
    let member := Role.seededMember (← fresh) initiative.id
    let _ ← change (.putRole manager)
    let _ ← change (.putRole member)
    if settings.creatorJoins then
      let _ ← change (.putMembership ⟨initiative.id, scope.principal.id, manager.id⟩)
  report (.initiativeCreated initiative.id initiative.tenant)
  return initiative

def needCustom (role : Role) (action : String) : Except Failure Unit :=
  if role.isSeeded then .error (.invalid s!"built-in role {role.name} cannot be {action}")
  else .ok ()

def needFreeName (s : σ) (i : InitiativeId) (name : String) : Except Failure Unit :=
  if Role.isReserved name then .error (.conflict s!"{name} is a reserved role name")
  else if (ask (.rolesIn i) s).any fun r => r.name = name then
    .error (.conflict s!"role {name} already exists in initiative {i}")
  else .ok ()

/-- The position behind all given roles. -/
def nextPosition (roles : List Role) : UInt32 :=
  roles.foldl (fun position r => max position (r.position + 1)) 0

/-- Creates a role behind all roles of an initiative. -/
def defineRole (scope : Scope) (i : InitiativeId) (name : String) (isManager : Bool) :
    Transaction σ Role := do
  let s ← current
  let initiative ← scope.managedInitiative s i
  Naming.checkRoleName name
  needFreeName s initiative.id name
  let position := nextPosition (ask (.rolesIn initiative.id) s)
  let role := Role.plain (← fresh) initiative.id name isManager position
  let _ ← change (.putRole role)
  report (.roleCreated role.id initiative.id)
  return role

def relabelRole (scope : Scope) (id : RoleId) (name : String) : Transaction σ Role := do
  let s ← current
  let (role, initiative) ← scope.managedRole s id
  needCustom role "renamed"
  Naming.checkRoleName name
  if role.name = name then return role
  needFreeName s initiative.id name
  let renamed := { role with name }
  let _ ← change (.putRole renamed)
  return renamed

def empowerRole (scope : Scope) (id : RoleId) (isManager : Bool) : Transaction σ Role := do
  let (role, _) ← scope.managedRole (← current) id
  needCustom role "changed"
  let updated := { role with isManager }
  let _ ← change (.putRole updated)
  return updated

/-- Deletes a role that nobody holds, with its toggles and the grants to it. Resources that lose
their owner with it go to the managers. -/
def retireRole (scope : Scope) (id : RoleId) : Transaction σ HandoverReport := do
  let s ← current
  let (role, initiative) ← scope.managedRole s id
  needCustom role "deleted"
  let holders := ((ask (.membershipsIn initiative.id) s).filter fun m => m.role = role.id).length
  if holders > 0 then check (.error (.roleInUse role.id holders))
  let _ ← change (.removeRole role.id)
  let result ← Succession.fillVacancies initiative.id
  report (.roleDeleted role.id initiative.id)
  return result

def switchFeature (scope : Scope) (id : RoleId) (c : Feature) (enabled : Bool) :
    Transaction σ Role := do
  let (role, _) ← scope.managedRole (← current) id
  let _ ← change (.putToggle ⟨role.id, c, enabled⟩)
  report (.toggleSet role.id c enabled)
  return role.withToggle c enabled

end TenantAccess.Administration
