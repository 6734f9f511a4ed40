import TenantAccess.Administration.Guard
import TenantAccess.Succession

/-!
# Members of initiatives

Adding members, moving them to other roles and removing them. Whenever a membership ends or changes,
ownership is handed on in the same transaction.
-/

namespace TenantAccess.Administration

variable {σ : Type} [Store.Backend σ]

open Transaction
open Store.Backend (ask)

def enrol (scope : Scope) (i : InitiativeId) (p : PrincipalId) (r : RoleId) :
    Transaction σ Membership := do
  let s ← current
  let initiative ← scope.managedInitiative s i
  let _ ← knownPrincipal s p
  needTenantMember s initiative.tenant p
  let role ← roleIn s initiative r
  if (ask (.membership initiative.id p) s).isSome then
    check (.error (.conflict s!"principal {p} is already a member of initiative {initiative.id}"))
  let membership : Membership := ⟨initiative.id, p, role.id⟩
  let _ ← change (.putMembership membership)
  report (.memberAdded initiative.id p role.name)
  return membership

def reassign (scope : Scope) (i : InitiativeId) (p : PrincipalId) (r : RoleId) :
    Transaction σ HandoverReport := do
  let s ← current
  let initiative ← scope.managedInitiative s i
  let membership ← found (ask (.membership initiative.id p) s) s!"membership of {p}"
  let role ← roleIn s initiative r
  let _ ← change (.putMembership { membership with role := role.id })
  Succession.fillVacancies initiative.id

/-- Ends a membership. Members may end their own; to end another takes the right to change the
initiative. -/
def dismiss (scope : Scope) (i : InitiativeId) (p : PrincipalId) :
    Transaction σ HandoverReport := do
  let s ← current
  let initiative ← scope.findInitiative s i
  if p = scope.principal.id then scope.needActiveTenant initiative
  else scope.needManager s initiative
  let wasMember ← change (.removeMembership initiative.id p)
  if !wasMember then check (.error (.notFound s!"membership of {p}"))
  Succession.afterDeparture initiative.id p

/-- Gives the resources of an initiative that have no owner to its managers. -/
def restoreOwners (scope : Scope) (i : InitiativeId) : Transaction σ HandoverReport := do
  let initiative ← scope.managedInitiative (← current) i
  Succession.fillVacancies initiative.id

end TenantAccess.Administration
