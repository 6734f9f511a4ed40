import TenantAccess.Store.Derived
import TenantAccess.Transaction
import TenantAccess.Handover

/-!
# Succession in ownership

Hands ownership over in stored rows after a membership has ended or a role has changed, as part of
the transaction that made the change, and reports the rows that were changed.
-/

namespace TenantAccess

/-- The grants that a run changed, and the resources left without an owner. -/
structure HandoverReport where
  revoked : List (ResourceId × PrincipalId)
  granted : List (ResourceId × PrincipalId)
  ownerless : List Ownerless
  deriving DecidableEq

namespace HandoverReport

def empty : HandoverReport := ⟨[], [], []⟩

def isEmpty (r : HandoverReport) : Bool :=
  r.revoked.isEmpty && r.granted.isEmpty && r.ownerless.isEmpty

instance : Append HandoverReport :=
  ⟨fun a b => ⟨a.revoked ++ b.revoked, a.granted ++ b.granted, a.ownerless ++ b.ownerless⟩⟩

/-- One report after the other. -/
def concat (reports : List HandoverReport) : HandoverReport := reports.foldr (· ++ ·) empty

end HandoverReport

namespace Succession

variable {σ : Type} [Store.Backend σ]

open Transaction Store.Backend

/-- The access lists of the resources of an initiative. -/
def accessLists (s : σ) (i : InitiativeId) : Except Store.Error (List Acl) :=
  (ask (.resourcesIn i) s).mapM (Store.aclOf s)

/-- Makes the changes of a plan to stored rows, deletions first. -/
def carryOut (tenant : TenantId) (plan : Handover.Plan) : Transaction σ HandoverReport := do
  plan.revoke.forM fun (resource, principal) => do
    let _ ← change (.removeUserGrant resource principal)
  plan.grantOwner.forM fun (resource, principal) => do
    let _ ← change (.putUserGrant ⟨resource, principal, .owner, tenant⟩)
  plan.ownerless.forM fun w => report (.leftOwnerless w.resource w.initiative)
  return ⟨plan.revoke, plan.grantOwner, plan.ownerless⟩

/-- Gives each resource of an initiative that has no owner to all managers. -/
def fillVacancies (i : InitiativeId) : Transaction σ HandoverReport := do
  let s ← current
  match ask (.initiative i) s with
  | none => return .empty
  | some initiative =>
    let acls ← accessLists s i
    carryOut initiative.tenant
      (Handover.vacancyPlan acls (Store.roleMap s i) (Store.managingRoles s i))

/-- Hands on what `removed` owned in an initiative that it is no longer a member of, and then
repairs the resources that this did not touch. -/
def afterDeparture (i : InitiativeId) (removed : PrincipalId) :
    Transaction σ HandoverReport := do
  let s ← current
  match ask (.initiative i) s with
  | none => return .empty
  | some initiative =>
    let acls ← accessLists s i
    let members := Store.roleMap s i
    let managingRoles := Store.managingRoles s i
    let plan := Handover.departurePlan removed acls members managingRoles
    let rest := (plan.apply acls).filter fun acl =>
      !plan.revoke.any fun c => c.1 = acl.resource.id
    let sweep := Handover.vacancyPlan rest members managingRoles
    let first ← carryOut initiative.tenant plan
    let second ← carryOut initiative.tenant sweep
    let whole := first ++ second
    report (.ownershipTransferred i removed whole.revoked.length whole.granted.length)
    return whole

/-- Takes a principal out of one initiative of a tenant that it has left: ends its membership,
hands on what it owned and deletes its other grants. -/
def leaveInitiative (removed : PrincipalId) (i : InitiativeId) : Transaction σ HandoverReport := do
  let wasMember ← change (.removeMembership i removed)
  let acls ← accessLists (← current) i
  let held := (acls.filter fun acl => (acl.direct? removed).isSome).map fun acl => acl.resource.id
  if !wasMember && held.isEmpty then return .empty
  let result ← afterDeparture i removed
  let dropped ← held.mapM fun resource => change (.removeUserGrant resource removed)
  report (.grantsDropped i removed (dropped.count true))
  return result

/-- Takes a principal out of every initiative of a tenant that it has left. -/
def leaveTenant (tenant : TenantId) (removed : PrincipalId) : Transaction σ HandoverReport := do
  let initiatives := ask (.initiativesIn tenant) (← current)
  let reports ← initiatives.mapM fun i => leaveInitiative removed i.id
  return .concat reports

end Succession

end TenantAccess
