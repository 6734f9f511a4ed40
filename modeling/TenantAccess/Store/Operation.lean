import TenantAccess.Record
import TenantAccess.Refusal

/-!
# Operations of a store

What may be asked of a store and how its rows may change, as data, and what it takes to keep rows.
Questions have no effect and always have an answer. A change says whether it found a row to act on,
or fails on a constraint.
-/

namespace TenantAccess.Store

/-- A constraint on stored rows that a change would break. -/
inductive Violation
  | unknown {noun : Noun} (id : Id noun)
  | taken {noun : Noun} (id : Id noun)
  | nameTaken (name : String) (initiative : InitiativeId)
  | stillAssigned (role : RoleId)
  | notUnique (columns : String)
  | danglingReference

def Violation.message : Violation → String
  | @unknown noun id => s!"unknown {noun.word} {id}"
  | @taken noun id => s!"{noun.word} {id} exists"
  | nameTaken name initiative => s!"role name {name} already used in initiative {initiative}"
  | stillAssigned role => s!"role {role} is still assigned"
  | notUnique columns => s!"UNIQUE constraint failed: {columns}"
  | danglingReference => "FOREIGN KEY constraint failed"

/-- Why a store fails. -/
inductive Error
  | constraint (violation : Violation)
  /-- Stored rows do not fit together. -/
  | invalidData (cause : Refusal)

def Error.message : Error → String
  | constraint violation => s!"constraint violated: {violation.message}"
  | invalidData cause => s!"invalid data: {cause.message}"

/-- A question about the stored rows, with the type of its answer. -/
inductive Query : Type → Type
  | tenant (id : TenantId) : Query (Option Tenant)
  | principal (id : PrincipalId) : Query (Option Principal)
  | tenantMembership (tenant : TenantId) (principal : PrincipalId) : Query (Option TenantMembership)
  | tenantMembershipsBy (principal : PrincipalId) : Query (List TenantMembership)
  | initiative (id : InitiativeId) : Query (Option Initiative)
  | initiativesIn (tenant : TenantId) : Query (List Initiative)
  | role (id : RoleId) : Query (Option Role)
  /-- The roles of an initiative by position. -/
  | rolesIn (initiative : InitiativeId) : Query (List Role)
  | membership (initiative : InitiativeId) (principal : PrincipalId) : Query (Option Membership)
  | membershipsIn (initiative : InitiativeId) : Query (List Membership)
  | membershipsBy (principal : PrincipalId) : Query (List Membership)
  | resource (id : ResourceId) : Query (Option Resource)
  | resourcesIn (initiative : InitiativeId) : Query (List Resource)
  | resourcesWithin (tenants : List TenantId) : Query (List Resource)
  | resources : Query (List Resource)
  | userGrants (resource : ResourceId) : Query (List UserGrant)
  | roleGrants (resource : ResourceId) : Query (List RoleGrant)
  | grantsToRole (role : RoleId) : Query (List RoleGrant)

/-- A change to the stored rows. Changes named `put` insert a row or update the row with its key. -/
inductive Change
  | addTenant (row : Tenant)
  | putPrincipal (row : Principal)
  | putTenantMembership (row : TenantMembership)
  | removeTenantMembership (tenant : TenantId) (principal : PrincipalId)
  | addInitiative (row : Initiative)
  /-- Replaces all toggles of the role too. -/
  | putRole (row : Role)
  /-- Deletes the toggles of the role and the grants to it too; fails while a member holds it. -/
  | removeRole (role : RoleId)
  | putToggle (row : Toggle)
  | putMembership (row : Membership)
  | removeMembership (initiative : InitiativeId) (principal : PrincipalId)
  | addResource (row : Resource)
  /-- Deletes the grants on the resource too. -/
  | removeResource (resource : ResourceId)
  | putUserGrant (row : UserGrant)
  | removeUserGrant (resource : ResourceId) (principal : PrincipalId)
  | putRoleGrant (row : RoleGrant)
  | removeRoleGrant (resource : ResourceId) (role : RoleId)

/-- A change that takes effect as a whole or fails. -/
abbrev Step (σ : Type) := σ → Except Error (Bool × σ)

/-- Runs a step; a failed step leaves the rows as they were. -/
def Step.run {σ : Type} (step : Step σ) (s : σ) : Except Error Bool × σ :=
  match step s with
  | .ok (hit, s') => (.ok hit, s')
  | .error e => (.error e, s)

/-- Runs one step after the other, up to the first that fails. Steps that came before it stay in
effect. The answer is that of the first step. -/
def Step.runAll {σ : Type} (first : Step σ) (rest : List (Step σ)) (s : σ) : Except Error Bool × σ :=
  rest.foldl (fun done step =>
    match done with
    | (.ok hit, s) =>
      match step s with
      | .ok (_, s') => (.ok hit, s')
      | .error e => (.error e, s)
    | failed => failed) (first.run s)

/-- A way to keep rows. -/
class Backend (σ : Type) where
  /-- A store without rows. -/
  empty : σ
  ask {α : Type} : Query α → σ → α
  change : Change → σ → Except Error Bool × σ

end TenantAccess.Store
