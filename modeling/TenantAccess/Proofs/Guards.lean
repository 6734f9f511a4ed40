import TenantAccess.Call
import TenantAccess.Proofs.Store.Consistency

/-!
# What guards let through

When each check that comes before a change succeeds, and what is known then.
-/

namespace TenantAccess

open Store (Tables)
open Store.Backend (ask)

variable {t : Tables} {scope : Scope}

/-! ## Questions to tables -/

@[simp] theorem ask_principal {id : PrincipalId} : ask (.principal id) t = t.principals.find? id := rfl

@[simp] theorem ask_tenant {id : TenantId} : ask (.tenant id) t = t.tenants.find? id := rfl

@[simp] theorem ask_tenantMembership {tenant : TenantId} {p : PrincipalId} :
    ask (.tenantMembership tenant p) t = t.tenantMemberships.find? (tenant, p) := rfl

@[simp] theorem ask_tenantMembershipsBy {p : PrincipalId} :
    ask (.tenantMembershipsBy p) t = t.tenantMemberships.rows.filter fun m => m.principal = p := rfl

@[simp] theorem ask_initiative {id : InitiativeId} :
    ask (.initiative id) t = t.initiatives.find? id := rfl

@[simp] theorem ask_role {id : RoleId} : ask (.role id) t = t.roles.find? id := rfl

@[simp] theorem ask_membership {i : InitiativeId} {p : PrincipalId} :
    ask (.membership i p) t = t.memberships.find? (i, p) := rfl

@[simp] theorem ask_membershipsIn {i : InitiativeId} :
    ask (.membershipsIn i) t = t.memberships.rows.filter fun m => m.initiative = i :=
  Tables.ask_membershipsIn

@[simp] theorem ask_resource {id : ResourceId} : ask (.resource id) t = t.resources.find? id := rfl

@[simp] theorem ask_userGrants {r : ResourceId} :
    ask (.userGrants r) t = t.userGrants.rows.filter fun g => g.resource = r := rfl

@[simp] theorem ask_roleGrants {r : ResourceId} :
    ask (.roleGrants r) t = t.roleGrants.rows.filter fun g => g.resource = r := rfl

/-! ## Rows in sight -/

namespace Scope

theorem reaches_own {α : Type} [InTenant α] {item : α} (h : InTenant.tenant item = scope.tenant) :
    scope.reaches item = true := by
  simp only [reaches, sees, h, decide_true, Bool.true_or]

@[simp] theorem disclose_eq_ok {α : Type} [InTenant α] {item : Option α} {what id : String} {x : α} :
    scope.disclose item what id = .ok x ↔ item = some x ∧ scope.reaches x = true := by
  simp only [disclose]
  cases e : item.filter scope.reaches with
  | none =>
    simp only [reduceCtorEq, false_iff, not_and]
    rintro rfl hx
    simp [Option.filter, hx] at e
  | some y =>
    obtain ⟨rfl, hy⟩ := Option.filter_eq_some_iff.1 e
    simp only [Except.ok.injEq, Option.some.injEq]
    exact ⟨fun e => ⟨e, e ▸ hy⟩, And.left⟩

theorem disclose_missed {α : Type} [InTenant α] {item : Option α} {what id : String}
    (h : ∀ x, item = some x → scope.reaches x = false) :
    scope.disclose item what id = .error (.notFound s!"{what} {id}") := by
  have unseen : item.filter scope.reaches = none := by
    cases item with
    | none => rfl
    | some x => rw [Option.filter_some, h x rfl, if_neg Bool.false_ne_true]
  rw [disclose, unseen]

@[simp] theorem findResource_eq_ok {id : ResourceId} {x : Resource} :
    scope.findResource t id = .ok x ↔ t.resources.find? id = some x ∧ scope.reaches x = true := by
  simp [findResource]

theorem findResource_missed {id : ResourceId}
    (h : ∀ x, t.resources.find? id = some x → scope.reaches x = false) :
    scope.findResource t id = .error (.notFound s!"resource {id}") := by
  rw [findResource, ask_resource, disclose_missed h]
  rfl

@[simp] theorem findInitiative_eq_ok {id : InitiativeId} {i : Initiative} :
    scope.findInitiative t id = .ok i ↔ t.initiatives.find? id = some i ∧ scope.reaches i = true := by
  simp [findInitiative]

@[simp] theorem needActiveTenant_eq_ok {α : Type} [InTenant α] {item : α} {u : Unit} :
    scope.needActiveTenant item = .ok u ↔ InTenant.tenant item = scope.tenant := by
  simp [needActiveTenant, mayChange]

@[simp] theorem needTenantAdmin_eq_ok {u : Unit} :
    scope.needTenantAdmin = .ok u ↔ scope.mayManage = true := by
  simp [needTenantAdmin]

@[simp] theorem needManager_eq_ok {i : Initiative} {u : Unit} :
    scope.needManager t i = .ok u ↔ i.tenant = scope.tenant ∧
      (scope.mayManage = true ∨ scope.isManagerOf t i.id = true) := by
  simp only [needManager, bind_eq_ok, needActiveTenant_eq_ok]
  cases h : scope.mayManage || scope.isManagerOf t i.id <;>
    simp_all [InTenant.tenant]

@[simp] theorem managedInitiative_eq_ok {id : InitiativeId} {i : Initiative} :
    scope.managedInitiative t id = .ok i ↔ t.initiatives.find? id = some i ∧
      scope.reaches i = true ∧ i.tenant = scope.tenant ∧
      (scope.mayManage = true ∨ scope.isManagerOf t i.id = true) := by
  simp only [managedInitiative, bind_eq_ok, findInitiative_eq_ok, needManager_eq_ok, pure_eq_ok]
  constructor
  · rintro ⟨j, ⟨hj, hr⟩, _, h, rfl⟩
    exact ⟨hj, hr, h⟩
  · rintro ⟨hj, hr, h⟩
    exact ⟨i, ⟨hj, hr⟩, (), h, rfl⟩

@[simp] theorem managedRole_eq_ok {id : RoleId} {role : Role} {i : Initiative} :
    scope.managedRole t id = .ok (role, i) ↔ t.roles.find? id = some role ∧
      t.initiatives.find? role.initiative = some i ∧ scope.reaches i = true ∧
      i.tenant = scope.tenant ∧ (scope.mayManage = true ∨ scope.isManagerOf t i.id = true) := by
  simp only [managedRole, bind_eq_ok, found_eq_ok, ask_role, ask_initiative, lift_refusal_eq_ok,
    disclose_eq_ok, needManager_eq_ok, pure_eq_ok, Prod.mk.injEq]
  constructor
  · rintro ⟨r, hr, j, ⟨hj, hs⟩, _, h, rfl, rfl⟩
    exact ⟨hr, hj, hs, h⟩
  · rintro ⟨hr, hj, hs, h⟩
    exact ⟨role, hr, i, ⟨hj, hs⟩, (), h, rfl, rfl⟩

end Scope

@[simp] theorem Role.checkIn_eq_ok {role : Role} {i : Initiative} {u : Unit} :
    role.checkIn i = .ok u ↔ role.initiative = i.id := by
  simp [checkIn]

@[simp] theorem Role.checkOn_eq_ok {role : Role} {r : Resource} {u : Unit} :
    role.checkOn r = .ok u ↔ role.initiative = r.initiative := by
  simp [checkOn]

/-! ## Checks of commands -/

namespace Administration

@[simp] theorem roleIn_eq_ok {i : Initiative} {id : RoleId} {role : Role} :
    roleIn t i id = .ok role ↔ t.roles.find? id = some role ∧ role.initiative = i.id := by
  simp only [roleIn, bind_eq_ok, found_eq_ok, ask_role, lift_refusal_eq_ok, Role.checkIn_eq_ok,
    pure_eq_ok]
  constructor
  · rintro ⟨r, hr, _, hi, rfl⟩
    exact ⟨hr, hi⟩
  · rintro ⟨hr, hi⟩
    exact ⟨role, hr, (), hi, rfl⟩

@[simp] theorem knownPrincipal_eq_ok {id : PrincipalId} {p : Principal} :
    knownPrincipal t id = .ok p ↔ t.principals.find? id = some p := by
  simp [knownPrincipal]

@[simp] theorem needTenantMember_eq_ok {tenant : TenantId} {p : PrincipalId} {u : Unit} :
    needTenantMember t tenant p = .ok u ↔ t.tenantMemberships.contains (tenant, p) = true := by
  unfold needTenantMember
  split
  · rename_i h
    exact iff_of_true rfl h
  · rename_i h
    exact iff_of_false (by simp) h

@[simp] theorem needCustom_eq_ok {role : Role} {action : String} {u : Unit} :
    needCustom role action = .ok u ↔ role.isSeeded = false := by
  simp [needCustom]

@[simp] theorem needFreeName_eq_ok {i : InitiativeId} {name : String} {u : Unit} :
    needFreeName t i name = .ok u ↔ Role.isReserved name = false ∧
      ∀ r ∈ t.roles, r.initiative = i → r.name ≠ name := by
  have listed : ((ask (.rolesIn i) t).any fun r => r.name = name) = false ↔
      ∀ r ∈ t.roles, r.initiative = i → r.name ≠ name := by
    simp only [List.any_eq_false, decide_eq_true_eq, Tables.mem_rolesIn, and_imp]
  rw [← listed, needFreeName]
  cases Role.isReserved name <;> simp

end Administration

end TenantAccess
