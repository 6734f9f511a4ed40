import TenantAccess.Proofs.Locality
import TenantAccess.Proofs.Reading

/-!
# What is read in one tenant

What is read about an initiative or a resource is read from the rows of its tenant, and what may be changed
there may be changed whichever other tenants are in sight.
-/

namespace TenantAccess

open Store (Tables)
open Table

variable {t : Tables} {u : TenantId} {i : InitiativeId} {p : PrincipalId} {r : RoleId} {x : Resource}

/-! ## Rows -/

namespace Store

namespace Tables

theorem part_only : (t.only u).part u = t.part u := by
  refine Part.ext tenant_only ?_ ?_ ?_ ?_ ?_ ?_
  · exact filter_filter_of fun _ _ => id
  · refine (filter_congr fun r _ => ?_).trans (filter_filter_of fun _ _ => id)
    exact decide_eq_decide.2 tenantOf_only_self
  · refine (filter_congr fun m _ => ?_).trans (filter_filter_of fun _ _ => id)
    exact decide_eq_decide.2 tenantOf_only_self
  · exact filter_filter_of fun _ _ => id
  · exact filter_filter_of fun _ _ => id
  · exact filter_filter_of fun _ _ => id

theorem find?_tenantMembership_only :
    (t.only u).tenantMemberships.find? (u, p) = t.tenantMemberships.find? (u, p) :=
  find?_filter_of fun _ _ e => decide_eq_true (Prod.mk.inj e).1

theorem ask_initiativesIn_only :
    Backend.ask (.initiativesIn u) (t.only u) = Backend.ask (.initiativesIn u) t :=
  congrArg Table.rows (filter_filter_of fun _ _ => id)

section Initiative

variable (hi : t.tenantOf i = some u)

include hi

theorem find?_initiative_only : (t.only u).initiatives.find? i = t.initiatives.find? i :=
  find?_filter_of fun j hj e => by
    have e : j.id = i := e
    rw [← e, tenantOf_mem hj] at hi
    exact decide_eq_true (Option.some.inj hi)

theorem find?_membership_only :
    (t.only u).memberships.find? (i, p) = t.memberships.find? (i, p) :=
  (find?_membership hi).symm

theorem ask_membershipsIn_only :
    Backend.ask (.membershipsIn i) (t.only u) = Backend.ask (.membershipsIn i) t := by
  rw [TenantAccess.ask_membershipsIn, TenantAccess.ask_membershipsIn]
  refine congrArg Table.rows (filter_filter_of fun m _ e => decide_eq_true ?_)
  rw [of_decide_eq_true e, hi]

theorem ask_rolesIn_only :
    Backend.ask (.rolesIn i) (t.only u) = Backend.ask (.rolesIn i) t :=
  (rolesIn_eq hi).symm

theorem roleMap_only : roleMap (t.only u) i = roleMap t i := by
  rw [roleMap, roleMap, ask_membershipsIn_only hi]

theorem managingRoles_only : managingRoles (t.only u) i = managingRoles t i := by
  rw [managingRoles, managingRoles, ask_rolesIn_only hi]

variable (ht : t.Consistent)

include ht

/-- The role of a member lies in the tenant too. -/
theorem Consistent.heldRole_only : heldRole (t.only u) i p = heldRole t i p := by
  simp only [heldRole, ask_membership, ask_role, find?_membership_only hi]
  cases found : t.memberships.find? (i, p) with
  | none => rfl
  | some m =>
    obtain ⟨hm, e⟩ := find?_eq_some_iff.1 found
    exact (ht.find?_role hi hm (Prod.mk.inj e).1).symm

theorem Consistent.ask_resourcesIn_only :
    Backend.ask (.resourcesIn i) (t.only u) = Backend.ask (.resourcesIn i) t := by
  refine congrArg Table.rows (filter_filter_of fun x hx e => decide_eq_true ?_)
  have home := ht.tenantOf_resource hx
  rw [of_decide_eq_true e, hi] at home
  exact (Option.some.inj home).symm

end Initiative

theorem Consistent.acl_only (ht : t.Consistent) (hx : x ∈ t.resources) (tenant : x.tenant = u) :
    (t.only u).acl x = t.acl x :=
  (ht.only u).acl_congr ht (mem_resources_only.2 ⟨hx, tenant⟩) hx (tenant ▸ part_only)

theorem Consistent.levelOn_only (ht : t.Consistent) (hx : x ∈ t.resources) (tenant : x.tenant = u) :
    (t.only u).levelOn x p = t.levelOn x p := by
  have home : t.tenantOf x.initiative = some u := tenant ▸ ht.tenantOf_resource hx
  rw [levelOn_eq, levelOn_eq, ht.acl_only hx tenant, roleMap_only home]

theorem find?_initiatives_only {initiative : Initiative} :
    (t.only u).initiatives.find? i = some initiative ↔
      t.initiatives.find? i = some initiative ∧ initiative.tenant = u := by
  rw [only, part, find?_filter, Option.filter_eq_some_iff, decide_eq_true_iff]

theorem find?_roles_only {role : Role} : (t.only u).roles.find? r = some role ↔
    t.roles.find? r = some role ∧ t.tenantOf role.initiative = some u := by
  rw [only, part, find?_filter, Option.filter_eq_some_iff, decide_eq_true_iff]

theorem find?_resources_only {id : ResourceId} : (t.only u).resources.find? id = some x ↔
    t.resources.find? id = some x ∧ x.tenant = u := by
  rw [only, part, find?_filter, Option.filter_eq_some_iff, decide_eq_true_iff]

end Tables

end Store

theorem Succession.accessLists_only (ht : t.Consistent) (hi : t.tenantOf i = some u) :
    accessLists (t.only u) i = accessLists t i := by
  rw [accessLists, ht.ask_resourcesIn_only hi]
  refine mapM_congr fun x hx => ?_
  obtain ⟨hx, e⟩ := List.mem_filter.1 hx
  have home := ht.tenantOf_resource hx
  rw [of_decide_eq_true e, hi] at home
  have tenant : x.tenant = u := (Option.some.inj home).symm
  rw [ht.aclOf_eq hx, (ht.only u).aclOf_eq (Tables.mem_resources_only.2 ⟨hx, tenant⟩),
    ht.acl_only hx tenant]

/-! ## Scopes -/

namespace Scope

/-- The same scope with other tenants in reach. -/
def among (scope : Scope) (own : IdSet .tenant) : Scope := { scope with ownTenants := own }

variable {scope : Scope} {own : IdSet .tenant}

theorem isManagerOf_only (ht : t.Consistent) (hi : t.tenantOf i = some scope.tenant) :
    (scope.among own).isManagerOf (t.only scope.tenant) i = scope.isManagerOf t i := by
  rw [isManagerOf, Store.Tables.Consistent.heldRole_only hi ht]
  rfl

theorem isManagerOf_found_only (ht : t.Consistent) {initiative : Initiative}
    (row : t.initiatives.find? i = some initiative) (tenant : initiative.tenant = scope.tenant) :
    (scope.among own).isManagerOf (t.only scope.tenant) initiative.id =
      scope.isManagerOf t initiative.id :=
  isManagerOf_only ht (tenant ▸ Tables.tenantOf_mem (find?_eq_some_iff.1 row).1)

theorem findInitiative_only {initiative : Initiative} :
    (scope.among own).findInitiative (t.only scope.tenant) i = .ok initiative ↔
      scope.findInitiative t i = .ok initiative ∧ initiative.tenant = scope.tenant := by
  rw [findInitiative_eq_ok, findInitiative_eq_ok, Tables.find?_initiatives_only]
  constructor
  · rintro ⟨⟨row, tenant⟩, _⟩
    exact ⟨⟨row, reaches_own tenant⟩, tenant⟩
  · rintro ⟨⟨row, _⟩, tenant⟩
    exact ⟨⟨row, tenant⟩, reaches_own tenant⟩

theorem needManager_only (ht : t.Consistent) {initiative : Initiative}
    (hi : t.tenantOf initiative.id = some scope.tenant) :
    (scope.among own).needManager (t.only scope.tenant) initiative =
      scope.needManager t initiative := by
  rw [needManager, isManagerOf_only ht hi]
  rfl

theorem managedInitiative_only (ht : t.Consistent) (id : InitiativeId) :
    Alike (scope.managedInitiative t id)
      ((scope.among own).managedInitiative (t.only scope.tenant) id) := by
  intro initiative
  rw [managedInitiative_eq_ok, managedInitiative_eq_ok, Tables.find?_initiatives_only]
  constructor
  · rintro ⟨row, _, tenant, manages⟩
    exact ⟨⟨row, tenant⟩, reaches_own tenant, tenant,
      manages.imp_right (isManagerOf_found_only ht row tenant).trans⟩
  · rintro ⟨⟨row, tenant⟩, _, _, manages⟩
    exact ⟨row, reaches_own tenant, tenant,
      manages.imp_right (isManagerOf_found_only ht row tenant).symm.trans⟩

theorem managedRole_only (ht : t.Consistent) (id : RoleId) :
    Alike (scope.managedRole t id) ((scope.among own).managedRole (t.only scope.tenant) id) := by
  rintro ⟨role, initiative⟩
  rw [managedRole_eq_ok, managedRole_eq_ok, Tables.find?_roles_only, Tables.find?_initiatives_only]
  constructor
  · rintro ⟨hrole, row, _, tenant, manages⟩
    have home : t.tenantOf role.initiative = some scope.tenant := tenant ▸ Tables.tenantOf_found row
    exact ⟨⟨hrole, home⟩, ⟨row, tenant⟩, reaches_own tenant, tenant,
      manages.imp_right (isManagerOf_found_only ht row tenant).trans⟩
  · rintro ⟨⟨hrole, _⟩, ⟨row, tenant⟩, _, _, manages⟩
    exact ⟨hrole, row, reaches_own tenant, tenant,
      manages.imp_right (isManagerOf_found_only ht row tenant).symm.trans⟩

/-- Whoever is to be an owner of a resource has to act in its tenant. -/
theorem levelAtLeast_owner_eq_ok (ht : t.Consistent) {id : ResourceId} {acl : Acl} {held : Level} :
    scope.levelAtLeast t id .owner = .ok (acl, held) ↔ ∃ x, t.resources.find? id = some x ∧
      x.tenant = scope.tenant ∧ t.acl x = acl ∧ t.levelOn x scope.principal.id = some held ∧
      .owner ≤ held := by
  constructor
  · intro h
    obtain ⟨x, row, sees, _⟩ := levelAtLeast_ok h
    obtain ⟨acl, level, meets, e | tenant⟩ :=
      (levelAtLeast_eq_ok ht (findResource_eq_ok.2 ⟨row, sees⟩)).1 h
    · cases e
    · exact ⟨x, row, tenant, acl, level, meets⟩
  · rintro ⟨x, row, tenant, acl, level, meets⟩
    exact (levelAtLeast_eq_ok ht (findResource_eq_ok.2 ⟨row, reaches_own tenant⟩)).2
      ⟨acl, level, meets, Or.inr tenant⟩

theorem levelAtLeast_only (ht : t.Consistent) (id : ResourceId) :
    Alike (scope.levelAtLeast t id .owner)
      ((scope.among own).levelAtLeast (t.only scope.tenant) id .owner) := by
  rintro ⟨acl, held⟩
  rw [levelAtLeast_owner_eq_ok ht, levelAtLeast_owner_eq_ok (ht.only _)]
  refine exists_congr fun x => ?_
  rw [Tables.find?_resources_only, and_assoc]
  refine and_congr_right fun row => and_congr_right fun tenant => ?_
  have hx := (find?_eq_some_iff.1 row).1
  rw [ht.acl_only hx tenant, ht.levelOn_only hx tenant]
  exact (and_iff_right tenant).symm

end Scope

/-! ## Checks of commands -/

namespace Administration

theorem roleIn_only {initiative : Initiative} (hi : t.tenantOf initiative.id = some u) (id : RoleId) :
    Alike (roleIn t initiative id) (roleIn (t.only u) initiative id) := by
  intro role
  rw [roleIn_eq_ok, roleIn_eq_ok, Tables.find?_roles_only]
  constructor
  · rintro ⟨row, e⟩
    exact ⟨⟨row, e ▸ hi⟩, e⟩
  · rintro ⟨⟨row, _⟩, e⟩
    exact ⟨row, e⟩

theorem needTenantMember_only : needTenantMember (t.only u) u p = needTenantMember t u p := by
  rw [needTenantMember, ask_tenantMembership, Tables.find?_tenantMembership_only]
  rfl

theorem needFreeName_only (hi : t.tenantOf i = some u) {name : String} :
    needFreeName (t.only u) i name = needFreeName t i name := by
  rw [needFreeName, Tables.ask_rolesIn_only hi]
  rfl

theorem needOwner_only {before after : Acl} (hi : t.tenantOf before.resource.initiative = some u) :
    needOwner (t.only u) before after = needOwner t before after := by
  rw [needOwner, Tables.roleMap_only hi]
  rfl

end Administration

end TenantAccess
