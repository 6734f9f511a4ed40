import TenantAccess.Proofs.Rows
import TenantAccess.Proofs.Success

/-!
# Changes to ordered tables

When a change to ordered tables succeeds and which rows it leaves.
-/

namespace TenantAccess

open Keyed

/-! ## Keys -/

section Keys

@[simp] theorem key_tenant (x : Tenant) : key x = x.id := rfl

@[simp] theorem key_principal (x : Principal) : key x = x.id := rfl

@[simp] theorem key_tenantMembership (x : TenantMembership) : key x = (x.tenant, x.principal) := rfl

@[simp] theorem key_initiative (x : Initiative) : key x = x.id := rfl

@[simp] theorem key_role (x : Role) : key x = x.id := rfl

@[simp] theorem key_membership (x : Membership) : key x = (x.initiative, x.principal) := rfl

@[simp] theorem key_resource (x : Resource) : key x = x.id := rfl

@[simp] theorem key_userGrant (x : UserGrant) : key x = (x.resource, x.principal) := rfl

@[simp] theorem key_roleGrant (x : RoleGrant) : key x = (x.resource, x.role) := rfl

@[simp] theorem key_id {noun : Noun} (x : Id noun) : key x = x := rfl

@[simp] theorem key_pair {K V : Type} [Ranked K] (x : K × V) : key x = x.1 := rfl

end Keys

/-! ## Tables -/

namespace Table

variable {R K : Type} [Ranked K] [Keyed R K] {t : Table R} {r : R} {k : K} {P : R → Prop}

theorem contains_insert_of (h : t.contains k = true) : (t.insert r).contains k = true := by
  obtain ⟨x, hx, rfl⟩ := contains_iff.1 h
  by_cases e : key x = key r
  · exact contains_iff.2 ⟨r, mem_insert_self, e.symm⟩
  · exact contains_iff.2 ⟨x, mem_insert.2 (Or.inr ⟨hx, e⟩), rfl⟩

theorem contains_erase_of {j : K} (h : t.contains k = true) (hne : k ≠ j) :
    (t.erase j).contains k = true := by
  obtain ⟨x, hx, rfl⟩ := contains_iff.1 h
  exact contains_iff.2 ⟨x, mem_erase.2 ⟨hx, hne⟩, rfl⟩

theorem not_contains_iff : t.contains k = false ↔ ∀ r ∈ t, key r ≠ k := by
  rw [contains_eq_isSome, Option.isSome_eq_false_iff, Option.isNone_iff_eq_none, find?_eq_none_iff]

theorem mem_insert_free {s : R} (free : t.contains (key r) = false) : s ∈ t.insert r ↔ s ∈ t ∨ s = r := by
  rw [mem_insert, or_comm]
  exact or_congr_left (and_iff_left_of_imp (not_contains_iff.1 free s))

theorem filter_eq_singleton {p : R → Bool} (only : ∀ s, s ∈ t ∧ p s = true ↔ s = r) :
    t.rows.filter p = [r] := by
  refine eq_of_strictly_sorted place (t.ordered.filter _) (List.pairwise_singleton _ _) fun s => ?_
  rw [List.mem_filter, List.mem_singleton, ← only]
  exact Iff.rfl

end Table

/-! ## Steps -/

namespace Store.Tables

theorem mem_rolesIn {t : Tables} {i : InitiativeId} {r : Role} :
    r ∈ Backend.ask (.rolesIn i) t ↔ r ∈ t.roles ∧ r.initiative = i := by
  have e : Backend.ask (.rolesIn i) t =
      sortOn (fun r => r.position.toNat) (t.roles.rows.filter fun r => r.initiative = i) := rfl
  rw [e, (sortOn_perm _ _).mem_iff, List.mem_filter, decide_eq_true_eq]
  exact Iff.rfl

variable {t t' : Tables} {hit : Bool}

theorem distinct_rolesIn (t : Tables) (i : InitiativeId) :
    Distinct (Backend.ask (.rolesIn i) t) := by
  have perm := sortOn_perm (fun r : Role => r.position.toNat)
    (t.roles.rows.filter fun r => r.initiative = i)
  exact (t.roles.distinct_rows.filter _).perm perm.symm fun hne e => hne e.symm

/-- Scanning from an initiative on finds just its members. -/
theorem ask_membershipsIn {i : InitiativeId} :
    ask (.membershipsIn i) t = t.memberships.rows.filter fun m => m.initiative = i := by
  refine Table.scanFrom_eq_filter (fun m _ hm => ?_) fun m _ n _ hle hlt hn => ?_
  · have hm : m.initiative = i := by simpa using hm
    simp only [place, Ranked.rank, key_membership, hm, Id.least]
    omega
  · have hn : n.initiative = i := by simpa using hn
    have hp := n.principal.bounded
    have hp' := m.principal.bounded
    simp only [place, Ranked.rank, key_membership, hn, Id.least] at hle hlt
    have e : m.initiative.value = i.value := by omega
    simpa using Id.eq_of_value e

theorem demand_ok {R : Type} {noun : Noun} [Keyed R (Id noun)] {table : Table R} {id : Id noun}
    {u : Unit} : demand table id = .ok u ↔ table.contains id = true := by
  simp [demand]

theorem demandFree_ok {R : Type} {noun : Noun} [Keyed R (Id noun)] {table : Table R} {id : Id noun}
    {u : Unit} : demandFree table id = .ok u ↔ table.contains id = false := by
  simp [demandFree]

theorem step_addTenant {row : Tenant} :
    step (.addTenant row) t = .ok (hit, t') ↔ t.tenants.contains row.id = false ∧ hit = true ∧
      { t with tenants := t.tenants.insert row } = t' := by
  simp [step, demandFree_ok]

theorem step_putPrincipal {row : Principal} :
    step (.putPrincipal row) t = .ok (hit, t') ↔ hit = true ∧
      { t with principals := t.principals.insert row } = t' := by
  simp [step]

theorem step_putTenantMembership {row : TenantMembership} :
    step (.putTenantMembership row) t = .ok (hit, t') ↔ t.tenants.contains row.tenant = true ∧
      t.principals.contains row.principal = true ∧ hit = true ∧
      { t with tenantMemberships := t.tenantMemberships.insert row } = t' := by
  simp [step, demand_ok]

theorem step_removeTenantMembership {tenant : TenantId} {p : PrincipalId} :
    step (.removeTenantMembership tenant p) t = .ok (hit, t') ↔
      t.tenantMemberships.contains (tenant, p) = hit ∧
      { t with tenantMemberships := t.tenantMemberships.erase (tenant, p) } = t' := by
  simp [step]

theorem step_addInitiative {row : Initiative} :
    step (.addInitiative row) t = .ok (hit, t') ↔ t.tenants.contains row.tenant = true ∧
      t.initiatives.contains row.id = false ∧ hit = true ∧
      { t with initiatives := t.initiatives.insert row } = t' := by
  simp [step, demand_ok, demandFree_ok]

theorem step_putRole {row : Role} :
    step (.putRole row) t = .ok (hit, t') ↔ t.initiatives.contains row.initiative = true ∧
      t.roleNameTaken row = false ∧ hit = true ∧ { t with roles := t.roles.insert row } = t' := by
  cases h : t.roleNameTaken row <;> simp [step, demand_ok, h]

theorem step_removeRole {r : RoleId} :
    step (.removeRole r) t = .ok (hit, t') ↔ (∀ m ∈ t.memberships, m.role ≠ r) ∧
      t.roles.contains r = hit ∧
      (if t.roles.contains r then
        { t with
          roles := t.roles.erase r
          roleGrants := t.roleGrants.filter fun g => g.role != r }
      else t) = t' := by
  simp only [step]
  split
  · rename_i h
    obtain ⟨m, hm, e⟩ := List.any_eq_true.1 h
    simp only [reduceCtorEq, false_iff, not_and]
    exact fun hno => absurd (of_decide_eq_true e) (hno m hm)
  · rename_i h
    have hno : ∀ m ∈ t.memberships, m.role ≠ r := fun m hm e =>
      h (List.any_eq_true.2 ⟨m, hm, decide_eq_true e⟩)
    cases t.roles.contains r <;> simp <;> exact fun _ _ => hno

theorem step_putToggle {row : Toggle} :
    step (.putToggle row) t = .ok (hit, t') ↔ hit = true ∧ ∃ r, t.roles.find? row.role = some r ∧
      { t with roles := t.roles.insert (r.withToggle row.feature row.enabled) } = t' := by
  simp only [step]
  cases t.roles.find? row.role <;> simp

theorem step_putMembership {row : Membership} :
    step (.putMembership row) t = .ok (hit, t') ↔ t.initiatives.contains row.initiative = true ∧
      t.principals.contains row.principal = true ∧ t.roles.contains row.role = true ∧ hit = true ∧
      { t with memberships := t.memberships.insert row } = t' := by
  simp [step, demand_ok]

theorem step_removeMembership {i : InitiativeId} {p : PrincipalId} :
    step (.removeMembership i p) t = .ok (hit, t') ↔ t.memberships.contains (i, p) = hit ∧
      { t with memberships := t.memberships.erase (i, p) } = t' := by
  simp [step]

theorem step_addResource {row : Resource} :
    step (.addResource row) t = .ok (hit, t') ↔ t.initiatives.contains row.initiative = true ∧
      t.tenants.contains row.tenant = true ∧ t.resources.contains row.id = false ∧ hit = true ∧
      { t with resources := t.resources.insert row } = t' := by
  simp [step, demand_ok, demandFree_ok]

theorem step_removeResource {r : ResourceId} :
    step (.removeResource r) t = .ok (hit, t') ↔ t.resources.contains r = hit ∧
      (if t.resources.contains r then
        { t with
          resources := t.resources.erase r
          userGrants := t.userGrants.filter fun g => g.resource != r
          roleGrants := t.roleGrants.filter fun g => g.resource != r }
      else t) = t' := by
  simp only [step]
  cases t.resources.contains r <;> simp

theorem step_putUserGrant {row : UserGrant} :
    step (.putUserGrant row) t = .ok (hit, t') ↔ t.resources.contains row.resource = true ∧
      t.principals.contains row.principal = true ∧ hit = true ∧
      { t with userGrants := t.userGrants.insert row } = t' := by
  simp [step, demand_ok]

theorem step_removeUserGrant {r : ResourceId} {p : PrincipalId} :
    step (.removeUserGrant r p) t = .ok (hit, t') ↔ t.userGrants.contains (r, p) = hit ∧
      { t with userGrants := t.userGrants.erase (r, p) } = t' := by
  simp [step]

theorem step_putRoleGrant {row : RoleGrant} :
    step (.putRoleGrant row) t = .ok (hit, t') ↔ t.resources.contains row.resource = true ∧
      t.roles.contains row.role = true ∧ hit = true ∧
      { t with roleGrants := t.roleGrants.insert row } = t' := by
  simp [step, demand_ok]

theorem step_removeRoleGrant {r : ResourceId} {role : RoleId} :
    step (.removeRoleGrant r role) t = .ok (hit, t') ↔ t.roleGrants.contains (r, role) = hit ∧
      { t with roleGrants := t.roleGrants.erase (r, role) } = t' := by
  simp [step]

end Store.Tables

end TenantAccess
