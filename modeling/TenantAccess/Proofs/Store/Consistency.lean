import TenantAccess.Proofs.Store.Step
import TenantAccess.Proofs.Toggles

/-!
# Rows that fit together

Every reference leads to a row (`Integrity`), whatever changes are made. Beyond that, rows that
belong together agree on their initiative and their tenant, and the toggles of a role are in order
and its own (`Alignment`). A change that fits the rows that are there keeps both (`Consistent.step`).
-/

namespace TenantAccess

open Keyed

/-! ## Single rows -/

namespace Table

variable {R K : Type} [Ranked K] [Keyed R K] {t : Table R} {r : R} {k : K} {P : R → Prop}

theorem forall_mem_insert (hr : P r) (h : ∀ x ∈ t, P x) : ∀ x ∈ t.insert r, P x := by
  intro x hx
  rcases mem_insert.1 hx with rfl | ⟨hx, _⟩
  · exact hr
  · exact h x hx

theorem forall_mem_erase (h : ∀ x ∈ t, P x) : ∀ x ∈ t.erase k, P x :=
  fun x hx => h x (mem_erase.1 hx).1

theorem ne_of_contains {j : K} (absent : t.contains j = false) (h : t.contains k = true) : k ≠ j := by
  rintro rfl
  rw [absent] at h
  cases h

theorem filter_eq_self {p : R → Bool} (h : ∀ x ∈ t, p x = true) : t.filter p = t :=
  ext_mem fun x => mem_filter.trans (and_iff_left_of_imp (h x))

theorem erase_eq_self (h : t.contains k = false) : t.erase k = t :=
  ext_mem fun x => mem_erase.trans (and_iff_left_of_imp (not_contains_iff.1 h x))

theorem insert_eq_self (h : r ∈ t) : t.insert r = t := by
  refine ext_mem fun x => mem_insert.trans ⟨?_, fun hx => ?_⟩
  · rintro (rfl | ⟨hx, _⟩)
    · exact h
    · exact hx
  · by_cases e : Keyed.key x = Keyed.key r
    · exact Or.inl (eq_of_key hx h e)
    · exact Or.inr ⟨hx, e⟩

end Table

/-! ## Rows that fit together -/

namespace Store

/-- Each reference in a row leads to a stored row. -/
structure Tables.Integrity (t : Tables) : Prop where
  tenantMembership : ∀ m ∈ t.tenantMemberships,
    t.tenants.contains m.tenant = true ∧ t.principals.contains m.principal = true
  initiative : ∀ i ∈ t.initiatives, t.tenants.contains i.tenant = true
  role : ∀ r ∈ t.roles, t.initiatives.contains r.initiative = true
  membership : ∀ m ∈ t.memberships, t.initiatives.contains m.initiative = true ∧
    t.principals.contains m.principal = true ∧ t.roles.contains m.role = true
  resource : ∀ x ∈ t.resources,
    t.initiatives.contains x.initiative = true ∧ t.tenants.contains x.tenant = true
  userGrant : ∀ g ∈ t.userGrants,
    t.resources.contains g.resource = true ∧ t.principals.contains g.principal = true
  roleGrant : ∀ g ∈ t.roleGrants,
    t.resources.contains g.resource = true ∧ t.roles.contains g.role = true

/-- Rows that belong together agree: on the initiative and on the tenant. The toggles of a role are
in order and its own. -/
structure Tables.Alignment (t : Tables) : Prop where
  membership : ∀ m ∈ t.memberships, ∀ r ∈ t.roles, r.id = m.role → r.initiative = m.initiative
  resource : ∀ x ∈ t.resources, ∀ i ∈ t.initiatives, i.id = x.initiative → i.tenant = x.tenant
  userGrant : ∀ g ∈ t.userGrants, ∀ x ∈ t.resources, x.id = g.resource → x.tenant = g.tenant
  roleGrant : ∀ g ∈ t.roleGrants, ∀ x ∈ t.resources, x.id = g.resource →
    x.tenant = g.tenant ∧ ∀ r ∈ t.roles, r.id = g.role → r.initiative = x.initiative
  toggles : ∀ r ∈ t.roles, r.Tidy

structure Tables.Consistent (t : Tables) : Prop where
  stored : t.Integrity
  aligned : t.Alignment

/-- Every row leads to rows that are stored and that agree with it. -/
structure Tables.Coherent (t : Tables) : Prop where
  tenantMembership : ∀ m ∈ t.tenantMemberships,
    (∃ u ∈ t.tenants, u.id = m.tenant) ∧ ∃ p ∈ t.principals, p.id = m.principal
  initiative : ∀ i ∈ t.initiatives, ∃ u ∈ t.tenants, u.id = i.tenant
  role : ∀ r ∈ t.roles, ∃ i ∈ t.initiatives, i.id = r.initiative
  membership : ∀ m ∈ t.memberships, (∃ p ∈ t.principals, p.id = m.principal) ∧
    ∃ r ∈ t.roles, r.id = m.role ∧ r.initiative = m.initiative
  resource : ∀ x ∈ t.resources, ∃ i ∈ t.initiatives, i.id = x.initiative ∧ i.tenant = x.tenant
  userGrant : ∀ g ∈ t.userGrants, (∃ p ∈ t.principals, p.id = g.principal) ∧
    ∃ x ∈ t.resources, x.id = g.resource ∧ x.tenant = g.tenant
  roleGrant : ∀ g ∈ t.roleGrants, ∃ x ∈ t.resources, x.id = g.resource ∧ x.tenant = g.tenant ∧
    ∃ r ∈ t.roles, r.id = g.role ∧ r.initiative = x.initiative
  toggles : ∀ r ∈ t.roles,
    (r.toggles.Pairwise fun a b => a.feature.position < b.feature.position) ∧
      ∀ x ∈ r.toggles, x.role = r.id

/-- A new row agrees with the rows that it names and, as the update of a row, with those that name
it. -/
def Change.Fits (t : Tables) : Change → Prop
  | .putRole row => row.Tidy ∧ ∀ r ∈ t.roles, r.id = row.id → r.initiative = row.initiative
  | .putMembership row => ∀ r ∈ t.roles, r.id = row.role → r.initiative = row.initiative
  | .addResource row => ∀ i ∈ t.initiatives, i.id = row.initiative → i.tenant = row.tenant
  | .putUserGrant row => ∀ x ∈ t.resources, x.id = row.resource → x.tenant = row.tenant
  | .putRoleGrant row => ∀ x ∈ t.resources, x.id = row.resource →
      x.tenant = row.tenant ∧ ∀ r ∈ t.roles, r.id = row.role → r.initiative = x.initiative
  | _ => True

namespace Tables

variable {t t' : Tables} {c : Change} {hit : Bool}

open Table

theorem Consistent.empty : Consistent Tables.empty := by
  constructor <;> constructor <;> intro x hx <;> exact absurd hx not_mem_empty

theorem Consistent.coherent (h : t.Consistent) : t.Coherent where
  tenantMembership m hm :=
    have ⟨tenant, principal⟩ := h.stored.tenantMembership m hm
    ⟨contains_iff.1 tenant, contains_iff.1 principal⟩
  initiative i hi := contains_iff.1 (h.stored.initiative i hi)
  role r hr := contains_iff.1 (h.stored.role r hr)
  membership m hm := by
    obtain ⟨_, principal, role⟩ := h.stored.membership m hm
    obtain ⟨r, hr, e⟩ := contains_iff.1 role
    exact ⟨contains_iff.1 principal, r, hr, e, h.aligned.membership m hm r hr e⟩
  resource x hx := by
    obtain ⟨i, hi, e⟩ := contains_iff.1 (h.stored.resource x hx).1
    exact ⟨i, hi, e, h.aligned.resource x hx i hi e⟩
  userGrant g hg := by
    obtain ⟨resource, principal⟩ := h.stored.userGrant g hg
    obtain ⟨x, hx, e⟩ := contains_iff.1 resource
    exact ⟨contains_iff.1 principal, x, hx, e, h.aligned.userGrant g hg x hx e⟩
  roleGrant g hg := by
    obtain ⟨resource, role⟩ := h.stored.roleGrant g hg
    obtain ⟨x, hx, ex⟩ := contains_iff.1 resource
    obtain ⟨r, hr, er⟩ := contains_iff.1 role
    obtain ⟨tenant, agree⟩ := h.aligned.roleGrant g hg x hx ex
    exact ⟨x, hx, ex, tenant, r, hr, er, agree r hr er⟩
  toggles r hr := ⟨(h.aligned.toggles r hr).ordered, (h.aligned.toggles r hr).own⟩

/-! ## Changes that fit -/

theorem Integrity.step (h : t.Integrity) (hc : Tables.step c t = .ok (hit, t')) : t'.Integrity := by
  cases c with
  | addTenant row =>
    obtain ⟨_, _, rfl⟩ := step_addTenant.1 hc
    exact { h with
      tenantMembership := fun m hm =>
        ⟨contains_insert_of (h.tenantMembership m hm).1, (h.tenantMembership m hm).2⟩
      initiative := fun i hi => contains_insert_of (h.initiative i hi)
      resource := fun x hx => ⟨(h.resource x hx).1, contains_insert_of (h.resource x hx).2⟩ }
  | putPrincipal row =>
    obtain ⟨_, rfl⟩ := step_putPrincipal.1 hc
    exact { h with
      tenantMembership := fun m hm =>
        ⟨(h.tenantMembership m hm).1, contains_insert_of (h.tenantMembership m hm).2⟩
      membership := fun m hm =>
        have ⟨hi, hp, hr⟩ := h.membership m hm
        ⟨hi, contains_insert_of hp, hr⟩
      userGrant := fun g hg => ⟨(h.userGrant g hg).1, contains_insert_of (h.userGrant g hg).2⟩ }
  | putTenantMembership row =>
    obtain ⟨ht, hp, _, rfl⟩ := step_putTenantMembership.1 hc
    exact { h with tenantMembership := forall_mem_insert ⟨ht, hp⟩ h.tenantMembership }
  | removeTenantMembership tenant p =>
    obtain ⟨_, rfl⟩ := step_removeTenantMembership.1 hc
    exact { h with tenantMembership := forall_mem_erase h.tenantMembership }
  | addInitiative row =>
    obtain ⟨ht, _, _, rfl⟩ := step_addInitiative.1 hc
    exact { h with
      initiative := forall_mem_insert ht h.initiative
      role := fun r hr => contains_insert_of (h.role r hr)
      membership := fun m hm =>
        ⟨contains_insert_of (h.membership m hm).1, (h.membership m hm).2⟩
      resource := fun x hx => ⟨contains_insert_of (h.resource x hx).1, (h.resource x hx).2⟩ }
  | putRole row =>
    obtain ⟨hi, _, _, rfl⟩ := step_putRole.1 hc
    exact { h with
      role := forall_mem_insert hi h.role
      membership := fun m hm =>
        have ⟨hi, hp, hr⟩ := h.membership m hm
        ⟨hi, hp, contains_insert_of hr⟩
      roleGrant := fun g hg => ⟨(h.roleGrant g hg).1, contains_insert_of (h.roleGrant g hg).2⟩ }
  | removeRole r =>
    obtain ⟨hfree, _, rfl⟩ := step_removeRole.1 hc
    split
    · exact { h with
        role := forall_mem_erase h.role
        membership := fun m hm =>
          have ⟨hi, hp, hr⟩ := h.membership m hm
          ⟨hi, hp, contains_erase_of hr (hfree m hm)⟩
        roleGrant := fun g hg => by
          obtain ⟨hg, hne⟩ := mem_filter.1 hg
          exact ⟨(h.roleGrant g hg).1, contains_erase_of (h.roleGrant g hg).2 (by simpa using hne)⟩ }
    · exact h
  | putToggle row =>
    obtain ⟨_, r, hr, rfl⟩ := step_putToggle.1 hc
    obtain ⟨hr, _⟩ := find?_eq_some_iff.1 hr
    exact { h with
      role := forall_mem_insert (h.role r hr) h.role
      membership := fun m hm =>
        have ⟨hi, hp, hr⟩ := h.membership m hm
        ⟨hi, hp, contains_insert_of hr⟩
      roleGrant := fun g hg => ⟨(h.roleGrant g hg).1, contains_insert_of (h.roleGrant g hg).2⟩ }
  | putMembership row =>
    obtain ⟨hi, hp, hr, _, rfl⟩ := step_putMembership.1 hc
    exact { h with membership := forall_mem_insert ⟨hi, hp, hr⟩ h.membership }
  | removeMembership i p =>
    obtain ⟨_, rfl⟩ := step_removeMembership.1 hc
    exact { h with membership := forall_mem_erase h.membership }
  | addResource row =>
    obtain ⟨hi, ht, _, _, rfl⟩ := step_addResource.1 hc
    exact { h with
      resource := forall_mem_insert ⟨hi, ht⟩ h.resource
      userGrant := fun g hg => ⟨contains_insert_of (h.userGrant g hg).1, (h.userGrant g hg).2⟩
      roleGrant := fun g hg => ⟨contains_insert_of (h.roleGrant g hg).1, (h.roleGrant g hg).2⟩ }
  | removeResource r =>
    obtain ⟨_, rfl⟩ := step_removeResource.1 hc
    split
    · exact { h with
        resource := forall_mem_erase h.resource
        userGrant := fun g hg => by
          obtain ⟨hg, hne⟩ := mem_filter.1 hg
          exact ⟨contains_erase_of (h.userGrant g hg).1 (by simpa using hne), (h.userGrant g hg).2⟩
        roleGrant := fun g hg => by
          obtain ⟨hg, hne⟩ := mem_filter.1 hg
          exact ⟨contains_erase_of (h.roleGrant g hg).1 (by simpa using hne), (h.roleGrant g hg).2⟩ }
    · exact h
  | putUserGrant row =>
    obtain ⟨hr, hp, _, rfl⟩ := step_putUserGrant.1 hc
    exact { h with userGrant := forall_mem_insert ⟨hr, hp⟩ h.userGrant }
  | removeUserGrant r p =>
    obtain ⟨_, rfl⟩ := step_removeUserGrant.1 hc
    exact { h with userGrant := forall_mem_erase h.userGrant }
  | putRoleGrant row =>
    obtain ⟨hx, hr, _, rfl⟩ := step_putRoleGrant.1 hc
    exact { h with roleGrant := forall_mem_insert ⟨hx, hr⟩ h.roleGrant }
  | removeRoleGrant r role =>
    obtain ⟨_, rfl⟩ := step_removeRoleGrant.1 hc
    exact { h with roleGrant := forall_mem_erase h.roleGrant }

/-- Nothing is granted on a resource that is not there, so its removal has the same form whether it is
there or not. -/
theorem Integrity.removeResource (h : t.Integrity) (r : ResourceId) :
    (if t.resources.contains r then
      { t with
        resources := t.resources.erase r
        userGrants := t.userGrants.filter fun g => g.resource != r
        roleGrants := t.roleGrants.filter fun g => g.resource != r }
    else t) =
      { t with
        resources := t.resources.erase r
        userGrants := t.userGrants.filter fun g => g.resource != r
        roleGrants := t.roleGrants.filter fun g => g.resource != r } := by
  split
  · rfl
  · rename_i absent
    have absent := Bool.eq_false_iff.2 absent
    have unnamed {x : ResourceId} (hx : t.resources.contains x = true) : (x != r) = true :=
      bne_iff_ne.2 (ne_of_contains absent hx)
    rw [erase_eq_self absent, filter_eq_self fun g hg => unnamed (h.userGrant g hg).1,
      filter_eq_self fun g hg => unnamed (h.roleGrant g hg).1]

/-- The same for a role, to which nothing is granted if it is not there. -/
theorem Integrity.removeRole (h : t.Integrity) (r : RoleId) :
    (if t.roles.contains r then
      { t with
        roles := t.roles.erase r
        roleGrants := t.roleGrants.filter fun g => g.role != r }
    else t) =
      { t with
        roles := t.roles.erase r
        roleGrants := t.roleGrants.filter fun g => g.role != r } := by
  split
  · rfl
  · rename_i absent
    have absent := Bool.eq_false_iff.2 absent
    have unnamed {x : RoleId} (hx : t.roles.contains x = true) : (x != r) = true :=
      bne_iff_ne.2 (ne_of_contains absent hx)
    rw [erase_eq_self absent, filter_eq_self fun g hg => unnamed (h.roleGrant g hg).2]

private theorem Alignment.insertRole (h : t.Alignment) {row : Role} (tidy : row.Tidy)
    (same : ∀ r ∈ t.roles, r.id = row.id → r.initiative = row.initiative)
    (stored : t.Integrity) : Alignment { t with roles := t.roles.insert row } where
  membership m hm r hr e := by
    rcases mem_insert.1 hr with rfl | ⟨hr, _⟩
    · obtain ⟨x, hx, ex⟩ := contains_iff.1 (stored.membership m hm).2.2
      rw [← same x hx (ex.trans e.symm)]
      exact h.membership m hm x hx ex
    · exact h.membership m hm r hr e
  resource := h.resource
  userGrant := h.userGrant
  roleGrant g hg x hx e := by
    refine ⟨(h.roleGrant g hg x hx e).1, fun r hr er => ?_⟩
    rcases mem_insert.1 hr with rfl | ⟨hr, _⟩
    · obtain ⟨y, hy, ey⟩ := contains_iff.1 (stored.roleGrant g hg).2
      rw [← same y hy (ey.trans er.symm)]
      exact (h.roleGrant g hg x hx e).2 y hy ey
    · exact (h.roleGrant g hg x hx e).2 r hr er
  toggles := forall_mem_insert tidy h.toggles

theorem Alignment.step (h : t.Alignment) (stored : t.Integrity) (fits : c.Fits t)
    (hc : Tables.step c t = .ok (hit, t')) : t'.Alignment := by
  cases c with
  | addTenant row =>
    obtain ⟨_, _, rfl⟩ := step_addTenant.1 hc
    exact { h with }
  | putPrincipal row =>
    obtain ⟨_, rfl⟩ := step_putPrincipal.1 hc
    exact { h with }
  | putTenantMembership row =>
    obtain ⟨_, _, _, rfl⟩ := step_putTenantMembership.1 hc
    exact { h with }
  | removeTenantMembership tenant p =>
    obtain ⟨_, rfl⟩ := step_removeTenantMembership.1 hc
    exact { h with }
  | addInitiative row =>
    obtain ⟨_, free, _, rfl⟩ := step_addInitiative.1 hc
    -- no resource names the new initiative yet
    exact { h with
      resource := fun x hx i hi e => by
        rcases mem_insert.1 hi with rfl | ⟨hi, _⟩
        · exact absurd e.symm (ne_of_contains free (stored.resource x hx).1)
        · exact h.resource x hx i hi e }
  | putRole row =>
    obtain ⟨_, _, _, rfl⟩ := step_putRole.1 hc
    exact h.insertRole fits.1 fits.2 stored
  | removeRole r =>
    obtain ⟨_, _, rfl⟩ := step_removeRole.1 hc
    split
    · exact { h with
        membership := fun m hm r hr => h.membership m hm r (mem_erase.1 hr).1
        roleGrant := fun g hg x hx e =>
          have ⟨ht, hr⟩ := h.roleGrant g (mem_filter.1 hg).1 x hx e
          ⟨ht, fun r hr' => hr r (mem_erase.1 hr').1⟩
        toggles := forall_mem_erase h.toggles }
    · exact h
  | putToggle row =>
    obtain ⟨_, r, hr, rfl⟩ := step_putToggle.1 hc
    obtain ⟨hr, _⟩ := find?_eq_some_iff.1 hr
    refine h.insertRole ((h.toggles r hr).withToggle _ _) (fun x hx e => ?_) stored
    rw [eq_of_key hx hr e]
    rfl
  | putMembership row =>
    obtain ⟨_, _, _, _, rfl⟩ := step_putMembership.1 hc
    exact { h with membership := forall_mem_insert fits h.membership }
  | removeMembership i p =>
    obtain ⟨_, rfl⟩ := step_removeMembership.1 hc
    exact { h with membership := forall_mem_erase h.membership }
  | addResource row =>
    obtain ⟨_, _, free, _, rfl⟩ := step_addResource.1 hc
    -- no grant names the new resource yet
    have unnamed {r : ResourceId} (hr : t.resources.contains r = true) : row.id ≠ r :=
      (ne_of_contains free hr).symm
    exact { h with
      resource := forall_mem_insert fits h.resource
      userGrant := fun g hg x hx e => by
        rcases mem_insert.1 hx with rfl | ⟨hx, _⟩
        · exact absurd e (unnamed (stored.userGrant g hg).1)
        · exact h.userGrant g hg x hx e
      roleGrant := fun g hg x hx e => by
        rcases mem_insert.1 hx with rfl | ⟨hx, _⟩
        · exact absurd e (unnamed (stored.roleGrant g hg).1)
        · exact h.roleGrant g hg x hx e }
  | removeResource r =>
    obtain ⟨_, rfl⟩ := step_removeResource.1 hc
    split
    · exact { h with
        resource := forall_mem_erase h.resource
        userGrant := fun g hg x hx => h.userGrant g (mem_filter.1 hg).1 x (mem_erase.1 hx).1
        roleGrant := fun g hg x hx => h.roleGrant g (mem_filter.1 hg).1 x (mem_erase.1 hx).1 }
    · exact h
  | putUserGrant row =>
    obtain ⟨_, _, _, rfl⟩ := step_putUserGrant.1 hc
    exact { h with userGrant := forall_mem_insert fits h.userGrant }
  | removeUserGrant r p =>
    obtain ⟨_, rfl⟩ := step_removeUserGrant.1 hc
    exact { h with userGrant := forall_mem_erase h.userGrant }
  | putRoleGrant row =>
    obtain ⟨_, _, _, rfl⟩ := step_putRoleGrant.1 hc
    exact { h with roleGrant := forall_mem_insert fits h.roleGrant }
  | removeRoleGrant r role =>
    obtain ⟨_, rfl⟩ := step_removeRoleGrant.1 hc
    exact { h with roleGrant := forall_mem_erase h.roleGrant }

theorem Consistent.step (h : t.Consistent) (fits : c.Fits t)
    (hc : Tables.step c t = .ok (hit, t')) : t'.Consistent :=
  ⟨h.stored.step hc, h.aligned.step h.stored fits hc⟩

theorem roleNameTaken_eq_false {row : Role} : t.roleNameTaken row = false ↔
    ∀ r ∈ t.roles, r.initiative = row.initiative → r.name = row.name → r.id = row.id := by
  rw [roleNameTaken, List.any_eq_false]
  refine forall₂_congr fun r _ => ?_
  simp

/-! ## Names of roles -/

/-- Roles of one initiative differ in their names. -/
def NamesApart (t : Tables) : Prop :=
  ∀ r ∈ t.roles, ∀ s ∈ t.roles, r.initiative = s.initiative → r.name = s.name → r = s

theorem NamesApart.empty : NamesApart Tables.empty := fun _ hr => absurd hr not_mem_empty

theorem NamesApart.insertRole (h : t.NamesApart) {row : Role} (free : t.roleNameTaken row = false) :
    NamesApart { t with roles := t.roles.insert row } := by
  have free := roleNameTaken_eq_false.1 free
  intro r hr s hs hi hn
  rcases mem_insert.1 hr with rfl | ⟨old, hne⟩
  · rcases mem_insert.1 hs with rfl | ⟨old, hne⟩
    · rfl
    · exact absurd (free s old hi.symm hn.symm) hne
  · rcases mem_insert.1 hs with rfl | ⟨old', _⟩
    · exact absurd (free r old hi hn) hne
    · exact h r old s old' hi hn

/-- Only the writing of a role may give a role a name. -/
theorem NamesApart.step (h : t.NamesApart) (hc : Tables.step c t = .ok (hit, t')) :
    t'.NamesApart := by
  cases c with
  | addTenant row =>
    obtain ⟨_, _, rfl⟩ := step_addTenant.1 hc
    exact h
  | putPrincipal row =>
    obtain ⟨_, rfl⟩ := step_putPrincipal.1 hc
    exact h
  | putTenantMembership row =>
    obtain ⟨_, _, _, rfl⟩ := step_putTenantMembership.1 hc
    exact h
  | removeTenantMembership tenant p =>
    obtain ⟨_, rfl⟩ := step_removeTenantMembership.1 hc
    exact h
  | addInitiative row =>
    obtain ⟨_, _, _, rfl⟩ := step_addInitiative.1 hc
    exact h
  | putRole row =>
    obtain ⟨_, free, _, rfl⟩ := step_putRole.1 hc
    exact h.insertRole free
  | removeRole r =>
    obtain ⟨_, _, rfl⟩ := step_removeRole.1 hc
    split
    · exact fun r hr s hs => h r (mem_erase.1 hr).1 s (mem_erase.1 hs).1
    · exact h
  | putToggle row =>
    obtain ⟨_, stored, found, rfl⟩ := step_putToggle.1 hc
    obtain ⟨hstored, _⟩ := find?_eq_some_iff.1 found
    refine h.insertRole (roleNameTaken_eq_false.2 fun s hs hi hn => ?_)
    have same : s = stored := h s hs stored hstored hi hn
    rw [same]
    rfl
  | putMembership row =>
    obtain ⟨_, _, _, _, rfl⟩ := step_putMembership.1 hc
    exact h
  | removeMembership i p =>
    obtain ⟨_, rfl⟩ := step_removeMembership.1 hc
    exact h
  | addResource row =>
    obtain ⟨_, _, _, _, rfl⟩ := step_addResource.1 hc
    exact h
  | removeResource r =>
    obtain ⟨_, rfl⟩ := step_removeResource.1 hc
    split <;> exact h
  | putUserGrant row =>
    obtain ⟨_, _, _, rfl⟩ := step_putUserGrant.1 hc
    exact h
  | removeUserGrant r p =>
    obtain ⟨_, rfl⟩ := step_removeUserGrant.1 hc
    exact h
  | putRoleGrant row =>
    obtain ⟨_, _, _, rfl⟩ := step_putRoleGrant.1 hc
    exact h
  | removeRoleGrant r role =>
    obtain ⟨_, rfl⟩ := step_removeRoleGrant.1 hc
    exact h

end Tables

end Store

end TenantAccess
