import TenantAccess.Proofs.Store.Confinement

/-!
# The rows of one tenant alone

All principals, and of the other rows those of one tenant. They fit together where all rows do, and a change
that concerns the tenant goes on them as it goes on all rows.
-/

namespace TenantAccess

open Keyed

/-! ## Rows that are picked -/

namespace Table

variable {R K : Type} [Ranked K] [Keyed R K] {t : Table R} {r : R} {k : K} {p q : R → Bool}

theorem filter_insert (hr : p r = true) : (t.insert r).filter p = (t.filter p).insert r := by
  refine ext_mem fun x => ?_
  simp only [mem_filter, mem_insert]
  constructor
  · rintro ⟨rfl | ⟨hx, hne⟩, hp⟩
    · exact Or.inl rfl
    · exact Or.inr ⟨⟨hx, hp⟩, hne⟩
  · rintro (rfl | ⟨⟨hx, hp⟩, hne⟩)
    · exact ⟨Or.inl rfl, hr⟩
    · exact ⟨Or.inr ⟨hx, hne⟩, hp⟩

theorem filter_comm : (t.filter q).filter p = (t.filter p).filter q :=
  ext_mem fun x => by simp only [mem_filter, and_right_comm]

theorem filter_erase : (t.erase k).filter p = (t.filter p).erase k := filter_comm

theorem contains_filter_new (h : t.contains k = false) : (t.filter p).contains k = false :=
  not_contains_iff.2 fun r hr => not_contains_iff.1 h r (mem_filter.1 hr).1

theorem contains_filter_of (h : ∀ r ∈ t, key r = k → p r = true) :
    (t.filter p).contains k = t.contains k := by
  rw [contains_eq_isSome, find?_filter_of h, contains_eq_isSome]

end Table

namespace Store

/-- What a change brings in under an identifier of its own is not there yet. -/
def Change.IsNew (t : Tables) : Change → Prop
  | .addInitiative row => t.initiatives.contains row.id = false
  | .addResource row => t.resources.contains row.id = false
  | _ => True

namespace Tables

open Table

/-- All principals with the rows of one tenant. -/
def only (t : Tables) (u : TenantId) : Tables where
  tenants := t.tenants.filter fun x => x.id = u
  principals := t.principals
  tenantMemberships := t.membersOf u
  initiatives := (t.part u).initiatives
  roles := (t.part u).roles
  memberships := (t.part u).memberships
  resources := (t.part u).resources
  userGrants := (t.part u).userGrants
  roleGrants := (t.part u).roleGrants

variable {t t' s : Tables} {u v : TenantId} {i : InitiativeId} {x : ResourceId} {r : RoleId}

theorem tenantOf_iff : t.tenantOf i = some u ↔
    ∃ initiative ∈ t.initiatives, initiative.id = i ∧ initiative.tenant = u := by
  simp only [tenantOf, Option.map_eq_some_iff, find?_eq_some_iff, key_initiative, and_assoc]

theorem tenantOf_only : (t.only u).tenantOf i = some v ↔ t.tenantOf i = some v ∧ v = u := by
  simp only [tenantOf_iff, only, part, mem_filter, decide_eq_true_eq]
  constructor
  · rintro ⟨j, ⟨hj, hu⟩, e, rfl⟩
    exact ⟨⟨j, hj, e, rfl⟩, hu⟩
  · rintro ⟨⟨j, hj, e, rfl⟩, hu⟩
    exact ⟨j, ⟨hj, hu⟩, e, rfl⟩

theorem tenantOf_only_self : (t.only u).tenantOf i = some u ↔ t.tenantOf i = some u :=
  tenantOf_only.trans (and_iff_left rfl)

/-! ## The rows of one tenant -/

section Rows

variable {m : Membership} {role : Role} {resource : Resource}

theorem mem_roles_only : role ∈ (t.only u).roles ↔
    role ∈ t.roles ∧ t.tenantOf role.initiative = some u :=
  mem_filter.trans (and_congr_right fun _ => decide_eq_true_iff)

theorem mem_memberships_only : m ∈ (t.only u).memberships ↔
    m ∈ t.memberships ∧ t.tenantOf m.initiative = some u :=
  mem_filter.trans (and_congr_right fun _ => decide_eq_true_iff)

theorem mem_resources_only : resource ∈ (t.only u).resources ↔
    resource ∈ t.resources ∧ resource.tenant = u :=
  mem_filter.trans (and_congr_right fun _ => decide_eq_true_iff)

end Rows

/-! Rows that lie in the tenant are there if and only if they were. -/

theorem tenant_only : (t.only u).tenants.find? u = t.tenants.find? u :=
  find?_filter_of fun _ _ e => decide_eq_true e

theorem contains_tenant_only : (t.only u).tenants.contains u = t.tenants.contains u :=
  contains_filter_of fun _ _ e => decide_eq_true e

theorem contains_initiative_only (hi : ∀ v, t.tenantOf i = some v → v = u) :
    (t.only u).initiatives.contains i = t.initiatives.contains i :=
  contains_filter_of fun _ hj e => decide_eq_true (hi _ (e ▸ tenantOf_mem hj))

theorem contains_role_only (hr : ∀ role ∈ t.roles, role.id = r → t.tenantOf role.initiative = some u) :
    (t.only u).roles.contains r = t.roles.contains r :=
  contains_filter_of fun role hrole e => decide_eq_true (hr role hrole e)

theorem contains_resource_only (hx : ∀ resource ∈ t.resources, resource.id = x → resource.tenant = u) :
    (t.only u).resources.contains x = t.resources.contains x :=
  contains_filter_of fun resource hresource e => decide_eq_true (hx resource hresource e)

theorem Consistent.only (h : t.Consistent) (u : TenantId) : (t.only u).Consistent where
  stored :=
    { tenantMembership := fun m hm => by
        obtain ⟨stored, e⟩ := mem_filter.1 hm
        obtain rfl := of_decide_eq_true e
        rw [contains_tenant_only]
        exact h.stored.tenantMembership m stored
      initiative := fun i hi => by
        obtain ⟨stored, e⟩ := mem_filter.1 hi
        obtain rfl := of_decide_eq_true e
        rw [contains_tenant_only]
        exact h.stored.initiative i stored
      role := fun r hr => by
        obtain ⟨stored, home⟩ := mem_roles_only.1 hr
        rw [contains_initiative_only fun v hv => Option.some.inj (hv.symm.trans home)]
        exact h.stored.role r stored
      membership := fun m hm => by
        obtain ⟨stored, home⟩ := mem_memberships_only.1 hm
        obtain ⟨initiative, principal, role⟩ := h.stored.membership m stored
        refine ⟨?_, principal, ?_⟩
        · rwa [contains_initiative_only fun v hv => Option.some.inj (hv.symm.trans home)]
        · rwa [contains_role_only fun r hr e => h.aligned.membership m stored r hr e ▸ home]
      resource := fun x hx => by
        obtain ⟨stored, rfl⟩ := mem_resources_only.1 hx
        obtain ⟨initiative, tenant⟩ := h.stored.resource x stored
        have home := h.tenantOf_resource stored
        rw [contains_initiative_only fun v hv => Option.some.inj (hv.symm.trans home),
          contains_tenant_only]
        exact ⟨initiative, tenant⟩
      userGrant := fun g hg => by
        obtain ⟨stored, e⟩ := mem_filter.1 hg
        obtain rfl := of_decide_eq_true e
        rw [contains_resource_only (h.aligned.userGrant g stored)]
        exact h.stored.userGrant g stored
      roleGrant := fun g hg => by
        obtain ⟨stored, e⟩ := mem_filter.1 hg
        obtain rfl := of_decide_eq_true e
        obtain ⟨x, hx, ex, tenant⟩ := h.tenant_roleGrant stored
        have agrees := h.aligned.roleGrant g stored x hx ex
        rw [contains_resource_only fun y hy e => (h.aligned.roleGrant g stored y hy e).1,
          contains_role_only fun r hr e => by rw [agrees.2 r hr e, h.tenantOf_resource hx, tenant]]
        exact h.stored.roleGrant g stored }
  aligned :=
    { membership := fun m hm r hr =>
        h.aligned.membership m (mem_filter.1 hm).1 r (mem_filter.1 hr).1
      resource := fun x hx i hi => h.aligned.resource x (mem_filter.1 hx).1 i (mem_filter.1 hi).1
      userGrant := fun g hg x hx => h.aligned.userGrant g (mem_filter.1 hg).1 x (mem_filter.1 hx).1
      roleGrant := fun g hg x hx e =>
        have ⟨tenant, agree⟩ :=
          h.aligned.roleGrant g (mem_filter.1 hg).1 x (mem_filter.1 hx).1 e
        ⟨tenant, fun r hr => agree r (mem_filter.1 hr).1⟩
      toggles := fun r hr => h.aligned.toggles r (mem_filter.1 hr).1 }

/-- A step that is guarded alike and leaves the same rows of the tenant. -/
private theorem step_only_of {A A' : Prop} {all one : Tables} (guard : A' ↔ A)
    (rows : all.only u = one) : A' ∧ one = s ↔ ∃ t', (A ∧ all = t') ∧ t'.only u = s := by
  subst rows
  constructor
  · rintro ⟨ha, rfl⟩
    exact ⟨all, ⟨guard.1 ha, rfl⟩, rfl⟩
  · rintro ⟨_, ⟨ha, rfl⟩, rfl⟩
    exact ⟨guard.2 ha, rfl⟩

/-! ## Changes -/

section Step

variable {c : Change} {hit : Bool}

theorem roleNameTaken_only {row : Role} (home : t.tenantOf row.initiative = some u) :
    (t.only u).roleNameTaken row = t.roleNameTaken row := by
  refine Bool.eq_iff_iff.2 (Decidable.not_iff_not.1 ?_)
  rw [Bool.not_eq_true, Bool.not_eq_true, roleNameTaken_eq_false, roleNameTaken_eq_false]
  constructor
  · intro free r hr hi
    exact free r (mem_roles_only.2 ⟨hr, hi ▸ home⟩) hi
  · intro free r hr
    exact free r (mem_roles_only.1 hr).1

/-- Nothing lies in a new initiative yet. -/
theorem Consistent.addInitiative_only (h : t.Consistent) {row : Initiative}
    (new : t.initiatives.contains row.id = false) :
    Tables.only { t with initiatives := t.initiatives.insert row } row.tenant =
      { t.only row.tenant with initiatives := (t.only row.tenant).initiatives.insert row } := by
  have same {i : InitiativeId} (hi : t.initiatives.contains i = true) :
      tenantOf { t with initiatives := t.initiatives.insert row } i = t.tenantOf i := by
    simp only [tenantOf, find?_insert, key_initiative, if_neg (ne_of_contains new hi)]
  have initiatives : ((t.initiatives.insert row).filter fun i => i.tenant = row.tenant) =
      (t.only row.tenant).initiatives.insert row := filter_insert (by exact decide_eq_true rfl)
  have roles : (t.roles.filter fun r =>
      tenantOf { t with initiatives := t.initiatives.insert row } r.initiative = some row.tenant) =
      (t.only row.tenant).roles :=
    filter_congr fun r hr => by rw [same (h.stored.role r hr)]
  have memberships : (t.memberships.filter fun m =>
      tenantOf { t with initiatives := t.initiatives.insert row } m.initiative = some row.tenant) =
      (t.only row.tenant).memberships :=
    filter_congr fun m hm => by rw [same (h.stored.membership m hm).1]
  exact congr (congr (congrArg (fun initiatives roles memberships =>
    { t.only row.tenant with initiatives, roles, memberships }) initiatives) roles) memberships

/-- Whoever holds a role of the tenant does so there. -/
theorem Consistent.holders_only (h : t.Consistent)
    (home : ∀ role ∈ t.roles, role.id = r → t.tenantOf role.initiative = some u) :
    (∀ m ∈ (t.only u).memberships, m.role ≠ r) ↔ ∀ m ∈ t.memberships, m.role ≠ r := by
  constructor
  · intro free m hm e
    obtain ⟨role, hrole, er⟩ := contains_iff.1 (h.stored.membership m hm).2.2
    have here := home role hrole (er.trans e)
    rw [h.aligned.membership m hm role hrole er] at here
    exact free m (mem_memberships_only.2 ⟨hm, here⟩) e
  · exact fun free m hm => free m (mem_memberships_only.1 hm).1

/-! A grant lies where its resource does. -/

theorem Consistent.contains_userGrant_only (h : t.Consistent) {p : PrincipalId}
    (home : ∀ resource ∈ t.resources, resource.id = x → resource.tenant = u) :
    (t.only u).userGrants.contains (x, p) = t.userGrants.contains (x, p) :=
  contains_filter_of fun g hg e => by
    obtain ⟨resource, hx, ex, et⟩ := h.tenant_userGrant hg
    exact decide_eq_true (et.symm.trans (home resource hx (ex.trans (Prod.mk.inj e).1)))

theorem Consistent.contains_roleGrant_only (h : t.Consistent)
    (home : ∀ resource ∈ t.resources, resource.id = x → resource.tenant = u) :
    (t.only u).roleGrants.contains (x, r) = t.roleGrants.contains (x, r) :=
  contains_filter_of fun g hg e => by
    obtain ⟨resource, hx, ex, et⟩ := h.tenant_roleGrant hg
    exact decide_eq_true (et.symm.trans (home resource hx (ex.trans (Prod.mk.inj e).1)))

/-- A fitting change that concerns a tenant goes on the rows of the tenant as it goes on all rows. -/
theorem Consistent.step_only (h : t.Consistent) (fits : c.Fits t) (inside : c.Concerns t u)
    (new : c.IsNew t) : Tables.step c (t.only u) = .ok (hit, s) ↔
      ∃ t', Tables.step c t = .ok (hit, t') ∧ t'.only u = s := by
  have initiative {i : InitiativeId} (hi : t.tenantOf i = some u) :
      (t.only u).initiatives.contains i = t.initiatives.contains i :=
    contains_initiative_only fun v hv => Option.some.inj (hv.symm.trans hi)
  cases c with
  | addTenant row => exact inside.elim
  | putPrincipal row => exact inside.elim
  | putTenantMembership row =>
    obtain rfl : row.tenant = u := inside
    simp only [step_putTenantMembership, ← and_assoc, contains_tenant_only]
    refine step_only_of Iff.rfl ?_
    refine congrArg (fun rows => { t.only row.tenant with tenantMemberships := rows })
      (filter_insert ?_)
    exact decide_eq_true rfl
  | removeTenantMembership tenant p =>
    obtain rfl : tenant = u := inside
    have there : (t.only tenant).tenantMemberships.contains (tenant, p) =
        t.tenantMemberships.contains (tenant, p) :=
      contains_filter_of fun m _ e => decide_eq_true (Prod.mk.inj e).1
    simp only [step_removeTenantMembership, there]
    refine step_only_of Iff.rfl ?_
    exact congrArg (fun rows => { t.only tenant with tenantMemberships := rows }) filter_erase
  | addInitiative row =>
    obtain rfl : row.tenant = u := inside
    have new : t.initiatives.contains row.id = false := new
    have free : (t.only row.tenant).initiatives.contains row.id = false := contains_filter_new new
    simp only [step_addInitiative, ← and_assoc, contains_tenant_only, new, free]
    refine step_only_of Iff.rfl ?_
    exact h.addInitiative_only new
  | putRole row =>
    simp only [step_putRole, ← and_assoc, initiative inside, roleNameTaken_only inside]
    refine step_only_of Iff.rfl ?_
    refine congrArg (fun rows => { t.only u with roles := rows }) (filter_insert ?_)
    exact decide_eq_true inside
  | removeRole r =>
    simp only [step_removeRole, ← and_assoc, h.stored.removeRole, (h.only u).stored.removeRole,
      h.holders_only inside]
    rw [contains_role_only inside]
    refine step_only_of Iff.rfl ?_
    exact congr (congrArg (fun roles grants => { t.only u with roles, roleGrants := grants })
      filter_erase) filter_comm
  | putToggle row =>
    have there : (t.only u).roles.find? row.role = t.roles.find? row.role :=
      find?_filter_of fun r hr e => decide_eq_true (inside r hr e)
    simp only [step_putToggle, there]
    cases found : t.roles.find? row.role with
    | none => simp
    | some r =>
      obtain ⟨hr, e⟩ := find?_eq_some_iff.1 found
      simp only [Option.some.injEq, exists_eq_left']
      refine step_only_of Iff.rfl ?_
      refine congrArg (fun rows => { t.only u with roles := rows }) (filter_insert ?_)
      exact decide_eq_true (inside r hr e)
  | putMembership row =>
    have role : (t.only u).roles.contains row.role = t.roles.contains row.role :=
      contains_role_only fun r hr e => (congrArg t.tenantOf (fits r hr e)).trans inside
    simp only [step_putMembership, ← and_assoc, initiative inside, role]
    refine step_only_of Iff.rfl ?_
    refine congrArg (fun rows => { t.only u with memberships := rows }) (filter_insert ?_)
    exact decide_eq_true inside
  | removeMembership i p =>
    have there : (t.only u).memberships.contains (i, p) = t.memberships.contains (i, p) :=
      contains_filter_of fun m _ e => decide_eq_true ((Prod.mk.inj e).1 ▸ inside)
    simp only [step_removeMembership, there]
    refine step_only_of Iff.rfl ?_
    exact congrArg (fun rows => { t.only u with memberships := rows }) filter_erase
  | addResource row =>
    obtain rfl : row.tenant = u := inside
    have new : t.resources.contains row.id = false := new
    have free : (t.only row.tenant).resources.contains row.id = false := contains_filter_new new
    have there : (t.only row.tenant).initiatives.contains row.initiative =
        t.initiatives.contains row.initiative :=
      contains_initiative_only fun v hv => by
        obtain ⟨i, hi, e, rfl⟩ := tenantOf_iff.1 hv
        exact fits i hi e
    simp only [step_addResource, ← and_assoc, contains_tenant_only, there, new, free]
    refine step_only_of Iff.rfl ?_
    refine congrArg (fun rows => { t.only row.tenant with resources := rows }) (filter_insert ?_)
    exact decide_eq_true rfl
  | removeResource r =>
    simp only [step_removeResource, h.stored.removeResource, (h.only u).stored.removeResource]
    rw [contains_resource_only inside]
    refine step_only_of Iff.rfl ?_
    exact congr (congr (congrArg (fun resources users roles =>
      { t.only u with resources, userGrants := users, roleGrants := roles }) filter_erase)
      filter_comm) filter_comm
  | putUserGrant row =>
    simp only [step_putUserGrant, ← and_assoc,
      contains_resource_only fun x hx e => (fits x hx e).trans inside]
    refine step_only_of Iff.rfl ?_
    refine congrArg (fun rows => { t.only u with userGrants := rows }) (filter_insert ?_)
    exact decide_eq_true inside
  | removeUserGrant r p =>
    simp only [step_removeUserGrant, h.contains_userGrant_only inside]
    refine step_only_of Iff.rfl ?_
    exact congrArg (fun rows => { t.only u with userGrants := rows }) filter_erase
  | putRoleGrant row =>
    simp only [step_putRoleGrant, ← and_assoc]
    refine step_only_of (and_congr_left fun _ => ?_) ?_
    · rw [contains_resource_only fun x hx e => (fits x hx e).1.trans inside]
      refine and_congr_right fun stored => ?_
      -- the role lies in the initiative of the resource
      obtain ⟨x, hx, ex⟩ := contains_iff.1 stored
      obtain ⟨tenant, agrees⟩ := fits x hx ex
      rw [contains_role_only fun r hr e => by
        rw [agrees r hr e, h.tenantOf_resource hx, tenant]
        exact congrArg some inside]
    · refine congrArg (fun rows => { t.only u with roleGrants := rows }) (filter_insert ?_)
      exact decide_eq_true inside
  | removeRoleGrant r role =>
    simp only [step_removeRoleGrant, h.contains_roleGrant_only inside]
    refine step_only_of Iff.rfl ?_
    exact congrArg (fun rows => { t.only u with roleGrants := rows }) filter_erase

end Step

theorem SameOutside.only (h : SameOutside v t t') (hne : u ≠ v) : t'.only u = t.only u := by
  simp only [Tables.only, h.principals, h.tenants, h.members u hne, h.part u hne]

/-! ## All tenants -/

private theorem eq_of_slices {R K : Type} [Ranked K] [Keyed R K] {a b : Table R}
    {p q : TenantId → R → Bool} (ha : ∀ x ∈ a, ∃ u, p u x = true) (hb : ∀ x ∈ b, ∃ u, q u x = true)
    (same : ∀ u, a.filter (p u) = b.filter (q u)) : a = b := by
  refine ext_mem fun x => ⟨fun hx => ?_, fun hx => ?_⟩
  · obtain ⟨u, hu⟩ := ha x hx
    exact (mem_filter.1 (same u ▸ mem_filter.2 ⟨hx, hu⟩)).1
  · obtain ⟨u, hu⟩ := hb x hx
    exact (mem_filter.1 (same u ▸ mem_filter.2 ⟨hx, hu⟩)).1

private theorem exists_tenantOf (h : t.initiatives.contains i = true) :
    ∃ u, decide (t.tenantOf i = some u) = true := by
  obtain ⟨initiative, hi, e⟩ := contains_iff.1 h
  exact ⟨initiative.tenant, decide_eq_true (e ▸ tenantOf_mem hi)⟩

attribute [ext] Tables

/-- Every row but a principal lies in some tenant. -/
theorem Consistent.eq_of_only (h : t.Consistent) (h' : t'.Consistent)
    (same : ∀ u, t.only u = t'.only u) : t = t' := by
  have own {R : Type} {f : R → TenantId} (x : R) : ∃ u, decide (f x = u) = true :=
    ⟨f x, decide_eq_true rfl⟩
  have everyone : (t.only Id.least).principals = (t'.only Id.least).principals :=
    congrArg principals (same Id.least)
  refine Tables.ext ?_ everyone ?_ ?_ ?_ ?_ ?_ ?_ ?_
  · exact eq_of_slices (fun x _ => own x) (fun x _ => own x) fun u => congrArg tenants (same u)
  · exact eq_of_slices (fun x _ => own x) (fun x _ => own x)
      fun u => congrArg tenantMemberships (same u)
  · exact eq_of_slices (fun x _ => own x) (fun x _ => own x) fun u => congrArg initiatives (same u)
  · exact eq_of_slices (fun r hr => exists_tenantOf (h.stored.role r hr))
      (fun r hr => exists_tenantOf (h'.stored.role r hr)) fun u => congrArg roles (same u)
  · exact eq_of_slices (fun m hm => exists_tenantOf (h.stored.membership m hm).1)
      (fun m hm => exists_tenantOf (h'.stored.membership m hm).1)
      fun u => congrArg memberships (same u)
  · exact eq_of_slices (fun x _ => own x) (fun x _ => own x) fun u => congrArg resources (same u)
  · exact eq_of_slices (fun x _ => own x) (fun x _ => own x) fun u => congrArg userGrants (same u)
  · exact eq_of_slices (fun x _ => own x) (fun x _ => own x) fun u => congrArg roleGrants (same u)

end Tables

end Store

end TenantAccess
