import TenantAccess.Proofs.Store.Consistency

/-!
# Changes inside one tenant

The rows of a tenant, and which changes concern a tenant. A fitting change that concerns one tenant
leaves the principals, the tenants and the rows of every other tenant as they were, and so does a
sequence of such changes.
-/

namespace TenantAccess

open Keyed

/-! ## Rows that are selected -/

namespace Table

variable {R K : Type} [Ranked K] [Keyed R K] {t : Table R} {r : R} {k : K} {p : R → Bool}

theorem filter_insert_of (hr : p r = false) (ht : ∀ x ∈ t, key x = key r → p x = false) :
    (t.insert r).filter p = t.filter p := by
  refine ext_mem fun x => ?_
  rw [mem_filter, mem_filter, mem_insert]
  constructor
  · rintro ⟨rfl | ⟨hx, _⟩, hp⟩
    · rw [hr] at hp
      cases hp
    · exact ⟨hx, hp⟩
  · rintro ⟨hx, hp⟩
    refine ⟨Or.inr ⟨hx, fun e => ?_⟩, hp⟩
    rw [ht x hx e] at hp
    cases hp

theorem filter_erase_of (ht : ∀ x ∈ t, key x = k → p x = false) :
    (t.erase k).filter p = t.filter p := by
  refine ext_mem fun x => ?_
  rw [mem_filter, mem_filter, mem_erase]
  constructor
  · rintro ⟨⟨hx, _⟩, hp⟩
    exact ⟨hx, hp⟩
  · rintro ⟨hx, hp⟩
    refine ⟨⟨hx, fun e => ?_⟩, hp⟩
    rw [ht x hx e] at hp
    cases hp

theorem filter_filter_of {q : R → Bool} (ht : ∀ x ∈ t, p x = true → q x = true) :
    (t.filter q).filter p = t.filter p := by
  refine ext_mem fun x => ?_
  rw [mem_filter, mem_filter, mem_filter]
  exact ⟨fun ⟨⟨hx, _⟩, hp⟩ => ⟨hx, hp⟩, fun ⟨hx, hp⟩ => ⟨⟨hx, ht x hx hp⟩, hp⟩⟩

theorem filter_congr {q : R → Bool} (ht : ∀ x ∈ t, p x = q x) : t.filter p = t.filter q := by
  refine ext_mem fun x => ?_
  rw [mem_filter, mem_filter]
  exact and_congr_right fun hx => by rw [ht x hx]

end Table

/-! ## Parts of a store -/

namespace Store

/-- The rows that belong to one tenant: its own row, its initiatives with their roles and members,
and its resources with their grants. -/
@[ext] structure Part where
  tenant : Option Tenant
  initiatives : Table Initiative
  roles : Table Role
  memberships : Table Membership
  resources : Table Resource
  userGrants : Table UserGrant
  roleGrants : Table RoleGrant
  deriving DecidableEq

namespace Tables

/-- The tenant of an initiative. -/
def tenantOf (t : Tables) (i : InitiativeId) : Option TenantId :=
  (t.initiatives.find? i).map Initiative.tenant

/-- The part of the rows that belongs to a tenant. -/
def part (t : Tables) (u : TenantId) : Part where
  tenant := t.tenants.find? u
  initiatives := t.initiatives.filter fun i => i.tenant = u
  roles := t.roles.filter fun r => t.tenantOf r.initiative = some u
  memberships := t.memberships.filter fun m => t.tenantOf m.initiative = some u
  resources := t.resources.filter fun r => r.tenant = u
  userGrants := t.userGrants.filter fun g => g.tenant = u
  roleGrants := t.roleGrants.filter fun g => g.tenant = u

/-- The members of a tenant. -/
def membersOf (t : Tables) (u : TenantId) : Table TenantMembership :=
  t.tenantMemberships.filter fun m => m.tenant = u

/-- All rows outside one tenant are the same. -/
structure SameOutside (u : TenantId) (t t' : Tables) : Prop where
  principals : t'.principals = t.principals
  tenants : t'.tenants = t.tenants
  members : ∀ v, v ≠ u → t'.membersOf v = t.membersOf v
  part : ∀ v, v ≠ u → t'.part v = t.part v

end Tables

/-- A change concerns rows of one tenant only. -/
def Change.Concerns (t : Tables) (u : TenantId) : Change → Prop
  | .addTenant _ | .putPrincipal _ => False
  | .putTenantMembership row => row.tenant = u
  | .removeTenantMembership tenant _ => tenant = u
  | .addInitiative row => row.tenant = u
  | .putRole row => t.tenantOf row.initiative = some u
  | .removeRole r => ∀ role ∈ t.roles, role.id = r → t.tenantOf role.initiative = some u
  | .putToggle row => ∀ role ∈ t.roles, role.id = row.role → t.tenantOf role.initiative = some u
  | .putMembership row => t.tenantOf row.initiative = some u
  | .removeMembership i _ => t.tenantOf i = some u
  | .addResource row => row.tenant = u
  | .removeResource r => ∀ x ∈ t.resources, x.id = r → x.tenant = u
  | .putUserGrant row => row.tenant = u
  | .removeUserGrant r _ => ∀ x ∈ t.resources, x.id = r → x.tenant = u
  | .putRoleGrant row => row.tenant = u
  | .removeRoleGrant r _ => ∀ x ∈ t.resources, x.id = r → x.tenant = u

/-! ## Changes within a tenant -/

namespace Tables

variable {t t' t'' : Tables} {c : Change} {hit : Bool} {u v : TenantId}

open Table

theorem SameOutside.refl (t : Tables) : SameOutside u t t :=
  ⟨rfl, rfl, fun _ _ => rfl, fun _ _ => rfl⟩

theorem SameOutside.trans (h : SameOutside u t t') (h' : SameOutside u t' t'') :
    SameOutside u t t'' where
  principals := h'.principals.trans h.principals
  tenants := h'.tenants.trans h.tenants
  members v hv := (h'.members v hv).trans (h.members v hv)
  part v hv := (h'.part v hv).trans (h.part v hv)

theorem tenantOf_found {id : InitiativeId} {i : Initiative} (found : t.initiatives.find? id = some i) :
    t.tenantOf id = some i.tenant := by
  rw [tenantOf, found, Option.map_some]

theorem tenantOf_mem {i : Initiative} (hi : i ∈ t.initiatives) : t.tenantOf i.id = some i.tenant :=
  tenantOf_found (find?_eq_some_iff.2 ⟨hi, rfl⟩)

theorem Consistent.tenantOf_resource (h : t.Consistent) {x : Resource} (hx : x ∈ t.resources) :
    t.tenantOf x.initiative = some x.tenant := by
  obtain ⟨i, hi, e⟩ := contains_iff.1 (h.stored.resource x hx).1
  rw [← e, key_initiative, tenantOf_mem hi, h.aligned.resource x hx i hi e]

theorem Consistent.tenant_userGrant (h : t.Consistent) {g : UserGrant} (hg : g ∈ t.userGrants) :
    ∃ x ∈ t.resources, x.id = g.resource ∧ x.tenant = g.tenant := by
  obtain ⟨x, hx, e⟩ := contains_iff.1 (h.stored.userGrant g hg).1
  exact ⟨x, hx, e, h.aligned.userGrant g hg x hx e⟩

theorem Consistent.tenant_roleGrant (h : t.Consistent) {g : RoleGrant} (hg : g ∈ t.roleGrants) :
    ∃ x ∈ t.resources, x.id = g.resource ∧ x.tenant = g.tenant := by
  obtain ⟨x, hx, e⟩ := contains_iff.1 (h.stored.roleGrant g hg).1
  exact ⟨x, hx, e, (h.aligned.roleGrant g hg x hx e).1⟩

private theorem other {a : Option TenantId} (h : a = some u) (hv : v ≠ u) :
    decide (a = some v) = false :=
  decide_eq_false fun e => hv (Option.some.inj (e.symm.trans h))

private theorem otherTenant {a : TenantId} (h : a = u) (hv : v ≠ u) : decide (a = v) = false :=
  decide_eq_false fun e => hv (e.symm.trans h)

/-- A fitting change that concerns one tenant leaves all rows outside it as they were. -/
theorem SameOutside.step (h : t.Consistent) (fits : c.Fits t) (inside : c.Concerns t u)
    (hc : Tables.step c t = .ok (hit, t')) : SameOutside u t t' := by
  cases c with
  | addTenant row => exact inside.elim
  | putPrincipal row => exact inside.elim
  | putTenantMembership row =>
    obtain ⟨_, _, _, rfl⟩ := step_putTenantMembership.1 hc
    refine ⟨rfl, rfl, fun v hv => ?_, fun _ _ => rfl⟩
    exact filter_insert_of (otherTenant inside hv) fun x _ e =>
      otherTenant ((Prod.mk.inj e).1.trans inside) hv
  | removeTenantMembership tenant p =>
    obtain ⟨_, rfl⟩ := step_removeTenantMembership.1 hc
    refine ⟨rfl, rfl, fun v hv => ?_, fun _ _ => rfl⟩
    exact filter_erase_of fun x _ e => otherTenant ((Prod.mk.inj e).1.trans inside) hv
  | addInitiative row =>
    obtain ⟨_, free, _, rfl⟩ := step_addInitiative.1 hc
    -- nothing lies in the new initiative yet
    have same {i : InitiativeId} (hi : t.initiatives.contains i = true) :
        tenantOf { t with initiatives := t.initiatives.insert row } i = t.tenantOf i := by
      have hne : i ≠ row.id := fun e => by
        rw [e, free] at hi
        cases hi
      simp only [tenantOf, find?_insert, key_initiative, if_neg hne]
    refine ⟨rfl, rfl, fun _ _ => rfl, fun v hv => Part.ext rfl ?_ ?_ ?_ rfl rfl rfl⟩
    · refine filter_insert_of (otherTenant inside hv) fun x hx e => ?_
      exact absurd e (not_contains_iff.1 free x hx)
    · exact filter_congr fun r hr => by rw [same (h.stored.role r hr)]
    · exact filter_congr fun m hm => by rw [same (h.stored.membership m hm).1]
  | putRole row =>
    obtain ⟨_, _, _, rfl⟩ := step_putRole.1 hc
    refine ⟨rfl, rfl, fun _ _ => rfl, fun v hv => Part.ext rfl rfl ?_ rfl rfl rfl rfl⟩
    refine filter_insert_of (other inside hv) fun x hx e => ?_
    rw [fits.2 x hx e]
    exact other inside hv
  | removeRole r =>
    obtain ⟨_, _, rfl⟩ := step_removeRole.1 hc
    rw [h.stored.removeRole r]
    refine ⟨rfl, rfl, fun _ _ => rfl, fun v hv => Part.ext rfl rfl ?_ rfl rfl rfl ?_⟩
    · exact filter_erase_of fun x hx e => other (inside x hx e) hv
    · refine filter_filter_of fun g hg hp => bne_iff_ne.2 ?_
      rintro rfl
      -- a grant to the role is a grant on a resource of its initiative
      obtain ⟨x, hx, ex, et⟩ := h.tenant_roleGrant hg
      obtain ⟨role, hrole, er⟩ := contains_iff.1 (h.stored.roleGrant g hg).2
      have hi := (h.aligned.roleGrant g hg x hx ex).2 role hrole er
      have htenant := inside role hrole er
      rw [hi, h.tenantOf_resource hx, et] at htenant
      exact hv ((of_decide_eq_true hp).symm.trans (Option.some.inj htenant))
  | putToggle row =>
    obtain ⟨_, r, hr, rfl⟩ := step_putToggle.1 hc
    obtain ⟨hr, er⟩ := find?_eq_some_iff.1 hr
    refine ⟨rfl, rfl, fun _ _ => rfl, fun v hv => Part.ext rfl rfl ?_ rfl rfl rfl rfl⟩
    have hrole := inside r hr er
    refine filter_insert_of (other hrole hv) fun x hx e => ?_
    rw [eq_of_key hx hr e]
    exact other hrole hv
  | putMembership row =>
    obtain ⟨_, _, _, _, rfl⟩ := step_putMembership.1 hc
    refine ⟨rfl, rfl, fun _ _ => rfl, fun v hv => Part.ext rfl rfl rfl ?_ rfl rfl rfl⟩
    refine filter_insert_of (other inside hv) fun x _ e => ?_
    rw [(Prod.mk.inj e).1]
    exact other inside hv
  | removeMembership i p =>
    obtain ⟨_, rfl⟩ := step_removeMembership.1 hc
    refine ⟨rfl, rfl, fun _ _ => rfl, fun v hv => Part.ext rfl rfl rfl ?_ rfl rfl rfl⟩
    refine filter_erase_of fun x _ e => ?_
    rw [(Prod.mk.inj e).1]
    exact other inside hv
  | addResource row =>
    obtain ⟨_, _, free, _, rfl⟩ := step_addResource.1 hc
    refine ⟨rfl, rfl, fun _ _ => rfl, fun v hv => Part.ext rfl rfl rfl rfl ?_ rfl rfl⟩
    refine filter_insert_of (otherTenant inside hv) fun x hx e => ?_
    exact absurd e (not_contains_iff.1 free x hx)
  | removeResource r =>
    obtain ⟨_, rfl⟩ := step_removeResource.1 hc
    rw [h.stored.removeResource r]
    refine ⟨rfl, rfl, fun _ _ => rfl, fun v hv => Part.ext rfl rfl rfl rfl ?_ ?_ ?_⟩
    · exact filter_erase_of fun x hx e => otherTenant (inside x hx e) hv
    · refine filter_filter_of fun g hg hp => bne_iff_ne.2 ?_
      rintro rfl
      obtain ⟨x, hx, ex, et⟩ := h.tenant_userGrant hg
      exact hv ((of_decide_eq_true hp).symm.trans (et.symm.trans (inside x hx ex)))
    · refine filter_filter_of fun g hg hp => bne_iff_ne.2 ?_
      rintro rfl
      obtain ⟨x, hx, ex, et⟩ := h.tenant_roleGrant hg
      exact hv ((of_decide_eq_true hp).symm.trans (et.symm.trans (inside x hx ex)))
  | putUserGrant row =>
    obtain ⟨_, _, _, rfl⟩ := step_putUserGrant.1 hc
    refine ⟨rfl, rfl, fun _ _ => rfl, fun v hv => Part.ext rfl rfl rfl rfl rfl ?_ rfl⟩
    refine filter_insert_of (otherTenant inside hv) fun g hg e => ?_
    obtain ⟨x, hx, ex, et⟩ := h.tenant_userGrant hg
    have hx' := fits x hx (ex.trans (Prod.mk.inj e).1)
    exact otherTenant (et.symm.trans (hx'.trans inside)) hv
  | removeUserGrant r p =>
    obtain ⟨_, rfl⟩ := step_removeUserGrant.1 hc
    refine ⟨rfl, rfl, fun _ _ => rfl, fun v hv => Part.ext rfl rfl rfl rfl rfl ?_ rfl⟩
    refine filter_erase_of fun g hg e => ?_
    obtain ⟨x, hx, ex, et⟩ := h.tenant_userGrant hg
    exact otherTenant (et.symm.trans (inside x hx (ex.trans (Prod.mk.inj e).1))) hv
  | putRoleGrant row =>
    obtain ⟨_, _, _, rfl⟩ := step_putRoleGrant.1 hc
    refine ⟨rfl, rfl, fun _ _ => rfl, fun v hv => Part.ext rfl rfl rfl rfl rfl rfl ?_⟩
    refine filter_insert_of (otherTenant inside hv) fun g hg e => ?_
    obtain ⟨x, hx, ex, et⟩ := h.tenant_roleGrant hg
    have hx' := (fits x hx (ex.trans (Prod.mk.inj e).1)).1
    exact otherTenant (et.symm.trans (hx'.trans inside)) hv
  | removeRoleGrant r role =>
    obtain ⟨_, rfl⟩ := step_removeRoleGrant.1 hc
    refine ⟨rfl, rfl, fun _ _ => rfl, fun v hv => Part.ext rfl rfl rfl rfl rfl rfl ?_⟩
    refine filter_erase_of fun g hg e => ?_
    obtain ⟨x, hx, ex, et⟩ := h.tenant_roleGrant hg
    exact otherTenant (et.symm.trans (inside x hx (ex.trans (Prod.mk.inj e).1))) hv

end Tables

end Store

end TenantAccess
