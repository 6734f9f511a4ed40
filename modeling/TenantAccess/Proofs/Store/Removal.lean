import TenantAccess.Proofs.Store.Confinement

/-!
# Removing a row and all that depends on it

An initiative, a role or a resource can be thought away, and with it each row that refers to it, be it
through other rows. What is left fits together as before, and in the other tenants all is left.
-/

namespace TenantAccess.Store

/-- A row that has an identifier of its own and lies in a tenant. -/
inductive Target
  | initiative (id : InitiativeId)
  | role (id : RoleId)
  | resource (id : ResourceId)
  deriving DecidableEq

/-- How a row is called that is not found. -/
def Target.text : Target → String
  | initiative id => s!"initiative {id}"
  | role id => s!"role {id}"
  | resource id => s!"resource {id}"

namespace Tables

/-- The tenant that a row lies in, if there is the row. -/
def homeOf (t : Tables) : Target → Option TenantId
  | .initiative id => t.tenantOf id
  | .role id => (t.roles.find? id).bind fun r => t.tenantOf r.initiative
  | .resource id => (t.resources.find? id).map Resource.tenant

/-- The rows without a given one. With it goes each row that refers to one that goes. -/
def without (t : Tables) (target : Target) : Tables :=
  let initiatives := t.initiatives.filter fun i => target != .initiative i.id
  let roles := t.roles.filter fun r => target != .role r.id && initiatives.contains r.initiative
  let resources :=
    t.resources.filter fun x => target != .resource x.id && initiatives.contains x.initiative
  { t with
    initiatives
    roles
    memberships := t.memberships.filter fun m =>
      initiatives.contains m.initiative && roles.contains m.role
    resources
    userGrants := t.userGrants.filter fun g => resources.contains g.resource
    roleGrants := t.roleGrants.filter fun g => resources.contains g.resource && roles.contains g.role }

open Table

variable {t : Tables} {target : Target} {u : TenantId}

/-! ## What is left -/

section Members

variable {i : Initiative} {r : Role} {m : Membership} {x : Resource} {g : UserGrant} {g' : RoleGrant}

theorem mem_initiatives_without :
    i ∈ (t.without target).initiatives ↔ i ∈ t.initiatives ∧ target ≠ .initiative i.id :=
  mem_filter.trans (and_congr_right fun _ => bne_iff_ne)

theorem mem_roles_without : r ∈ (t.without target).roles ↔ r ∈ t.roles ∧ target ≠ .role r.id ∧
    (t.without target).initiatives.contains r.initiative = true :=
  mem_filter.trans (and_congr_right fun _ => by rw [Bool.and_eq_true, bne_iff_ne]; rfl)

theorem mem_memberships_without : m ∈ (t.without target).memberships ↔ m ∈ t.memberships ∧
    (t.without target).initiatives.contains m.initiative = true ∧
    (t.without target).roles.contains m.role = true :=
  mem_filter.trans (and_congr_right fun _ => by rw [Bool.and_eq_true]; rfl)

theorem mem_resources_without : x ∈ (t.without target).resources ↔ x ∈ t.resources ∧
    target ≠ .resource x.id ∧ (t.without target).initiatives.contains x.initiative = true :=
  mem_filter.trans (and_congr_right fun _ => by rw [Bool.and_eq_true, bne_iff_ne]; rfl)

theorem mem_userGrants_without : g ∈ (t.without target).userGrants ↔
    g ∈ t.userGrants ∧ (t.without target).resources.contains g.resource = true :=
  mem_filter

theorem mem_roleGrants_without : g' ∈ (t.without target).roleGrants ↔ g' ∈ t.roleGrants ∧
    (t.without target).resources.contains g'.resource = true ∧
    (t.without target).roles.contains g'.role = true :=
  mem_filter.trans (and_congr_right fun _ => by rw [Bool.and_eq_true]; rfl)

end Members

theorem homeOf_without : (t.without target).homeOf target = none := by
  cases target with
  | initiative id =>
    have gone : (t.without (.initiative id)).initiatives.find? id = none :=
      find?_eq_none_iff.2 fun i hi e => (mem_initiatives_without.1 hi).2 (congrArg _ e.symm)
    rw [homeOf, tenantOf, gone, Option.map_none]
  | role id =>
    have gone : (t.without (.role id)).roles.find? id = none :=
      find?_eq_none_iff.2 fun r hr e => (mem_roles_without.1 hr).2.1 (congrArg _ e.symm)
    rw [homeOf, gone, Option.bind_none]
  | resource id =>
    have gone : (t.without (.resource id)).resources.find? id = none :=
      find?_eq_none_iff.2 fun x hx e => (mem_resources_without.1 hx).2.1 (congrArg _ e.symm)
    rw [homeOf, gone, Option.map_none]

/-- What is left fits together: a row stays only with the rows that it refers to. -/
theorem Consistent.without (h : t.Consistent) (target : Target) : (t.without target).Consistent where
  stored :=
    { tenantMembership := h.stored.tenantMembership
      initiative := fun i hi => h.stored.initiative i (mem_initiatives_without.1 hi).1
      role := fun _ hr => (mem_roles_without.1 hr).2.2
      membership := fun m hm =>
        have ⟨hm, initiative, role⟩ := mem_memberships_without.1 hm
        ⟨initiative, (h.stored.membership m hm).2.1, role⟩
      resource := fun x hx =>
        have ⟨hx, _, initiative⟩ := mem_resources_without.1 hx
        ⟨initiative, (h.stored.resource x hx).2⟩
      userGrant := fun g hg =>
        have ⟨hg, resource⟩ := mem_userGrants_without.1 hg
        ⟨resource, (h.stored.userGrant g hg).2⟩
      roleGrant := fun _ hg => (mem_roleGrants_without.1 hg).2 }
  aligned :=
    { membership := fun m hm r hr =>
        h.aligned.membership m (mem_memberships_without.1 hm).1 r (mem_roles_without.1 hr).1
      resource := fun x hx i hi =>
        h.aligned.resource x (mem_resources_without.1 hx).1 i (mem_initiatives_without.1 hi).1
      userGrant := fun g hg x hx =>
        h.aligned.userGrant g (mem_userGrants_without.1 hg).1 x (mem_resources_without.1 hx).1
      roleGrant := fun g hg x hx e =>
        have ⟨tenant, agree⟩ :=
          h.aligned.roleGrant g (mem_roleGrants_without.1 hg).1 x (mem_resources_without.1 hx).1 e
        ⟨tenant, fun r hr => agree r (mem_roles_without.1 hr).1⟩
      toggles := fun r hr => h.aligned.toggles r (mem_roles_without.1 hr).1 }

/-! ## Other tenants -/

section Elsewhere

/-! In a tenant other than that of the row, every row stays. -/

variable (apart : t.homeOf target ≠ some u)

include apart

theorem initiative_stays {i : Initiative} (hi : i ∈ t.initiatives) (hu : i.tenant = u) :
    i ∈ (t.without target).initiatives := by
  refine mem_initiatives_without.2 ⟨hi, ?_⟩
  rintro rfl
  exact apart (hu ▸ tenantOf_mem hi)

theorem tenantOf_without {i : InitiativeId} :
    (t.without target).tenantOf i = some u ↔ t.tenantOf i = some u := by
  have found {t : Tables} : t.tenantOf i = some u ↔ ∃ x ∈ t.initiatives, x.id = i ∧ x.tenant = u := by
    simp only [tenantOf, Option.map_eq_some_iff, find?_eq_some_iff, key_initiative, and_assoc]
  rw [found, found]
  constructor
  · rintro ⟨x, hx, e⟩
    exact ⟨x, (mem_initiatives_without.1 hx).1, e⟩
  · rintro ⟨x, hx, e, hu⟩
    exact ⟨x, initiative_stays apart hx hu, e, hu⟩

theorem contains_initiative_without {i : InitiativeId} (hi : t.tenantOf i = some u) :
    (t.without target).initiatives.contains i = true := by
  have hi := (tenantOf_without apart).2 hi
  rw [tenantOf, Option.map_eq_some_iff] at hi
  obtain ⟨x, found, _⟩ := hi
  exact contains_iff.2 ⟨x, find?_eq_some_iff.1 found⟩

theorem role_stays {r : Role} (hr : r ∈ t.roles) (hu : t.tenantOf r.initiative = some u) :
    r ∈ (t.without target).roles := by
  refine mem_roles_without.2 ⟨hr, ?_, contains_initiative_without apart hu⟩
  rintro rfl
  have found : t.roles.find? r.id = some r := find?_eq_some_iff.2 ⟨hr, rfl⟩
  exact apart (by rw [homeOf, found, Option.bind_some, hu])

theorem Consistent.resource_stays (h : t.Consistent) {x : Resource} (hx : x ∈ t.resources)
    (hu : x.tenant = u) : x ∈ (t.without target).resources := by
  have home : t.tenantOf x.initiative = some u := hu ▸ h.tenantOf_resource hx
  refine mem_resources_without.2 ⟨hx, ?_, contains_initiative_without apart home⟩
  rintro rfl
  have found : t.resources.find? x.id = some x := find?_eq_some_iff.2 ⟨hx, rfl⟩
  exact apart (by rw [homeOf, found, Option.map_some, hu])

theorem Consistent.membership_stays (h : t.Consistent) {m : Membership} (hm : m ∈ t.memberships)
    (hu : t.tenantOf m.initiative = some u) : m ∈ (t.without target).memberships := by
  obtain ⟨r, hr, e⟩ := contains_iff.1 (h.stored.membership m hm).2.2
  have home : t.tenantOf r.initiative = some u := h.aligned.membership m hm r hr e ▸ hu
  exact mem_memberships_without.2 ⟨hm, contains_initiative_without apart hu,
    contains_iff.2 ⟨r, role_stays apart hr home, e⟩⟩

theorem Consistent.userGrant_stays (h : t.Consistent) {g : UserGrant} (hg : g ∈ t.userGrants)
    (hu : g.tenant = u) : g ∈ (t.without target).userGrants := by
  obtain ⟨x, hx, e, tenant⟩ := h.tenant_userGrant hg
  exact mem_userGrants_without.2 ⟨hg,
    contains_iff.2 ⟨x, h.resource_stays apart hx (tenant.trans hu), e⟩⟩

theorem Consistent.roleGrant_stays (h : t.Consistent) {g : RoleGrant} (hg : g ∈ t.roleGrants)
    (hu : g.tenant = u) : g ∈ (t.without target).roleGrants := by
  obtain ⟨x, hx, ex, tenant⟩ := h.tenant_roleGrant hg
  obtain ⟨r, hr, er⟩ := contains_iff.1 (h.stored.roleGrant g hg).2
  have home : t.tenantOf r.initiative = some u := by
    rw [(h.aligned.roleGrant g hg x hx ex).2 r hr er, h.tenantOf_resource hx, tenant, hu]
  exact mem_roleGrants_without.2 ⟨hg,
    contains_iff.2 ⟨x, h.resource_stays apart hx (tenant.trans hu), ex⟩,
    contains_iff.2 ⟨r, role_stays apart hr home, er⟩⟩

theorem Consistent.part_without (h : t.Consistent) : (t.without target).part u = t.part u := by
  have home {i : InitiativeId} : decide ((t.without target).tenantOf i = some u) =
      decide (t.tenantOf i = some u) := decide_eq_decide.2 (tenantOf_without apart)
  refine Part.ext rfl ?_ ?_ ?_ ?_ ?_ ?_
  · exact filter_filter_of fun i hi hu =>
      (mem_filter.1 (initiative_stays apart hi (of_decide_eq_true hu))).2
  · simp only [part, home]
    exact filter_filter_of fun r hr hu =>
      (mem_filter.1 (role_stays apart hr (of_decide_eq_true hu))).2
  · simp only [part, home]
    exact filter_filter_of fun m hm hu =>
      (mem_filter.1 (h.membership_stays apart hm (of_decide_eq_true hu))).2
  · exact filter_filter_of fun x hx hu =>
      (mem_filter.1 (h.resource_stays apart hx (of_decide_eq_true hu))).2
  · exact filter_filter_of fun g hg hu =>
      (mem_filter.1 (h.userGrant_stays apart hg (of_decide_eq_true hu))).2
  · exact filter_filter_of fun g hg hu =>
      (mem_filter.1 (h.roleGrant_stays apart hg (of_decide_eq_true hu))).2

end Elsewhere

end Tables

end TenantAccess.Store
