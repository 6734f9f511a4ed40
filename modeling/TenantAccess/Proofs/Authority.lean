import TenantAccess.Proofs.Isolation
import TenantAccess.Proofs.Ownership

/-!
# Who may change what

Which rows make a principal an administrator of the platform, of a tenant or of an initiative. A
caller that passes a check has the right by the stored rows, and no command changes a row that takes
a right without it.
-/

namespace TenantAccess

open Store (Tables)
open Store.Backend (ask)
open Transaction Table

/-! ## Rights over rows -/

namespace Store.Tables

/-- The principal is an administrator of the platform. -/
def PlatformAdmin (t : Tables) (p : PrincipalId) : Prop :=
  ∃ row ∈ t.principals, row.id = p ∧ row.isPlatformAdmin = true

/-- The principal is an administrator of the tenant itself. -/
def TenantAdmin (t : Tables) (u : TenantId) (p : PrincipalId) : Prop :=
  ∃ m ∈ t.tenantMemberships, m.tenant = u ∧ m.principal = p ∧ m.role.isAdmin = true

/-- The principal holds a manager role in the initiative. -/
def Manages (t : Tables) (i : InitiativeId) (p : PrincipalId) : Prop :=
  ∃ m ∈ t.memberships, m.initiative = i ∧ m.principal = p ∧
    ∃ r ∈ t.roles, r.id = m.role ∧ r.isManager = true

/-- The principal may administer the tenant. -/
def Administers (t : Tables) (u : TenantId) (p : PrincipalId) : Prop :=
  t.PlatformAdmin p ∨ t.TenantAdmin u p

/-- The principal may administer an initiative of the tenant. -/
def Leads (t : Tables) (u : TenantId) (i : InitiativeId) (p : PrincipalId) : Prop :=
  t.Administers u p ∨ t.Manages i p

/-- The rows `t'` differ from `t` only where the principal has a right by `t` to change them in the
tenant. Grants to principals are left out. -/
structure Governed (t : Tables) (u : TenantId) (p : PrincipalId) (t' : Tables) : Prop where
  principals : t'.principals = t.principals
  tenantMembers : t.Administers u p ∨ t'.tenantMemberships = t.tenantMemberships
  initiatives : t.Administers u p ∨ t'.initiatives = t.initiatives
  roles : ∀ i, t.Leads u i p ∨ ∀ r, r.initiative = i → (r ∈ t'.roles ↔ r ∈ t.roles)
  /-- Members may end their own membership. -/
  members : ∀ i, t.Leads u i p ∨ ∀ m, m.initiative = i →
    (m ∈ t'.memberships → m ∈ t.memberships) ∧
      (m ∈ t.memberships → m.principal ≠ p → m ∈ t'.memberships)
  resources : ∀ x ∈ t.resources, t.levelOn x p = some .owner ∨ x ∈ t'.resources
  /-- Nobody alters a resource. -/
  unaltered : ∀ x ∈ t'.resources, x ∈ t.resources ∨ t.resources.contains x.id = false
  /-- Grants to a role that nobody holds go with the role. -/
  roleGrants : ∀ x ∈ t.resources, x ∈ t'.resources → t.levelOn x p = some .owner ∨
    ∀ g, g.resource = x.id → (g ∈ t'.roleGrants → g ∈ t.roleGrants) ∧
      (g ∈ t.roleGrants → g ∈ t'.roleGrants ∨
        t'.roles.contains g.role = false ∧ ∀ m ∈ t.memberships, m.role ≠ g.role)

variable {t t' : Tables} {u : TenantId} {p : PrincipalId} {i : InitiativeId}

instance : Decidable (t.PlatformAdmin p) :=
  inferInstanceAs (Decidable (∃ row ∈ t.principals.rows, row.id = p ∧ row.isPlatformAdmin = true))

instance : Decidable (t.TenantAdmin u p) :=
  inferInstanceAs (Decidable (∃ m ∈ t.tenantMemberships.rows,
    m.tenant = u ∧ m.principal = p ∧ m.role.isAdmin = true))

instance : Decidable (t.Manages i p) :=
  inferInstanceAs (Decidable (∃ m ∈ t.memberships.rows, m.initiative = i ∧ m.principal = p ∧
    ∃ r ∈ t.roles.rows, r.id = m.role ∧ r.isManager = true))

theorem Governed.refl (t : Tables) : t.Governed u p t where
  principals := rfl
  tenantMembers := Or.inr rfl
  initiatives := Or.inr rfl
  roles _ := Or.inr fun _ _ => Iff.rfl
  members _ := Or.inr fun _ _ => ⟨id, fun hm _ => hm⟩
  resources _ hx := Or.inr hx
  unaltered _ hx := Or.inl hx
  roleGrants _ _ _ := Or.inr fun _ _ => ⟨id, Or.inl⟩

/-- Grants to principals are left out. -/
theorem Governed.regrant (h : t.Governed u p t') (grants : Table UserGrant) :
    t.Governed u p (t'.regrant grants) := { h with }

end Store.Tables

/-! ## Rights that a scope checks -/

section Rights

variable {t : Tables} {scope : Scope} {settings : Settings} {caller : Caller}

/-- The scope has no right to manage its tenant that the stored rows do not give. -/
def Scope.Backed (scope : Scope) (t : Tables) : Prop :=
  scope.mayManage = true → t.Administers scope.tenant scope.principal.id

theorem Caller.scope_backed (h : caller.scope settings t = .ok scope) :
    scope.principal.id = caller.principal ∧ scope.tenant = caller.tenant ∧ scope.Backed t := by
  obtain ⟨principal, found, same, tenant, _⟩ := Caller.scope_eq_ok h
  obtain ⟨hp, e⟩ := find?_eq_some_iff.1 found
  have id := Caller.scope_principal h
  refine ⟨id, tenant, fun may => ?_⟩
  rw [id, tenant]
  simp only [Scope.mayManage, Bool.or_eq_true] at may
  rcases may with admin | platform
  · refine Or.inr ?_
    simp only [Caller.scope, bind_eq_ok, found_eq_ok, ask_principal, ask_tenant,
      ask_tenantMembershipsBy, lift_refusal_eq_ok] at h
    obtain ⟨_, _, _, _, entered⟩ := h
    simp only [Scope.enter] at entered
    split at entered
    · cases entered
    · obtain rfl := Except.ok.inj entered
      simp only [Scope.administers, Option.any_map, Option.any_eq_true] at admin
      obtain ⟨m, listed, admin⟩ := admin
      have hu := List.find?_some listed
      obtain ⟨hm, own⟩ := List.mem_filter.1 (List.mem_of_find?_eq_some listed)
      exact ⟨m, (List.mem_filter.1 hm).1, of_decide_eq_true hu, (of_decide_eq_true own).trans id,
        admin⟩
  · exact Or.inl ⟨principal, hp, e, same ▸ platform⟩

namespace Scope

theorem isManagerOf_iff {i : InitiativeId} :
    scope.isManagerOf t i = true ↔ t.Manages i scope.principal.id := by
  simp only [isManagerOf, Store.heldRole, ask_membership, ask_role]
  constructor
  · intro h
    cases found : t.memberships.find? (i, scope.principal.id) with
    | none =>
      rw [found] at h
      cases h
    | some m =>
      rw [found, Option.any_eq_true] at h
      obtain ⟨r, held, manages⟩ := h
      obtain ⟨hm, e⟩ := find?_eq_some_iff.1 found
      obtain ⟨hr, er⟩ := find?_eq_some_iff.1 held
      exact ⟨m, hm, (Prod.mk.inj e).1, (Prod.mk.inj e).2, r, hr, er, manages⟩
  · rintro ⟨m, hm, rfl, e, r, hr, er, manages⟩
    have found : t.memberships.find? (m.initiative, scope.principal.id) = some m :=
      find?_eq_some_iff.2 ⟨hm, Prod.ext rfl e⟩
    have held : t.roles.find? m.role = some r := find?_eq_some_iff.2 ⟨hr, er⟩
    rw [found]
    exact (Option.any_eq_true _ _).2 ⟨r, held, manages⟩

/-- Who may change an initiative has the right by the stored rows. -/
theorem Backed.leads (h : scope.Backed t) {i : InitiativeId}
    (may : scope.mayManage = true ∨ scope.isManagerOf t i = true) :
    t.Leads scope.tenant i scope.principal.id :=
  may.imp h isManagerOf_iff.1

theorem Backed.leads_managed (h : scope.Backed t) {id : InitiativeId} {i : Initiative}
    (managed : scope.managedInitiative t id = .ok i) :
    i.id = id ∧ t.Leads scope.tenant i.id scope.principal.id := by
  obtain ⟨found, _, _, may⟩ := managedInitiative_eq_ok.1 managed
  exact ⟨(find?_eq_some_iff.1 found).2, h.leads may⟩

theorem Backed.leads_managedRole (h : scope.Backed t) {id : RoleId} {role : Role} {i : Initiative}
    (managed : scope.managedRole t id = .ok (role, i)) :
    t.Leads scope.tenant role.initiative scope.principal.id := by
  obtain ⟨_, found, _, _, may⟩ := managedRole_eq_ok.1 managed
  have e : i.id = role.initiative := (find?_eq_some_iff.1 found).2
  exact e ▸ h.leads may

theorem levelAtLeast_owner {id : ResourceId} {acl : Acl} {held : Level}
    (h : scope.levelAtLeast t id .owner = .ok (acl, held)) :
    t.levelOn acl.resource scope.principal.id = some .owner := by
  obtain ⟨x, _, _, hacl, _, demanded⟩ := levelAtLeast_ok h
  obtain ⟨_, _, rfl⟩ := Store.aclOf_eq_ok.1 hacl
  rw [roleThere_eq, Acl.demand, ← Tables.levelOn_eq] at demanded
  split at demanded
  · rename_i level effective
    split at demanded
    · rename_i meets
      refine effective.trans ?_
      cases level with
      | owner => rfl
      | read | write => cases meets
    · cases demanded
  · cases demanded

end Scope

end Rights

theorem Succession.leaveEach_store {f f' : Frame Tables} {p : PrincipalId} {l : List Initiative}
    {reports : List HandoverReport}
    (h : l.mapM (fun i => leaveInitiative p i.id) f = (.ok reports, f')) :
    ∃ memberships userGrants, f'.store = { f.store with memberships, userGrants } := by
  induction l generalizing f reports with
  | nil =>
    simp only [List.mapM_nil, pure_ok] at h
    exact ⟨f.store.memberships, f.store.userGrants, by rw [h.2]⟩
  | cons i rest ih =>
    obtain ⟨_, f₁, reports, h₁, hrest, _⟩ := mapM_cons_ok.1 h
    obtain ⟨grants, e⟩ := leaveInitiative_store h₁
    obtain ⟨memberships, userGrants, e'⟩ := ih hrest
    exact ⟨memberships, userGrants, by rw [e', e]; rfl⟩

/-! ## Commands -/

namespace Administration

open Store.Tables (Governed)

variable {f f' : Frame Tables} {scope : Scope} {settings : Settings}

section Writes

variable {t : Tables} {u : TenantId} {p : PrincipalId}

/-- An administrator may change all rows but principals, resources and grants to roles. -/
theorem governed_of_admin {t' : Tables} (admin : t.Administers u p)
    (principals : t'.principals = t.principals) (resources : t'.resources = t.resources)
    (roleGrants : t'.roleGrants = t.roleGrants) : t.Governed u p t' where
  principals := principals
  tenantMembers := Or.inl admin
  initiatives := Or.inl admin
  roles _ := Or.inl (Or.inl admin)
  members _ := Or.inl (Or.inl admin)
  resources _ hx := Or.inr (resources ▸ hx)
  unaltered _ hx := Or.inl (resources ▸ hx)
  roleGrants _ _ _ := Or.inr fun _ _ =>
    ⟨fun hg => roleGrants ▸ hg, fun hg => Or.inl (roleGrants ▸ hg)⟩

theorem governed_insertRole {new : Role} (leads : t.Leads u new.initiative p)
    (same : ∀ r ∈ t.roles, r.id = new.id → r.initiative = new.initiative) :
    t.Governed u p { t with roles := t.roles.insert new } :=
  { Governed.refl t with
    roles := fun i => by
      by_cases hi : new.initiative = i
      · exact Or.inl (hi ▸ leads)
      · refine Or.inr fun r hr => ?_
        have hne : r ≠ new := fun e => hi (e ▸ hr)
        rw [mem_insert, or_iff_right hne]
        exact and_iff_left_of_imp fun hmem e => hi ((same r hmem e).symm.trans hr)
    roleGrants := fun _ _ _ => Or.inr fun _ _ => ⟨id, Or.inl⟩ }

/-- A role that nobody holds goes with the grants to it. -/
theorem governed_eraseRole {role : Role} (hrole : role ∈ t.roles)
    (leads : t.Leads u role.initiative p) (unheld : ∀ m ∈ t.memberships, m.role ≠ role.id) :
    t.Governed u p { t with
      roles := t.roles.erase role.id
      roleGrants := t.roleGrants.filter fun g => g.role != role.id } :=
  { Governed.refl t with
    roles := fun i => by
      by_cases hi : role.initiative = i
      · exact Or.inl (hi ▸ leads)
      · refine Or.inr fun r hr => mem_erase.trans (and_iff_left_of_imp fun hmem e => hi ?_)
        rw [← hr, eq_of_key hmem hrole e]
    roleGrants := fun _ _ _ => Or.inr fun g _ => ⟨fun kept => (mem_filter.1 kept).1, fun had => by
      -- a grant that is gone is one to the role
      by_cases held : g.role = role.id
      · rw [held]
        exact Or.inr ⟨not_contains_iff.2 fun r hr => (mem_erase.1 hr).2, unheld⟩
      · exact Or.inl (mem_filter.2 ⟨had, bne_iff_ne.2 held⟩)⟩ }

theorem governed_insertMembership {new : Membership} (leads : t.Leads u new.initiative p) :
    t.Governed u p { t with memberships := t.memberships.insert new } :=
  { Governed.refl t with
    members := fun i => by
      by_cases hi : new.initiative = i
      · exact Or.inl (hi ▸ leads)
      · refine Or.inr fun m hm => ?_
        have hne : m ≠ new := fun e => hi (e ▸ hm)
        rw [mem_insert, or_iff_right hne]
        exact ⟨And.left, fun hmem _ => ⟨hmem, fun e => hi ((Prod.mk.inj e).1.symm.trans hm)⟩⟩ }

theorem governed_unenrol {i : InitiativeId} {q : PrincipalId} (may : q = p ∨ t.Leads u i p) :
    t.Governed u p (t.unenrol i q) :=
  { Governed.refl t with
    members := fun j => by
      rcases may with rfl | leads
      · -- only rows of the principal itself are gone
        refine Or.inr fun m _ => ⟨fun hm => (mem_erase.1 hm).1, fun hm hne => ?_⟩
        exact mem_erase.2 ⟨hm, fun e => hne (Prod.mk.inj e).2⟩
      · by_cases hi : i = j
        · exact Or.inl (hi ▸ leads)
        · refine Or.inr fun m hm => ⟨fun hm => (mem_erase.1 hm).1, fun hmem _ => ?_⟩
          exact mem_erase.2 ⟨hmem, fun e => hi ((Prod.mk.inj e).1.symm.trans hm)⟩ }

/-- The grants to roles, when those on one resource are changed by its owner. -/
theorem governed_roleGrants {x : Resource} {grants : Table RoleGrant} (hx : x ∈ t.resources)
    (owner : t.levelOn x p = some .owner)
    (elsewhere : ∀ g : RoleGrant, g.resource ≠ x.id → (g ∈ grants ↔ g ∈ t.roleGrants)) :
    t.Governed u p { t with roleGrants := grants } :=
  { Governed.refl t with
    roleGrants := fun y hy _ => by
      by_cases e : y.id = x.id
      · exact Or.inl (eq_of_key hy hx e ▸ owner)
      · refine Or.inr fun g hg => ?_
        have same := elsewhere g fun e' => e (hg.symm.trans e')
        exact ⟨same.1, fun hg => Or.inl (same.2 hg)⟩ }

end Writes

section Commands

variable (rights : scope.Backed f.store)

include rights

theorem bringIn_governed {p : PrincipalId} {role : TenantRole} {m : TenantMembership}
    (h : bringIn scope p role f = (.ok m, f')) :
    f.store.Governed scope.tenant scope.principal.id f'.store := by
  obtain ⟨_, may, hit, step⟩ := bringIn_ok h
  obtain ⟨_, _, _, e⟩ := Tables.step_putTenantMembership.1 step
  rw [← e]
  exact governed_of_admin (rights may) rfl rfl rfl

theorem expel_governed {p : PrincipalId} {report : HandoverReport}
    (h : expel scope p f = (.ok report, f')) :
    f.store.Governed scope.tenant scope.principal.id f'.store := by
  obtain ⟨may, t, f₁, step, left, e⟩ := expel_ok h
  obtain ⟨reports, leaves, _⟩ := Succession.leaveTenant_ok left
  obtain ⟨memberships, userGrants, e'⟩ := Succession.leaveEach_store leaves
  obtain ⟨_, rfl⟩ := Tables.step_removeTenantMembership.1 step
  rw [e, e']
  exact governed_of_admin (rights may) rfl rfl rfl

theorem startInitiative_governed {name : String} {i : Initiative}
    (h : startInitiative settings scope name f = (.ok i, f')) :
    f.store.Governed scope.tenant scope.principal.id f'.store := by
  obtain ⟨_, may, hit, t, step, h⟩ := startInitiative_ok h
  obtain ⟨_, _, _, rfl⟩ := Tables.step_addInitiative.1 step
  split at h
  · obtain ⟨_, _, t₁, t₂, step₁, step₂, h⟩ := h
    obtain ⟨_, _, _, rfl⟩ := Tables.step_putRole.1 step₁
    obtain ⟨_, _, _, rfl⟩ := Tables.step_putRole.1 step₂
    split at h
    · obtain ⟨_, step₃⟩ := h
      obtain ⟨_, _, _, _, e⟩ := Tables.step_putMembership.1 step₃
      rw [← e]
      exact governed_of_admin (rights may) rfl rfl rfl
    · rw [h]
      exact governed_of_admin (rights may) rfl rfl rfl
  · rw [h]
    exact governed_of_admin (rights may) rfl rfl rfl

theorem defineRole_governed {i : InitiativeId} {name : String} {isManager : Bool} {role : Role}
    (fresh : f.ids.FreshFor 1 f.store) (h : defineRole scope i name isManager f = (.ok role, f')) :
    f.store.Governed scope.tenant scope.principal.id f'.store := by
  obtain ⟨initiative, position, hit, managed, _, _, rfl, step⟩ := defineRole_ok h
  obtain ⟨_, _, _, e⟩ := Tables.step_putRole.1 step
  rw [← e]
  refine governed_insertRole (rights.leads_managed managed).2 fun r hr e => ?_
  exact absurd e (not_contains_iff.1 fresh.role_free r hr)

theorem governed_updateRole {id : RoleId} {role new : Role} {i : Initiative}
    (managed : scope.managedRole f.store id = .ok (role, i)) (hid : new.id = role.id)
    (hi : new.initiative = role.initiative) : f.store.Governed scope.tenant scope.principal.id
      { f.store with roles := f.store.roles.insert new } := by
  refine governed_insertRole (hi ▸ rights.leads_managedRole managed) fun r hr e => ?_
  rw [hi, eq_of_key hr (managedRole_tenant managed).1 (e.trans hid)]

theorem relabelRole_governed {id : RoleId} {name : String} {role : Role}
    (h : relabelRole scope id name f = (.ok role, f')) :
    f.store.Governed scope.tenant scope.principal.id f'.store := by
  obtain ⟨stored, i, managed, _, ⟨_, e⟩ | ⟨_, _, rfl, hit, step⟩⟩ := relabelRole_ok h
  · rw [e]
    exact .refl _
  · obtain ⟨_, _, _, e⟩ := Tables.step_putRole.1 step
    rw [← e]
    exact governed_updateRole rights managed rfl rfl

theorem empowerRole_governed {id : RoleId} {isManager : Bool} {role : Role}
    (h : empowerRole scope id isManager f = (.ok role, f')) :
    f.store.Governed scope.tenant scope.principal.id f'.store := by
  obtain ⟨stored, i, hit, managed, _, rfl, step⟩ := empowerRole_ok h
  obtain ⟨_, _, _, e⟩ := Tables.step_putRole.1 step
  rw [← e]
  exact governed_updateRole rights managed rfl rfl

theorem switchFeature_governed {id : RoleId} {c : Feature} {enabled : Bool} {role : Role}
    (h : switchFeature scope id c enabled f = (.ok role, f')) :
    f.store.Governed scope.tenant scope.principal.id f'.store := by
  obtain ⟨stored, i, hit, managed, rfl, step⟩ := switchFeature_ok h
  obtain ⟨_, r, found, e⟩ := Tables.step_putToggle.1 step
  obtain ⟨hr, er⟩ := find?_eq_some_iff.1 found
  obtain rfl := eq_of_key hr (managedRole_tenant managed).1 er
  rw [← e]
  exact governed_updateRole rights managed rfl rfl

theorem retireRole_governed (ht : f.store.Consistent) {id : RoleId} {report : HandoverReport}
    (h : retireRole scope id f = (.ok report, f')) :
    f.store.Governed scope.tenant scope.principal.id f'.store := by
  obtain ⟨stored, i, hit, t, f₁, managed, _, step, filled, e⟩ := retireRole_ok h
  obtain ⟨unheld, _, rfl⟩ := Tables.step_removeRole.1 step
  rw [ht.stored.removeRole] at filled
  obtain ⟨grants, same⟩ := Succession.fillVacancies_regrant filled
  have hrole := (managedRole_tenant managed).1
  rw [e, same]
  exact (governed_eraseRole hrole (rights.leads_managedRole managed) unheld).regrant _

theorem enrol_governed {i : InitiativeId} {p : PrincipalId} {r : RoleId} {m : Membership}
    (h : enrol scope i p r f = (.ok m, f')) :
    f.store.Governed scope.tenant scope.principal.id f'.store := by
  obtain ⟨initiative, role, hit, managed, _, _, rfl, _, step⟩ := enrol_ok h
  obtain ⟨_, _, _, _, e⟩ := Tables.step_putMembership.1 step
  rw [← e]
  exact governed_insertMembership (rights.leads_managed managed).2

theorem reassign_governed {i : InitiativeId} {p : PrincipalId} {r : RoleId}
    {report : HandoverReport} (h : reassign scope i p r f = (.ok report, f')) :
    f.store.Governed scope.tenant scope.principal.id f'.store := by
  obtain ⟨initiative, m, role, hit, t, managed, hm, _, step, filled⟩ := reassign_ok h
  have hmi : m.initiative = initiative.id := (Prod.mk.inj (find?_eq_some_iff.1 hm).2).1
  obtain ⟨_, _, _, _, rfl⟩ := Tables.step_putMembership.1 step
  obtain ⟨grants, same⟩ := Succession.fillVacancies_regrant filled
  rw [same]
  refine Governed.regrant (governed_insertMembership ?_) _
  exact hmi ▸ (rights.leads_managed managed).2

theorem dismiss_governed {i : InitiativeId} {p : PrincipalId} {report : HandoverReport}
    (h : dismiss scope i p f = (.ok report, f')) :
    f.store.Governed scope.tenant scope.principal.id f'.store := by
  obtain ⟨initiative, t, _, _, may, step, left⟩ := dismiss_ok h
  obtain ⟨grants, same⟩ := Succession.afterDeparture_regrant left
  obtain ⟨_, rfl⟩ := Tables.step_removeMembership.1 step
  rw [same]
  exact (governed_unenrol (may.imp_right rights.leads)).regrant _

omit rights

theorem restoreOwners_governed {i : InitiativeId} {report : HandoverReport}
    (h : restoreOwners scope i f = (.ok report, f')) :
    f.store.Governed scope.tenant scope.principal.id f'.store := by
  obtain ⟨_, _, filled⟩ := restoreOwners_ok h
  obtain ⟨grants, e⟩ := Succession.fillVacancies_regrant filled
  rw [e]
  exact (Governed.refl _).regrant _

theorem addResource_governed {i : InitiativeId} {kind : ResourceKind} {name : String} {r : Resource}
    (h : addResource scope i kind name f = (.ok r, f')) :
    f.store.Governed scope.tenant scope.principal.id f'.store := by
  obtain ⟨_, _, _, t, _, _, _, step, step'⟩ := addResource_ok h
  obtain ⟨_, _, free, _, rfl⟩ := Tables.step_addResource.1 step
  obtain ⟨_, _, _, e⟩ := Tables.step_putUserGrant.1 step'
  rw [← e]
  exact { Governed.refl f.store with
    resources := fun x hx => Or.inr (mem_insert.2 (Or.inr ⟨hx, not_contains_iff.1 free x hx⟩))
    unaltered := fun x hx => by
      rcases mem_insert.1 hx with rfl | ⟨hx, _⟩
      · exact Or.inr free
      · exact Or.inl hx
    roleGrants := fun _ _ _ => Or.inr fun _ _ => ⟨id, Or.inl⟩ }

theorem dropResource_governed (ht : f.store.Consistent) {r : ResourceId} {u : Unit}
    (h : dropResource scope r f = (.ok u, f')) :
    f.store.Governed scope.tenant scope.principal.id f'.store := by
  obtain ⟨⟨acl, _⟩, _, owned, step⟩ := dropResource_ok h
  obtain ⟨hr, rfl, _⟩ := owned_resource owned
  obtain ⟨_, e⟩ := Tables.step_removeResource.1 step
  rw [← e, ht.stored.removeResource]
  refine { Governed.refl f.store with
    resources := fun x hx => ?_
    unaltered := fun x hx => Or.inl (mem_erase.1 hx).1
    roleGrants := fun x _ hx' => Or.inr fun g hg => ⟨fun kept => (mem_filter.1 kept).1, fun had => ?_⟩ }
  · by_cases e : x.id = acl.resource.id
    · exact Or.inl (eq_of_key hx hr e ▸ Scope.levelAtLeast_owner owned)
    · exact Or.inr (mem_erase.2 ⟨hx, e⟩)
  · exact Or.inl (mem_filter.2 ⟨had, bne_iff_ne.2 (hg ▸ (mem_erase.1 hx').2)⟩)

theorem share_governed {r : ResourceId} {p : PrincipalId} {level : Level} {g : UserGrant}
    (h : share scope r p level f = (.ok g, f')) :
    f.store.Governed scope.tenant scope.principal.id f'.store := by
  obtain ⟨_, _, _, _, _, _, _, step⟩ := share_ok h
  obtain ⟨_, _, _, e⟩ := Tables.step_putUserGrant.1 step
  rw [← e]
  exact (Governed.refl _).regrant _

theorem unshare_governed {r : ResourceId} {p : PrincipalId} {found : Bool}
    (h : unshare scope r p f = (.ok found, f')) :
    f.store.Governed scope.tenant scope.principal.id f'.store := by
  obtain ⟨_, _, _, _, ⟨_, e⟩ | ⟨_, _, _, step⟩⟩ := unshare_ok h
  · rw [e]
    exact .refl _
  · obtain ⟨_, e⟩ := Tables.step_removeUserGrant.1 step
    rw [← e]
    exact (Governed.refl _).regrant _

theorem shareWithRole_governed {r : ResourceId} {id : RoleId} {level : Level} {g : RoleGrant}
    (h : shareWithRole scope r id level f = (.ok g, f')) :
    f.store.Governed scope.tenant scope.principal.id f'.store := by
  obtain ⟨acl, _, _, _, owned, _, _, _, rfl, step⟩ := shareWithRole_ok h
  obtain ⟨hr, rfl, _⟩ := owned_resource owned
  obtain ⟨_, _, _, e⟩ := Tables.step_putRoleGrant.1 step
  rw [← e]
  refine governed_roleGrants hr (Scope.levelAtLeast_owner owned) fun g hne => ?_
  rw [mem_insert, or_iff_right fun e => hne (congrArg RoleGrant.resource e)]
  exact and_iff_left fun e => hne (Prod.mk.inj e).1

theorem unshareWithRole_governed {r : ResourceId} {role : RoleId} {found : Bool}
    (h : unshareWithRole scope r role f = (.ok found, f')) :
    f.store.Governed scope.tenant scope.principal.id f'.store := by
  obtain ⟨acl, _, owned, _, ⟨_, e⟩ | ⟨_, _, _, step⟩⟩ := unshareWithRole_ok h
  · rw [e]
    exact .refl _
  · obtain ⟨hr, rfl, _⟩ := owned_resource owned
    obtain ⟨_, e⟩ := Tables.step_removeRoleGrant.1 step
    rw [← e]
    refine governed_roleGrants hr (Scope.levelAtLeast_owner owned) fun g hne => ?_
    exact mem_erase.trans (and_iff_left fun e => hne (Prod.mk.inj e).1)

end Commands

end Administration

/-- No command changes a row that takes a right without it. -/
theorem Command.perform_governed {f f' : Frame Tables} {scope : Scope} {settings : Settings}
    {command : Command} {answer : Answer} (ht : f.store.Consistent) (rights : scope.Backed f.store)
    (fresh : f.ids.FreshFor (command.draws settings) f.store)
    (h : command.perform settings scope f = (.ok answer, f')) :
    f.store.Governed scope.tenant scope.principal.id f'.store := by
  open Administration in
  cases command with
  | bringIn p role =>
    obtain ⟨_, h, _⟩ := return_ok.1 h
    exact bringIn_governed rights h
  | expel p =>
    obtain ⟨_, h, _⟩ := return_ok.1 h
    exact expel_governed rights h
  | startInitiative name =>
    obtain ⟨_, h, _⟩ := return_ok.1 h
    exact startInitiative_governed rights h
  | defineRole i name isManager =>
    obtain ⟨_, h, _⟩ := return_ok.1 h
    exact defineRole_governed rights fresh h
  | relabelRole r name =>
    obtain ⟨_, h, _⟩ := return_ok.1 h
    exact relabelRole_governed rights h
  | empowerRole r isManager =>
    obtain ⟨_, h, _⟩ := return_ok.1 h
    exact empowerRole_governed rights h
  | retireRole r =>
    obtain ⟨_, h, _⟩ := return_ok.1 h
    exact retireRole_governed rights ht h
  | switchFeature r c enabled =>
    obtain ⟨_, h, _⟩ := return_ok.1 h
    exact switchFeature_governed rights h
  | enrol i p r =>
    obtain ⟨_, h, _⟩ := return_ok.1 h
    exact enrol_governed rights h
  | reassign i p r =>
    obtain ⟨_, h, _⟩ := return_ok.1 h
    exact reassign_governed rights h
  | dismiss i p =>
    obtain ⟨_, h, _⟩ := return_ok.1 h
    exact dismiss_governed rights h
  | restoreOwners i =>
    obtain ⟨_, h, _⟩ := return_ok.1 h
    exact restoreOwners_governed h
  | addResource i kind name =>
    obtain ⟨_, h, _⟩ := return_ok.1 h
    exact addResource_governed h
  | dropResource r =>
    simp only [perform, bind_ok, pure_ok] at h
    obtain ⟨_, _, h, _, rfl⟩ := h
    exact dropResource_governed ht h
  | share r p level =>
    obtain ⟨_, h, _⟩ := return_ok.1 h
    exact share_governed h
  | unshare r p =>
    obtain ⟨_, h, _⟩ := return_ok.1 h
    exact unshare_governed h
  | shareWithRole r role level =>
    obtain ⟨_, h, _⟩ := return_ok.1 h
    exact shareWithRole_governed h
  | unshareWithRole r role =>
    obtain ⟨_, h, _⟩ := return_ok.1 h
    exact unshareWithRole_governed h

end TenantAccess
