import TenantAccess.Proofs.Levels
import TenantAccess.Proofs.Store.Confinement

/-!
# What a scope sees

All that may be asked in a scope depends on the rows in its sight only. What is looked up is filtered
by tenant, and the rows that a visible row leads to lie in its tenant.
-/

namespace TenantAccess

open Store (Tables)
open Store.Backend (ask)
open Table

/-- The rows in sight are the same. -/
def Scope.SameInSight (scope : Scope) (t t' : Tables) : Prop :=
  ∀ u, scope.sees u = true → t.part u = t'.part u

/-! ## The rows of a tenant -/

namespace Store.Tables

variable {t : Tables} {x : Resource} {i : InitiativeId} {u : TenantId} {p : PrincipalId} {r : RoleId}

theorem tenantOf_eq_some : t.tenantOf i = some u ↔ ∃ initiative ∈ (t.part u).initiatives,
    initiative.id = i := by
  simp only [tenantOf, Option.map_eq_some_iff, part, mem_filter, decide_eq_true_eq]
  constructor
  · rintro ⟨initiative, found, rfl⟩
    obtain ⟨hi, e⟩ := find?_eq_some_iff.1 found
    exact ⟨initiative, ⟨hi, rfl⟩, e⟩
  · rintro ⟨initiative, ⟨hi, hu⟩, e⟩
    exact ⟨initiative, find?_eq_some_iff.2 ⟨hi, e⟩, hu⟩

theorem find?_membership (hi : t.tenantOf i = some u) :
    t.memberships.find? (i, p) = (t.part u).memberships.find? (i, p) := by
  refine (find?_filter_of fun m _ e => ?_).symm
  rw [(Prod.mk.inj e).1, decide_eq_true_eq, hi]

theorem rolesIn_eq (hi : t.tenantOf i = some u) :
    Backend.ask (.rolesIn i) t = sortOn (fun r => r.position.toNat)
      ((t.part u).roles.rows.filter fun r => r.initiative = i) := by
  have e : (t.part u).roles.rows = t.roles.rows.filter fun r => t.tenantOf r.initiative = some u := rfl
  rw [e, List.filter_filter]
  refine congrArg (sortOn _) (List.filter_congr fun r _ => ?_)
  by_cases h : r.initiative = i
  · simp [h, hi]
  · simp [h]

theorem Consistent.find?_role (ht : t.Consistent) (hi : t.tenantOf i = some u) {m : Membership}
    (hm : m ∈ t.memberships) (hmi : m.initiative = i) :
    t.roles.find? m.role = (t.part u).roles.find? m.role := by
  refine (find?_filter_of fun r hr e => ?_).symm
  rw [decide_eq_true_eq, ht.aligned.membership m hm r hr e, hmi, hi]

theorem Consistent.find?_userGrant (ht : t.Consistent) (hx : x ∈ t.resources) :
    t.userGrants.find? (x.id, p) = (t.part x.tenant).userGrants.find? (x.id, p) := by
  refine (find?_filter_of fun g hg e => ?_).symm
  rw [decide_eq_true_eq]
  exact (ht.aligned.userGrant g hg x hx (Prod.mk.inj e).1.symm).symm

theorem Consistent.find?_roleGrant (ht : t.Consistent) (hx : x ∈ t.resources) :
    t.roleGrants.find? (x.id, r) = (t.part x.tenant).roleGrants.find? (x.id, r) := by
  refine (find?_filter_of fun g hg e => ?_).symm
  rw [decide_eq_true_eq]
  exact (ht.aligned.roleGrant g hg x hx (Prod.mk.inj e).1.symm).1.symm

/-- The access list of a resource is made from rows of its tenant. -/
theorem Consistent.acl_congr {t' : Tables} (ht : t.Consistent) (ht' : t'.Consistent)
    (hx : x ∈ t.resources) (hx' : x ∈ t'.resources) (same : t.part x.tenant = t'.part x.tenant) :
    t.acl x = t'.acl x := by
  refine acl_eq rfl (fun p => ?_) fun r => ?_
  · rw [find?_acl_users, ht.find?_userGrant hx, ht'.find?_userGrant hx', same]
  · rw [find?_acl_roles, ht.find?_roleGrant hx, ht'.find?_roleGrant hx', same]

theorem find?_membershipsBy :
    (Table.ofList ((Backend.ask (.membershipsBy p) t).map fun m => (m.initiative, m.role))).find? i =
      (t.memberships.find? (i, p)).map fun m => (m.initiative, m.role) :=
  find?_slice (fun i => (i, p)) (by simp [and_comm])

end Store.Tables

/-! ## What a scope finds -/

namespace Scope

variable {scope : Scope} {t t' : Tables}

/-- Rows that agree tenant by tenant, wherever the scope sees. -/
theorem filter_reaches {R K : Type} [Ranked K] [Keyed R K] [InTenant R] {a b : Table R}
    (same : ∀ u, scope.sees u = true →
      (a.filter fun x => InTenant.tenant x = u) = b.filter fun x => InTenant.tenant x = u) :
    a.filter scope.reaches = b.filter scope.reaches := by
  refine ext_mem fun x => ?_
  rw [mem_filter, mem_filter]
  refine and_congr_left fun sees => ?_
  have here := same (InTenant.tenant x) sees
  have mem {c : Table R} : x ∈ c.filter (fun y => InTenant.tenant y = InTenant.tenant x) ↔ x ∈ c := by
    simp
  rw [← mem, here, mem]

theorem roleThere_eq {i : InitiativeId} : scope.roleThere t i =
    ((Store.roleMap t i).find? scope.principal.id).map Prod.snd := by
  rw [roleThere, ask_membership, Store.find?_roleMap, Option.map_map]
  rfl

theorem effective_eq (ht : t.Consistent) {x : Resource} (hx : x ∈ t.resources) :
    scope.effective t x = .ok (t.acl x, t.levelOn x scope.principal.id) := by
  rw [effective, ht.aclOf_eq hx, roleThere_eq, Tables.levelOn_eq]
  rfl

theorem findInitiative_tenantOf {id : InitiativeId} {i : Initiative}
    (found : scope.findInitiative t id = .ok i) :
    scope.sees i.tenant = true ∧ t.tenantOf i.id = some i.tenant := by
  obtain ⟨row, sees⟩ := findInitiative_eq_ok.1 found
  exact ⟨sees, Tables.tenantOf_mem (find?_eq_some_iff.1 row).1⟩

theorem mem_visible {x : Resource} (h : x ∈ scope.visible t) :
    x ∈ t.resources ∧ scope.sees x.tenant = true := by
  obtain ⟨listed, sees⟩ := List.mem_filter.1 h
  refine ⟨?_, sees⟩
  cases e : scope.horizon with
  | all =>
    rw [e] at listed
    exact listed
  | tenants ids =>
    rw [e] at listed
    exact (List.mem_filter.1 listed).1

/-! ## The same in sight -/

namespace SameInSight

variable (same : scope.SameInSight t t')

include same

theorem resources : t.resources.filter scope.reaches = t'.resources.filter scope.reaches :=
  filter_reaches fun u sees => congrArg Store.Part.resources (same u sees)

theorem initiatives : t.initiatives.filter scope.reaches = t'.initiatives.filter scope.reaches :=
  filter_reaches fun u sees => congrArg Store.Part.initiatives (same u sees)

theorem findResource (id : ResourceId) : scope.findResource t id = scope.findResource t' id := by
  simp only [Scope.findResource, disclose, ask_resource, ← find?_filter, same.resources]

theorem findInitiative (id : InitiativeId) :
    scope.findInitiative t id = scope.findInitiative t' id := by
  simp only [Scope.findInitiative, disclose, ask_initiative, ← find?_filter, same.initiatives]

theorem mem_resources {x : Resource} (sees : scope.sees x.tenant = true) :
    x ∈ t.resources ↔ x ∈ t'.resources := by
  have e {t : Tables} : x ∈ (t.part x.tenant).resources ↔ x ∈ t.resources := by
    simp [Tables.part]
  rw [← e, same x.tenant sees, e]

theorem tenantOf {i : InitiativeId} {u : TenantId} (sees : scope.sees u = true) :
    t.tenantOf i = some u ↔ t'.tenantOf i = some u := by
  rw [Tables.tenantOf_eq_some, same u sees, Tables.tenantOf_eq_some]

theorem membership {i : InitiativeId} {u : TenantId} (sees : scope.sees u = true)
    (hi : t.tenantOf i = some u) (p : PrincipalId) :
    t.memberships.find? (i, p) = t'.memberships.find? (i, p) := by
  rw [Tables.find?_membership hi, Tables.find?_membership ((same.tenantOf sees).1 hi),
    same u sees]

theorem roleThere (ht : t.Consistent) {x : Resource} (hx : x ∈ t.resources)
    (sees : scope.sees x.tenant = true) :
    scope.roleThere t x.initiative = scope.roleThere t' x.initiative := by
  simp only [Scope.roleThere, ask_membership,
    same.membership sees (ht.tenantOf_resource hx) scope.principal.id]

theorem effective (ht : t.Consistent) (ht' : t'.Consistent) {x : Resource} (hx : x ∈ t.resources)
    (sees : scope.sees x.tenant = true) : scope.effective t x = scope.effective t' x := by
  have hx' := (same.mem_resources sees).1 hx
  simp only [Scope.effective, ht.aclOf_eq hx, ht'.aclOf_eq hx',
    ht.acl_congr ht' hx hx' (same x.tenant sees), same.roleThere ht hx sees]

theorem level (ht : t.Consistent) (ht' : t'.Consistent) (id : ResourceId) :
    scope.level t id = scope.level t' id := by
  simp only [Scope.level, ← same.findResource]
  cases found : scope.findResource t id with
  | error e => rfl
  | ok x =>
    obtain ⟨row, sees⟩ := findResource_eq_ok.1 found
    have e := same.effective ht ht' (find?_eq_some_iff.1 row).1 sees
    simp only [bind, Except.bind, e]

theorem levelAtLeast (ht : t.Consistent) (ht' : t'.Consistent) (id : ResourceId) (minimum : Level) :
    scope.levelAtLeast t id minimum = scope.levelAtLeast t' id minimum := by
  simp only [Scope.levelAtLeast, ← same.findResource]
  cases found : scope.findResource t id with
  | error e => rfl
  | ok x =>
    obtain ⟨row, sees⟩ := findResource_eq_ok.1 found
    have hx := (find?_eq_some_iff.1 row).1
    have e := same.effective ht ht' hx sees
    simp only [bind, Except.bind, e, same.roleThere ht hx sees]

theorem heldRole (ht : t.Consistent) (ht' : t'.Consistent) {i : InitiativeId} {u : TenantId}
    (sees : scope.sees u = true) (hi : t.tenantOf i = some u) (p : PrincipalId) :
    Store.heldRole t i p = Store.heldRole t' i p := by
  have hi' := (same.tenantOf sees).1 hi
  simp only [Store.heldRole, ask_membership, ask_role]
  rw [← same.membership sees hi]
  cases found : t.memberships.find? (i, p) with
  | none => rfl
  | some m =>
    -- the same row in both, so each finds the role in its own tables
    have found' := found
    rw [same.membership sees hi] at found'
    obtain ⟨hm, e⟩ := find?_eq_some_iff.1 found
    obtain ⟨hm', _⟩ := find?_eq_some_iff.1 found'
    have hmi : m.initiative = i := (Prod.mk.inj e).1
    simp only [ht.find?_role hi hm hmi, ht'.find?_role hi' hm' hmi, same u sees]

theorem hasFeature (ht : t.Consistent) (ht' : t'.Consistent) (i : InitiativeId) (feature : Feature) :
    scope.hasFeature t i feature = scope.hasFeature t' i feature := by
  simp only [Scope.hasFeature, ← same.findInitiative]
  cases found : scope.findInitiative t i with
  | error e => rfl
  | ok initiative =>
    obtain ⟨sees, hi⟩ := findInitiative_tenantOf found
    simp only [bind, Except.bind, same.heldRole ht ht' sees hi scope.principal.id]

theorem roles (i : InitiativeId) : scope.roles t i = scope.roles t' i := by
  simp only [Scope.roles, ← same.findInitiative]
  cases found : scope.findInitiative t i with
  | error e => rfl
  | ok initiative =>
    obtain ⟨sees, hi⟩ := findInitiative_tenantOf found
    have hi' := (same.tenantOf sees).1 hi
    simp only [bind, Except.bind, Tables.rolesIn_eq hi, Tables.rolesIn_eq hi', same _ sees]

/-- A listing draws from more than is visible, and leaves the rest out. -/
theorem visible : scope.visible t = scope.visible t' := by
  have rows : t.resources.rows.filter scope.reaches = t'.resources.rows.filter scope.reaches :=
    congrArg Table.rows same.resources
  simp only [Scope.visible, visiblePart]
  cases scope.horizon with
  | all => exact rows
  | tenants ids =>
    have e {t : Tables} : ask (.resourcesWithin ids.rows) t =
        t.resources.rows.filter fun r => ids.rows.contains r.tenant := rfl
    simp only [e, List.filter_filter, Bool.and_comm (scope.reaches _)]
    rw [← List.filter_filter, ← List.filter_filter, rows]

theorem usable (ht : t.Consistent) (ht' : t'.Consistent) (minimum : Level) :
    scope.usable t minimum = scope.usable t' minimum := by
  simp only [Scope.usable]
  rw [← same.visible, mapM_congr fun x hx => ?_]
  obtain ⟨hx, sees⟩ := mem_visible hx
  have hx' := (same.mem_resources sees).1 hx
  simp only [levelWith, ht.aclOf_eq hx, ht'.aclOf_eq hx',
    ht.acl_congr ht' hx hx' (same x.tenant sees), Tables.find?_membershipsBy,
    same.membership sees (ht.tenantOf_resource hx)]

/-- Every question has the same answer. -/
theorem answer (ht : t.Consistent) (ht' : t'.Consistent) (q : Question) :
    q.answer scope t = q.answer scope t' := by
  cases q with
  | scope => rfl
  | level r => simp only [Question.answer, same.level ht ht']
  | levelAtLeast r minimum => simp only [Question.answer, same.levelAtLeast ht ht']
  | feature i f => simp only [Question.answer, same.hasFeature ht ht']
  | roles i => simp only [Question.answer, same.roles]
  | visible => simp only [Question.answer, visibleIds, same.visible]
  | usable minimum => simp only [Question.answer, same.usable ht ht']

end SameInSight

end Scope

end TenantAccess
