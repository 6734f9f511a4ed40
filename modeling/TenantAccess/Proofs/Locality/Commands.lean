import TenantAccess.Proofs.Locality.Reads

/-!
# Commands in one tenant

Every command is local to the tenant of its scope: whether it succeeds, with which value, and which rows it
leaves in the tenant depends on the principals and on the rows of the tenant alone.
-/

namespace TenantAccess

open Store (Tables Change)
open Transaction Table

variable {f g : Frame Tables} {u : TenantId} {i : InitiativeId} {p : PrincipalId}

/-! ## Handovers -/

namespace Succession

theorem carryOut_local {plan : Handover.Plan} (narrow : f.NarrowsTo u g)
    (inside : ∀ c ∈ plan.revoke ++ plan.grantOwner, ∀ x ∈ f.store.resources, x.id = c.1 →
      x.tenant = u) : LocalAt u f g (carryOut u plan) (carryOut u plan) := by
  refine .forM (K := fun t => t.resources = f.store.resources) narrow rfl
    (fun c hc f' g' narrow same => ?_) (fun c _ f' f'' same h => ?_) fun f₁ g₁ narrow same => ?_
  · refine .afterChange narrow ⟨trivial, ?_⟩ trivial fun _ _ _ _ narrow => .pure narrow ()
    exact fun x hx => inside c (List.mem_append_left _ hc) x (same ▸ hx)
  · simp only [bind_ok, change_ok, pure_ok] at h
    obtain ⟨hit, _, ⟨t, step, rfl⟩, _, rfl⟩ := h
    obtain ⟨_, rfl⟩ := Tables.step_removeUserGrant.1 step
    exact same
  refine .forM (K := fun t => t.resources = f.store.resources) narrow same
    (fun c hc f' g' narrow same => ?_) (fun c _ f' f'' same h => ?_) fun f₂ g₂ narrow _ => ?_
  · refine .afterChange narrow ⟨?_, rfl⟩ trivial fun _ _ _ _ narrow => .pure narrow ()
    exact fun x hx => inside c (List.mem_append_right _ hc) x (same ▸ hx)
  · simp only [bind_ok, change_ok, pure_ok] at h
    obtain ⟨hit, _, ⟨t, step, rfl⟩, _, rfl⟩ := h
    obtain ⟨_, _, _, rfl⟩ := Tables.step_putUserGrant.1 step
    exact same
  refine .forM (K := fun _ => True) narrow trivial (fun w _ f g narrow _ => ?_)
    (fun _ _ _ _ _ _ => trivial) fun _ _ narrow _ => .pure narrow _
  exact .report narrow fun _ _ narrow => .pure narrow ()

theorem fillVacancies_local (narrow : f.NarrowsTo u g) (hi : f.store.tenantOf i = some u) :
    LocalAt u f g (fillVacancies i) (fillVacancies i) := by
  have ht := narrow.consistent
  refine .read narrow ?_
  simp only [ask_initiative, Tables.find?_initiative_only hi, accessLists_only ht hi,
    Tables.roleMap_only hi, Tables.managingRoles_only hi]
  cases found : f.store.initiatives.find? i with
  | none => exact .pure narrow _
  | some initiative =>
    obtain rfl := found_tenant hi found
    refine .check (.refl _) fun acls listed => carryOut_local narrow fun c hc => ?_
    exact resource_tenant ht hi (mapError_eq_ok.1 listed) (Handover.vacancyPlan_resource hc)

theorem afterDeparture_local (narrow : f.NarrowsTo u g) (hi : f.store.tenantOf i = some u) :
    LocalAt u f g (afterDeparture i p) (afterDeparture i p) := by
  have ht := narrow.consistent
  refine .read narrow ?_
  simp only [ask_initiative, Tables.find?_initiative_only hi, accessLists_only ht hi,
    Tables.roleMap_only hi, Tables.managingRoles_only hi]
  cases found : f.store.initiatives.find? i with
  | none => exact .pure narrow _
  | some initiative =>
    obtain rfl := found_tenant hi found
    refine .check (.refl _) fun acls listed => ?_
    have inside {id : ResourceId} (h : ∃ acl ∈ acls, id = acl.resource.id) :
        ∀ x ∈ f.store.resources, x.id = id → x.tenant = initiative.tenant :=
      resource_tenant ht hi (mapError_eq_ok.1 listed) h
    refine .bind (carryOut_local narrow fun c hc => inside (Handover.departurePlan_resource hc))
      fun first f₁ g₁ h₁ narrow₁ => ?_
    have same : f₁.store.resources = f.store.resources := by rw [(carryOut_ok h₁).2]; rfl
    refine .bind (carryOut_local narrow₁ fun c hc => ?_) fun second f₂ g₂ _ narrow₂ => ?_
    · obtain ⟨acl, hacl, hc⟩ := Handover.vacancyPlan_resource hc
      obtain ⟨old, hold, rfl⟩ := List.mem_map.1 (List.mem_filter.1 hacl).1
      rw [Handover.Plan.applyTo_resource] at hc
      rw [same]
      exact inside ⟨old, hold, hc⟩
    · exact .report narrow₂ fun _ _ narrow => .pure narrow _

theorem leaveInitiative_local (narrow : f.NarrowsTo u g) (hi : f.store.tenantOf i = some u) :
    LocalAt u f g (leaveInitiative p i) (leaveInitiative p i) := by
  refine .afterChange narrow ⟨trivial, hi⟩ trivial fun wasMember t g₁ step narrow₁ => ?_
  have hi₁ : t.tenantOf i = some u := by
    obtain ⟨_, rfl⟩ := Tables.step_removeMembership.1 step
    exact hi
  refine .read narrow₁ ?_
  simp only [accessLists_only narrow₁.consistent hi₁]
  refine .check (.refl _) fun acls listed => .ite (fun _ => .pure narrow₁ _) fun _ => ?_
  refine .bind (afterDeparture_local narrow₁ hi₁) fun result f₂ g₂ h₂ narrow₂ => ?_
  have same : f₂.store.resources = t.resources := by
    obtain ⟨_, e⟩ := afterDeparture_regrant h₂
    rw [e]
    rfl
  refine .bind (.mapM (K := fun s => s.resources = t.resources) narrow₂ same
    (fun r hr f' g' narrow same => ?_) fun r _ f' f'' _ same h => ?_) fun _ _ _ _ narrow₃ => ?_
  · refine .change narrow ⟨trivial, ?_⟩ trivial
    obtain ⟨acl, hacl, _, rfl⟩ := mem_heldBy.1 hr
    have inside := resource_tenant narrow₁.consistent hi₁ (mapError_eq_ok.1 listed) ⟨acl, hacl, rfl⟩
    exact fun x hx => inside x (same ▸ hx)
  · simp only [change_ok] at h
    obtain ⟨t, step, rfl⟩ := h
    obtain ⟨_, rfl⟩ := Tables.step_removeUserGrant.1 step
    exact same
  · exact .report narrow₃ fun _ _ narrow => .pure narrow _

theorem leaveTenant_local (narrow : f.NarrowsTo u g) :
    LocalAt u f g (leaveTenant u p) (leaveTenant u p) := by
  refine .read narrow ?_
  rw [Tables.ask_initiativesIn_only]
  refine .bind (.mapM (K := fun t => t.initiatives = f.store.initiatives) narrow rfl
    (fun i hi f' g' narrow same => leaveInitiative_local narrow ?_) fun i _ f' f'' _ same h => ?_)
    fun _ _ _ _ narrow => .pure narrow _
  · obtain ⟨hi, e⟩ := List.mem_filter.1 hi
    rw [Tables.tenantOf, same, ← of_decide_eq_true e]
    exact Tables.tenantOf_mem hi
  · obtain ⟨_, e⟩ := leaveInitiative_store h
    rw [e]
    exact same

end Succession

/-! ## Commands -/

namespace Administration

theorem owned_home {t : Tables} {scope : Scope} (ht : t.Consistent) {r : ResourceId} {acl : Acl}
    {level : Level} (h : scope.levelAtLeast t r .owner = .ok (acl, level)) :
    t.tenantOf acl.resource.initiative = some scope.tenant := by
  obtain ⟨hr, _, tenant, _⟩ := owned_resource h
  rw [ht.tenantOf_resource hr, tenant]

variable {scope : Scope} {own : IdSet .tenant} (narrow : f.NarrowsTo scope.tenant g)

include narrow

theorem bringIn_local (p : PrincipalId) (role : TenantRole) :
    LocalAt scope.tenant f g (bringIn scope p role) (bringIn (scope.among own) p role) := by
  refine .check (.refl _) fun _ _ => .read narrow <| .check (.refl _) fun _ _ => ?_
  refine .afterChange narrow ⟨trivial, rfl⟩ trivial fun _ _ _ _ narrow => ?_
  exact .report narrow fun _ _ narrow => .pure narrow _

theorem expel_local (p : PrincipalId) :
    LocalAt scope.tenant f g (expel scope p) (expel (scope.among own) p) := by
  refine .check (.refl _) fun _ _ => ?_
  refine .afterChange narrow ⟨trivial, rfl⟩ trivial fun _ _ _ _ narrow => .guard fun _ => ?_
  refine .bind (Succession.leaveTenant_local narrow) fun _ _ _ _ narrow => ?_
  exact .report narrow fun _ _ narrow => .pure narrow _

theorem startInitiative_local {settings : Settings}
    (fresh : f.ids.FreshFor (if settings.seedsRoles then 3 else 1) f.store) (name : String) :
    LocalAt scope.tenant f g (startInitiative settings scope name)
      (startInitiative settings (scope.among own) name) := by
  refine .check (.refl _) fun _ _ => .check (.refl _) fun _ _ => ?_
  refine .fresh narrow fun f₁ g₁ store₁ ids₁ narrow => ?_
  have free : f.store.initiatives.contains (@Supply.draw .initiative f.ids).1 = false := by
    split at fresh <;> exact fresh.initiative_free
  refine .afterChange narrow ⟨trivial, rfl⟩ (store₁ ▸ free) fun _ t g₂ step narrow => ?_
  have added : (⟨(@Supply.draw .initiative f.ids).1, scope.tenant, name⟩ : Initiative) ∈ t.initiatives ∧
      t.roles = f.store.roles := by
    obtain ⟨_, _, _, rfl⟩ := Tables.step_addInitiative.1 step
    exact ⟨mem_insert_self, by rw [← store₁]⟩
  have home := Tables.tenantOf_mem added.1
  refine .ite (fun seeds => ?_) fun _ => .report narrow fun _ _ narrow => .pure narrow _
  rw [if_pos seeds] at fresh
  have fresh := fresh.next .initiative
  rw [← ids₁] at fresh
  refine .fresh narrow fun f₃ g₃ store₃ ids₃ narrow₃ => .fresh narrow₃ fun f₄ g₄ store₄ _ narrow₄ => ?_
  obtain rfl : f₄.store = t := store₄.trans store₃
  rw [ids₃]
  refine .afterChange narrow₄ (addRole_within (added.2 ▸ fresh.role_free) home) trivial
    fun _ t g₅ step' narrow₅ => ?_
  obtain ⟨_, _, _, rfl⟩ := Tables.step_putRole.1 step'
  refine .afterChange narrow₅ (addRole_within (not_contains_iff.2 fun r hr e => ?_) home) trivial
    fun _ t g₆ step'' narrow₆ => ?_
  · -- the manager role bears another identifier
    rcases mem_insert.1 hr with rfl | ⟨hr, _⟩
    · exact fresh.draw_ne .role e
    · exact not_contains_iff.1 (fresh.next .role).role_free r (added.2 ▸ hr) e
  obtain ⟨_, _, _, rfl⟩ := Tables.step_putRole.1 step''
  refine .ite (fun _ => ?_) fun _ => .report narrow₆ fun _ _ narrow => .pure narrow _
  refine .afterChange narrow₆ ⟨fun r hr e => ?_, home⟩ trivial fun _ _ _ _ narrow =>
    .report narrow fun _ _ narrow => .pure narrow _
  -- and is the only one under it
  rcases mem_insert.1 hr with rfl | ⟨hr, _⟩
  · rfl
  · rw [eq_of_key hr mem_insert_self e]
    rfl

theorem defineRole_local (fresh : f.ids.FreshFor 1 f.store) (i : InitiativeId) (name : String)
    (isManager : Bool) : LocalAt scope.tenant f g (defineRole scope i name isManager)
      (defineRole (scope.among own) i name isManager) := by
  have ht := narrow.consistent
  refine .read narrow <| .check (Scope.managedInitiative_only ht i) fun initiative managed => ?_
  obtain ⟨_, hi⟩ := managed_tenant managed
  simp only [needFreeName_only hi, Tables.ask_rolesIn_only hi]
  refine .check (.refl _) fun _ _ => .check (.refl _) fun _ _ => ?_
  refine .fresh narrow fun f₁ g₁ store _ narrow => ?_
  refine .afterChange narrow ?_ trivial fun _ _ _ _ narrow => ?_
  · rw [store]
    exact addRole_within fresh.role_free hi
  · exact .report narrow fun _ _ narrow => .pure narrow _

theorem relabelRole_local (id : RoleId) (name : String) :
    LocalAt scope.tenant f g (relabelRole scope id name) (relabelRole (scope.among own) id name) := by
  have ht := narrow.consistent
  refine .read narrow <| .check (Scope.managedRole_only ht id) fun ⟨role, initiative⟩ managed => ?_
  obtain ⟨_, e, hi⟩ := managedRole_tenant managed
  simp only [needFreeName_only (e ▸ hi)]
  refine .check (.refl _) fun _ _ => .check (.refl _) fun _ _ => .ite (fun _ => .pure narrow _) fun _ =>
    .check (.refl _) fun _ _ => ?_
  refine .afterChange narrow ?_ trivial fun _ _ _ _ narrow => .pure narrow _
  exact updateRole_within ht managed rfl rfl rfl

theorem empowerRole_local (id : RoleId) (isManager : Bool) :
    LocalAt scope.tenant f g (empowerRole scope id isManager)
      (empowerRole (scope.among own) id isManager) := by
  have ht := narrow.consistent
  refine .read narrow <| .check (Scope.managedRole_only ht id) fun ⟨role, initiative⟩ managed => ?_
  refine .check (.refl _) fun _ _ => ?_
  refine .afterChange narrow ?_ trivial fun _ _ _ _ narrow => .pure narrow _
  exact updateRole_within ht managed rfl rfl rfl

theorem switchFeature_local (id : RoleId) (c : Feature) (enabled : Bool) :
    LocalAt scope.tenant f g (switchFeature scope id c enabled)
      (switchFeature (scope.among own) id c enabled) := by
  have ht := narrow.consistent
  refine .read narrow <| .check (Scope.managedRole_only ht id) fun ⟨role, initiative⟩ managed => ?_
  obtain ⟨hrole, _, hi⟩ := managedRole_tenant managed
  refine .afterChange narrow ⟨trivial, fun r hr e => ?_⟩ trivial fun _ _ _ _ narrow => ?_
  · rw [eq_of_key hr hrole e, hi]
  · exact .report narrow fun _ _ narrow => .pure narrow _

theorem retireRole_local (id : RoleId) :
    LocalAt scope.tenant f g (retireRole scope id) (retireRole (scope.among own) id) := by
  have ht := narrow.consistent
  refine .read narrow <| .check (Scope.managedRole_only ht id) fun ⟨role, initiative⟩ managed => ?_
  obtain ⟨hrole, e, hi⟩ := managedRole_tenant managed
  simp only [Tables.ask_membershipsIn_only (e ▸ hi)]
  refine .check (.refl _) fun _ _ => .guard fun _ => ?_
  have allowed : Within scope.tenant f.store (.removeRole role.id) :=
    ⟨trivial, fun r hr e => by rw [eq_of_key hr hrole e, hi]⟩
  refine .afterChange narrow allowed trivial fun _ t g₁ step narrow => ?_
  have here : t.tenantOf initiative.id = some scope.tenant := by
    obtain ⟨_, _, rfl⟩ := Tables.step_removeRole.1 step
    rw [ht.stored.removeRole, e]
    exact hi
  refine .bind (Succession.fillVacancies_local narrow here) fun _ _ _ _ narrow => ?_
  exact .report narrow fun _ _ narrow => .pure narrow _

theorem enrol_local (i : InitiativeId) (p : PrincipalId) (r : RoleId) :
    LocalAt scope.tenant f g (enrol scope i p r) (enrol (scope.among own) i p r) := by
  have ht := narrow.consistent
  refine .read narrow <| .check (Scope.managedInitiative_only ht i) fun initiative managed => ?_
  obtain ⟨_, hi⟩ := managed_tenant managed
  obtain ⟨_, _, tenant, _⟩ := Scope.managedInitiative_eq_ok.1 managed
  simp only [ask_membership, Tables.find?_membership_only hi, tenant, needTenantMember_only]
  refine .check (.refl _) fun _ _ => .check (.refl _) fun _ _ => .check (roleIn_only hi r)
    fun role hrole => .guard fun _ => ?_
  refine .afterChange narrow (putMembership_within managed hrole) trivial fun _ _ _ _ narrow => ?_
  exact .report narrow fun _ _ narrow => .pure narrow _

theorem reassign_local (i : InitiativeId) (p : PrincipalId) (r : RoleId) :
    LocalAt scope.tenant f g (reassign scope i p r) (reassign (scope.among own) i p r) := by
  have ht := narrow.consistent
  refine .read narrow <| .check (Scope.managedInitiative_only ht i) fun initiative managed => ?_
  obtain ⟨_, hi⟩ := managed_tenant managed
  simp only [ask_membership, Tables.find?_membership_only hi]
  refine .check (.refl _) fun ⟨mi, mp, mr⟩ hm => .check (roleIn_only hi r) fun role hrole => ?_
  obtain ⟨rfl, rfl⟩ := Prod.mk.inj (find?_eq_some_iff.1 (found_eq_ok.1 hm)).2
  refine .afterChange narrow (putMembership_within managed hrole) trivial fun _ t g₁ step narrow => ?_
  have here : t.tenantOf initiative.id = some scope.tenant := by
    obtain ⟨_, _, _, _, rfl⟩ := Tables.step_putMembership.1 step
    exact hi
  exact Succession.fillVacancies_local narrow here

theorem dismiss_local (i : InitiativeId) (p : PrincipalId) :
    LocalAt scope.tenant f g (dismiss scope i p) (dismiss (scope.among own) i p) := by
  have ht := narrow.consistent
  refine .read narrow <| .checkLater (fun _ h => (Scope.findInitiative_only.1 h).1)
    (fun initiative found here => ?_) fun initiative found gone answer f' done => ?_
  · obtain ⟨_, tenant⟩ := Scope.findInitiative_only.1 here
    have hi := tenant ▸ (Scope.findInitiative_tenantOf found).2
    simp only [Scope.needManager_only ht hi]
    refine .checkEither ?_
    refine .afterChange narrow ⟨trivial, hi⟩ trivial fun _ t g₁ step narrow => .guard fun _ => ?_
    have here : t.tenantOf initiative.id = some scope.tenant := by
      obtain ⟨_, rfl⟩ := Tables.step_removeMembership.1 step
      exact hi
    exact Succession.afterDeparture_local narrow here
  · -- an initiative of another tenant may be found but not changed
    have elsewhere : initiative.tenant ≠ scope.tenant := fun tenant =>
      gone (Scope.findInitiative_only.2 ⟨found, tenant⟩)
    simp only [ite_ok, bind_ok, lift_ok, Scope.needActiveTenant_eq_ok, Scope.needManager_eq_ok] at done
    rcases done with ⟨_, _, _, ⟨tenant, _⟩, _⟩ | ⟨_, _, _, ⟨⟨tenant, _⟩, _⟩, _⟩
    · exact elsewhere tenant
    · exact elsewhere tenant

theorem restoreOwners_local (i : InitiativeId) :
    LocalAt scope.tenant f g (restoreOwners scope i) (restoreOwners (scope.among own) i) := by
  have ht := narrow.consistent
  refine .read narrow <| .check (Scope.managedInitiative_only ht i) fun initiative managed => ?_
  exact Succession.fillVacancies_local narrow (managed_tenant managed).2

theorem addResource_local (fresh : f.ids.FreshFor 1 f.store) (i : InitiativeId) (kind : ResourceKind)
    (name : String) : LocalAt scope.tenant f g (addResource scope i kind name)
      (addResource (scope.among own) i kind name) := by
  have ht := narrow.consistent
  refine .read narrow <| .checkLater (fun _ h => (Scope.findInitiative_only.1 h).1)
    (fun initiative found here => ?_) fun initiative found gone answer f' done => ?_
  · obtain ⟨_, tenant⟩ := Scope.findInitiative_only.1 here
    obtain ⟨hinitiative, _⟩ := find?_eq_some_iff.1 (Scope.findInitiative_eq_ok.1 found).1
    have hi := tenant ▸ (Scope.findInitiative_tenantOf found).2
    simp only [Tables.Consistent.heldRole_only hi ht]
    refine .check (.refl _) fun _ _ => .check (.refl _) fun _ _ => ?_
    refine .guard fun _ => .fresh narrow fun f₁ g₁ store _ narrow => ?_
    have free := fresh.resource_free
    rw [← store] at hinitiative free
    refine .afterChange narrow ⟨fun j hj e => ?_, tenant⟩ free fun _ t g₂ step narrow => ?_
    · rw [eq_of_key hj hinitiative e]
    refine .afterChange narrow ⟨fun x hx e => ?_, tenant⟩ trivial fun _ _ _ _ narrow => ?_
    · obtain ⟨_, _, _, _, rfl⟩ := Tables.step_addResource.1 step
      rw [eq_of_key hx mem_insert_self e]
    · exact .report narrow fun _ _ narrow => .pure narrow _
  · have elsewhere : initiative.tenant ≠ scope.tenant := fun tenant =>
      gone (Scope.findInitiative_only.2 ⟨found, tenant⟩)
    simp only [bind_ok, lift_ok, Scope.needActiveTenant_eq_ok] at done
    obtain ⟨_, _, ⟨tenant, _⟩, _⟩ := done
    exact elsewhere tenant

theorem dropResource_local (r : ResourceId) :
    LocalAt scope.tenant f g (dropResource scope r) (dropResource (scope.among own) r) := by
  have ht := narrow.consistent
  refine .read narrow <| .check (Scope.levelAtLeast_only ht r) fun ⟨acl, held⟩ owned => ?_
  obtain ⟨hr, rfl, tenant, _⟩ := owned_resource owned
  refine .afterChange narrow ⟨trivial, fun x hx e => ?_⟩ trivial fun _ _ _ _ narrow => ?_
  · rw [eq_of_key hx hr e, tenant]
  · exact .report narrow fun _ _ narrow => .pure narrow _

theorem share_local (r : ResourceId) (p : PrincipalId) (level : Level) :
    LocalAt scope.tenant f g (share scope r p level) (share (scope.among own) r p level) := by
  have ht := narrow.consistent
  refine .read narrow <| .check (Scope.levelAtLeast_only ht r) fun ⟨acl, held⟩ owned => ?_
  have home := owned_home ht owned
  obtain ⟨hr, rfl, tenant, _⟩ := owned_resource owned
  simp only [tenant, needTenantMember_only, needOwner_only home]
  refine .check (.refl _) fun _ _ => .check (.refl _) fun _ _ => .check (.refl _) fun _ _ => ?_
  refine .afterChange narrow ⟨fun x hx e => ?_, rfl⟩ trivial fun _ _ _ _ narrow => ?_
  · rw [eq_of_key hx hr e, tenant]
  · exact .report narrow fun _ _ narrow => .pure narrow _

theorem withdraw_local {removal : Change} (r : ResourceId) (held : Acl → Option Level)
    (without : Acl → Acl) (event : Event)
    (allowed : (∀ x ∈ f.store.resources, x.id = r → x.tenant = scope.tenant) →
      Within scope.tenant f.store removal) (new : removal.IsNew f.store) :
    LocalAt scope.tenant f g (withdraw scope r held without removal event)
      (withdraw (scope.among own) r held without removal event) := by
  have ht := narrow.consistent
  refine .read narrow <| .check (Scope.levelAtLeast_only ht r) fun ⟨acl, level⟩ owned => ?_
  have home := owned_home ht owned
  obtain ⟨hr, rfl, tenant, _⟩ := owned_resource owned
  simp only [needOwner_only home]
  refine .ite (fun _ => .pure narrow _) fun _ => .check (.refl _) fun _ _ => ?_
  refine .afterChange narrow (allowed fun x hx e => ?_) new fun _ _ _ _ narrow => ?_
  · rw [eq_of_key hx hr e, tenant]
  · exact .report narrow fun _ _ narrow => .pure narrow _

theorem unshare_local (r : ResourceId) (p : PrincipalId) :
    LocalAt scope.tenant f g (unshare scope r p) (unshare (scope.among own) r p) :=
  withdraw_local narrow r _ _ _ (fun home => ⟨trivial, home⟩) trivial

theorem shareWithRole_local (r : ResourceId) (id : RoleId) (level : Level) :
    LocalAt scope.tenant f g (shareWithRole scope r id level)
      (shareWithRole (scope.among own) r id level) := by
  have ht := narrow.consistent
  refine .read narrow <| .check (Scope.levelAtLeast_only ht r) fun ⟨acl, held⟩ owned => ?_
  have home := owned_home ht owned
  obtain ⟨hr, rfl, tenant, _⟩ := owned_resource owned
  simp only [needOwner_only home, ask_role]
  refine .checkLater (fun role h => ?_) (fun role hrole _ => ?_) fun role hrole gone answer f' done => ?_
  · exact found_eq_ok.2 (Tables.find?_roles_only.1 (found_eq_ok.1 h)).1
  · obtain ⟨hrole, _⟩ := find?_eq_some_iff.1 (found_eq_ok.1 hrole)
    refine .check (.refl _) fun _ same => .check (.refl _) fun _ _ => ?_
    have same := Role.checkOn_eq_ok.1 (mapError_eq_ok.1 same)
    refine .afterChange narrow ⟨fun x hx e => ?_, tenant⟩ trivial fun _ _ _ _ narrow => ?_
    · rw [eq_of_key hx hr e]
      exact ⟨rfl, fun y hy e => by rw [eq_of_key hy hrole e, same]⟩
    · exact .report narrow fun _ _ narrow => .pure narrow _
  · -- a role of another tenant may be found but not granted to
    simp only [bind_ok, lift_refusal_ok, Role.checkOn_eq_ok] at done
    obtain ⟨_, _, ⟨same, _⟩, _⟩ := done
    have hrole : f.store.roles.find? id = some role := found_eq_ok.1 hrole
    exact gone (found_eq_ok.2 (Tables.find?_roles_only.2 ⟨hrole, same ▸ home⟩))

theorem unshareWithRole_local (r : ResourceId) (role : RoleId) :
    LocalAt scope.tenant f g (unshareWithRole scope r role)
      (unshareWithRole (scope.among own) r role) :=
  withdraw_local narrow r _ _ _ (fun home => ⟨trivial, home⟩) trivial

end Administration

/-- Every command is local to the tenant that the caller acts in, whichever tenants are in reach. -/
theorem Command.perform_local {scope : Scope} {own : IdSet .tenant} {settings : Settings}
    (command : Command) (narrow : f.NarrowsTo scope.tenant g)
    (fresh : f.ids.FreshFor (command.draws settings) f.store) :
    LocalAt scope.tenant f g (command.perform settings scope)
      (command.perform settings (scope.among own)) := by
  open Administration in
  cases command with
  | bringIn p role => exact (bringIn_local narrow p role).wrap _
  | expel p => exact (expel_local narrow p).wrap _
  | startInitiative name => exact (startInitiative_local narrow fresh name).wrap _
  | defineRole i name isManager => exact (defineRole_local narrow fresh i name isManager).wrap _
  | relabelRole r name => exact (relabelRole_local narrow r name).wrap _
  | empowerRole r isManager => exact (empowerRole_local narrow r isManager).wrap _
  | retireRole r => exact (retireRole_local narrow r).wrap _
  | switchFeature r c enabled => exact (switchFeature_local narrow r c enabled).wrap _
  | enrol i p r => exact (enrol_local narrow i p r).wrap _
  | reassign i p r => exact (reassign_local narrow i p r).wrap _
  | dismiss i p => exact (dismiss_local narrow i p).wrap _
  | restoreOwners i => exact (restoreOwners_local narrow i).wrap _
  | addResource i kind name => exact (addResource_local narrow fresh i kind name).wrap _
  | dropResource r => exact (dropResource_local narrow r).bind fun _ _ _ _ narrow => .pure narrow _
  | share r p level => exact (share_local narrow r p level).wrap _
  | unshare r p => exact (unshare_local narrow r p).wrap _
  | shareWithRole r role level => exact (shareWithRole_local narrow r role level).wrap _
  | unshareWithRole r role => exact (unshareWithRole_local narrow r role).wrap _

end TenantAccess
