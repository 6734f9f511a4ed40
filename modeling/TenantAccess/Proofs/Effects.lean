import TenantAccess.Proofs.Freshness
import TenantAccess.Proofs.Handover
import TenantAccess.Proofs.Operations
import TenantAccess.Proofs.Store.Confinement
import TenantAccess.Proofs.Succession

/-!
# What commands change

Every command makes changes that fit the rows that they find, and each of them concerns the tenant
that the caller acts in.
-/

namespace TenantAccess

open Store (Tables Change)
open Table

/-! ## Chains of changes -/

/-- Tables that come about by changes, each of which satisfies a condition on the rows it finds. -/
inductive Changes (P : Tables → Change → Prop) (t : Tables) : Tables → Prop
  | none : Changes P t t
  | next {t' t'' : Tables} {c : Change} {hit : Bool} (before : Changes P t t') (allowed : P t' c)
      (step : Tables.step c t' = .ok (hit, t'')) : Changes P t t''

/-- A change that fits and concerns one tenant. -/
structure Within (u : TenantId) (t : Tables) (c : Change) : Prop where
  fits : c.Fits t
  inside : c.Concerns t u

namespace Changes

variable {P Q : Tables → Change → Prop} {t t' t'' : Tables} {c : Change} {hit : Bool}

theorem single (allowed : P t c) (step : Tables.step c t = .ok (hit, t')) : Changes P t t' :=
  .next .none allowed step

theorem trans (h : Changes P t t') (h' : Changes P t' t'') : Changes P t t'' := by
  induction h' with
  | none => exact h
  | next _ allowed step ih => exact .next ih allowed step

theorem mono (h : Changes P t t') (hPQ : ∀ t c, P t c → Q t c) : Changes Q t t' := by
  induction h with
  | none => exact .none
  | next _ allowed step ih => exact .next ih (hPQ _ _ allowed) step

theorem consistent (h : Changes (fun t c => c.Fits t) t t') (ht : t.Consistent) :
    t'.Consistent := by
  induction h with
  | none => exact ht
  | next _ allowed step ih => exact ih.step allowed step

theorem sameOutside {u : TenantId} (h : Changes (Within u) t t') (ht : t.Consistent) :
    Tables.SameOutside u t t' := by
  induction h with
  | none => exact .refl t
  | next before allowed step ih =>
    have consistent := (before.mono fun _ _ h => h.fits).consistent ht
    exact ih.trans (.step consistent allowed.fits allowed.inside step)

end Changes

open Transaction

/-- A transaction that goes through a list, each step of which makes allowed changes and keeps what
the next one relies on. -/
theorem Transaction.forM_changes {α : Type} {P : Tables → Change → Prop} {K : Tables → Prop}
    {f f' : Frame Tables} {l : List α} {g : α → Transaction Tables Unit}
    (step : ∀ a ∈ l, ∀ f f', K f.store → g a f = (.ok (), f') →
      Changes P f.store f'.store ∧ K f'.store)
    (hf : K f.store) (h : l.forM g f = (.ok (), f')) : Changes P f.store f'.store ∧ K f'.store :=
  forM_ok_induction (P := fun f₁ => Changes P f.store f₁.store ∧ K f₁.store)
    (fun a ha f₁ f₂ ⟨before, keeps⟩ h =>
      have ⟨after, keeps'⟩ := step a ha f₁ f₂ keeps h
      ⟨before.trans after, keeps'⟩) ⟨.none, hf⟩ h

/-! ## Handovers -/

namespace Succession

variable {f f' : Frame Tables} {i : InitiativeId} {p : PrincipalId} {result : HandoverReport}
  {u : TenantId}

theorem carryOut_within {plan : Handover.Plan}
    (inside : ∀ c ∈ plan.revoke ++ plan.grantOwner, ∀ x ∈ f.store.resources, x.id = c.1 →
      x.tenant = u)
    (h : carryOut u plan f = (.ok result, f')) : Changes (Within u) f.store f'.store := by
  simp only [carryOut, bind_ok, pure_ok] at h
  obtain ⟨_, f₁, h₁, _, f₂, h₂, _, f₃, h₃, rfl, rfl⟩ := h
  obtain ⟨revoked, keeps⟩ := forM_changes (P := Within u)
    (K := fun t => t.resources = f.store.resources) (fun c hc a b keeps h => by
      simp only [bind_ok, change_ok, pure_ok] at h
      obtain ⟨hit, _, ⟨t, step, rfl⟩, _, rfl⟩ := h
      have allowed : Within u a.store (.removeUserGrant c.1 c.2) :=
        ⟨trivial, fun x hx => inside c (List.mem_append_left _ hc) x (keeps ▸ hx)⟩
      refine ⟨.single allowed step, ?_⟩
      obtain ⟨_, rfl⟩ := Tables.step_removeUserGrant.1 step
      exact keeps) rfl h₁
  obtain ⟨raised, _⟩ := forM_changes (P := Within u)
    (K := fun t => t.resources = f.store.resources) (fun c hc a b keeps h => by
      simp only [bind_ok, change_ok, pure_ok] at h
      obtain ⟨hit, _, ⟨t, step, rfl⟩, _, rfl⟩ := h
      have allowed : Within u a.store (.putUserGrant ⟨c.1, c.2, .owner, u⟩) :=
        ⟨fun x hx => inside c (List.mem_append_right _ hc) x (keeps ▸ hx), rfl⟩
      refine ⟨.single allowed step, ?_⟩
      obtain ⟨_, _, _, rfl⟩ := Tables.step_putUserGrant.1 step
      exact keeps) keeps h₂
  have reported : f₃.store = f₂.store :=
    forM_ok_induction (P := fun f => f.store = f₂.store) (fun w _ f f' e h => by
      simp only [report_ok] at h
      rw [← h]
      exact e) rfl h₃
  rw [reported]
  exact revoked.trans raised

theorem resource_tenant {t : Tables} (ht : t.Consistent) (hi : t.tenantOf i = some u)
    {acls : List Acl} (listed : accessLists t i = .ok acls) {id : ResourceId}
    (h : ∃ acl ∈ acls, id = acl.resource.id) : ∀ x ∈ t.resources, x.id = id → x.tenant = u := by
  obtain ⟨acl, hacl, rfl⟩ := h
  obtain ⟨r, hr, rfl, rfl⟩ := mem_accessLists listed hacl
  intro x hx e
  rw [ht.tenantOf_resource hr] at hi
  rw [eq_of_key hx hr e]
  exact Option.some.inj hi

theorem found_tenant {t : Tables} (hi : t.tenantOf i = some u) {initiative : Initiative}
    (found : t.initiatives.find? i = some initiative) : initiative.tenant = u := by
  rw [Tables.tenantOf, found] at hi
  exact Option.some.inj hi

theorem fillVacancies_within (ht : f.store.Consistent) (hi : f.store.tenantOf i = some u)
    (h : fillVacancies i f = (.ok result, f')) : Changes (Within u) f.store f'.store := by
  rcases fillVacancies_ok h with ⟨_, _, rfl⟩ | ⟨initiative, acls, found, listed, h⟩
  · exact .none
  · obtain rfl := found_tenant hi found
    refine carryOut_within (fun c hc => ?_) h
    exact resource_tenant ht hi listed (Handover.vacancyPlan_resource hc)

theorem afterDeparture_within (ht : f.store.Consistent) (hi : f.store.tenantOf i = some u)
    (h : afterDeparture i p f = (.ok result, f')) : Changes (Within u) f.store f'.store := by
  rcases afterDeparture_ok h with ⟨_, _, rfl⟩ |
    ⟨initiative, acls, plan, sweep, f₁, f₂, _, _, found, listed, rfl, rfl, h₁, h₂, _, e⟩
  · exact .none
  · obtain rfl := found_tenant hi found
    have first := carryOut_within (fun c hc =>
      resource_tenant ht hi listed (Handover.departurePlan_resource hc)) h₁
    have same : f₁.store.resources = f.store.resources := by rw [(carryOut_ok h₁).2]; rfl
    have second := carryOut_within (fun c hc => by
      obtain ⟨acl, hacl, hc⟩ := Handover.vacancyPlan_resource hc
      obtain ⟨old, hold, rfl⟩ := List.mem_map.1 (List.mem_filter.1 hacl).1
      rw [Handover.Plan.applyTo_resource] at hc
      rw [same]
      exact resource_tenant ht hi listed ⟨old, hold, hc⟩) h₂
    rw [e]
    exact first.trans second

theorem drop_within {l : List ResourceId} {t : Tables}
    (inside : ∀ r ∈ l, ∀ x ∈ t.resources, x.id = r → x.tenant = u) :
    Changes (Within u) t (t.regrant (l.foldl (fun g r => g.erase (r, p)) t.userGrants)) := by
  induction l generalizing t with
  | nil => exact .none
  | cons r rest ih =>
    have allowed : Within u t (.removeUserGrant r p) :=
      ⟨trivial, inside r List.mem_cons_self⟩
    have first := Changes.single allowed (Tables.step_removeUserGrant.2 ⟨rfl, rfl⟩)
    have later := ih (t := t.regrant (t.userGrants.erase (r, p)))
      fun x hx => inside x (List.mem_cons_of_mem r hx)
    exact first.trans later

theorem leaveInitiative_within (ht : f.store.Consistent) (hi : f.store.tenantOf i = some u)
    (h : leaveInitiative p i f = (.ok result, f')) : Changes (Within u) f.store f'.store := by
  obtain ⟨wasMember, t, acls, step, listed, h⟩ := leaveInitiative_ok h
  have allowed : Within u f.store (.removeMembership i p) := ⟨trivial, hi⟩
  have left := Changes.single allowed step
  have ht' : t.Consistent := ht.step allowed.fits step
  have hi' : t.tenantOf i = some u := by
    obtain ⟨_, rfl⟩ := Tables.step_removeMembership.1 step
    exact hi
  rcases h with ⟨_, _, _, e⟩ | ⟨f₁, h₁, e⟩
  · rw [e]
    exact left
  · have handed := afterDeparture_within (f := { f with store := t }) ht' hi' h₁
    have same : f₁.store.resources = t.resources := by
      obtain ⟨_, e'⟩ := afterDeparture_regrant h₁
      rw [e']
      rfl
    rw [e]
    refine left.trans (handed.trans (drop_within fun r hr => ?_))
    obtain ⟨acl, hacl, _, rfl⟩ := mem_heldBy.1 hr
    rw [same]
    exact resource_tenant ht' hi' listed ⟨acl, hacl, rfl⟩

/-- Leaving one initiative does not change where the others lie. -/
theorem leaveEach_within {l : List Initiative} {reports : List HandoverReport}
    (ht : f.store.Consistent) (inside : ∀ i ∈ l, f.store.tenantOf i.id = some u)
    (h : l.mapM (fun i => leaveInitiative p i.id) f = (.ok reports, f')) :
    Changes (Within u) f.store f'.store := by
  induction l generalizing f reports with
  | nil =>
    simp only [List.mapM_nil, pure_ok] at h
    rw [h.2]
    exact .none
  | cons i rest ih =>
    obtain ⟨report, f₁, reports, h₁, hrest, _⟩ := mapM_cons_ok.1 h
    have first := leaveInitiative_within ht (inside i List.mem_cons_self) h₁
    have ht₁ := (first.mono fun _ _ h => h.fits).consistent ht
    refine first.trans (ih ht₁ (fun j hj => ?_) hrest)
    obtain ⟨grants, e⟩ := leaveInitiative_store h₁
    rw [e]
    exact inside j (List.mem_cons_of_mem i hj)

theorem leaveTenant_within (ht : f.store.Consistent)
    (h : leaveTenant u p f = (.ok result, f')) : Changes (Within u) f.store f'.store := by
  obtain ⟨reports, h, _⟩ := leaveTenant_ok h
  refine leaveEach_within ht (fun i hi => ?_) h
  obtain ⟨hi, e⟩ := List.mem_filter.1 hi
  rw [Tables.tenantOf_mem hi, of_decide_eq_true e]

end Succession

/-! ## Commands -/

namespace Administration

variable {f f' : Frame Tables} {scope : Scope} {settings : Settings}

theorem managed_tenant {t : Tables} {id : InitiativeId} {i : Initiative}
    (h : scope.managedInitiative t id = .ok i) :
    i ∈ t.initiatives ∧ t.tenantOf i.id = some scope.tenant := by
  obtain ⟨found, _, tenant, _⟩ := Scope.managedInitiative_eq_ok.1 h
  obtain ⟨hi, _⟩ := find?_eq_some_iff.1 found
  exact ⟨hi, tenant ▸ Tables.tenantOf_mem hi⟩

theorem managedRole_tenant {t : Tables} {id : RoleId} {role : Role} {i : Initiative}
    (h : scope.managedRole t id = .ok (role, i)) :
    role ∈ t.roles ∧ i.id = role.initiative ∧ t.tenantOf role.initiative = some scope.tenant := by
  obtain ⟨hrole, found, _, tenant, _⟩ := Scope.managedRole_eq_ok.1 h
  obtain ⟨hrole, _⟩ := find?_eq_some_iff.1 hrole
  obtain ⟨hi, e⟩ := find?_eq_some_iff.1 found
  have e : i.id = role.initiative := e
  exact ⟨hrole, e, e ▸ tenant ▸ Tables.tenantOf_mem hi⟩

theorem updateRole_within {t : Tables} (ht : t.Consistent) {id : RoleId} {role new : Role}
    {i : Initiative} (managed : scope.managedRole t id = .ok (role, i)) (hid : new.id = role.id)
    (hi : new.initiative = role.initiative) (htoggles : new.toggles = role.toggles) :
    Within scope.tenant t (.putRole new) := by
  obtain ⟨hrole, _, tenant⟩ := managedRole_tenant managed
  have tidy := ht.aligned.toggles role hrole
  refine ⟨⟨⟨htoggles ▸ tidy.ordered, ?_⟩, fun r hr e => ?_⟩, ?_⟩
  · rw [htoggles, hid]
    exact tidy.own
  · rw [eq_of_key hr hrole (e.trans hid), hi]
  · rw [← hi] at tenant
    exact tenant

theorem addRole_within {t : Tables} {u : TenantId} {id : RoleId} {i : InitiativeId} {name : String}
    {isManager : Bool} {position : UInt32} (free : t.roles.contains id = false)
    (hi : t.tenantOf i = some u) :
    Within u t (.putRole (Role.plain id i name isManager position)) :=
  ⟨⟨.plain, fun r hr e => absurd e (not_contains_iff.1 free r hr)⟩, hi⟩

theorem bringIn_within {p : PrincipalId} {role : TenantRole} {m : TenantMembership}
    (h : bringIn scope p role f = (.ok m, f')) :
    Changes (Within scope.tenant) f.store f'.store := by
  obtain ⟨rfl, _, hit, step⟩ := bringIn_ok h
  have allowed : Within scope.tenant f.store (.putTenantMembership ⟨scope.tenant, p, role⟩) :=
    ⟨trivial, rfl⟩
  exact .single allowed step

theorem expel_within (ht : f.store.Consistent) {p : PrincipalId} {report : HandoverReport}
    (h : expel scope p f = (.ok report, f')) :
    Changes (Within scope.tenant) f.store f'.store := by
  obtain ⟨_, t, f₁, step, left, e⟩ := expel_ok h
  have allowed : Within scope.tenant f.store (.removeTenantMembership scope.tenant p) :=
    ⟨trivial, rfl⟩
  have first := Changes.single allowed step
  rw [e]
  exact first.trans (Succession.leaveTenant_within (f := { f with store := t })
    (ht.step allowed.fits step) left)

theorem startInitiative_within {name : String} {i : Initiative}
    (fresh : f.ids.FreshFor (if settings.seedsRoles then 3 else 1) f.store)
    (h : startInitiative settings scope name f = (.ok i, f')) :
    Changes (Within scope.tenant) f.store f'.store := by
  obtain ⟨hi, _, hit, t, step, h⟩ := startInitiative_ok h
  have tenant : i.tenant = scope.tenant := by rw [hi]
  have added : Within scope.tenant f.store (.addInitiative i) := ⟨trivial, tenant⟩
  have first := Changes.single added step
  have here : t.tenantOf i.id = some scope.tenant ∧ t.roles = f.store.roles := by
    obtain ⟨_, _, _, rfl⟩ := Tables.step_addInitiative.1 step
    exact ⟨tenant ▸ Tables.tenantOf_mem mem_insert_self, rfl⟩
  by_cases seeds : settings.seedsRoles = true
  · rw [if_pos seeds] at h fresh
    obtain ⟨hit₁, hit₂, t₁, t₂, step₁, step₂, h⟩ := h
    have fresh := fresh.next .initiative
    have manager := first.next
      (addRole_within (here.2 ▸ fresh.role_free) here.1) step₁
    obtain ⟨_, _, _, rfl⟩ := Tables.step_putRole.1 step₁
    have member := manager.next
      (addRole_within (not_contains_iff.2 fun r hr e => by
        rcases mem_insert.1 hr with rfl | ⟨hr, _⟩
        · exact fresh.draw_ne .role e
        · exact not_contains_iff.1 (fresh.next .role).role_free r (here.2 ▸ hr) e) here.1) step₂
    obtain ⟨_, _, _, rfl⟩ := Tables.step_putRole.1 step₂
    by_cases joins : settings.creatorJoins = true
    · rw [if_pos joins] at h
      obtain ⟨hit₃, step₃⟩ := h
      refine member.next ?_ step₃
      refine ⟨fun r hr e => ?_, here.1⟩
      -- the manager role is the only one under its identifier
      rcases mem_insert.1 hr with rfl | ⟨hr, _⟩
      · rfl
      · rw [eq_of_key hr mem_insert_self e]
        rfl
    · rw [if_neg joins] at h
      rw [h]
      exact member
  · rw [if_neg seeds] at h
    rw [h]
    exact first

theorem defineRole_within {i : InitiativeId} {name : String} {isManager : Bool} {role : Role}
    (fresh : f.ids.FreshFor 1 f.store) (h : defineRole scope i name isManager f = (.ok role, f')) :
    Changes (Within scope.tenant) f.store f'.store := by
  obtain ⟨initiative, position, hit, managed, _, _, rfl, step⟩ := defineRole_ok h
  exact .single (addRole_within fresh.role_free (managed_tenant managed).2) step

theorem relabelRole_within (ht : f.store.Consistent) {id : RoleId} {name : String} {role : Role}
    (h : relabelRole scope id name f = (.ok role, f')) :
    Changes (Within scope.tenant) f.store f'.store := by
  obtain ⟨stored, i, managed, _, ⟨_, e⟩ | ⟨_, _, rfl, hit, step⟩⟩ := relabelRole_ok h
  · rw [e]
    exact .none
  · refine .single ?_ step
    exact updateRole_within ht managed rfl rfl rfl

theorem empowerRole_within (ht : f.store.Consistent) {id : RoleId} {isManager : Bool} {role : Role}
    (h : empowerRole scope id isManager f = (.ok role, f')) :
    Changes (Within scope.tenant) f.store f'.store := by
  obtain ⟨stored, i, hit, managed, _, rfl, step⟩ := empowerRole_ok h
  refine .single ?_ step
  exact updateRole_within ht managed rfl rfl rfl

theorem retireRole_within (ht : f.store.Consistent) {id : RoleId} {report : HandoverReport}
    (h : retireRole scope id f = (.ok report, f')) :
    Changes (Within scope.tenant) f.store f'.store := by
  obtain ⟨stored, i, hit, t, f₁, managed, _, step, filled, e⟩ := retireRole_ok h
  obtain ⟨hrole, hi, tenant⟩ := managedRole_tenant managed
  have allowed : Within scope.tenant f.store (.removeRole stored.id) :=
    ⟨trivial, fun r hr e => by rw [eq_of_key hr hrole e, tenant]⟩
  have first := Changes.single allowed step
  have tenant' : t.tenantOf i.id = some scope.tenant := by
    obtain ⟨_, _, rfl⟩ := Tables.step_removeRole.1 step
    rw [ht.stored.removeRole, hi]
    exact tenant
  rw [e]
  exact first.trans (Succession.fillVacancies_within (f := { f with store := t })
    (ht.step allowed.fits step) tenant' filled)

theorem switchFeature_within {id : RoleId} {c : Feature} {enabled : Bool} {role : Role}
    (h : switchFeature scope id c enabled f = (.ok role, f')) :
    Changes (Within scope.tenant) f.store f'.store := by
  obtain ⟨stored, i, hit, managed, rfl, step⟩ := switchFeature_ok h
  obtain ⟨hrole, _, tenant⟩ := managedRole_tenant managed
  refine .single (c := .putToggle _) ⟨trivial, fun r hr e => ?_⟩ step
  rw [eq_of_key hr hrole e, tenant]

theorem putMembership_within {t : Tables} {id : InitiativeId} {i : Initiative} {r : RoleId}
    {role : Role} {p : PrincipalId} (managed : scope.managedInitiative t id = .ok i)
    (hrole : roleIn t i r = .ok role) : Within scope.tenant t (.putMembership ⟨i.id, p, role.id⟩) := by
  obtain ⟨hrole, hi⟩ := roleIn_eq_ok.1 hrole
  obtain ⟨hrole, _⟩ := find?_eq_some_iff.1 hrole
  refine ⟨fun r hr e => ?_, (managed_tenant managed).2⟩
  rw [eq_of_key hr hrole e]
  exact hi

theorem enrol_within {i : InitiativeId} {p : PrincipalId} {r : RoleId} {m : Membership}
    (h : enrol scope i p r f = (.ok m, f')) : Changes (Within scope.tenant) f.store f'.store := by
  obtain ⟨initiative, role, hit, managed, _, hrole, rfl, _, step⟩ := enrol_ok h
  exact .single (putMembership_within managed hrole) step

theorem reassign_within (ht : f.store.Consistent) {i : InitiativeId} {p : PrincipalId} {r : RoleId}
    {report : HandoverReport} (h : reassign scope i p r f = (.ok report, f')) :
    Changes (Within scope.tenant) f.store f'.store := by
  obtain ⟨initiative, m, role, hit, t, managed, hm, hrole, step, filled⟩ := reassign_ok h
  obtain ⟨_, e⟩ := find?_eq_some_iff.1 hm
  obtain ⟨mi, mp, mr⟩ := m
  obtain ⟨rfl, rfl⟩ := Prod.mk.inj e
  have allowed : Within scope.tenant f.store (.putMembership ⟨initiative.id, mp, role.id⟩) :=
    putMembership_within managed hrole
  have first := Changes.single allowed step
  have tenant : t.tenantOf initiative.id = some scope.tenant := by
    obtain ⟨_, _, _, _, rfl⟩ := Tables.step_putMembership.1 step
    exact (managed_tenant managed).2
  exact first.trans (Succession.fillVacancies_within (f := { f with store := t })
    (ht.step allowed.fits step) tenant filled)

theorem dismiss_within (ht : f.store.Consistent) {i : InitiativeId} {p : PrincipalId}
    {report : HandoverReport} (h : dismiss scope i p f = (.ok report, f')) :
    Changes (Within scope.tenant) f.store f'.store := by
  obtain ⟨initiative, t, found, tenant, _, step, left⟩ := dismiss_ok h
  obtain ⟨hi, _⟩ := find?_eq_some_iff.1 (Scope.findInitiative_eq_ok.1 found).1
  have inside : f.store.tenantOf initiative.id = some scope.tenant :=
    tenant ▸ Tables.tenantOf_mem hi
  have allowed : Within scope.tenant f.store (.removeMembership initiative.id p) :=
    ⟨trivial, inside⟩
  have first := Changes.single allowed step
  have inside' : t.tenantOf initiative.id = some scope.tenant := by
    obtain ⟨_, rfl⟩ := Tables.step_removeMembership.1 step
    exact inside
  exact first.trans (Succession.afterDeparture_within (f := { f with store := t })
    (ht.step allowed.fits step) inside' left)

theorem restoreOwners_within (ht : f.store.Consistent) {i : InitiativeId} {report : HandoverReport}
    (h : restoreOwners scope i f = (.ok report, f')) :
    Changes (Within scope.tenant) f.store f'.store := by
  obtain ⟨initiative, managed, filled⟩ := restoreOwners_ok h
  exact Succession.fillVacancies_within ht (managed_tenant managed).2 filled

theorem addResource_within {i : InitiativeId} {kind : ResourceKind}
    {name : String} {r : Resource} (h : addResource scope i kind name f = (.ok r, f')) :
    Changes (Within scope.tenant) f.store f'.store := by
  obtain ⟨initiative, hit, hit', t, found, tenant, hr, step, step'⟩ := addResource_ok h
  obtain ⟨hi, _⟩ := find?_eq_some_iff.1 (Scope.findInitiative_eq_ok.1 found).1
  have there : r.initiative = initiative.id ∧ r.tenant = initiative.tenant := by
    rw [hr]
    exact ⟨rfl, rfl⟩
  have allowed : Within scope.tenant f.store (.addResource r) :=
    ⟨fun x hx e => by rw [eq_of_key hx hi (e.trans there.1), there.2], there.2.trans tenant⟩
  refine (Changes.single allowed step).next ?_ step'
  refine ⟨fun x hx e => ?_, there.2.trans tenant⟩
  obtain ⟨_, _, free, _, rfl⟩ := Tables.step_addResource.1 step
  rw [eq_of_key hx mem_insert_self e]

theorem owned_resource {t : Tables} {r : ResourceId} {acl : Acl} {level : Level}
    (h : scope.levelAtLeast t r .owner = .ok (acl, level)) :
    acl.resource ∈ t.resources ∧ acl.resource.id = r ∧ acl.resource.tenant = scope.tenant ∧
      acl = t.acl acl.resource := by
  obtain ⟨resource, found, _, hacl, tenant, _⟩ := Scope.levelAtLeast_ok h
  obtain ⟨hr, e⟩ := find?_eq_some_iff.1 found
  obtain ⟨_, _, rfl⟩ := Store.aclOf_eq_ok.1 hacl
  exact ⟨hr, e, tenant rfl, rfl⟩

theorem dropResource_within {r : ResourceId} {u : Unit}
    (h : dropResource scope r f = (.ok u, f')) : Changes (Within scope.tenant) f.store f'.store := by
  obtain ⟨⟨acl, held⟩, hit, owned, step⟩ := dropResource_ok h
  obtain ⟨hr, rfl, tenant, _⟩ := owned_resource owned
  refine .single (c := .removeResource _) ⟨trivial, fun x hx e => ?_⟩ step
  rw [eq_of_key hx hr e, tenant]

theorem share_within {r : ResourceId} {p : PrincipalId} {level : Level} {g : UserGrant}
    (h : share scope r p level f = (.ok g, f')) : Changes (Within scope.tenant) f.store f'.store := by
  obtain ⟨acl, held, hit, owned, _, _, rfl, step⟩ := share_ok h
  obtain ⟨hr, rfl, tenant, _⟩ := owned_resource owned
  have allowed : Within scope.tenant f.store
      (.putUserGrant ⟨acl.resource.id, p, level, acl.resource.tenant⟩) :=
    ⟨fun x hx e => by rw [eq_of_key hx hr e], tenant⟩
  exact .single allowed step

theorem withdraw_within {r : ResourceId} {held : Acl → Option Level} {without : Acl → Acl}
    {removal : Change} {event : Event} {found : Bool}
    (h : withdraw scope r held without removal event f = (.ok found, f'))
    (allowed : (∀ x ∈ f.store.resources, x.id = r → x.tenant = scope.tenant) →
      Within scope.tenant f.store removal) :
    Changes (Within scope.tenant) f.store f'.store := by
  obtain ⟨acl, _, owned, _, ⟨_, e⟩ | ⟨_, _, hit, step⟩⟩ := withdraw_ok h
  · rw [e]
    exact .none
  · obtain ⟨hr, rfl, tenant, _⟩ := owned_resource owned
    refine .single (allowed fun x hx e => ?_) step
    rw [eq_of_key hx hr e, tenant]

theorem unshare_within {r : ResourceId} {p : PrincipalId} {found : Bool}
    (h : unshare scope r p f = (.ok found, f')) :
    Changes (Within scope.tenant) f.store f'.store :=
  withdraw_within h fun home => ⟨trivial, home⟩

theorem shareWithRole_within {r : ResourceId} {id : RoleId} {level : Level} {g : RoleGrant}
    (h : shareWithRole scope r id level f = (.ok g, f')) :
    Changes (Within scope.tenant) f.store f'.store := by
  obtain ⟨acl, held, role, hit, owned, hrole, same, _, rfl, step⟩ := shareWithRole_ok h
  obtain ⟨hr, rfl, tenant, _⟩ := owned_resource owned
  obtain ⟨hrole, _⟩ := find?_eq_some_iff.1 hrole
  have allowed : Within scope.tenant f.store
      (.putRoleGrant ⟨acl.resource.id, role.id, level, acl.resource.tenant⟩) :=
    ⟨fun x hx e => by
      rw [eq_of_key hx hr e]
      exact ⟨rfl, fun y hy e => by rw [eq_of_key hy hrole e, same]⟩, tenant⟩
  exact .single allowed step

theorem unshareWithRole_within {r : ResourceId} {role : RoleId} {found : Bool}
    (h : unshareWithRole scope r role f = (.ok found, f')) :
    Changes (Within scope.tenant) f.store f'.store :=
  withdraw_within h fun home => ⟨trivial, home⟩

end Administration

/-- Every command makes fitting changes within the tenant that the caller acts in. -/
theorem Command.perform_within {f f' : Frame Tables} {scope : Scope} {settings : Settings}
    {command : Command} {answer : Answer} (ht : f.store.Consistent)
    (fresh : f.ids.FreshFor (command.draws settings) f.store)
    (h : command.perform settings scope f = (.ok answer, f')) :
    Changes (Within scope.tenant) f.store f'.store := by
  open Administration in
  cases command with
  | bringIn p role =>
    obtain ⟨_, h, _⟩ := return_ok.1 h
    exact bringIn_within h
  | expel p =>
    obtain ⟨_, h, _⟩ := return_ok.1 h
    exact expel_within ht h
  | startInitiative name =>
    obtain ⟨_, h, _⟩ := return_ok.1 h
    exact startInitiative_within fresh h
  | defineRole i name isManager =>
    obtain ⟨_, h, _⟩ := return_ok.1 h
    exact defineRole_within fresh h
  | relabelRole r name =>
    obtain ⟨_, h, _⟩ := return_ok.1 h
    exact relabelRole_within ht h
  | empowerRole r isManager =>
    obtain ⟨_, h, _⟩ := return_ok.1 h
    exact empowerRole_within ht h
  | retireRole r =>
    obtain ⟨_, h, _⟩ := return_ok.1 h
    exact retireRole_within ht h
  | switchFeature r c enabled =>
    obtain ⟨_, h, _⟩ := return_ok.1 h
    exact switchFeature_within h
  | enrol i p r =>
    obtain ⟨_, h, _⟩ := return_ok.1 h
    exact enrol_within h
  | reassign i p r =>
    obtain ⟨_, h, _⟩ := return_ok.1 h
    exact reassign_within ht h
  | dismiss i p =>
    obtain ⟨_, h, _⟩ := return_ok.1 h
    exact dismiss_within ht h
  | restoreOwners i =>
    obtain ⟨_, h, _⟩ := return_ok.1 h
    exact restoreOwners_within ht h
  | addResource i kind name =>
    obtain ⟨_, h, _⟩ := return_ok.1 h
    exact addResource_within h
  | dropResource r =>
    simp only [perform, bind_ok, pure_ok] at h
    obtain ⟨_, _, h, _, rfl⟩ := h
    exact dropResource_within h
  | share r p level =>
    obtain ⟨_, h, _⟩ := return_ok.1 h
    exact share_within h
  | unshare r p =>
    obtain ⟨_, h, _⟩ := return_ok.1 h
    exact unshare_within h
  | shareWithRole r role level =>
    obtain ⟨_, h, _⟩ := return_ok.1 h
    exact shareWithRole_within h
  | unshareWithRole r role =>
    obtain ⟨_, h, _⟩ := return_ok.1 h
    exact unshareWithRole_within h

end TenantAccess
