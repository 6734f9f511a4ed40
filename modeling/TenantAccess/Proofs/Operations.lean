import TenantAccess.Proofs.Guards

/-!
# What a successful operation has done

For each administrative operation that succeeds: the rows that it looked up, the rights that it
found, and the changes that it made.
-/

namespace TenantAccess.Administration

open Store (Tables)
open Transaction

variable {f f' : Frame Tables} {scope : Scope}

/-! ## Principals and tenants -/

theorem register_ok {name : String} {role : PlatformRole} {p : Principal}
    (h : register name role f = (.ok p, f')) :
    p = ⟨(@Supply.draw .principal f.ids).1, name, role⟩ ∧
      ∃ hit, Tables.step (.putPrincipal p) f.store = .ok (hit, f'.store) := by
  simp only [register, bind_ok, lift_refusal_ok, fresh_ok, change_ok, report_ok, pure_ok] at h
  obtain ⟨_, _, ⟨_, rfl⟩, _, _, ⟨rfl, rfl⟩, hit, _, ⟨t, step, rfl⟩, _, _, rfl, rfl, rfl⟩ := h
  exact ⟨rfl, hit, step⟩

theorem foundTenant_ok {creator : PrincipalId} {name : String} {tenant : Tenant}
    (h : foundTenant creator name f = (.ok tenant, f')) :
    tenant = ⟨(@Supply.draw .tenant f.ids).1, name⟩ ∧
      ∃ hit hit' t, Tables.step (.addTenant tenant) f.store = .ok (hit, t) ∧
        Tables.step (.putTenantMembership ⟨tenant.id, creator, .admin⟩) t = .ok (hit', f'.store) := by
  simp only [foundTenant, bind_ok, lift_refusal_ok, current_ok, lift_ok, fresh_ok, change_ok,
    report_ok, pure_ok] at h
  obtain ⟨_, _, ⟨_, rfl⟩, _, _, ⟨rfl, rfl⟩, _, _, ⟨_, rfl⟩, _, _, ⟨rfl, rfl⟩, hit, _,
    ⟨t, step, rfl⟩, hit', _, ⟨t', step', rfl⟩, _, _, rfl, rfl, rfl⟩ := h
  exact ⟨rfl, hit, hit', t, step, step'⟩

theorem bringIn_ok {p : PrincipalId} {role : TenantRole} {m : TenantMembership}
    (h : bringIn scope p role f = (.ok m, f')) :
    m = ⟨scope.tenant, p, role⟩ ∧ scope.mayManage = true ∧
      ∃ hit, Tables.step (.putTenantMembership m) f.store = .ok (hit, f'.store) := by
  simp only [bringIn, bind_ok, lift_ok, Scope.needTenantAdmin_eq_ok, current_ok, change_ok,
    report_ok, pure_ok] at h
  obtain ⟨_, _, ⟨admin, rfl⟩, _, _, ⟨rfl, rfl⟩, _, _, ⟨_, rfl⟩, hit, _, ⟨t, step, rfl⟩, _, _, rfl,
    rfl, rfl⟩ := h
  exact ⟨rfl, admin, hit, step⟩

theorem expel_ok {p : PrincipalId} {report : HandoverReport}
    (h : expel scope p f = (.ok report, f')) :
    scope.mayManage = true ∧ ∃ t f₁,
      Tables.step (.removeTenantMembership scope.tenant p) f.store = .ok (true, t) ∧
      Succession.leaveTenant scope.tenant p { f with store := t } = (.ok report, f₁) ∧
      f'.store = f₁.store := by
  simp only [expel, bind_ok, lift_ok, Scope.needTenantAdmin_eq_ok, change_ok, ite_ok, check_ok,
    report_ok, pure_ok, reduceCtorEq, false_and, exists_false, and_false, false_or] at h
  obtain ⟨_, _, ⟨admin, rfl⟩, hit, _, ⟨t, step, rfl⟩, hhit, _, f₁, left, _, _, rfl, rfl, rfl⟩ := h
  have hhit : hit = true := by simpa using hhit
  exact ⟨admin, t, f₁, hhit ▸ step, left, rfl⟩

/-! ## Initiatives and roles -/

theorem startInitiative_ok {settings : Settings} {name : String} {i : Initiative}
    (h : startInitiative settings scope name f = (.ok i, f')) :
    i = ⟨(@Supply.draw .initiative f.ids).1, scope.tenant, name⟩ ∧ scope.mayManage = true ∧
      ∃ hit t, Tables.step (.addInitiative i) f.store = .ok (hit, t) ∧
        if settings.seedsRoles = true then
          let ids := (@Supply.draw .initiative f.ids).2
          let manager := Role.seededManager (@Supply.draw .role ids).1 i.id
          let member := Role.seededMember (@Supply.draw .role (@Supply.draw .role ids).2).1 i.id
          ∃ hit₁ hit₂ t₁ t₂, Tables.step (.putRole manager) t = .ok (hit₁, t₁) ∧
            Tables.step (.putRole member) t₁ = .ok (hit₂, t₂) ∧
            if settings.creatorJoins = true then
              ∃ hit₃, Tables.step (.putMembership ⟨i.id, scope.principal.id, manager.id⟩) t₂ =
                .ok (hit₃, f'.store)
            else f'.store = t₂
        else f'.store = t := by
  simp only [startInitiative, bind_ok, lift_ok, lift_refusal_ok, fresh_ok,
    Scope.needTenantAdmin_eq_ok, change_ok, ite_ok, report_ok, pure_ok] at h
  obtain ⟨_, _, ⟨admin, rfl⟩, _, _, ⟨_, rfl⟩, _, _, ⟨rfl, rfl⟩, hit, _, ⟨t, step, rfl⟩, h⟩ := h
  rcases h with ⟨seeds, _, _, ⟨rfl, rfl⟩, _, _, ⟨rfl, rfl⟩, hit₁, _, ⟨t₁, step₁, rfl⟩, hit₂, _,
    ⟨t₂, step₂, rfl⟩, h⟩ | ⟨seeds, _, _, rfl, rfl, rfl⟩
  · rcases h with ⟨joins, hit₃, _, ⟨t₃, step₃, rfl⟩, _, _, rfl, rfl, rfl⟩ |
      ⟨joins, _, _, rfl, rfl, rfl⟩
    · refine ⟨rfl, admin, hit, t, step, ?_⟩
      rw [if_pos seeds]
      refine ⟨hit₁, hit₂, t₁, t₂, step₁, step₂, ?_⟩
      rw [if_pos joins]
      exact ⟨hit₃, step₃⟩
    · refine ⟨rfl, admin, hit, t, step, ?_⟩
      rw [if_pos seeds]
      refine ⟨hit₁, hit₂, t₁, t₂, step₁, step₂, ?_⟩
      rw [if_neg joins]
  · refine ⟨rfl, admin, hit, t, step, ?_⟩
    rw [if_neg seeds]

theorem defineRole_ok {i : InitiativeId} {name : String} {isManager : Bool} {role : Role}
    (h : defineRole scope i name isManager f = (.ok role, f')) :
    ∃ initiative position hit, scope.managedInitiative f.store i = .ok initiative ∧
      Naming.checkRoleName name = .ok () ∧ Role.isReserved name = false ∧
      role = Role.plain (@Supply.draw .role f.ids).1 initiative.id name isManager position ∧
      Tables.step (.putRole role) f.store = .ok (hit, f'.store) := by
  simp only [defineRole, bind_ok, current_ok, lift_ok, lift_refusal_ok, needFreeName_eq_ok, fresh_ok,
    change_ok, report_ok, pure_ok] at h
  obtain ⟨_, _, ⟨rfl, rfl⟩, i, _, ⟨managed, rfl⟩, _, _, ⟨form, rfl⟩, _, _, ⟨⟨custom, _⟩, rfl⟩, _, _,
    ⟨rfl, rfl⟩, hit, _, ⟨t, step, rfl⟩, _, _, rfl, rfl, rfl⟩ := h
  exact ⟨i, _, hit, managed, form, custom, rfl, step⟩

theorem relabelRole_ok {id : RoleId} {name : String} {role : Role}
    (h : relabelRole scope id name f = (.ok role, f')) :
    ∃ stored initiative, scope.managedRole f.store id = .ok (stored, initiative) ∧
      stored.isSeeded = false ∧
      ((role = stored ∧ stored.name = name) ∧ f'.store = f.store ∨
        Naming.checkRoleName name = .ok () ∧ Role.isReserved name = false ∧
          role = { stored with name } ∧ ∃ hit, Tables.step (.putRole role) f.store = .ok (hit, f'.store)) := by
  simp only [relabelRole, bind_ok, current_ok, lift_ok, lift_refusal_ok, needCustom_eq_ok,
    needFreeName_eq_ok, change_ok, ite_ok, pure_ok] at h
  obtain ⟨_, _, ⟨rfl, rfl⟩, ⟨stored, i⟩, _, ⟨managed, rfl⟩, _, _, ⟨custom, rfl⟩, _, _, ⟨form, rfl⟩,
    h⟩ := h
  refine ⟨stored, i, managed, custom, ?_⟩
  rcases h with ⟨same, rfl, rfl⟩ | ⟨_, _, _, ⟨⟨plain, _⟩, rfl⟩, hit, _, ⟨t, step, rfl⟩, rfl, rfl⟩
  · exact Or.inl ⟨⟨rfl, same⟩, rfl⟩
  · exact Or.inr ⟨form, plain, rfl, hit, step⟩

theorem empowerRole_ok {id : RoleId} {isManager : Bool} {role : Role}
    (h : empowerRole scope id isManager f = (.ok role, f')) :
    ∃ stored initiative hit, scope.managedRole f.store id = .ok (stored, initiative) ∧
      stored.isSeeded = false ∧ role = { stored with isManager } ∧
      Tables.step (.putRole role) f.store = .ok (hit, f'.store) := by
  simp only [empowerRole, bind_ok, current_ok, lift_ok, needCustom_eq_ok, change_ok, pure_ok] at h
  obtain ⟨_, _, ⟨rfl, rfl⟩, ⟨stored, i⟩, _, ⟨managed, rfl⟩, _, _, ⟨custom, rfl⟩, hit, _,
    ⟨t, step, rfl⟩, rfl, rfl⟩ := h
  exact ⟨stored, i, hit, managed, custom, rfl, step⟩

theorem retireRole_ok {id : RoleId} {report : HandoverReport}
    (h : retireRole scope id f = (.ok report, f')) :
    ∃ stored initiative hit t f₁, scope.managedRole f.store id = .ok (stored, initiative) ∧
      stored.isSeeded = false ∧ Tables.step (.removeRole stored.id) f.store = .ok (hit, t) ∧
      Succession.fillVacancies initiative.id { f with store := t } = (.ok report, f₁) ∧
      f'.store = f₁.store := by
  simp only [retireRole, bind_ok, current_ok, lift_ok, needCustom_eq_ok, change_ok, ite_ok, check_ok,
    report_ok, pure_ok, reduceCtorEq, false_and, exists_false, and_false, false_or] at h
  obtain ⟨_, _, ⟨rfl, rfl⟩, ⟨stored, i⟩, _, ⟨managed, rfl⟩, _, _, ⟨custom, rfl⟩, _, hit, _,
    ⟨t, step, rfl⟩, _, f₁, filled, _, _, rfl, rfl, rfl⟩ := h
  exact ⟨stored, i, hit, t, f₁, managed, custom, step, filled, rfl⟩

theorem switchFeature_ok {id : RoleId} {c : Feature} {enabled : Bool} {role : Role}
    (h : switchFeature scope id c enabled f = (.ok role, f')) :
    ∃ stored initiative hit, scope.managedRole f.store id = .ok (stored, initiative) ∧
      role = stored.withToggle c enabled ∧
      Tables.step (.putToggle ⟨stored.id, c, enabled⟩) f.store = .ok (hit, f'.store) := by
  simp only [switchFeature, bind_ok, current_ok, lift_ok, change_ok, report_ok, pure_ok] at h
  obtain ⟨_, _, ⟨rfl, rfl⟩, ⟨stored, i⟩, _, ⟨managed, rfl⟩, hit, _, ⟨t, step, rfl⟩, _, _, rfl, rfl,
    rfl⟩ := h
  exact ⟨stored, i, hit, managed, rfl, step⟩

/-! ## Memberships -/

theorem enrol_ok {i : InitiativeId} {p : PrincipalId} {r : RoleId} {m : Membership}
    (h : enrol scope i p r f = (.ok m, f')) :
    ∃ initiative role hit, scope.managedInitiative f.store i = .ok initiative ∧
      f.store.tenantMemberships.contains (initiative.tenant, p) = true ∧
      roleIn f.store initiative r = .ok role ∧ m = ⟨initiative.id, p, role.id⟩ ∧
      f.store.memberships.find? (initiative.id, p) = none ∧
      Tables.step (.putMembership m) f.store = .ok (hit, f'.store) := by
  simp only [enrol, bind_ok, current_ok, lift_ok, needTenantMember_eq_ok, change_ok, ite_ok,
    check_ok, report_ok, pure_ok, reduceCtorEq, false_and, exists_false, and_false, false_or] at h
  obtain ⟨_, _, ⟨rfl, rfl⟩, i, _, ⟨managed, rfl⟩, _, _, ⟨_, rfl⟩, _, _, ⟨member, rfl⟩, role, _,
    ⟨hrole, rfl⟩, free, hit, _, ⟨t, step, rfl⟩, _, _, rfl, rfl, rfl⟩ := h
  exact ⟨i, role, hit, managed, member, hrole, rfl, by simpa using free, step⟩

theorem reassign_ok {i : InitiativeId} {p : PrincipalId} {r : RoleId} {report : HandoverReport}
    (h : reassign scope i p r f = (.ok report, f')) :
    ∃ initiative membership role hit t, scope.managedInitiative f.store i = .ok initiative ∧
      f.store.memberships.find? (initiative.id, p) = some membership ∧
      roleIn f.store initiative r = .ok role ∧
      Tables.step (.putMembership { membership with role := role.id }) f.store = .ok (hit, t) ∧
      Succession.fillVacancies initiative.id { f with store := t } = (.ok report, f') := by
  simp only [reassign, bind_ok, current_ok, lift_ok, change_ok, found_eq_ok] at h
  obtain ⟨_, _, ⟨rfl, rfl⟩, i, _, ⟨managed, rfl⟩, m, _, ⟨hm, rfl⟩, role, _, ⟨hrole, rfl⟩, hit, _,
    ⟨t, step, rfl⟩, filled⟩ := h
  exact ⟨i, m, role, hit, t, managed, hm, hrole, step, filled⟩

theorem dismiss_ok {i : InitiativeId} {p : PrincipalId} {report : HandoverReport}
    (h : dismiss scope i p f = (.ok report, f')) :
    ∃ initiative t, scope.findInitiative f.store i = .ok initiative ∧
      initiative.tenant = scope.tenant ∧
      (p = scope.principal.id ∨ scope.mayManage = true ∨
        scope.isManagerOf f.store initiative.id = true) ∧
      Tables.step (.removeMembership initiative.id p) f.store = .ok (true, t) ∧
      Succession.afterDeparture initiative.id p { f with store := t } = (.ok report, f') := by
  simp only [dismiss, bind_ok, current_ok, lift_ok, change_ok, ite_ok, check_ok,
    Scope.needActiveTenant_eq_ok, Scope.needManager_eq_ok, reduceCtorEq, false_and, exists_false,
    and_false, false_or] at h
  obtain ⟨_, _, ⟨rfl, rfl⟩, i, _, ⟨found, rfl⟩, h⟩ := h
  rcases h with ⟨rfl, _, _, ⟨active, rfl⟩, hit, _, ⟨t, step, rfl⟩, hhit, left⟩ |
    ⟨_, _, _, ⟨⟨active, manages⟩, rfl⟩, hit, _, ⟨t, step, rfl⟩, hhit, left⟩
  · have hhit : hit = true := by simpa using hhit
    exact ⟨i, t, found, active, Or.inl rfl, hhit ▸ step, left⟩
  · have hhit : hit = true := by simpa using hhit
    exact ⟨i, t, found, active, Or.inr manages, hhit ▸ step, left⟩

theorem restoreOwners_ok {i : InitiativeId} {report : HandoverReport}
    (h : restoreOwners scope i f = (.ok report, f')) :
    ∃ initiative, scope.managedInitiative f.store i = .ok initiative ∧
      Succession.fillVacancies initiative.id f = (.ok report, f') := by
  simp only [restoreOwners, bind_ok, current_ok, lift_ok] at h
  obtain ⟨_, _, ⟨rfl, rfl⟩, i, _, ⟨managed, rfl⟩, filled⟩ := h
  exact ⟨i, managed, filled⟩

/-! ## Resources and grants -/

theorem addResource_ok {i : InitiativeId} {kind : ResourceKind} {name : String} {r : Resource}
    (h : addResource scope i kind name f = (.ok r, f')) :
    ∃ initiative hit hit' t, scope.findInitiative f.store i = .ok initiative ∧
      initiative.tenant = scope.tenant ∧
      r = ⟨(@Supply.draw .resource f.ids).1, kind, initiative.id, initiative.tenant, name⟩ ∧
      Tables.step (.addResource r) f.store = .ok (hit, t) ∧
      Tables.step (.putUserGrant ⟨r.id, scope.principal.id, .owner, r.tenant⟩) t =
        .ok (hit', f'.store) := by
  simp only [addResource, bind_ok, current_ok, lift_ok, lift_refusal_ok, fresh_ok, change_ok,
    ite_ok, check_ok, report_ok, Scope.needActiveTenant_eq_ok, pure_ok, reduceCtorEq, false_and,
    exists_false, and_false, false_or] at h
  obtain ⟨_, _, ⟨rfl, rfl⟩, i, _, ⟨found, rfl⟩, _, _, ⟨active, rfl⟩, _, _, ⟨_, rfl⟩, _, _, _,
    ⟨rfl, rfl⟩, hit, _, ⟨t, step, rfl⟩, hit', _, ⟨t', step', rfl⟩, _, _, rfl, rfl, rfl⟩ := h
  exact ⟨i, hit, hit', t, found, active, rfl, step, step'⟩

theorem dropResource_ok {r : ResourceId} {u : Unit}
    (h : dropResource scope r f = (.ok u, f')) :
    ∃ granted hit, scope.levelAtLeast f.store r .owner = .ok granted ∧
      Tables.step (.removeResource r) f.store = .ok (hit, f'.store) := by
  simp only [dropResource, bind_ok, current_ok, lift_ok, change_ok, report_ok] at h
  obtain ⟨_, _, ⟨rfl, rfl⟩, granted, _, ⟨owned, rfl⟩, hit, _, ⟨t, step, rfl⟩, rfl⟩ := h
  exact ⟨granted, hit, owned, step⟩

theorem share_ok {r : ResourceId} {p : PrincipalId} {level : Level} {g : UserGrant}
    (h : share scope r p level f = (.ok g, f')) :
    ∃ acl held hit, scope.levelAtLeast f.store r .owner = .ok (acl, held) ∧
      f.store.tenantMemberships.contains (acl.resource.tenant, p) = true ∧
      needOwner f.store acl (acl.setUser p level) = .ok () ∧
      g = ⟨r, p, level, acl.resource.tenant⟩ ∧
      Tables.step (.putUserGrant g) f.store = .ok (hit, f'.store) := by
  simp only [share, bind_ok, current_ok, lift_ok, change_ok, report_ok, needTenantMember_eq_ok,
    pure_ok] at h
  obtain ⟨_, _, ⟨rfl, rfl⟩, ⟨acl, held⟩, _, ⟨owned, rfl⟩, _, _, ⟨_, rfl⟩, _, _, ⟨member, rfl⟩, _, _,
    ⟨keeps, rfl⟩, hit, _, ⟨t, step, rfl⟩, _, _, rfl, rfl, rfl⟩ := h
  exact ⟨acl, held, hit, owned, member, keeps, rfl, step⟩

section Withdraw

variable {r : ResourceId} {held : Acl → Option Level} {without : Acl → Acl} {removal : Store.Change}
  {event : Event} {found : Bool}

theorem withdraw_ok (h : withdraw scope r held without removal event f = (.ok found, f')) :
    ∃ acl level, scope.levelAtLeast f.store r .owner = .ok (acl, level) ∧ found = (held acl).isSome ∧
      (found = false ∧ f'.store = f.store ∨
        found = true ∧ needOwner f.store acl (without acl) = .ok () ∧
          ∃ hit, Tables.step removal f.store = .ok (hit, f'.store)) := by
  simp only [withdraw, bind_ok, current_ok, lift_ok, change_ok, ite_ok, report_ok, pure_ok] at h
  obtain ⟨_, _, ⟨rfl, rfl⟩, ⟨acl, level⟩, _, ⟨owned, rfl⟩, h⟩ := h
  refine ⟨acl, level, owned, ?_⟩
  rcases h with ⟨missing, rfl, rfl⟩ | ⟨there, _, _, ⟨keeps, rfl⟩, hit, _, ⟨t, step, rfl⟩, _, _, rfl,
    rfl, rfl⟩
  · cases e : held acl with
    | none => exact ⟨rfl, Or.inl ⟨rfl, rfl⟩⟩
    | some _ =>
      rw [e] at missing
      cases missing
  · cases e : held acl with
    | none =>
      rw [e] at there
      exact absurd rfl there
    | some _ => exact ⟨rfl, Or.inr ⟨rfl, keeps, hit, step⟩⟩

theorem unshare_ok {p : PrincipalId} (h : unshare scope r p f = (.ok found, f')) :
    ∃ acl level, scope.levelAtLeast f.store r .owner = .ok (acl, level) ∧
      found = (acl.direct? p).isSome ∧
      (found = false ∧ f'.store = f.store ∨
        found = true ∧ needOwner f.store acl (acl.removeUser p) = .ok () ∧
          ∃ hit, Tables.step (.removeUserGrant r p) f.store = .ok (hit, f'.store)) :=
  withdraw_ok h

theorem unshareWithRole_ok {role : RoleId} (h : unshareWithRole scope r role f = (.ok found, f')) :
    ∃ acl level, scope.levelAtLeast f.store r .owner = .ok (acl, level) ∧
      found = (acl.levelOfRole? role).isSome ∧
      (found = false ∧ f'.store = f.store ∨
        found = true ∧ needOwner f.store acl (acl.removeRole role) = .ok () ∧
          ∃ hit, Tables.step (.removeRoleGrant r role) f.store = .ok (hit, f'.store)) :=
  withdraw_ok h

end Withdraw

theorem shareWithRole_ok {r : ResourceId} {id : RoleId} {level : Level} {g : RoleGrant}
    (h : shareWithRole scope r id level f = (.ok g, f')) :
    ∃ acl held role hit, scope.levelAtLeast f.store r .owner = .ok (acl, held) ∧
      f.store.roles.find? id = some role ∧ role.initiative = acl.resource.initiative ∧
      needOwner f.store acl (acl.setRole role.id level) = .ok () ∧
      g = ⟨r, role.id, level, acl.resource.tenant⟩ ∧
      Tables.step (.putRoleGrant g) f.store = .ok (hit, f'.store) := by
  simp only [shareWithRole, bind_ok, current_ok, lift_ok, lift_refusal_ok, found_eq_ok, ask_role,
    Role.checkOn_eq_ok, change_ok, report_ok, pure_ok] at h
  obtain ⟨_, _, ⟨rfl, rfl⟩, ⟨acl, held⟩, _, ⟨owned, rfl⟩, role, _, ⟨hrole, rfl⟩, _, _, ⟨same, rfl⟩,
    _, _, ⟨keeps, rfl⟩, hit, _, ⟨t, step, rfl⟩, _, _, rfl, rfl, rfl⟩ := h
  exact ⟨acl, held, role, hit, owned, hrole, same, keeps, rfl, step⟩

end TenantAccess.Administration
