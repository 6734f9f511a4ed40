import TenantAccess.Proofs.Guards

/-!
# What a successful succession has done

The access lists that a plan is made from, the changes that carrying it out makes, and the parts of
each run that hands ownership on.
-/

namespace TenantAccess

open Store (Tables)
open Transaction

/-! ## Access lists -/

namespace Acl

theorem ofRows_eq_ok {resource : Resource} {users : List UserGrant} {roles : List RoleGrant}
    {acl : Acl} : ofRows resource users roles = .ok acl ↔
      (∀ g ∈ users, g.resource = resource.id ∧ g.tenant = resource.tenant) ∧
      (∀ g ∈ roles, g.resource = resource.id ∧ g.tenant = resource.tenant) ∧
      { resource
        users := .ofList (users.map fun g => (g.principal, g.level))
        roles := .ofList (roles.map fun g => (g.role, g.level)) } = acl := by
  have own {id : ResourceId} {tenant : TenantId} : (isForeign resource id tenant) = false ↔
      id = resource.id ∧ tenant = resource.tenant := by
    simp [isForeign]
  simp only [ofRows]
  cases hu : users.find? fun g => isForeign resource g.resource g.tenant with
  | some g =>
    have hg := List.find?_some hu
    have hmem := List.mem_of_find?_eq_some hu
    refine iff_of_false (by simp) fun h => ?_
    rw [own.2 (h.1 g hmem)] at hg
    cases hg
  | none =>
    have users_own : ∀ g ∈ users, g.resource = resource.id ∧ g.tenant = resource.tenant :=
      fun g hg => own.1 (by simpa using List.find?_eq_none.1 hu g hg)
    cases hr : roles.find? fun g => isForeign resource g.resource g.tenant with
    | some g =>
      have hg := List.find?_some hr
      have hmem := List.mem_of_find?_eq_some hr
      refine iff_of_false (by simp) fun h => ?_
      rw [own.2 (h.2.1 g hmem)] at hg
      cases hg
    | none =>
      have roles_own : ∀ g ∈ roles, g.resource = resource.id ∧ g.tenant = resource.tenant :=
        fun g hg => own.1 (by simpa using List.find?_eq_none.1 hr g hg)
      simp only [Except.ok.injEq]
      exact ⟨fun h => ⟨users_own, roles_own, h⟩, fun h => h.2.2⟩

end Acl

namespace Store

variable {t : Tables}

/-- The rows with other grants of users. -/
def Tables.regrant (t : Tables) (grants : Table UserGrant) : Tables := { t with userGrants := grants }

/-- The rows without one membership. -/
def Tables.unenrol (t : Tables) (i : InitiativeId) (p : PrincipalId) : Tables :=
  { t with memberships := t.memberships.erase (i, p) }

/-- The access list of a resource, as it is put together where its grants belong to it. -/
def Tables.acl (t : Tables) (resource : Resource) : Acl where
  resource
  users := .ofList ((t.userGrants.rows.filter fun g => g.resource = resource.id).map fun g =>
    (g.principal, g.level))
  roles := .ofList ((t.roleGrants.rows.filter fun g => g.resource = resource.id).map fun g =>
    (g.role, g.level))

theorem aclOf_eq_ok {resource : Resource} {acl : Acl} : aclOf t resource = .ok acl ↔
    (∀ g ∈ t.userGrants, g.resource = resource.id → g.tenant = resource.tenant) ∧
    (∀ g ∈ t.roleGrants, g.resource = resource.id → g.tenant = resource.tenant) ∧
    t.acl resource = acl := by
  have e : aclOf t resource = .ok acl ↔ Acl.ofRows resource
      (t.userGrants.rows.filter fun g => g.resource = resource.id)
      (t.roleGrants.rows.filter fun g => g.resource = resource.id) = .ok acl := by
    simp only [aclOf, ask_userGrants, ask_roleGrants]
    cases Acl.ofRows resource _ _ <;> simp
  rw [e, Acl.ofRows_eq_ok]
  simp only [List.mem_filter, decide_eq_true_eq]
  refine and_congr ?_ (and_congr ?_ Iff.rfl)
  · exact ⟨fun h g hg e => (h g ⟨hg, e⟩).2, fun h g hg => ⟨hg.2, h g hg.1 hg.2⟩⟩
  · exact ⟨fun h g hg e => (h g ⟨hg, e⟩).2, fun h g hg => ⟨hg.2, h g hg.1 hg.2⟩⟩

theorem Tables.Consistent.aclOf_eq (h : t.Consistent) {resource : Resource}
    (hr : resource ∈ t.resources) : aclOf t resource = .ok (t.acl resource) :=
  aclOf_eq_ok.2 ⟨fun g hg e => (h.aligned.userGrant g hg resource hr e.symm).symm,
    fun g hg e => (h.aligned.roleGrant g hg resource hr e.symm).1.symm, rfl⟩

end Store

section Sight

variable {t : Tables} {scope : Scope}

theorem Scope.levelAtLeast_ok {id : ResourceId} {minimum held : Level} {acl : Acl}
    (h : scope.levelAtLeast t id minimum = .ok (acl, held)) : ∃ resource,
      t.resources.find? id = some resource ∧ scope.reaches resource = true ∧
      Store.aclOf t resource = .ok acl ∧
      (minimum.isChanging = true → resource.tenant = scope.tenant) ∧
      acl.demand scope.principal.id (scope.roleThere t resource.initiative) minimum = .ok held := by
  simp only [levelAtLeast, effective, bind_eq_ok, findResource_eq_ok, lift_storeError_eq_ok,
    pure_eq_ok] at h
  obtain ⟨resource, ⟨found, sees⟩, ⟨_, _⟩, ⟨acl', hacl, e⟩, h⟩ := h
  obtain ⟨rfl, rfl⟩ := Prod.mk.inj e
  split at h
  · simp only [bind_eq_ok, throw_ne_ok, false_and, exists_false] at h
  · rename_i changes
    simp only [bind_eq_ok, lift_refusal_eq_ok, pure_eq_ok] at h
    obtain ⟨held, demanded, e⟩ := h
    obtain ⟨rfl, rfl⟩ := Prod.mk.inj e
    refine ⟨resource, found, sees, hacl, fun hm => ?_, demanded⟩
    simp only [hm, Bool.true_and, Bool.not_eq_true', Bool.not_eq_false] at changes
    exact of_decide_eq_true changes

end Sight

/-! ## Going through a list -/

namespace Transaction

theorem mapM_cons_ok {σ α β : Type} {a : α} {l : List α} {g : α → Transaction σ β} {bs : List β}
    {f f' : Frame σ} : (a :: l).mapM g f = (.ok bs, f') ↔
      ∃ b f₁ rest, g a f = (.ok b, f₁) ∧ l.mapM g f₁ = (.ok rest, f') ∧ b :: rest = bs := by
  rw [List.mapM_cons]
  simp only [bind_ok, pure_ok]
  constructor
  · rintro ⟨b, f₁, ha, rest, _, hl, rfl, rfl⟩
    exact ⟨b, f₁, rest, ha, hl, rfl⟩
  · rintro ⟨b, f₁, rest, ha, hl, rfl⟩
    exact ⟨b, f₁, ha, rest, f', hl, rfl, rfl⟩

end Transaction

namespace Transaction

/-- A transaction that goes through a list, where each step updates the store in a known way. -/
theorem forM_ok_foldl {σ α : Type} {f f' : Frame σ} {l : List α} {g : α → Transaction σ Unit}
    (update : σ → α → σ)
    (hg : ∀ a f f', g a f = (.ok (), f') → f'.store = update f.store a)
    (h : l.forM g f = (.ok (), f')) : f'.store = l.foldl update f.store := by
  induction l generalizing f with
  | nil =>
    simp only [List.forM, pure_ok] at h
    rw [h.2, List.foldl_nil]
  | cons a rest ih =>
    simp only [List.forM, bind_ok] at h
    obtain ⟨_, f₁, ha, hrest⟩ := h
    rw [List.foldl_cons, ih hrest, hg a f f₁ ha]

theorem mapM_ok_foldl {σ α β : Type} {f f' : Frame σ} {l : List α} {g : α → Transaction σ β}
    {bs : List β} (update : σ → α → σ)
    (hg : ∀ a b f f', g a f = (.ok b, f') → f'.store = update f.store a)
    (h : l.mapM g f = (.ok bs, f')) : f'.store = l.foldl update f.store := by
  induction l generalizing f bs with
  | nil =>
    simp only [List.mapM_nil, pure_ok] at h
    rw [h.2, List.foldl_nil]
  | cons a rest ih =>
    obtain ⟨b, f₁, _, ha, hrest, rfl⟩ := mapM_cons_ok.1 h
    rw [List.foldl_cons, ih hrest, hg a b f f₁ ha]

end Transaction

/-! ## Handovers -/

namespace Succession

variable {f f' : Frame Tables} {i : InitiativeId} {p : PrincipalId} {result : HandoverReport}
  {acls : List Acl}

theorem accessLists_eq_ok {t : Tables} (h : accessLists t i = .ok acls) :
    acls = (t.resources.rows.filter fun r => r.initiative = i).map t.acl :=
  eq_map_of_mapM_ok (fun _ _ _ e => (Store.aclOf_eq_ok.1 e).2.2.symm) h

theorem accessLists_of_consistent {t : Tables} (h : t.Consistent) (i : InitiativeId) :
    accessLists t i = .ok ((t.resources.rows.filter fun r => r.initiative = i).map t.acl)  :=
  mapM_eq_ok_map fun _ hr => h.aclOf_eq (List.mem_filter.1 hr).1

/-- The grants of users after a plan has been carried out in a tenant, deletions first. -/
def granted (tenant : TenantId) (plan : Handover.Plan) (grants : Table UserGrant) : Table UserGrant :=
  plan.grantOwner.foldl (fun g c => g.insert ⟨c.1, c.2, .owner, tenant⟩)
    (plan.revoke.foldl (fun g c => g.erase c) grants)

theorem foldl_regrant {α : Type} (update : Table UserGrant → α → Table UserGrant) {l : List α}
    {t : Tables} : l.foldl (fun t a => t.regrant (update t.userGrants a)) t =
      t.regrant (l.foldl update t.userGrants) := by
  induction l generalizing t with
  | nil => rfl
  | cons a rest ih => exact ih

theorem carryOut_ok {tenant : TenantId} {plan : Handover.Plan}
    (h : carryOut tenant plan f = (.ok result, f')) :
    result = ⟨plan.revoke, plan.grantOwner, plan.ownerless⟩ ∧
      f'.store = f.store.regrant (granted tenant plan f.store.userGrants) := by
  simp only [carryOut, bind_ok, pure_ok] at h
  obtain ⟨_, f₁, h₁, _, f₂, h₂, _, f₃, h₃, rfl, rfl⟩ := h
  have revoked := forM_ok_foldl (fun (t : Tables) c => t.regrant (t.userGrants.erase c))
    (fun c f f' h => by
      simp only [bind_ok, change_ok, pure_ok, Tables.step_removeUserGrant] at h
      obtain ⟨_, _, ⟨_, ⟨_, rfl⟩, rfl⟩, _, rfl⟩ := h
      rfl) h₁
  have raised := forM_ok_foldl
    (fun (t : Tables) (c : ResourceId × PrincipalId) =>
      t.regrant (t.userGrants.insert ⟨c.1, c.2, .owner, tenant⟩))
    (fun c f f' h => by
      simp only [bind_ok, change_ok, pure_ok, Tables.step_putUserGrant] at h
      obtain ⟨_, _, ⟨_, ⟨_, _, _, rfl⟩, rfl⟩, _, rfl⟩ := h
      rfl) h₂
  have reported : f₃.store = f₂.store :=
    forM_ok_induction (P := fun f => f.store = f₂.store) (fun w _ f f' e h => by
      simp only [report_ok] at h
      rw [← h]
      exact e) rfl h₃
  refine ⟨rfl, ?_⟩
  rw [reported, raised, revoked, foldl_regrant Table.erase,
    foldl_regrant fun g (c : ResourceId × PrincipalId) => g.insert ⟨c.1, c.2, .owner, tenant⟩]
  rfl

/-- Nothing is done for an initiative that is not there. -/
theorem fillVacancies_ok (h : fillVacancies i f = (.ok result, f')) :
    f.store.initiatives.find? i = none ∧ result = .empty ∧ f' = f ∨
      ∃ initiative acls, f.store.initiatives.find? i = some initiative ∧
        accessLists f.store i = .ok acls ∧
        carryOut initiative.tenant (Handover.vacancyPlan acls (Store.roleMap f.store i)
          (Store.managingRoles f.store i)) f = (.ok result, f') := by
  simp only [fillVacancies, bind_ok, current_ok, ask_initiative] at h
  obtain ⟨_, _, ⟨rfl, rfl⟩, h⟩ := h
  cases found : f.store.initiatives.find? i with
  | none =>
    simp only [found, pure_ok] at h
    exact Or.inl ⟨rfl, h.1.symm, h.2.symm⟩
  | some initiative =>
    simp only [found, bind_ok, lift_storeError_ok] at h
    obtain ⟨acls, _, ⟨listed, rfl⟩, h⟩ := h
    exact Or.inr ⟨initiative, acls, rfl, listed, h⟩

theorem afterDeparture_ok (h : afterDeparture i p f = (.ok result, f')) :
    f.store.initiatives.find? i = none ∧ result = .empty ∧ f' = f ∨
      ∃ initiative acls plan sweep f₁ f₂ first second,
        f.store.initiatives.find? i = some initiative ∧ accessLists f.store i = .ok acls ∧
        plan = Handover.departurePlan p acls (Store.roleMap f.store i)
          (Store.managingRoles f.store i) ∧
        sweep = Handover.vacancyPlan
          ((plan.apply acls).filter fun acl => !plan.revoke.any fun c => c.1 = acl.resource.id)
          (Store.roleMap f.store i) (Store.managingRoles f.store i) ∧
        carryOut initiative.tenant plan f = (.ok first, f₁) ∧
        carryOut initiative.tenant sweep f₁ = (.ok second, f₂) ∧
        result = first ++ second ∧ f'.store = f₂.store := by
  simp only [afterDeparture, bind_ok, current_ok, ask_initiative] at h
  obtain ⟨_, _, ⟨rfl, rfl⟩, h⟩ := h
  cases found : f.store.initiatives.find? i with
  | none =>
    simp only [found, pure_ok] at h
    exact Or.inl ⟨rfl, h.1.symm, h.2.symm⟩
  | some initiative =>
    simp only [found, bind_ok, lift_storeError_ok, report_ok, pure_ok] at h
    obtain ⟨acls, _, ⟨listed, rfl⟩, first, f₁, h₁, second, f₂, h₂, _, _, rfl, rfl, rfl⟩ := h
    exact Or.inr ⟨initiative, acls, _, _, f₁, f₂, first, second, rfl, listed, rfl, rfl, h₁, h₂, rfl,
      rfl⟩

/-- The resources on which a principal has a grant of its own. -/
def heldBy (p : PrincipalId) (acls : List Acl) : List ResourceId :=
  (acls.filter fun acl => (acl.direct? p).isSome).map fun acl => acl.resource.id

theorem leaveInitiative_ok (h : leaveInitiative p i f = (.ok result, f')) :
    ∃ wasMember t acls, Tables.step (.removeMembership i p) f.store = .ok (wasMember, t) ∧
      accessLists t i = .ok acls ∧
      (wasMember = false ∧ heldBy p acls = [] ∧ result = .empty ∧ f'.store = t ∨
        ∃ f₁, afterDeparture i p { f with store := t } = (.ok result, f₁) ∧
          f'.store = f₁.store.regrant
            ((heldBy p acls).foldl (fun g r => g.erase (r, p)) f₁.store.userGrants)) := by
  simp only [leaveInitiative, bind_ok, current_ok, change_ok, lift_storeError_ok, ite_ok, report_ok,
    pure_ok] at h
  obtain ⟨wasMember, _, ⟨t, step, rfl⟩, _, _, ⟨rfl, rfl⟩, acls, _, ⟨listed, rfl⟩, h⟩ := h
  refine ⟨wasMember, t, acls, step, listed, ?_⟩
  rcases h with ⟨idle, rfl, rfl⟩ | ⟨_, result, f₁, left, dropped, f₂, hdropped, _, _, rfl, rfl, rfl⟩
  · obtain ⟨idle, none⟩ := (Bool.and_eq_true _ _).mp idle
    exact Or.inl ⟨by simpa using idle, List.isEmpty_iff.1 none, rfl, rfl⟩
  · refine Or.inr ⟨f₁, left, ?_⟩
    have erased := mapM_ok_foldl (fun (t : Tables) r => t.regrant (t.userGrants.erase (r, p)))
      (fun r b f f' h => by
        simp only [change_ok, Tables.step_removeUserGrant] at h
        obtain ⟨_, ⟨_, rfl⟩, rfl⟩ := h
        rfl) hdropped
    rw [foldl_regrant fun g r => g.erase (r, p)] at erased
    exact erased

theorem leaveTenant_ok {tenant : TenantId} (h : leaveTenant tenant p f = (.ok result, f')) :
    ∃ reports, (f.store.initiatives.rows.filter fun i => i.tenant = tenant).mapM
        (fun i => leaveInitiative p i.id) f = (.ok reports, f') ∧ result = .concat reports := by
  simp only [leaveTenant, bind_ok, current_ok, pure_ok] at h
  obtain ⟨_, _, ⟨rfl, rfl⟩, reports, _, left, rfl, rfl⟩ := h
  exact ⟨reports, left, rfl⟩

theorem mem_accessLists {t : Tables} (h : accessLists t i = .ok acls) {acl : Acl}
    (hacl : acl ∈ acls) : ∃ r ∈ t.resources, r.initiative = i ∧ acl = t.acl r := by
  rw [accessLists_eq_ok h] at hacl
  obtain ⟨r, hr, rfl⟩ := List.mem_map.1 hacl
  obtain ⟨hr, hi⟩ := List.mem_filter.1 hr
  exact ⟨r, hr, of_decide_eq_true hi, rfl⟩

theorem mem_heldBy {r : ResourceId} : r ∈ heldBy p acls ↔
    ∃ acl ∈ acls, (acl.direct? p).isSome = true ∧ acl.resource.id = r := by
  simp only [heldBy, List.mem_map, List.mem_filter, and_assoc]

/-- Only grants of users change when ownership is handed on. -/
theorem fillVacancies_regrant (h : fillVacancies i f = (.ok result, f')) :
    ∃ grants, f'.store = f.store.regrant grants := by
  rcases fillVacancies_ok h with ⟨_, _, rfl⟩ | ⟨_, _, _, _, h⟩
  · exact ⟨f'.store.userGrants, rfl⟩
  · exact ⟨_, (carryOut_ok h).2⟩

theorem afterDeparture_regrant (h : afterDeparture i p f = (.ok result, f')) :
    ∃ grants, f'.store = f.store.regrant grants := by
  rcases afterDeparture_ok h with ⟨_, _, rfl⟩ | ⟨_, _, _, _, _, _, _, _, _, _, _, _, h₁, h₂, _, e⟩
  · exact ⟨f'.store.userGrants, rfl⟩
  · rw [e, (carryOut_ok h₂).2, (carryOut_ok h₁).2]
    exact ⟨_, rfl⟩

/-- Leaving an initiative changes its memberships and grants of users. -/
theorem leaveInitiative_store (h : leaveInitiative p i f = (.ok result, f')) :
    ∃ grants, f'.store = (f.store.unenrol i p).regrant grants := by
  obtain ⟨wasMember, t, acls, step, _, h⟩ := leaveInitiative_ok h
  obtain ⟨_, rfl⟩ := Tables.step_removeMembership.1 step
  rcases h with ⟨_, _, _, e⟩ | ⟨f₁, left, e⟩
  · exact ⟨f.store.userGrants, e⟩
  · obtain ⟨grants, left⟩ := afterDeparture_regrant left
    rw [left] at e
    exact ⟨_, e⟩

end Succession

end TenantAccess
