import TenantAccess.Proofs.Checks
import TenantAccess.Proofs.Isolation

/-!
# The store accepts every change

What a call checks before it changes rows is enough for the store, so no call fails there: on rows
that fit together, with role names apart and fresh identifiers, each change that is made succeeds.
-/

namespace TenantAccess

open Store (Tables Change Faithful)
open Store.Faithful (tables)
open Table

theorem Changes.namesApart {P : Tables → Change → Prop} {t t' : Tables} (changes : Changes P t t')
    (names : t.NamesApart) : t'.NamesApart := by
  induction changes with
  | none => exact names
  | next _ _ step ih => exact ih.step step

/-- Where a check fails, both give the same failure. -/
theorem SameResult.eq_of_checked {α : Type} {a b : Except Failure α} (h : SameResult a b)
    (checked : Checked b) : a = b := by
  rcases h with same | ⟨_, _, _, failed⟩
  · exact same
  · exact (checked _ failed).elim

/-! ## Transactions that a store accepts -/

namespace Transaction

variable {α β : Type} {f : Frame Tables} {x : Transaction Tables α}
  {g : α → Transaction Tables β}

/-- If the transaction fails from the frame on, it is a check that fails. -/
def Accepted (f : Frame Tables) (x : Transaction Tables α) : Prop := Checked (x f).1

namespace Accepted

theorem bind (hx : Accepted f x) (hg : ∀ a f', x f = (.ok a, f') → Accepted f' (g a)) :
    Accepted f (x >>= g) := by
  unfold Accepted
  rw [bind_eq]
  rcases e : x f with ⟨_ | a, f'⟩
  · exact .error (hx _ (congrArg Prod.fst e))
  · exact hg a f' e

theorem pure (a : α) : Accepted f (pure a) := .ok a

theorem answer {k : α → β} (hx : Accepted f x) : Accepted f (do return k (← x)) :=
  hx.bind fun _ _ _ => pure _

theorem report (e : Event) : Accepted f (report e) := .ok ()

theorem check {r : Except Failure α} (h : Checked r) : Accepted f (check r) := h

theorem change {c : Change} {hit : Bool} {t : Tables} (h : Tables.step c f.store = .ok (hit, t)) :
    Accepted f (change c) := by
  have done : Transaction.change c f = (.ok hit, { f with store := t }) := change_ok.2 ⟨t, h, rfl⟩
  unfold Accepted
  rw [done]
  exact .ok hit

theorem afterCheck {r : Except Failure α} (h : Checked r) (hg : ∀ a, r = .ok a → Accepted f (g a)) :
    Accepted f (Transaction.check r >>= g) :=
  .bind (.check h) fun a f' e => by
    obtain ⟨passes, rfl⟩ := check_ok.1 e
    exact hg a passes

theorem refused {e : Failure} (h : e.ByCheck) :
    Accepted f (Transaction.check (.error e) >>= g) :=
  .afterCheck (.error h) fun _ h' => by cases h'

theorem afterChange {c : Change} {hit : Bool} {t : Tables} {g : Bool → Transaction Tables β}
    (h : Tables.step c f.store = .ok (hit, t)) (hg : Accepted { f with store := t } (g hit)) :
    Accepted f (Transaction.change c >>= g) :=
  .bind (.change h) fun a f' e => by
    obtain ⟨t', h', rfl⟩ := change_ok.1 e
    obtain ⟨rfl, rfl⟩ := Prod.mk.inj (Except.ok.inj (h.symm.trans h'))
    exact hg

theorem read {g : Tables → Transaction Tables β} (hg : Accepted f (g f.store)) :
    Accepted f (current >>= g) := hg

theorem afterFresh {noun : Noun} {g : Id noun → Transaction Tables β}
    (hg : Accepted { f with ids := (@Supply.draw noun f.ids).2 } (g (@Supply.draw noun f.ids).1)) :
    Accepted f (fresh >>= g) := hg

theorem afterReport {e : Event} {g : Unit → Transaction Tables β}
    (hg : Accepted { f with events := f.events ++ [e] } (g ())) :
    Accepted f (Transaction.report e >>= g) := hg

theorem ite {p : Prop} [Decidable p] {y : Transaction Tables α} (hx : p → Accepted f x)
    (hy : ¬ p → Accepted f y) : Accepted f (if p then x else y) := by
  split
  · exact hx ‹_›
  · exact hy ‹_›

/-- Going through a list, when each step keeps what the next ones rely on. -/
theorem forM {l : List α} {g : α → Transaction Tables Unit} {P : Frame Tables → Prop} (hf : P f)
    (step : ∀ a ∈ l, ∀ f, P f → Accepted f (g a) ∧ ∀ f', g a f = (.ok (), f') → P f') :
    Accepted f (l.forM g) := by
  induction l generalizing f with
  | nil => exact pure ()
  | cons a rest ih =>
    obtain ⟨accepted, keeps⟩ := step a List.mem_cons_self f hf
    exact accepted.bind fun _ f' e =>
      ih (keeps f' e) fun b hb => step b (List.mem_cons_of_mem a hb)

theorem mapM {l : List α} {P : Frame Tables → Prop} (hf : P f)
    (step : ∀ a ∈ l, ∀ f, P f → Accepted f (g a) ∧ ∀ b f', g a f = (.ok b, f') → P f') :
    Accepted f (l.mapM g) := by
  induction l generalizing f with
  | nil => exact pure []
  | cons a rest ih =>
    rw [List.mapM_cons]
    obtain ⟨accepted, keeps⟩ := step a List.mem_cons_self f hf
    refine accepted.bind fun b f' e => ?_
    exact (ih (keeps b f' e) fun b hb => step b (List.mem_cons_of_mem a hb)).bind fun _ _ _ => pure _

end Accepted

end Transaction

open Transaction

/-! ## Handovers -/

namespace Succession

variable {f : Frame Tables} {i : InitiativeId} {p : PrincipalId}

/-- A plan is carried out if it names stored rows. -/
theorem carryOut_accepted {tenant : TenantId} {plan : Handover.Plan}
    (stored : ∀ c ∈ plan.grantOwner, f.store.resources.contains c.1 = true ∧
      f.store.principals.contains c.2 = true) : Accepted f (carryOut tenant plan) := by
  let Same (f' : Frame Tables) : Prop :=
    f'.store.resources = f.store.resources ∧ f'.store.principals = f.store.principals
  have revokes : ∀ c ∈ plan.revoke, ∀ g, Same g →
      Accepted g (do let _ ← change (.removeUserGrant c.1 c.2)) ∧ ∀ g',
        (do let _ ← change (.removeUserGrant c.1 c.2) : Transaction Tables Unit) g = (.ok (), g') →
          Same g' := by
    intro c _ g same
    refine ⟨.afterChange (Tables.step_removeUserGrant.2 ⟨rfl, rfl⟩) (.pure ()), fun g' h => ?_⟩
    simp only [bind_ok, change_ok, pure_ok, Tables.step_removeUserGrant] at h
    obtain ⟨_, _, ⟨_, ⟨_, rfl⟩, rfl⟩, _, rfl⟩ := h
    exact same
  have grants : ∀ c ∈ plan.grantOwner, ∀ g, Same g →
      Accepted g (do let _ ← change (.putUserGrant ⟨c.1, c.2, .owner, tenant⟩)) ∧ ∀ g',
        (do let _ ← change (.putUserGrant ⟨c.1, c.2, .owner, tenant⟩) : Transaction Tables Unit) g =
          (.ok (), g') → Same g' := by
    intro c hc g same
    obtain ⟨resource, principal⟩ := stored c hc
    rw [← same.1] at resource
    rw [← same.2] at principal
    refine ⟨.afterChange (Tables.step_putUserGrant.2 ⟨resource, principal, rfl, rfl⟩) (.pure ()),
      fun g' h => ?_⟩
    simp only [bind_ok, change_ok, pure_ok, Tables.step_putUserGrant] at h
    obtain ⟨_, _, ⟨_, ⟨_, _, _, rfl⟩, rfl⟩, _, rfl⟩ := h
    exact same
  refine .bind (.forM (P := Same) ⟨rfl, rfl⟩ revokes) fun _ f₁ h₁ => ?_
  have same₁ : Same f₁ := forM_ok_induction (P := Same)
    (fun c hc g g' same h => (revokes c hc g same).2 g' h) ⟨rfl, rfl⟩ h₁
  refine .bind (.forM same₁ grants) fun _ f₂ _ => ?_
  exact .bind (.forM (P := fun _ => True) trivial fun w _ g _ => ⟨.report _, fun _ _ => trivial⟩)
    fun _ _ _ => .pure _

theorem manager_stored {t : Tables} (ht : t.Consistent)
    (h : p ∈ Handover.managers (Store.roleMap t i) (Store.managingRoles t i)) :
    t.principals.contains p = true := by
  obtain ⟨entry, listed, rfl, _⟩ := Handover.mem_managers.1 h
  obtain ⟨m, hm, _, rfl⟩ := Store.mem_roleMap.1 listed
  exact (ht.stored.membership m hm).2.1

theorem resource_stored {t : Tables} {acls : List Acl} (listed : accessLists t i = .ok acls)
    {acl : Acl} (hacl : acl ∈ acls) : t.resources.contains acl.resource.id = true := by
  obtain ⟨r, hr, _, rfl⟩ := mem_accessLists listed hacl
  exact contains_iff.2 ⟨r, hr, rfl⟩

theorem fillVacancies_accepted (ht : f.store.Consistent) : Accepted f (fillVacancies i) := by
  refine .read ?_
  cases Store.Backend.ask (.initiative i) f.store with
  | none => exact .pure _
  | some initiative =>
    have listed := accessLists_of_consistent ht i
    refine .afterCheck (.storeError listed) fun acls e => carryOut_accepted fun c hc => ?_
    have listed : accessLists f.store i = .ok acls := lift_storeError_eq_ok.1 e
    obtain ⟨acl, hacl, _, m, hm, _, rfl⟩ := Handover.mem_vacancyPlan_grantOwner.1 hc
    exact ⟨resource_stored listed hacl, manager_stored ht hm⟩

theorem afterDeparture_accepted (ht : f.store.Consistent) : Accepted f (afterDeparture i p) := by
  refine .read ?_
  cases Store.Backend.ask (.initiative i) f.store with
  | none => exact .pure _
  | some initiative =>
    have listed := accessLists_of_consistent ht i
    refine .afterCheck (.storeError listed) fun acls e => ?_
    have listed : accessLists f.store i = .ok acls := lift_storeError_eq_ok.1 e
    refine .bind (carryOut_accepted fun c hc => ?_) fun first f₁ h₁ => ?_
    · obtain ⟨acl, hacl, _, m, hm, _, rfl⟩ := Handover.mem_departurePlan_grantOwner.1 hc
      exact ⟨resource_stored listed hacl, manager_stored ht (mem_erase.1 hm).1⟩
    have resources : f₁.store.resources = f.store.resources := by
      rw [(carryOut_ok h₁).2]
      rfl
    have principals : f₁.store.principals = f.store.principals := by
      rw [(carryOut_ok h₁).2]
      rfl
    refine .bind (carryOut_accepted fun c hc => ?_) fun second f₂ _ => .afterReport (.pure _)
    rw [resources, principals]
    obtain ⟨a, ha, _, m, hm, _, rfl⟩ := Handover.mem_vacancyPlan_grantOwner.1 hc
    obtain ⟨acl, hacl, rfl⟩ := List.mem_map.1 (List.mem_filter.1 ha).1
    rw [Handover.Plan.applyTo_resource]
    exact ⟨resource_stored listed hacl, manager_stored ht hm⟩

theorem leaveInitiative_accepted (ht : f.store.Consistent) : Accepted f (leaveInitiative p i) := by
  have step : Tables.step (.removeMembership i p) f.store =
      .ok (f.store.memberships.contains (i, p), f.store.unenrol i p) :=
    Tables.step_removeMembership.2 ⟨rfl, rfl⟩
  have ht' : (f.store.unenrol i p).Consistent := ht.step (c := .removeMembership i p) trivial step
  refine .afterChange step (.read (.afterCheck (.storeError (accessLists_of_consistent ht' i))
    fun acls _ => ?_))
  refine .ite (fun _ => .pure _) fun _ => ?_
  refine .bind (afterDeparture_accepted ht') fun result f₁ _ => ?_
  refine .bind (.mapM (P := fun _ => True) trivial fun r _ g _ => ⟨?_, fun _ _ _ => trivial⟩)
    fun _ _ _ => .afterReport (.pure _)
  exact .change (Tables.step_removeUserGrant.2 ⟨rfl, rfl⟩)

theorem leaveTenant_accepted {tenant : TenantId} (ht : f.store.Consistent) :
    Accepted f (leaveTenant tenant p) := by
  let Kept (g : Frame Tables) : Prop :=
    g.store.Consistent ∧ g.store.initiatives = f.store.initiatives
  refine .read (.bind (.mapM (P := Kept) ⟨ht, rfl⟩ fun i hi g kept =>
    ⟨leaveInitiative_accepted kept.1, fun report g' h => ⟨?_, ?_⟩⟩) fun _ _ _ => .pure _)
  · -- leaving the initiative makes fitting changes in its tenant
    have here : g.store.tenantOf i.id = some i.tenant := by
      refine Store.Tables.tenantOf_mem ?_
      rw [kept.2]
      exact (List.mem_filter.1 hi).1
    exact ((leaveInitiative_within kept.1 here h).mono fun _ _ h => h.fits).consistent kept.1
  · obtain ⟨grants, e⟩ := leaveInitiative_store h
    rw [e]
    exact kept.2

end Succession

/-! ## Commands -/

/-- The principal and the tenant of the scope are there. -/
structure Scope.Stored (scope : Scope) (t : Tables) : Prop where
  principal : t.principals.contains scope.principal.id = true
  tenant : t.tenants.contains scope.tenant = true

theorem Table.contains_of_find? {R K : Type} [Ranked K] [Keyed R K] {t : Table R} {k : K} {r : R}
    (h : t.find? k = some r) : t.contains k = true := by
  rw [contains_eq_isSome, h]
  rfl

theorem Caller.scope_stored {settings : Settings} {caller : Caller} {t : Tables} {scope : Scope}
    (h : caller.scope settings t = .ok scope) : scope.Stored t := by
  obtain ⟨_, found, _, tenant, _⟩ := Caller.scope_eq_ok h
  refine ⟨Caller.scope_principal h ▸ contains_of_find? found, ?_⟩
  simp only [Caller.scope, bind_eq_ok, found_eq_ok, ask_tenant] at h
  obtain ⟨_, _, _, stored, _⟩ := h
  exact tenant ▸ contains_of_find? stored

namespace Administration

variable {f : Frame Tables} {scope : Scope} {settings : Settings}

theorem register_accepted {name : String} {role : PlatformRole} :
    Accepted f (register name role) :=
  .afterCheck (.refusal _) fun _ _ => .afterFresh <|
    .afterChange (Tables.step_putPrincipal.2 ⟨rfl, rfl⟩) <| .afterReport <| .pure _

theorem foundTenant_accepted {creator : PrincipalId} {name : String}
    (fresh : f.ids.FreshFor 1 f.store) : Accepted f (foundTenant creator name) := by
  refine .afterCheck (.refusal _) fun _ _ => .read ?_
  refine .afterCheck (.found _ _) fun p known => .afterFresh ?_
  refine .afterChange (Tables.step_addTenant.2 ⟨fresh.tenant_free, rfl, rfl⟩) ?_
  have tenant : (f.store.tenants.insert ⟨(@Supply.draw .tenant f.ids).1, name⟩).contains
      (@Supply.draw .tenant f.ids).1 = true := contains_iff.2 ⟨_, mem_insert_self, rfl⟩
  have principal := contains_of_find? (found_eq_ok.1 known)
  exact .afterChange (Tables.step_putTenantMembership.2 ⟨tenant, principal, rfl, rfl⟩) <|
    .afterReport <| .pure _

theorem bringIn_accepted {p : PrincipalId} {role : TenantRole} (stored : scope.Stored f.store) :
    Accepted f (bringIn scope p role) := by
  refine .afterCheck Scope.needTenantAdmin_checked fun _ _ => .read ?_
  refine .afterCheck (.found _ _) fun _ known => ?_
  have principal := contains_of_find? (found_eq_ok.1 known)
  exact .afterChange (Tables.step_putTenantMembership.2 ⟨stored.tenant, principal, rfl, rfl⟩) <|
    .afterReport <| .pure _

theorem expel_accepted {p : PrincipalId} (ht : f.store.Consistent) :
    Accepted f (expel scope p) := by
  refine .afterCheck Scope.needTenantAdmin_checked fun _ _ => ?_
  have step : Tables.step (.removeTenantMembership scope.tenant p) f.store = .ok (_, _) :=
    Tables.step_removeTenantMembership.2 ⟨rfl, rfl⟩
  have ht' := ht.step (c := .removeTenantMembership _ _) trivial step
  refine .afterChange step ?_
  refine .ite (fun _ => .refused trivial) fun _ => ?_
  exact .bind (Succession.leaveTenant_accepted ht') fun _ _ _ => .afterReport <| .pure _

/-- In a new initiative no name is taken yet. -/
theorem newRole_free {t : Tables} (ht : t.Integrity) {i : InitiativeId}
    (new : t.initiatives.contains i = false) : ∀ r ∈ t.roles, r.initiative ≠ i := by
  intro r hr e
  rw [← e, ht.role r hr] at new
  cases new

theorem startInitiative_accepted {name : String} (ht : f.store.Consistent)
    (stored : scope.Stored f.store)
    (fresh : f.ids.FreshFor (if settings.seedsRoles then 3 else 1) f.store) :
    Accepted f (startInitiative settings scope name) := by
  have new : f.store.initiatives.contains (@Supply.draw .initiative f.ids).1 = false := by
    split at fresh <;> exact fresh.initiative_free
  refine .afterCheck Scope.needTenantAdmin_checked fun _ _ => .afterCheck (.refusal _) fun _ _ => ?_
  refine .afterFresh (.afterChange (Tables.step_addInitiative.2 ⟨stored.tenant, new, rfl, rfl⟩) ?_)
  refine .ite (fun seeds => ?_) fun _ => .afterReport (.pure _)
  -- the built-in roles are the first of the initiative, and their names differ
  have unnamed := newRole_free ht.stored new
  generalize (@Supply.draw .initiative f.ids).1 = i at *
  have there : (f.store.initiatives.insert ⟨i, scope.tenant, name⟩).contains i = true :=
    contains_iff.2 ⟨_, mem_insert_self, rfl⟩
  refine .afterFresh (.afterFresh (.afterChange (Tables.step_putRole.2 ⟨there, ?_, rfl, rfl⟩) ?_))
  · refine Tables.roleNameTaken_eq_false.2 fun r hr hi => absurd hi (unnamed r hr)
  refine .afterChange (Tables.step_putRole.2 ⟨there, ?_, rfl, rfl⟩) ?_
  · refine Tables.roleNameTaken_eq_false.2 fun r hr hi hn => ?_
    rcases mem_insert.1 hr with rfl | ⟨hr, _⟩
    · have apart : Role.managerName ≠ Role.memberName := by decide
      exact absurd hn apart
    · exact absurd hi (unnamed r hr)
  refine .ite (fun _ => ?_) fun _ => .afterReport (.pure _)
  refine .afterChange (Tables.step_putMembership.2 ⟨there, stored.principal, ?_, rfl, rfl⟩) <|
    .afterReport <| .pure _
  exact contains_insert_of (contains_iff.2 ⟨_, mem_insert_self, rfl⟩)

theorem defineRole_accepted {i : InitiativeId} {name : String} {isManager : Bool} :
    Accepted f (defineRole scope i name isManager) := by
  refine .read (.afterCheck (Scope.managedInitiative_checked i) fun initiative managed => ?_)
  refine .afterCheck (.refusal _) fun _ _ => ?_
  refine .afterCheck (needFreeName_checked _ _) fun _ free => .afterFresh ?_
  have free := (needFreeName_eq_ok.1 free).2
  have there := contains_of_find? (Scope.managedInitiative_eq_ok.1 managed).1
  obtain rfl := (find?_eq_some_iff.1 (Scope.managedInitiative_eq_ok.1 managed).1).2
  refine .afterChange (Tables.step_putRole.2 ⟨there, ?_, rfl, rfl⟩) <| .afterReport <| .pure _
  exact Tables.roleNameTaken_eq_false.2 fun r hr hi hn => absurd hn (free r hr hi)

theorem managedRole_stored {t : Tables} {id : RoleId} {role : Role} {i : Initiative}
    (managed : scope.managedRole t id = .ok (role, i)) :
    role ∈ t.roles ∧ i.id = role.initiative ∧ t.initiatives.contains role.initiative = true := by
  obtain ⟨found, here, _⟩ := Scope.managedRole_eq_ok.1 managed
  exact ⟨(find?_eq_some_iff.1 found).1, (find?_eq_some_iff.1 here).2, contains_of_find? here⟩

theorem relabelRole_accepted {id : RoleId} {name : String} :
    Accepted f (relabelRole scope id name) := by
  refine .read (.afterCheck (Scope.managedRole_checked id) fun ⟨role, i⟩ managed => ?_)
  refine .afterCheck (needCustom_checked _ _) fun _ _ => .afterCheck (.refusal _) fun _ _ => ?_
  refine .ite (fun _ => .pure _) fun _ => .afterCheck (needFreeName_checked _ _) fun _ free => ?_
  obtain ⟨_, hi, there⟩ := managedRole_stored managed
  have free := (needFreeName_eq_ok.1 free).2
  refine .afterChange (Tables.step_putRole.2 ⟨there, ?_, rfl, rfl⟩) <| .pure _
  exact Tables.roleNameTaken_eq_false.2 fun r hr hi' hn => absurd hn (free r hr (hi'.trans hi.symm))

theorem empowerRole_accepted {id : RoleId} {isManager : Bool} (names : f.store.NamesApart) :
    Accepted f (empowerRole scope id isManager) := by
  refine .read (.afterCheck (Scope.managedRole_checked id) fun ⟨role, i⟩ managed => ?_)
  refine .afterCheck (needCustom_checked _ _) fun _ _ => ?_
  obtain ⟨hrole, _, there⟩ := managedRole_stored managed
  refine .afterChange (Tables.step_putRole.2 ⟨there, ?_, rfl, rfl⟩) <| .pure _
  -- the name is kept, so it is the role's own
  refine Tables.roleNameTaken_eq_false.2 fun r hr hi hn => ?_
  rw [names r hr role hrole hi hn]

theorem retireRole_accepted {id : RoleId} (ht : f.store.Consistent) :
    Accepted f (retireRole scope id) := by
  refine .read (.afterCheck (Scope.managedRole_checked id) fun ⟨role, i⟩ managed => ?_)
  refine .afterCheck (needCustom_checked _ _) fun _ _ => ?_
  obtain ⟨hrole, hi, _⟩ := managedRole_stored managed
  refine .ite (fun _ => .refused trivial) fun none => ?_
  -- the check counts members of the initiative, and only these may hold the role
  have unheld : ∀ m ∈ f.store.memberships, m.role ≠ role.id := by
    intro m hm e
    have here : m.initiative = i.id := by
      rw [hi, ht.aligned.membership m hm role hrole e.symm]
    refine none (List.length_pos_of_mem (List.mem_filter.2 ⟨?_, decide_eq_true e⟩))
    rw [ask_membershipsIn]
    exact List.mem_filter.2 ⟨hm, decide_eq_true here⟩
  have step : Tables.step (.removeRole role.id) f.store = .ok (_, _) :=
    Tables.step_removeRole.2 ⟨unheld, rfl, rfl⟩
  have ht' := ht.step (c := .removeRole _) trivial step
  exact .afterChange step <| .bind (Succession.fillVacancies_accepted ht') fun _ _ _ =>
    .afterReport <| .pure _

theorem switchFeature_accepted {id : RoleId} {c : Feature} {enabled : Bool} :
    Accepted f (switchFeature scope id c enabled) := by
  refine .read (.afterCheck (Scope.managedRole_checked id) fun ⟨role, i⟩ managed => ?_)
  obtain ⟨hrole, _⟩ := managedRole_stored managed
  have found : f.store.roles.find? role.id = some role := find?_eq_some_iff.2 ⟨hrole, rfl⟩
  exact .afterChange (Tables.step_putToggle.2 ⟨rfl, role, found, rfl⟩) <| .afterReport <| .pure _

theorem enrol_accepted {i : InitiativeId} {p : PrincipalId} {r : RoleId} :
    Accepted f (enrol scope i p r) := by
  refine .read (.afterCheck (Scope.managedInitiative_checked i) fun initiative managed => ?_)
  refine .afterCheck (.found _ _) fun _ known => ?_
  refine .afterCheck (needTenantMember_checked _ _) fun _ _ => ?_
  refine .afterCheck (roleIn_checked _ _) fun role hrole => ?_
  refine .ite (fun _ => .refused trivial) fun _ => ?_
  obtain ⟨found, _⟩ := Scope.managedInitiative_eq_ok.1 managed
  obtain rfl := (find?_eq_some_iff.1 found).2
  obtain ⟨there, _⟩ := roleIn_eq_ok.1 hrole
  obtain rfl := (find?_eq_some_iff.1 there).2
  exact .afterChange (Tables.step_putMembership.2 ⟨contains_of_find? found,
    contains_of_find? (found_eq_ok.1 known), contains_of_find? there, rfl, rfl⟩) <|
    .afterReport <| .pure _

theorem reassign_accepted {i : InitiativeId} {p : PrincipalId} {r : RoleId}
    (ht : f.store.Consistent) : Accepted f (reassign scope i p r) := by
  refine .read (.afterCheck (Scope.managedInitiative_checked i) fun initiative _ => ?_)
  refine .afterCheck (.found _ _) fun m found => .afterCheck (roleIn_checked _ _) fun role hrole => ?_
  obtain ⟨hm, key⟩ := find?_eq_some_iff.1 (found_eq_ok.1 found)
  obtain ⟨initiativeStored, principalStored, _⟩ := ht.stored.membership m hm
  obtain ⟨there, same⟩ := roleIn_eq_ok.1 hrole
  obtain ⟨hr, _⟩ := find?_eq_some_iff.1 there
  have step : Tables.step (.putMembership { m with role := role.id }) f.store = .ok (_, _) :=
    Tables.step_putMembership.2 ⟨initiativeStored, principalStored,
      contains_iff.2 ⟨role, hr, rfl⟩, rfl, rfl⟩
  have fits : ∀ x ∈ f.store.roles, x.id = role.id → x.initiative = m.initiative := by
    intro x hx e
    rw [eq_of_key hx hr e, same]
    exact (Prod.mk.inj key).1.symm
  have ht' := ht.step (c := .putMembership { m with role := role.id }) fits step
  exact .afterChange step <| Succession.fillVacancies_accepted ht'

theorem dismiss_accepted {i : InitiativeId} {p : PrincipalId} (ht : f.store.Consistent) :
    Accepted f (dismiss scope i p) := by
  refine .read (.afterCheck (Scope.findInitiative_checked i) fun initiative _ => ?_)
  have step : Tables.step (.removeMembership initiative.id p) f.store = .ok (_, _) :=
    Tables.step_removeMembership.2 ⟨rfl, rfl⟩
  have ht' := ht.step (c := .removeMembership _ _) trivial step
  have rest : Accepted f (do
      let wasMember ← change (.removeMembership initiative.id p)
      if !wasMember then check (.error (.notFound s!"membership of {p}"))
      Succession.afterDeparture initiative.id p) :=
    .afterChange step <| .ite (fun _ => .refused trivial) fun _ =>
      Succession.afterDeparture_accepted ht'
  exact .ite (fun _ => .afterCheck (Scope.needActiveTenant_checked _) fun _ _ => rest)
    fun _ => .afterCheck (Scope.needManager_checked _) fun _ _ => rest

theorem restoreOwners_accepted {i : InitiativeId} (ht : f.store.Consistent) :
    Accepted f (restoreOwners scope i) :=
  .read <| .afterCheck (Scope.managedInitiative_checked i) fun _ _ =>
    Succession.fillVacancies_accepted ht

theorem addResource_accepted {i : InitiativeId} {kind : ResourceKind} {name : String}
    (ht : f.store.Consistent) (stored : scope.Stored f.store) (fresh : f.ids.FreshFor 1 f.store) :
    Accepted f (addResource scope i kind name) := by
  refine .read (.afterCheck (Scope.findInitiative_checked i) fun initiative found => ?_)
  refine .afterCheck (Scope.needActiveTenant_checked _) fun _ _ => ?_
  refine .afterCheck (.refusal _) fun _ _ => ?_
  refine .ite (fun _ => .refused trivial) fun _ => .afterFresh ?_
  obtain ⟨found, _⟩ := Scope.findInitiative_eq_ok.1 found
  obtain ⟨hi, rfl⟩ := find?_eq_some_iff.1 found
  refine .afterChange (Tables.step_addResource.2 ⟨contains_of_find? found,
    ht.stored.initiative initiative hi, fresh.resource_free, rfl, rfl⟩) ?_
  exact .afterChange (Tables.step_putUserGrant.2
    ⟨contains_iff.2 ⟨_, mem_insert_self, rfl⟩, stored.principal, rfl, rfl⟩) <|
    .afterReport <| .pure _

theorem dropResource_accepted {r : ResourceId} (ht : f.store.Consistent) :
    Accepted f (dropResource scope r) :=
  .read <| .afterCheck (Scope.levelAtLeast_checked ht r _) fun _ _ =>
    .afterChange (Tables.step_removeResource.2 ⟨rfl, rfl⟩) <| .report _

theorem levelAtLeast_stored {t : Tables} {r : ResourceId} {minimum held : Level} {acl : Acl}
    (h : scope.levelAtLeast t r minimum = .ok (acl, held)) : t.resources.contains r = true := by
  obtain ⟨_, found, _⟩ := Scope.levelAtLeast_ok h
  exact contains_of_find? found

theorem share_accepted {r : ResourceId} {p : PrincipalId} {level : Level}
    (ht : f.store.Consistent) : Accepted f (share scope r p level) := by
  refine .read (.afterCheck (Scope.levelAtLeast_checked ht r _) fun ⟨acl, _⟩ owned => ?_)
  refine .afterCheck (.found _ _) fun _ known => ?_
  refine .afterCheck (needTenantMember_checked _ _) fun _ _ => ?_
  refine .afterCheck (needOwner_checked _ _) fun _ _ => ?_
  exact .afterChange (Tables.step_putUserGrant.2 ⟨levelAtLeast_stored owned,
    contains_of_find? (found_eq_ok.1 known), rfl, rfl⟩) <| .afterReport <| .pure _

theorem withdraw_accepted {r : ResourceId} {held : Acl → Option Level} {without : Acl → Acl}
    {removal : Store.Change} {event : Event} {hit : Bool} {t : Tables} (ht : f.store.Consistent)
    (step : Tables.step removal f.store = .ok (hit, t)) :
    Accepted f (withdraw scope r held without removal event) := by
  refine .read (.afterCheck (Scope.levelAtLeast_checked ht r _) fun ⟨acl, _⟩ _ => ?_)
  refine .ite (fun _ => .pure _) fun _ => .afterCheck (needOwner_checked _ _) fun _ _ => ?_
  exact .afterChange step <| .afterReport <| .pure _

theorem shareWithRole_accepted {r : ResourceId} {id : RoleId} {level : Level}
    (ht : f.store.Consistent) : Accepted f (shareWithRole scope r id level) := by
  refine .read (.afterCheck (Scope.levelAtLeast_checked ht r _) fun ⟨acl, _⟩ owned => ?_)
  refine .afterCheck (.found _ _) fun role found => .afterCheck (.refusal _) fun _ _ => ?_
  refine .afterCheck (needOwner_checked _ _) fun _ _ => ?_
  obtain ⟨hrole, _⟩ := find?_eq_some_iff.1 (found_eq_ok.1 found)
  have there : f.store.roles.contains role.id = true := contains_iff.2 ⟨role, hrole, rfl⟩
  exact .afterChange (Tables.step_putRoleGrant.2 ⟨levelAtLeast_stored owned, there, rfl, rfl⟩) <|
    .afterReport <| .pure _

end Administration

theorem Command.perform_accepted {f : Frame Tables} {settings : Settings} {scope : Scope}
    (command : Command) (ht : f.store.Consistent) (names : f.store.NamesApart)
    (stored : scope.Stored f.store) (fresh : f.ids.FreshFor (command.draws settings) f.store) :
    Accepted f (command.perform settings scope) := by
  open Administration in
  cases command with
  | bringIn p role => exact (bringIn_accepted stored).answer
  | expel p => exact (expel_accepted ht).answer
  | startInitiative name => exact (startInitiative_accepted ht stored fresh).answer
  | defineRole i name isManager => exact defineRole_accepted.answer
  | relabelRole r name => exact relabelRole_accepted.answer
  | empowerRole r isManager => exact (empowerRole_accepted names).answer
  | retireRole r => exact (retireRole_accepted ht).answer
  | switchFeature r c enabled => exact switchFeature_accepted.answer
  | enrol i p r => exact enrol_accepted.answer
  | reassign i p r => exact (reassign_accepted ht).answer
  | dismiss i p => exact (dismiss_accepted ht).answer
  | restoreOwners i => exact (restoreOwners_accepted ht).answer
  | addResource i kind name => exact (addResource_accepted ht stored fresh).answer
  | dropResource r => exact (dropResource_accepted ht).answer
  | share r p level => exact (share_accepted ht).answer
  | unshare r p => exact (withdraw_accepted ht (Tables.step_removeUserGrant.2 ⟨rfl, rfl⟩)).answer
  | shareWithRole r role level => exact (shareWithRole_accepted ht).answer
  | unshareWithRole r role => exact (withdraw_accepted ht (Tables.step_removeRoleGrant.2 ⟨rfl, rfl⟩)).answer

/-! ## Calls -/

section Calls

variable {f : Frame Tables} {settings : Settings} {scope : Scope}

theorem reports_accepted (events : List Event) :
    Accepted f (events.forM (Transaction.report (σ := Tables))) :=
  .forM (P := fun _ => True) trivial fun e _ _ _ => ⟨.report e, fun _ _ => trivial⟩

theorem Question.perform_accepted (ht : f.store.Consistent) (q : Question) :
    Accepted f (q.perform scope) := by
  refine .read (.bind (reports_accepted _) fun _ _ _ => .check ?_)
  exact q.answer_checked ht

theorem Caller.openScope_accepted (caller : Caller) : Accepted f (caller.openScope settings) :=
  .read (.bind (reports_accepted _) fun _ _ _ => .check (caller.scope_checked settings))

namespace Call

theorem perform_accepted (call : Call) (ht : f.store.Consistent) (names : f.store.NamesApart)
    (fresh : f.ids.FreshFor (call.draws settings) f.store) :
    Accepted f (call.perform settings) := by
  cases call with
  | register name role => exact Administration.register_accepted.answer
  | foundTenant creator name => exact (Administration.foundTenant_accepted fresh).answer
  | request caller r =>
    refine caller.openScope_accepted.bind fun scope f' opened => ?_
    obtain ⟨entered, events, rfl⟩ := Caller.openScope_ok opened
    cases r with
    | ask q => exact q.perform_accepted (f := { f with events }) ht
    | order command =>
      have stored := Caller.scope_stored entered
      exact command.perform_accepted (f := { f with events }) ht names stored fresh

/-- On rows that fit together, with role names apart, no call fails in the store. -/
theorem run_checked (call : Call) {t : Tables} {ids : Supply} (ht : t.Consistent)
    (names : t.NamesApart) (fresh : ids.FreshFor (call.draws settings) t) :
    Checked (call.run settings t ids).result := by
  have accepted : Accepted ⟨t, ids, []⟩ (call.perform settings) :=
    call.perform_accepted ht names fresh
  unfold run commit
  unfold Accepted at accepted
  rcases e : call.perform settings (⟨t, ids, []⟩ : Frame Tables) with ⟨_ | a, g⟩
  · rw [e] at accepted
    exact accepted
  · exact .ok a

end Call

end Calls

namespace Reachable

variable {σ : Type} [Store.Backend σ] [Faithful σ] {s : σ}

theorem namesApart (h : Reachable s) : (tables s).NamesApart :=
  h.invariant .empty fun _ _ _ _ _ ht names fresh performed =>
    (Call.perform_fits ht fresh performed).namesApart names

/-- A call that fails on a store that calls lead to has been turned down by one of its own checks. No
change breaks a constraint of the store, and every access list there can be read. -/
theorem failure_byCheck (h : Reachable s) {settings : Settings} {call : Call} {ids : Supply}
    (fresh : ids.FreshFor (call.draws settings) (tables s)) {e : Failure}
    (failed : (call.run settings s ids).result = .error e) : e.ByCheck := by
  have checked := call.run_checked h.consistent h.namesApart fresh
  rw [(h.run_mirrors fresh).result.eq_of_checked checked] at failed
  exact checked e failed

/-- Such as the founder of a tenant that takes the only owner from its project. -/
theorem failure_byCheck_founding :
    let founded : Store.Database :=
      (Call.runAll default (Call.founding 0 "ada" "acme") Store.Backend.empty .empty).1
    let unshare : Call := .request ⟨Supply.numberedId 0, .member, Supply.numberedId 1, .activeTenant⟩
      (.order (.unshare (Supply.numberedId 5) (Supply.numberedId 0)))
    (unshare.run default founded .empty).result = .error (.lastOwner (Supply.numberedId 5)) ∧
      (Failure.lastOwner (Supply.numberedId 5)).ByCheck := by
  intro founded unshare
  have reachable : Reachable founded := of_runAll (by decide +kernel)
  have fresh : Supply.empty.FreshFor (unshare.draws default) (tables founded) := by decide +kernel
  have failed : (unshare.run default founded .empty).result =
      .error (.lastOwner (Supply.numberedId 5)) := by rfl
  exact ⟨failed, reachable.failure_byCheck fresh failed⟩

end Reachable

end TenantAccess
