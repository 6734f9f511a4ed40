import TenantAccess.Proofs.Entitlement

/-!
# Outsiders hold nothing

Memberships in the initiatives of a tenant and grants on its resources are held by members of the tenant
and by administrators of the platform only. New ones go to callers in the tenant, to its members and to
managers of its initiatives, and who is taken out of the tenant loses all that it holds there.
-/

namespace TenantAccess

open Store (Tables Change Faithful)
open Store.Faithful (tables)
open Transaction Table

/-! ## Insiders -/

namespace Store.Tables

/-- The principal administers the platform or is a member of the tenant. -/
def Insider (t : Tables) (u : TenantId) (p : PrincipalId) : Prop :=
  t.PlatformAdmin p ∨ t.tenantMemberships.contains (u, p) = true

/-- The principal holds a membership in an initiative of the tenant, or a grant on a resource there. -/
def Holds (t : Tables) (u : TenantId) (p : PrincipalId) : Prop :=
  (∃ m ∈ t.memberships, m.principal = p ∧ ∃ i ∈ t.initiatives, i.id = m.initiative ∧ i.tenant = u) ∨
    ∃ g ∈ t.userGrants, g.principal = p ∧ ∃ x ∈ t.resources, x.id = g.resource ∧ x.tenant = u

instance (t : Tables) (u : TenantId) (p : PrincipalId) : Decidable (t.Insider u p) :=
  inferInstanceAs (Decidable (_ ∨ _))

/-- Who has a membership or a grant is admitted to the tenant that it lies in. -/
structure HeldAmong (admitted : TenantId → PrincipalId → Prop) (t : Tables) : Prop where
  member : ∀ m ∈ t.memberships, ∀ u, t.tenantOf m.initiative = some u → admitted u m.principal
  grant : ∀ g ∈ t.userGrants, admitted g.tenant g.principal

/-- Memberships and grants are held by insiders. -/
def Enclosed (t : Tables) : Prop := t.HeldAmong t.Insider

end Store.Tables

/-- The changes that neither give anything to an outsider nor make an insider one. -/
def Store.Change.Encloses (t : Tables) : Change → Prop
  | .putPrincipal row => t.principals.contains row.id = false
  | .removeTenantMembership .. => False
  | .putMembership row => ∀ u, t.tenantOf row.initiative = some u → t.Insider u row.principal
  | .putUserGrant row => t.Insider row.tenant row.principal
  | _ => True

namespace Store.Tables

variable {t t' : Tables} {admitted : TenantId → PrincipalId → Prop} {u : TenantId}
  {p : PrincipalId} {i : InitiativeId} {c : Change} {hit : Bool}

/-! ## Rows that outsiders have no part in -/

namespace HeldAmong

variable (h : t.HeldAmong admitted)

include h

theorem mono {admitted' : TenantId → PrincipalId → Prop}
    (more : ∀ u p, admitted u p → admitted' u p) : t.HeldAmong admitted' :=
  ⟨fun m hm u hu => more u _ (h.member m hm u hu), fun g hg => more _ _ (h.grant g hg)⟩

theorem of_subset (initiatives : t'.initiatives = t.initiatives)
    (members : ∀ m ∈ t'.memberships, m ∈ t.memberships)
    (grants : ∀ g ∈ t'.userGrants, g ∈ t.userGrants) : t'.HeldAmong admitted := by
  refine ⟨fun m hm u hu => h.member m (members m hm) u ?_, fun g hg => h.grant g (grants g hg)⟩
  rwa [tenantOf, initiatives] at hu

theorem regranted (handed : t.RegrantedIn i t') : t'.HeldAmong admitted := by
  obtain ⟨⟨grants, rfl⟩, added⟩ := handed
  refine ⟨h.member, fun g hg => ?_⟩
  rcases added g hg with hg | ⟨here, m, hm, rfl, e, _⟩
  · exact h.grant g hg
  · exact e ▸ h.member m hm g.tenant here

end HeldAmong

theorem Insider.of_rows (h : t.Insider u p)
    (principals : ∀ row ∈ t.principals, row ∈ t'.principals)
    (members : ∀ m ∈ t.tenantMemberships, t'.tenantMemberships.contains (m.tenant, m.principal) = true) :
    t'.Insider u p := by
  refine h.imp (fun ⟨row, hrow, e⟩ => ⟨row, principals row hrow, e⟩) fun member => ?_
  obtain ⟨m, hm, e⟩ := contains_iff.1 member
  exact e ▸ members m hm

theorem Enclosed.of_same (h : t'.HeldAmong t.Insider) (principals : t'.principals = t.principals)
    (members : t'.tenantMemberships = t.tenantMemberships) : t'.Enclosed :=
  h.mono fun _ _ inside => inside.of_rows (fun _ hrow => principals ▸ hrow)
    fun m hm => members ▸ contains_iff.2 ⟨m, hm, rfl⟩

/-- No other change lets an outsider hold anything. -/
theorem Enclosed.step (h : t.Enclosed) (step : Tables.step c t = .ok (hit, t'))
    (stored : t.Integrity) (inside : c.Encloses t) : t'.Enclosed := by
  cases c with
  | addTenant row =>
    obtain ⟨_, _, rfl⟩ := step_addTenant.1 step
    exact ⟨h.member, h.grant⟩
  | putPrincipal row =>
    obtain ⟨_, rfl⟩ := step_putPrincipal.1 step
    have held : HeldAmong t.Insider { t with principals := t.principals.insert row } :=
      ⟨h.member, h.grant⟩
    refine held.mono fun u p insider => insider.of_rows (fun old hold => ?_) fun m hm =>
      contains_iff.2 ⟨m, hm, rfl⟩
    exact mem_insert.2 (Or.inr ⟨hold, not_contains_iff.1 inside old hold⟩)
  | putTenantMembership row =>
    obtain ⟨_, _, _, rfl⟩ := step_putTenantMembership.1 step
    have held : HeldAmong t.Insider
        { t with tenantMemberships := t.tenantMemberships.insert row } := ⟨h.member, h.grant⟩
    exact held.mono fun u p insider => insider.of_rows (fun _ => id) fun m hm =>
      contains_insert_of (contains_iff.2 ⟨m, hm, rfl⟩)
  | removeTenantMembership tenant p => exact inside.elim
  | addInitiative row =>
    obtain ⟨_, free, _, rfl⟩ := step_addInitiative.1 step
    refine ⟨fun m hm u hu => h.member m hm u ?_, h.grant⟩
    -- a membership is one in an initiative that was there before
    have old := ne_of_contains free (stored.membership m hm).1
    rwa [tenantOf, find?_insert, key_initiative, if_neg old] at hu
  | putRole row =>
    obtain ⟨_, _, _, rfl⟩ := step_putRole.1 step
    exact ⟨h.member, h.grant⟩
  | removeRole r =>
    obtain ⟨_, _, rfl⟩ := step_removeRole.1 step
    split <;> exact ⟨h.member, h.grant⟩
  | putToggle row =>
    obtain ⟨_, _, _, rfl⟩ := step_putToggle.1 step
    exact ⟨h.member, h.grant⟩
  | putMembership row =>
    obtain ⟨_, _, _, _, rfl⟩ := step_putMembership.1 step
    exact ⟨forall_mem_insert inside h.member, h.grant⟩
  | removeMembership i p =>
    obtain ⟨_, rfl⟩ := step_removeMembership.1 step
    exact ⟨forall_mem_erase h.member, h.grant⟩
  | addResource row =>
    obtain ⟨_, _, _, _, rfl⟩ := step_addResource.1 step
    exact ⟨h.member, h.grant⟩
  | removeResource r =>
    obtain ⟨_, rfl⟩ := step_removeResource.1 step
    split
    · exact ⟨h.member, fun g hg => h.grant g (mem_filter.1 hg).1⟩
    · exact h
  | putUserGrant row =>
    obtain ⟨_, _, _, rfl⟩ := step_putUserGrant.1 step
    exact ⟨h.member, forall_mem_insert inside h.grant⟩
  | removeUserGrant r p =>
    obtain ⟨_, rfl⟩ := step_removeUserGrant.1 step
    exact ⟨h.member, forall_mem_erase h.grant⟩
  | putRoleGrant row =>
    obtain ⟨_, _, _, rfl⟩ := step_putRoleGrant.1 step
    exact ⟨h.member, h.grant⟩
  | removeRoleGrant r role =>
    obtain ⟨_, rfl⟩ := step_removeRoleGrant.1 step
    exact ⟨h.member, h.grant⟩

theorem Enclosed.regranted (h : t.Enclosed) (handed : t.RegrantedIn i t') : t'.Enclosed := by
  obtain ⟨grants, rfl⟩ := handed.others
  exact .of_same (HeldAmong.regranted h handed) rfl rfl

/-- An outsider has no level: neither a grant of its own nor a role that a grant could go to. -/
theorem Enclosed.levelOn_outsider (h : t.Enclosed) (ht : t.Consistent) {x : Resource}
    (hx : x ∈ t.resources) (outside : ¬ t.Insider x.tenant p) : t.levelOn x p = none := by
  refine levelOn_eq_none (find?_eq_none_iff.2 fun g hg e => outside ?_)
    (find?_eq_none_iff.2 fun m hm e => outside ?_)
  · obtain ⟨ex, rfl⟩ := Prod.mk.inj e
    exact ht.aligned.userGrant g hg x hx ex.symm ▸ h.grant g hg
  · obtain ⟨ei, rfl⟩ := Prod.mk.inj e
    exact h.member m hm x.tenant (ei ▸ ht.tenantOf_resource hx)

theorem Enclosed.insider (h : t.Enclosed) (ht : t.Consistent) (holds : t.Holds u p) :
    t.Insider u p := by
  rcases holds with ⟨m, hm, rfl, i, hi, e, rfl⟩ | ⟨g, hg, rfl, x, hx, e, rfl⟩
  · exact h.member m hm i.tenant (e ▸ tenantOf_mem hi)
  · exact ht.aligned.userGrant g hg x hx e ▸ h.grant g hg

theorem Enclosed.empty : Enclosed Tables.empty :=
  ⟨fun _ hm => absurd hm not_mem_empty, fun _ hg => absurd hg not_mem_empty⟩

end Store.Tables

theorem Caller.scope_insider {t : Tables} {settings : Settings} {caller : Caller} {scope : Scope}
    (h : caller.scope settings t = .ok scope) : t.Insider scope.tenant scope.principal.id := by
  have id := Caller.scope_principal h
  obtain ⟨principal, found, rfl, tenant, _, _, member⟩ := Caller.scope_eq_ok h
  cases admin : scope.principal.isPlatformAdmin with
  | true => exact Or.inl ⟨_, (find?_eq_some_iff.1 found).1, rfl, admin⟩
  | false =>
    obtain ⟨m, hm, hp, hu⟩ := member admin
    exact Or.inr (contains_iff.2 ⟨m, hm, Prod.ext (hu.trans tenant.symm) (hp.trans id.symm)⟩)

theorem Succession.leaveEach_heldAmong {f f' : Frame Tables} {p : PrincipalId} {l : List Initiative}
    {reports : List HandoverReport} {admitted : TenantId → PrincipalId → Prop}
    (h : l.mapM (fun i => leaveInitiative p i.id) f = (.ok reports, f'))
    (held : f.store.HeldAmong admitted) : f'.store.HeldAmong admitted := by
  induction l generalizing f reports with
  | nil =>
    simp only [List.mapM_nil, pure_ok] at h
    exact h.2 ▸ held
  | cons i rest ih =>
    obtain ⟨_, f₁, reports, h₁, hrest, _⟩ := mapM_cons_ok.1 h
    have left : (f.store.unenrol i.id p).HeldAmong admitted :=
      held.of_subset rfl (fun _ hm => (mem_erase.1 hm).1) fun _ => id
    exact ih hrest (left.regranted (leaveInitiative_regranted h₁))

/-! ## Commands -/

namespace Administration

variable {f f' : Frame Tables} {scope : Scope} {settings : Settings}

/-- Whoever is taken out of a tenant holds nothing there any more, so it may be an outsider. -/
theorem expel_enclosed {p : PrincipalId} {report : HandoverReport} (ht : f.store.Consistent)
    (held : f.store.Enclosed) (h : expel scope p f = (.ok report, f')) : f'.store.Enclosed := by
  obtain ⟨_, t, f₁, step, left, e⟩ := expel_ok h
  obtain ⟨reports, leaves, _⟩ := Succession.leaveTenant_ok left
  obtain ⟨_, rfl⟩ := Tables.step_removeTenantMembership.1 step
  have among : f₁.store.HeldAmong f.store.Insider :=
    Succession.leaveEach_heldAmong leaves ⟨held.member, held.grant⟩
  obtain ⟨memberships, grants, same⟩ := Succession.leaveEach_store leaves
  -- an insider of before is one still, unless it is the one that was taken out
  have stays {u : TenantId} {q : PrincipalId} (insider : f.store.Insider u q)
      (other : ¬ (u = scope.tenant ∧ q = p)) : f₁.store.Insider u q := by
    rw [same]
    exact insider.imp id fun member => contains_erase_of member fun e => other (Prod.mk.inj e)
  rw [e]
  refine ⟨fun m hm u hu => ?_, fun g hg => ?_⟩
  · refine stays (among.member m hm u hu) ?_
    rintro ⟨rfl, own⟩
    rw [same] at hu
    exact (Succession.leaveEach_member leaves hm).2 ⟨own, Tables.mem_initiativesIn hu⟩
  · refine stays (among.grant g hg) ?_
    rintro ⟨here, own⟩
    obtain ⟨had, elsewhere⟩ := Succession.leaveEach_grant leaves hg own
    obtain ⟨x, hx, ex, et⟩ := ht.tenant_userGrant had
    have tenant := ht.tenantOf_resource hx
    rw [et, here] at tenant
    exact elsewhere x hx ex (Tables.mem_initiativesIn tenant)

theorem startInitiative_enclosed {name : String} {i : Initiative} (ht : f.store.Consistent)
    (held : f.store.Enclosed) (caller : f.store.Insider scope.tenant scope.principal.id)
    (h : startInitiative settings scope name f = (.ok i, f')) : f'.store.Enclosed := by
  obtain ⟨hi, _, hit, t, step, h⟩ := startInitiative_ok h
  have first := held.step step ht.stored trivial
  have stored := ht.stored.step step
  obtain ⟨_, _, _, rfl⟩ := Tables.step_addInitiative.1 step
  split at h
  · obtain ⟨_, _, t₁, t₂, step₁, step₂, h⟩ := h
    have second := (first.step step₁ stored trivial).step step₂ (stored.step step₁) trivial
    have stored := (stored.step step₁).step step₂
    obtain ⟨_, _, _, rfl⟩ := Tables.step_putRole.1 step₁
    obtain ⟨_, _, _, rfl⟩ := Tables.step_putRole.1 step₂
    split at h
    · obtain ⟨_, step₃⟩ := h
      refine second.step step₃ stored fun u hu => ?_
      -- the creator acts in the tenant that the new initiative lies in
      have here : Tables.tenantOf { f.store with initiatives := f.store.initiatives.insert i } i.id =
          some i.tenant := Tables.tenantOf_mem mem_insert_self
      obtain rfl : i.tenant = u := Option.some.inj (here.symm.trans hu)
      rw [hi]
      exact caller
    · rw [h]
      exact second
  · rw [h]
    exact first

theorem reassign_enclosed {i : InitiativeId} {p : PrincipalId} {r : RoleId} {report : HandoverReport}
    (ht : f.store.Consistent) (held : f.store.Enclosed)
    (h : reassign scope i p r f = (.ok report, f')) : f'.store.Enclosed := by
  obtain ⟨_, m, _, _, t, _, found, _, step, filled⟩ := reassign_ok h
  have moved := held.step step ht.stored (held.member m (find?_eq_some_iff.1 found).1)
  exact moved.regranted (Succession.fillVacancies_regranted filled)

end Administration

/-- No command lets an outsider hold anything. -/
theorem Command.perform_enclosed {f f' : Frame Tables} {scope : Scope} {settings : Settings}
    {command : Command} {answer : Answer} (ht : f.store.Consistent) (held : f.store.Enclosed)
    (caller : f.store.Insider scope.tenant scope.principal.id)
    (h : command.perform settings scope f = (.ok answer, f')) : f'.store.Enclosed := by
  open Administration in
  cases command with
  | bringIn p role =>
    obtain ⟨_, h, _⟩ := return_ok.1 h
    obtain ⟨_, _, _, step⟩ := bringIn_ok h
    exact held.step step ht.stored trivial
  | expel p =>
    obtain ⟨_, h, _⟩ := return_ok.1 h
    exact expel_enclosed ht held h
  | startInitiative name =>
    obtain ⟨_, h, _⟩ := return_ok.1 h
    exact startInitiative_enclosed ht held caller h
  | defineRole i name isManager =>
    obtain ⟨_, h, _⟩ := return_ok.1 h
    obtain ⟨_, _, _, _, _, _, _, step⟩ := defineRole_ok h
    exact held.step step ht.stored trivial
  | relabelRole r name =>
    obtain ⟨_, h, _⟩ := return_ok.1 h
    obtain ⟨_, _, _, _, ⟨_, same⟩ | ⟨_, _, _, _, step⟩⟩ := relabelRole_ok h
    · exact same ▸ held
    · exact held.step step ht.stored trivial
  | empowerRole r isManager =>
    obtain ⟨_, h, _⟩ := return_ok.1 h
    obtain ⟨_, _, _, _, _, _, step⟩ := empowerRole_ok h
    exact held.step step ht.stored trivial
  | retireRole r =>
    obtain ⟨_, h, _⟩ := return_ok.1 h
    obtain ⟨_, _, _, t, f₁, _, _, step, filled, e⟩ := retireRole_ok h
    exact e ▸ (held.step step ht.stored trivial).regranted
      (Succession.fillVacancies_regranted filled)
  | switchFeature r c enabled =>
    obtain ⟨_, h, _⟩ := return_ok.1 h
    obtain ⟨_, _, _, _, _, step⟩ := switchFeature_ok h
    exact held.step step ht.stored trivial
  | enrol i p r =>
    obtain ⟨_, h, _⟩ := return_ok.1 h
    obtain ⟨initiative, _, _, managed, member, _, rfl, _, step⟩ := enrol_ok h
    obtain ⟨hi, here⟩ := managed_tenant managed
    refine held.step step ht.stored fun u hu => ?_
    obtain rfl : initiative.tenant = u :=
      Option.some.inj ((Tables.tenantOf_mem hi).symm.trans hu)
    exact Or.inr member
  | reassign i p r =>
    obtain ⟨_, h, _⟩ := return_ok.1 h
    exact reassign_enclosed ht held h
  | dismiss i p =>
    obtain ⟨_, h, _⟩ := return_ok.1 h
    obtain ⟨_, t, _, _, _, step, left⟩ := dismiss_ok h
    exact (held.step step ht.stored trivial).regranted (Succession.afterDeparture_regranted left)
  | restoreOwners i =>
    obtain ⟨_, h, _⟩ := return_ok.1 h
    obtain ⟨_, _, filled⟩ := restoreOwners_ok h
    exact held.regranted (Succession.fillVacancies_regranted filled)
  | addResource i kind name =>
    obtain ⟨_, h, _⟩ := return_ok.1 h
    obtain ⟨_, _, _, t, _, active, rfl, step, step'⟩ := addResource_ok h
    have added := held.step step ht.stored trivial
    have stored := ht.stored.step step
    obtain ⟨_, _, _, _, rfl⟩ := Tables.step_addResource.1 step
    refine added.step step' stored ?_
    rw [← active] at caller
    exact caller
  | dropResource r =>
    simp only [perform, bind_ok, pure_ok] at h
    obtain ⟨_, _, h, _, rfl⟩ := h
    obtain ⟨_, _, _, step⟩ := dropResource_ok h
    exact held.step step ht.stored trivial
  | share r p level =>
    obtain ⟨_, h, _⟩ := return_ok.1 h
    obtain ⟨_, _, _, _, member, _, rfl, step⟩ := share_ok h
    exact held.step step ht.stored (Or.inr member)
  | unshare r p =>
    obtain ⟨_, h, _⟩ := return_ok.1 h
    obtain ⟨_, _, _, _, ⟨_, same⟩ | ⟨_, _, _, step⟩⟩ := unshare_ok h
    · exact same ▸ held
    · exact held.step step ht.stored trivial
  | shareWithRole r role level =>
    obtain ⟨_, h, _⟩ := return_ok.1 h
    obtain ⟨_, _, _, _, _, _, _, _, rfl, step⟩ := shareWithRole_ok h
    exact held.step step ht.stored trivial
  | unshareWithRole r role =>
    obtain ⟨_, h, _⟩ := return_ok.1 h
    obtain ⟨_, _, _, _, ⟨_, same⟩ | ⟨_, _, _, step⟩⟩ := unshareWithRole_ok h
    · exact same ▸ held
    · exact held.step step ht.stored trivial

/-! ## Calls -/

namespace Call

variable {f f' : Frame Tables} {settings : Settings} {call : Call} {answer : Answer}

/-- No call lets an outsider hold anything. -/
theorem perform_enclosed (ht : f.store.Consistent) (held : f.store.Enclosed)
    (fresh : f.ids.FreshFor (call.draws settings) f.store)
    (h : call.perform settings f = (.ok answer, f')) : f'.store.Enclosed := by
  cases call with
  | register name role =>
    obtain ⟨_, h, _⟩ := return_ok.1 h
    obtain ⟨rfl, _, step⟩ := Administration.register_ok h
    exact held.step step ht.stored fresh.principal_free
  | foundTenant creator name =>
    obtain ⟨_, h, _⟩ := return_ok.1 h
    obtain ⟨_, _, _, t, step, step'⟩ := Administration.foundTenant_ok h
    have founded := held.step step ht.stored trivial
    exact founded.step step' (ht.stored.step step) trivial
  | request caller r =>
    cases r with
    | ask q =>
      obtain ⟨_, _, _, e⟩ := perform_ask h
      rw [e]
      exact held
    | order command =>
      obtain ⟨_, events, entered, performed⟩ := perform_order h
      exact Command.perform_enclosed (f := { f with events }) ht held (Caller.scope_insider entered)
        performed

end Call

namespace Reachable

variable {σ : Type} [Store.Backend σ] [Faithful σ] {s : σ}

theorem enclosed (h : Reachable s) : (tables s).Enclosed :=
  h.invariant .empty fun _ _ _ _ _ => Call.perform_enclosed

/-- Who holds a membership in an initiative of a tenant or a grant on a resource there is a member of the
tenant or an administrator of the platform, and nobody else has a level on any resource there. -/
theorem outsiders_hold_nothing (h : Reachable s) (u : TenantId) (p : PrincipalId) :
    ((tables s).Holds u p → (tables s).Insider u p) ∧
      (¬ (tables s).Insider u p → ∀ x ∈ (tables s).resources, x.tenant = u →
        (tables s).levelOn x p = none) := by
  refine ⟨h.enclosed.insider h.consistent, ?_⟩
  rintro outside x hx rfl
  exact h.enclosed.levelOn_outsider h.consistent hx outside

/-- A manager has no level on a project of the tenant that it was taken out of. -/
theorem outsiders_hold_nothing_staffing :
    let expel : Call := .request ⟨Supply.numberedId 0, .member, Supply.numberedId 1, .activeTenant⟩
      (.order (.expel (Supply.numberedId 6)))
    let left : Tables := (Call.runAll default (Call.staffing 3 ++ [expel]) .empty .empty).1
    let project : Resource :=
      ⟨Supply.numberedId 5, .project, Supply.numberedId 2, Supply.numberedId 1, "plan"⟩
    project ∈ (tables left).resources ∧
      ¬ (tables left).Holds (Supply.numberedId 1) (Supply.numberedId 6) ∧
      (tables left).levelOn project (Supply.numberedId 6) = none := by
  intro expel left project
  have reachable : Reachable left := of_runAll (by decide +kernel)
  have there : project ∈ (tables left).resources := mem_iff.2 (by decide +kernel)
  have outside : ¬ (tables left).Insider (Supply.numberedId 1) (Supply.numberedId 6) := by
    decide +kernel
  clear_value left
  obtain ⟨insiders, others⟩ :=
    reachable.outsiders_hold_nothing (Supply.numberedId 1) (Supply.numberedId 6)
  exact ⟨there, fun holds => outside (insiders holds), others outside project there rfl⟩

end Reachable

end TenantAccess
