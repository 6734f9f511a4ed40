import TenantAccess.Proofs.Departures

/-!
# Every rise of a level is due to a right

When a level is higher after a call, the caller acted in the tenant of the resource and had a right to
what it did: as an owner that grants, as an administrator or a manager that places a member, or by
setting off a handover to managers.
-/

namespace TenantAccess

open Store (Tables Change Faithful)
open Store.Faithful (tables)
open Transaction Table

/-! ## Causes of a rise -/

namespace Command

/-- Sets a grant on the resource. -/
def GrantsOn (r : ResourceId) : Command → Prop
  | share r' .. | shareWithRole r' .. => r' = r
  | _ => False

/-- Gives the principal a role in the initiative. -/
def Places (i : InitiativeId) (p : PrincipalId) : Command → Prop
  | enrol i' p' _ | reassign i' p' _ => i' = i ∧ p' = p
  | _ => False

/-- Hands over ownership in the end. -/
def HandsOver : Command → Prop
  | reassign .. | dismiss .. | expel _ | retireRole _ | restoreOwners _ => True
  | _ => False

/-- The principal whose membership ends. -/
def departing : Command → Option PrincipalId
  | dismiss _ p | expel p => some p
  | _ => none

/-- The rows that a command in a tenant hands over ownership in: those that it finds, after memberships
or a role were deleted or changed. -/
def opening (u : TenantId) (t : Tables) : Command → Tables
  | reassign i p r => { t with memberships := t.memberships.insert ⟨i, p, r⟩ }
  | dismiss i p => t.unenrol i p
  | expel p =>
    { t with
      tenantMemberships := t.tenantMemberships.erase (u, p)
      memberships := t.memberships.filter fun m =>
        !(m.principal = p && t.tenantOf m.initiative = some u) }
  | retireRole r =>
    { t with
      roles := t.roles.erase r
      roleGrants := t.roleGrants.filter fun g => g.role != r }
  | _ => t

end Command

/-- What entitles a caller to a command after which the level of `q` on a resource is higher. -/
inductive RiseCause (t t' : Tables) (p : PrincipalId) (x : Resource) (q : PrincipalId)
    (command : Command) : Prop
  | granted (grants : command.GrantsOn x.id) (owner : t.levelOn x p = some .owner)
  | placed (places : command.Places x.initiative q) (leads : t.Leads x.tenant x.initiative p)
  | handedOver (hands : command.HandsOver) (unowned : t.directOn x q ≠ some .owner)
    (handed : (command.opening x.tenant t).HandedTo t' x q command.departing)

/-! ## Commands -/

namespace Administration

variable {f f' : Frame Tables} {scope : Scope} {settings : Settings} {x : Resource}
  {q : PrincipalId}

theorem startInitiative_levelOn (ht : f.store.Consistent) {name : String} {i : Initiative}
    (h : startInitiative settings scope name f = (.ok i, f')) (hx : x ∈ f.store.resources) :
    f'.store.levelOn x q = f.store.levelOn x q := by
  obtain ⟨_, _, hit, t, step, h⟩ := startInitiative_ok h
  have kept {c : Change} {hit : Bool} {t t' : Tables} (step : Tables.step c t = .ok (hit, t'))
      (untouched : ¬ c.Touches x q) : t'.levelOn x q = t.levelOn x q :=
    Classical.byContradiction fun moved => untouched (Tables.touches_of_step step moved)
  have first := kept step id
  split at h
  · obtain ⟨_, _, t₁, t₂, step₁, step₂, h⟩ := h
    have second := (kept step₂ id).trans ((kept step₁ id).trans first)
    split at h
    · obtain ⟨_, step₃⟩ := h
      -- the membership is one in the new initiative
      obtain ⟨_, free, _⟩ := Tables.step_addInitiative.1 step
      have elsewhere := ne_of_contains free (ht.stored.resource x hx).1
      exact (kept step₃ fun touches => elsewhere touches.1.symm).trans second
    · rw [h, second]
  · rw [h, first]

theorem addResource_levelOn {i : InitiativeId} {kind : ResourceKind} {name : String} {r : Resource}
    (h : addResource scope i kind name f = (.ok r, f')) (hx : x ∈ f.store.resources) :
    f'.store.levelOn x q = f.store.levelOn x q := by
  obtain ⟨_, _, _, t, _, _, _, step, step'⟩ := addResource_ok h
  obtain ⟨_, _, free, _⟩ := Tables.step_addResource.1 step
  refine Classical.byContradiction fun moved => ?_
  by_cases same : t.levelOn x q = f.store.levelOn x q
  · obtain ⟨here, _⟩ := Tables.touches_of_step step' fun e => moved (e.trans same)
    exact not_contains_iff.1 free x hx here.symm
  · exact Tables.touches_of_step step same

theorem retireRole_rise (ht : f.store.Consistent) {id : RoleId} {report : HandoverReport}
    (h : retireRole scope id f = (.ok report, f')) (hx : x ∈ f.store.resources)
    (rise : f.store.levelOn x q < f'.store.levelOn x q) :
    ((Command.retireRole id).opening x.tenant f.store).HandedTo f'.store x q none := by
  obtain ⟨stored, i, _, t, f₁, managed, _, step, filled, e⟩ := retireRole_ok h
  have hid : stored.id = id := (find?_eq_some_iff.1 (Scope.managedRole_eq_ok.1 managed).1).2
  have opened : t = (Command.retireRole id).opening x.tenant f.store := by
    obtain ⟨_, _, rfl⟩ := Tables.step_removeRole.1 step
    rw [ht.stored.removeRole, hid]
    rfl
  rw [e] at rise ⊢
  rcases Tables.levelOn_lt_or t rise with rise | rise
  · exact (Tables.mayRaise_of_step step rise).elim
  · rw [← opened]
    refine (Succession.fillVacancies_rise filled ?_ rise).2
    rw [opened]
    exact hx

theorem dismiss_rise {i : InitiativeId} {p : PrincipalId} {report : HandoverReport}
    (h : dismiss scope i p f = (.ok report, f')) (hx : x ∈ f.store.resources)
    (rise : f.store.levelOn x q < f'.store.levelOn x q) :
    ((Command.dismiss i p).opening x.tenant f.store).HandedTo f'.store x q (some p) := by
  obtain ⟨initiative, t, found, _, _, step, left⟩ := dismiss_ok h
  have hid : initiative.id = i :=
    (find?_eq_some_iff.1 (Scope.findInitiative_eq_ok.1 found).1).2
  rcases Tables.levelOn_lt_or t rise with rise | rise
  · exact (Tables.mayRaise_of_step step rise).elim
  · obtain ⟨_, rfl⟩ := Tables.step_removeMembership.1 step
    rw [← hid]
    exact (Succession.afterDeparture_rise left hx rise).2

theorem expel_rise (ht : f.store.Consistent) {p : PrincipalId} {report : HandoverReport}
    (h : expel scope p f = (.ok report, f')) (hx : x ∈ f.store.resources)
    (here : x.tenant = scope.tenant) (rise : f.store.levelOn x q < f'.store.levelOn x q) :
    ((Command.expel p).opening x.tenant f.store).HandedTo f'.store x q (some p) := by
  obtain ⟨_, t, f₁, step, left, e⟩ := expel_ok h
  obtain ⟨reports, leaves, _⟩ := Succession.leaveTenant_ok left
  obtain ⟨_, opened⟩ := Tables.step_removeTenantMembership.1 step
  have hx' : x ∈ t.resources := opened ▸ hx
  have tenant : t.tenantOf x.initiative = some x.tenant := opened ▸ ht.tenantOf_resource hx
  have among : x.initiative ∈ (t.initiatives.rows.filter fun i =>
      i.tenant = scope.tenant).map Initiative.id :=
    Tables.mem_initiativesIn (here ▸ tenant)
  have apart : ((t.initiatives.rows.filter fun i => i.tenant = scope.tenant).map
      Initiative.id).Nodup :=
    (nodup_keys (t := t.initiatives)).sublist (List.filter_sublist.map _)
  rw [e] at rise ⊢
  rcases Tables.levelOn_lt_or (t.unenrol x.initiative p) rise with rise | rise
  · subst opened
    refine absurd rise (Tables.levelOn_not_lt (fun _ hg _ _ => hg) (fun m hm _ _ => ?_)
      fun _ hg _ => hg)
    exact (mem_erase.1 hm).1
  · have handed :=
      Succession.leaveEach_rise (f := { f with store := t }) hx' apart among leaves rise
    subst opened
    refine handed.congr (.of_grants rfl rfl (fun m hm => ?_) rfl) (.refl _)
    -- of the initiative of the resource just the one membership ends
    have tenant : f.store.tenantOf x.initiative = some x.tenant := tenant
    simp only [Command.opening, Tables.unenrol, mem_filter, mem_erase, hm, tenant, decide_true,
      Bool.and_true, Bool.not_eq_true', decide_eq_false_iff_not, key_membership, Prod.mk.injEq,
      true_and, ne_eq]

/-- A move to another role raises the one that is moved, or hands over. -/
theorem reassign_rise {i : InitiativeId} {p : PrincipalId} {r : RoleId} {report : HandoverReport}
    (h : reassign scope i p r f = (.ok report, f')) (hx : x ∈ f.store.resources)
    (rise : f.store.levelOn x q < f'.store.levelOn x q) :
    i = x.initiative ∧ p = q ∨
      ((Command.reassign i p r).opening x.tenant f.store).HandedTo f'.store x q none := by
  obtain ⟨initiative, m, role, _, t, managed, hm, hrole, step, filled⟩ := reassign_ok h
  have hid : initiative.id = i := (find?_eq_some_iff.1 (Scope.managedInitiative_eq_ok.1 managed).1).2
  have hr : role.id = r := (find?_eq_some_iff.1 (roleIn_eq_ok.1 hrole).1).2
  obtain ⟨_, e⟩ := find?_eq_some_iff.1 hm
  obtain ⟨mi, mp, mr⟩ := m
  obtain ⟨rfl, rfl⟩ := Prod.mk.inj e
  rcases Tables.levelOn_lt_or t rise with rise | rise
  · obtain ⟨here, rfl⟩ := Tables.mayRaise_of_step step rise
    exact Or.inl ⟨hid.symm.trans here, rfl⟩
  · obtain ⟨_, _, _, _, rfl⟩ := Tables.step_putMembership.1 step
    rw [← hid, ← hr]
    exact Or.inr (Succession.fillVacancies_rise filled hx rise).2

end Administration

/-- Whoever rises on a resource of the tenant by a command, the caller is entitled to it. -/
theorem Command.perform_rise {f f' : Frame Tables} {scope : Scope} {settings : Settings}
    {command : Command} {answer : Answer} {x : Resource} {q : PrincipalId}
    (ht : f.store.Consistent) (rights : scope.Backed f.store)
    (h : command.perform settings scope f = (.ok answer, f')) (hx : x ∈ f.store.resources)
    (here : x.tenant = scope.tenant) (rise : f.store.levelOn x q < f'.store.levelOn x q) :
    RiseCause f.store f'.store scope.principal.id x q command := by
  have unowned := (Tables.not_owner_of_rise rise).2
  have unmoved {c : Change} {hit : Bool} (step : Tables.step c f.store = .ok (hit, f'.store)) :
      c.MayRaise x q := Tables.mayRaise_of_step step rise
  have idle (same : f'.store = f.store) : False := by
    rw [same, Level.lt_iff] at rise
    omega
  open Administration in
  cases command with
  | bringIn p role =>
    obtain ⟨_, h, _⟩ := return_ok.1 h
    obtain ⟨_, _, _, step⟩ := bringIn_ok h
    exact (unmoved step).elim
  | expel p =>
    obtain ⟨_, h, _⟩ := return_ok.1 h
    exact .handedOver trivial unowned (expel_rise ht h hx here rise)
  | startInitiative name =>
    obtain ⟨_, h, _⟩ := return_ok.1 h
    exact absurd (startInitiative_levelOn ht h hx) (Tables.ne_of_rise rise)
  | defineRole i name isManager =>
    obtain ⟨_, h, _⟩ := return_ok.1 h
    obtain ⟨_, _, _, _, _, _, _, step⟩ := defineRole_ok h
    exact (unmoved step).elim
  | relabelRole r name =>
    obtain ⟨_, h, _⟩ := return_ok.1 h
    obtain ⟨_, _, _, _, ⟨_, same⟩ | ⟨_, _, _, _, step⟩⟩ := relabelRole_ok h
    · exact (idle same).elim
    · exact (unmoved step).elim
  | empowerRole r isManager =>
    obtain ⟨_, h, _⟩ := return_ok.1 h
    obtain ⟨_, _, _, _, _, _, step⟩ := empowerRole_ok h
    exact (unmoved step).elim
  | retireRole r =>
    obtain ⟨_, h, _⟩ := return_ok.1 h
    exact .handedOver trivial unowned (retireRole_rise ht h hx rise)
  | switchFeature r c enabled =>
    obtain ⟨_, h, _⟩ := return_ok.1 h
    obtain ⟨_, _, _, _, _, step⟩ := switchFeature_ok h
    exact (unmoved step).elim
  | enrol i p r =>
    obtain ⟨_, h, _⟩ := return_ok.1 h
    obtain ⟨_, _, _, managed, _, _, rfl, _, step⟩ := enrol_ok h
    obtain ⟨e, leads⟩ := rights.leads_managed managed
    obtain ⟨hi, hq⟩ := unmoved step
    exact .placed ⟨e.symm.trans hi, hq⟩ (here ▸ hi ▸ leads)
  | reassign i p r =>
    obtain ⟨_, h, _⟩ := return_ok.1 h
    rcases reassign_rise h hx rise with ⟨rfl, rfl⟩ | handed
    · obtain ⟨_, _, _, _, _, managed, _⟩ := reassign_ok h
      obtain ⟨e, leads⟩ := rights.leads_managed managed
      exact .placed ⟨rfl, rfl⟩ (here ▸ e ▸ leads)
    · exact .handedOver trivial unowned handed
  | dismiss i p =>
    obtain ⟨_, h, _⟩ := return_ok.1 h
    exact .handedOver trivial unowned (dismiss_rise h hx rise)
  | restoreOwners i =>
    obtain ⟨_, h, _⟩ := return_ok.1 h
    obtain ⟨_, _, filled⟩ := restoreOwners_ok h
    exact .handedOver trivial unowned (Succession.fillVacancies_rise filled hx rise).2
  | addResource i kind name =>
    obtain ⟨_, h, _⟩ := return_ok.1 h
    exact absurd (addResource_levelOn h hx) (Tables.ne_of_rise rise)
  | dropResource r =>
    simp only [perform, bind_ok, pure_ok] at h
    obtain ⟨_, _, h, _, rfl⟩ := h
    obtain ⟨_, _, _, step⟩ := dropResource_ok h
    exact (unmoved step).elim
  | share r p level =>
    obtain ⟨_, h, _⟩ := return_ok.1 h
    obtain ⟨acl, _, _, owned, _, _, rfl, step⟩ := share_ok h
    obtain ⟨hr, rfl, _⟩ := owned_resource owned
    obtain ⟨e, _⟩ := unmoved step
    exact .granted e (eq_of_key hr hx e ▸ Scope.levelAtLeast_owner owned)
  | unshare r p =>
    obtain ⟨_, h, _⟩ := return_ok.1 h
    obtain ⟨_, _, _, _, ⟨_, same⟩ | ⟨_, _, _, step⟩⟩ := unshare_ok h
    · exact (idle same).elim
    · exact (unmoved step).elim
  | shareWithRole r role level =>
    obtain ⟨_, h, _⟩ := return_ok.1 h
    obtain ⟨acl, _, _, _, owned, _, _, _, rfl, step⟩ := shareWithRole_ok h
    obtain ⟨hr, rfl, _⟩ := owned_resource owned
    have e := unmoved step
    exact .granted e (eq_of_key hr hx e ▸ Scope.levelAtLeast_owner owned)
  | unshareWithRole r role =>
    obtain ⟨_, h, _⟩ := return_ok.1 h
    obtain ⟨_, _, _, _, ⟨_, same⟩ | ⟨_, _, _, step⟩⟩ := unshareWithRole_ok h
    · exact (idle same).elim
    · exact (unmoved step).elim

/-! ## Other tenants -/

namespace Store.Tables

variable {t t' : Tables} {u : TenantId} {x : Resource}

theorem SameOutside.resource (h : SameOutside u t t') (hx : x ∈ t.resources) (hv : x.tenant ≠ u) :
    x ∈ t'.resources := by
  have same := congrArg Part.resources (h.part x.tenant hv)
  have there : x ∈ (t'.part x.tenant).resources := by
    rw [same]
    exact mem_filter.2 ⟨hx, decide_eq_true rfl⟩
  exact (mem_filter.1 there).1

theorem SameOutside.levelOn (h : SameOutside u t t') (ht : t.Consistent) (ht' : t'.Consistent)
    (hx : x ∈ t.resources) (hv : x.tenant ≠ u) (q : PrincipalId) :
    t'.levelOn x q = t.levelOn x q := by
  have hx' := h.resource hx hv
  have part := h.part x.tenant hv
  rw [levelOn_eq, levelOn_eq, ht'.acl_congr ht hx' hx part, find?_roleMap, find?_roleMap,
    find?_membership (ht.tenantOf_resource hx), find?_membership (ht'.tenantOf_resource hx'), part]

end Store.Tables

/-! ## Calls -/

namespace Call

/-- The founder of a tenant brings a second principal in and gives it a role in its initiative: the
third identifier drawn is that of the manager role, the fourth that of the role for other members. -/
def staffing (role : Nat) : List Call :=
  let founder : Caller := ⟨Supply.numberedId 0, .member, Supply.numberedId 1, .activeTenant⟩
  founding 0 "ada" "acme" ++
    [.register "bob" .member,
      .request founder (.order (.bringIn (Supply.numberedId 6) .member)),
      .request founder (.order (.enrol (Supply.numberedId 2) (Supply.numberedId 6)
        (Supply.numberedId role)))]

variable {f f' : Frame Tables} {settings : Settings} {call : Call} {answer : Answer} {x : Resource}
  {q : PrincipalId}

theorem order_governed {caller : Caller} {command : Command} (ht : f.store.Consistent)
    (fresh : f.ids.FreshFor ((request caller (.order command)).draws settings) f.store)
    (h : (request caller (.order command)).perform settings f = (.ok answer, f')) :
    f.store.Governed caller.tenant caller.principal f'.store := by
  obtain ⟨scope, events, entered, performed⟩ := perform_order h
  obtain ⟨principal, tenant, rights⟩ := Caller.scope_backed entered
  rw [← principal, ← tenant]
  exact Command.perform_governed (f := { f with events }) ht rights fresh performed

/-- No call alters a stored resource. -/
theorem perform_resource {x' : Resource} (ht : f.store.Consistent)
    (fresh : f.ids.FreshFor (call.draws settings) f.store)
    (h : call.perform settings f = (.ok answer, f')) (hx : x ∈ f.store.resources)
    (hx' : x' ∈ f'.store.resources) (same : x'.id = x.id) : x' = x := by
  obtain ⟨caller, command, _, _, rfl, _⟩ | ⟨_, _, _, _, _, e⟩ := perform_cases h
  · rcases (order_governed ht fresh h).unaltered x' hx' with stored | unknown
    · exact eq_of_key stored hx same
    · exact absurd same.symm (not_contains_iff.1 unknown x hx)
  · rw [e] at hx'
    exact eq_of_key hx' hx same

/-- A level on a stored resource differs after a call only if a caller has ordered something in the
tenant of the resource. -/
theorem perform_moved (ht : f.store.Consistent)
    (fresh : f.ids.FreshFor (call.draws settings) f.store)
    (h : call.perform settings f = (.ok answer, f')) (hx : x ∈ f.store.resources)
    (moved : f'.store.levelOn x q ≠ f.store.levelOn x q) :
    ∃ caller command scope events, call = .request caller (.order command) ∧
      caller.tenant = x.tenant ∧ scope.principal.id = caller.principal ∧ scope.tenant = x.tenant ∧
      scope.Backed f.store ∧ command.perform settings scope { f with events } = (.ok answer, f') := by
  have ht' := (perform_fits ht fresh h).consistent ht
  obtain ⟨caller, command, scope, events, rfl, entered, performed⟩ | ⟨_, _, _, _, _, e⟩ :=
    perform_cases h
  · obtain ⟨principal, tenant, rights⟩ := Caller.scope_backed entered
    obtain ⟨scope', entered', within⟩ := request_within ht fresh h
    obtain rfl : scope = scope' := Except.ok.inj (entered.symm.trans entered')
    -- outside the tenant that the caller acts in nothing changes at all
    have here : x.tenant = scope.tenant := Classical.byContradiction fun outside =>
      moved ((within.sameOutside ht).levelOn ht ht' hx outside q)
    exact ⟨caller, command, scope, events, rfl, tenant.symm.trans here.symm, principal, here.symm,
      rights, performed⟩
  · exact absurd (by rw [e]; rfl) moved

/-- A rise of a level is due to a command in the tenant of the resource by a caller entitled to it. -/
theorem perform_rise (ht : f.store.Consistent)
    (fresh : f.ids.FreshFor (call.draws settings) f.store)
    (h : call.perform settings f = (.ok answer, f')) (hx : x ∈ f.store.resources)
    (rise : f.store.levelOn x q < f'.store.levelOn x q) :
    ∃ caller command, call = .request caller (.order command) ∧ caller.tenant = x.tenant ∧
      RiseCause f.store f'.store caller.principal x q command := by
  obtain ⟨caller, command, scope, events, rfl, tenant, principal, here, rights, performed⟩ :=
    perform_moved ht fresh h hx (Tables.ne_of_rise rise)
  refine ⟨caller, command, rfl, tenant, ?_⟩
  rw [← principal]
  exact Command.perform_rise (f := { f with events }) ht rights performed hx here.symm rise

end Call

namespace Reachable

variable {σ : Type} [Store.Backend σ] [Faithful σ] {s : σ} {settings : Settings} {call : Call}
  {ids : Supply} {answer : Answer}

/-- Every rise of a level is due to a right: somebody's level on a resource is higher after a call only
if the caller acted in the tenant of the resource and was entitled to what it did. -/
theorem rise_entitled (h : Reachable s) (fresh : ids.FreshFor (call.draws settings) (tables s))
    (done : (call.run settings s ids).result = .ok answer) {x x' : Resource}
    (hx : x ∈ (tables s).resources) (hx' : x' ∈ (tables (call.run settings s ids).store).resources)
    (same : x'.id = x.id) {q : PrincipalId}
    (rise : (tables s).levelOn x q < (tables (call.run settings s ids).store).levelOn x' q) :
    ∃ caller command, call = .request caller (.order command) ∧ caller.tenant = x.tenant ∧
      RiseCause (tables s) (tables (call.run settings s ids).store) caller.principal x q command := by
  have mirrors := h.run_mirrors fresh
  rw [mirrors.store] at hx' rise ⊢
  rw [mirrors.result.ok_iff] at done
  obtain ⟨f, performed, store⟩ := commit_ok done
  have store : (call.run settings (tables s) ids).store = f.store := store
  rw [store] at hx' rise ⊢
  obtain rfl := Call.perform_resource (f := ⟨tables s, ids, []⟩) h.consistent fresh performed hx hx'
    same
  exact Call.perform_rise (f := ⟨tables s, ids, []⟩) h.consistent fresh performed hx rise

/-- A founder leaves its initiative, and the other manager comes to own its project. -/
theorem rise_entitled_staffing :
    let staffed : Tables := (Call.runAll default (Call.staffing 3) .empty .empty).1
    let project : Resource :=
      ⟨Supply.numberedId 5, .project, Supply.numberedId 2, Supply.numberedId 1, "plan"⟩
    let leave : Call := .request ⟨Supply.numberedId 0, .member, Supply.numberedId 1, .activeTenant⟩
      (.order (.dismiss (Supply.numberedId 2) (Supply.numberedId 0)))
    (tables staffed).levelOn project (Supply.numberedId 6) <
        (tables (leave.run default staffed .empty).store).levelOn project (Supply.numberedId 6) ∧
      ∃ caller command, leave = .request caller (.order command) ∧
        caller.tenant = project.tenant ∧
        RiseCause (tables staffed) (tables (leave.run default staffed .empty).store)
          caller.principal project (Supply.numberedId 6) command := by
  intro staffed project leave
  have reachable : Reachable staffed := of_runAll (by decide +kernel)
  have fresh : Supply.empty.FreshFor (leave.draws default) (tables staffed) := by decide +kernel
  have before : project ∈ (tables staffed).resources := mem_iff.2 (by decide +kernel)
  have after : project ∈ (tables (leave.run default staffed .empty).store).resources :=
    mem_iff.2 (by decide +kernel)
  obtain ⟨answer, done⟩ := exists_of_isOk (x := (leave.run default staffed .empty).result)
    (by decide +kernel)
  have none : (tables staffed).levelOn project (Supply.numberedId 6) = none := by decide +kernel
  have owner : (tables (leave.run default staffed .empty).store).levelOn project
      (Supply.numberedId 6) = some .owner := by decide +kernel
  clear_value staffed
  have rise : (tables staffed).levelOn project (Supply.numberedId 6) <
      (tables (leave.run default staffed .empty).store).levelOn project (Supply.numberedId 6) := by
    rw [none, owner, Level.lt_iff]
    decide
  exact ⟨rise, reachable.rise_entitled fresh done before after rfl rise⟩

end Reachable

end TenantAccess
