import TenantAccess.Proofs.Entitlement

/-!
# When a level falls

Nobody loses access by the way. A level is lower after a call only if an owner of the resource has changed
the grants on it, or if the call moves the principal itself to another role, out of the initiative or out
of the tenant. What is handed over lowers nobody but the one that leaves.
-/

namespace TenantAccess

open Store (Tables Change Faithful)
open Store.Faithful (tables)
open Transaction Table

theorem Handover.Plan.mem_revoke_of_loss {plan : Plan} {acl : Acl} {q : PrincipalId}
    {role : Option RoleId}
    (loss : (plan.applyTo acl).effective q role < acl.effective q role) :
    (acl.resource.id, q) ∈ plan.revoke := by
  refine Classical.byContradiction fun spared => ?_
  have same : (plan.applyTo acl).levelOfRole? = acl.levelOfRole? := by
    funext r
    rw [Acl.levelOfRole?, applyTo_roles]
    rfl
  have top := Level.standing_le_owner (acl.direct? q)
  rw [Level.lt_iff, Acl.effective, Acl.effective, Level.standing_greater, Level.standing_greater,
    same, direct?_applyTo, if_neg spared] at loss
  split at loss <;> omega

/-! ## Handovers -/

namespace Succession

variable {f f' : Frame Tables} {i : InitiativeId} {p q : PrincipalId} {result : HandoverReport}
  {x : Resource}

/-- Whom the carrying out of a plan lowers, the plan takes a grant from. -/
theorem carryOut_loss {tenant : TenantId} {plan : Handover.Plan}
    (h : carryOut tenant plan f = (.ok result, f'))
    (loss : f'.store.levelOn x q < f.store.levelOn x q) : (x.id, q) ∈ plan.revoke := by
  have acl := carryOut_acl (x := x) h
  rw [(carryOut_ok h).2] at acl loss
  rw [Tables.levelOn_eq, Tables.levelOn_eq, acl, Tables.roleMap_regrant] at loss
  exact Handover.Plan.mem_revoke_of_loss loss

theorem fillVacancies_lowers_none (h : fillVacancies i f = (.ok result, f')) :
    ¬ f'.store.levelOn x q < f.store.levelOn x q := by
  intro loss
  rcases fillVacancies_ok h with ⟨_, _, rfl⟩ | ⟨_, _, _, _, carried⟩
  · exact absurd rfl (Tables.ne_of_rise loss)
  · have revoked := carryOut_loss carried loss
    rw [Handover.vacancyPlan_revoke] at revoked
    cases revoked

/-- Handing on what a principal has owned lowers at most this principal. -/
theorem afterDeparture_loss (h : afterDeparture i p f = (.ok result, f'))
    (loss : f'.store.levelOn x q < f.store.levelOn x q) : p = q := by
  rcases afterDeparture_ok h with ⟨_, _, rfl⟩ |
    ⟨_, _, plan, sweep, f₁, f₂, _, _, _, _, hplan, hsweep, h₁, h₂, _, e⟩
  · exact absurd rfl (Tables.ne_of_rise loss)
  · rw [e] at loss
    rcases Tables.levelOn_lt_or f₁.store loss with second | first
    · have revoked := carryOut_loss h₂ second
      rw [hsweep, Handover.vacancyPlan_revoke] at revoked
      cases revoked
    · have revoked := carryOut_loss h₁ first
      rw [hplan] at revoked
      exact (Handover.eq_of_mem_departurePlan_revoke revoked).symm

theorem afterDeparture_agree (h : afterDeparture i p f = (.ok result, f'))
    (hx : x ∈ f.store.resources) (hi : x.initiative ≠ i) : f.store.AgreeOn x f'.store := by
  obtain ⟨grants, same⟩ := afterDeparture_regrant h
  exact ⟨afterDeparture_acl h hx hi, fun m _ => by rw [same]; rfl, by rw [same]; rfl⟩

theorem leaveInitiative_loss (h : leaveInitiative p i f = (.ok result, f'))
    (loss : f'.store.levelOn x q < f.store.levelOn x q) : p = q := by
  obtain ⟨wasMember, t, acls, step, _, h⟩ := leaveInitiative_ok h
  have left (loss : t.levelOn x q < f.store.levelOn x q) : p = q :=
    (Tables.touches_of_step step (Tables.ne_of_rise loss).symm).2
  rcases h with ⟨_, _, _, e⟩ | ⟨f₁, departed, e⟩
  · exact left (e ▸ loss)
  · rw [e] at loss
    rcases Tables.levelOn_lt_or f₁.store loss with dropped | loss
    · -- no grant of anyone else is dropped
      refine Classical.byContradiction fun other => absurd dropped (Tables.levelOn_not_lt
        (fun g hg _ own => ?_) (fun _ hm _ _ => hm) fun _ hg _ => hg)
      exact mem_drop.2 ⟨hg, fun gone => other (gone.1.symm.trans own)⟩
    · rcases Tables.levelOn_lt_or t loss with handed | loss
      · exact afterDeparture_loss departed handed
      · exact left loss

theorem leaveEach_loss {l : List Initiative} {reports : List HandoverReport}
    (h : l.mapM (fun i => leaveInitiative p i.id) f = (.ok reports, f'))
    (loss : f'.store.levelOn x q < f.store.levelOn x q) : p = q := by
  induction l generalizing f reports with
  | nil =>
    simp only [List.mapM_nil, pure_ok] at h
    rw [h.2] at loss
    exact absurd rfl (Tables.ne_of_rise loss)
  | cons i rest ih =>
    obtain ⟨_, f₁, reports, h₁, hrest, _⟩ := mapM_cons_ok.1 h
    rcases Tables.levelOn_lt_or f₁.store loss with later | first
    · exact ih hrest later
    · exact leaveInitiative_loss h₁ first

end Succession

/-! ## Causes of a loss -/

namespace Command

/-- Changes a grant on the resource. -/
def Regrants (r : ResourceId) : Command → Prop
  | share r' .. | unshare r' _ | shareWithRole r' .. | unshareWithRole r' _ => r' = r
  | _ => False

/-- Moves the principal to another role in the initiative of a resource, or takes it out of the initiative
or of the tenant. -/
def Moves (i : InitiativeId) (q : PrincipalId) : Command → Prop
  | reassign i' p _ | dismiss i' p => i' = i ∧ p = q
  | expel p => p = q
  | _ => False

end Command

/-- Why the level of `q` on a resource is lower after a command of the principal `p`. -/
inductive LossCause (t : Tables) (p : PrincipalId) (x : Resource) (q : PrincipalId)
    (command : Command) : Prop
  | regranted (changes : command.Regrants x.id) (owner : t.levelOn x p = some .owner)
  | moved (names : command.Moves x.initiative q)

/-! ## Commands -/

namespace Administration

variable {f f' : Frame Tables} {scope : Scope} {x : Resource} {q : PrincipalId}

theorem retireRole_lowers_none {id : RoleId} {report : HandoverReport}
    (h : retireRole scope id f = (.ok report, f')) :
    ¬ f'.store.levelOn x q < f.store.levelOn x q := by
  intro loss
  obtain ⟨_, _, _, t, f₁, _, _, step, filled, e⟩ := retireRole_ok h
  rw [e] at loss
  rcases Tables.levelOn_lt_or t loss with handed | loss
  · exact Succession.fillVacancies_lowers_none filled handed
  · exact Tables.touches_of_step step (Tables.ne_of_rise loss).symm

theorem expel_loss {p : PrincipalId} {report : HandoverReport}
    (h : expel scope p f = (.ok report, f'))
    (loss : f'.store.levelOn x q < f.store.levelOn x q) : p = q := by
  obtain ⟨_, t, f₁, step, left, e⟩ := expel_ok h
  obtain ⟨_, leaves, _⟩ := Succession.leaveTenant_ok left
  obtain ⟨_, rfl⟩ := Tables.step_removeTenantMembership.1 step
  exact Succession.leaveEach_loss leaves (e ▸ loss)

theorem reassign_loss {i : InitiativeId} {p : PrincipalId} {r : RoleId} {report : HandoverReport}
    (h : reassign scope i p r f = (.ok report, f'))
    (loss : f'.store.levelOn x q < f.store.levelOn x q) : i = x.initiative ∧ p = q := by
  obtain ⟨initiative, m, _, _, t, managed, found, _, step, filled⟩ := reassign_ok h
  have hid := (find?_eq_some_iff.1 (Scope.managedInitiative_eq_ok.1 managed).1).2
  obtain ⟨hi, hp⟩ := Prod.mk.inj (find?_eq_some_iff.1 found).2
  rcases Tables.levelOn_lt_or t loss with handed | loss
  · exact absurd handed (Succession.fillVacancies_lowers_none filled)
  · obtain ⟨here, own⟩ := Tables.touches_of_step step (Tables.ne_of_rise loss).symm
    exact ⟨hid.symm.trans (hi.symm.trans here), hp.symm.trans own⟩

theorem dismiss_loss {i : InitiativeId} {p : PrincipalId} {report : HandoverReport}
    (h : dismiss scope i p f = (.ok report, f')) (hx : x ∈ f.store.resources)
    (loss : f'.store.levelOn x q < f.store.levelOn x q) : i = x.initiative ∧ p = q := by
  obtain ⟨initiative, t, found, _, _, step, left⟩ := dismiss_ok h
  have hid := (find?_eq_some_iff.1 (Scope.findInitiative_eq_ok.1 found).1).2
  rcases Tables.levelOn_lt_or t loss with handed | loss
  · refine ⟨?_, Succession.afterDeparture_loss left handed⟩
    refine Classical.byContradiction fun elsewhere => ?_
    obtain ⟨_, rfl⟩ := Tables.step_removeMembership.1 step
    have agree := Succession.afterDeparture_agree left hx fun e => elsewhere (e.trans hid).symm
    exact absurd (agree.levelOn q).symm (Tables.ne_of_rise handed)
  · obtain ⟨here, own⟩ := Tables.touches_of_step step (Tables.ne_of_rise loss).symm
    exact ⟨hid.symm.trans here, own⟩

end Administration

/-- Whose level falls on a resource, a command of an owner has changed the grants there, or has moved the
principal itself. -/
theorem Command.perform_loss {f f' : Frame Tables} {scope : Scope} {settings : Settings}
    {command : Command} {answer : Answer} {x : Resource} {q : PrincipalId}
    (ht : f.store.Consistent) (h : command.perform settings scope f = (.ok answer, f'))
    (hx : x ∈ f.store.resources) (hx' : x ∈ f'.store.resources)
    (loss : f'.store.levelOn x q < f.store.levelOn x q) :
    LossCause f.store scope.principal.id x q command := by
  have moved := (Tables.ne_of_rise loss).symm
  have untouched {c : Change} {hit : Bool} (step : Tables.step c f.store = .ok (hit, f'.store)) :
      c.Touches x q := Tables.touches_of_step step moved
  have idle (same : f'.store = f.store) : False := moved (by rw [same])
  open Administration in
  cases command with
  | bringIn p role =>
    obtain ⟨_, h, _⟩ := return_ok.1 h
    obtain ⟨_, _, _, step⟩ := bringIn_ok h
    exact (untouched step).elim
  | expel p =>
    obtain ⟨_, h, _⟩ := return_ok.1 h
    exact .moved (expel_loss h loss)
  | startInitiative name =>
    obtain ⟨_, h, _⟩ := return_ok.1 h
    exact absurd (startInitiative_levelOn ht h hx) moved
  | defineRole i name isManager =>
    obtain ⟨_, h, _⟩ := return_ok.1 h
    obtain ⟨_, _, _, _, _, _, _, step⟩ := defineRole_ok h
    exact (untouched step).elim
  | relabelRole r name =>
    obtain ⟨_, h, _⟩ := return_ok.1 h
    obtain ⟨_, _, _, _, ⟨_, same⟩ | ⟨_, _, _, _, step⟩⟩ := relabelRole_ok h
    · exact (idle same).elim
    · exact (untouched step).elim
  | empowerRole r isManager =>
    obtain ⟨_, h, _⟩ := return_ok.1 h
    obtain ⟨_, _, _, _, _, _, step⟩ := empowerRole_ok h
    exact (untouched step).elim
  | retireRole r =>
    obtain ⟨_, h, _⟩ := return_ok.1 h
    exact absurd loss (retireRole_lowers_none h)
  | switchFeature r c enabled =>
    obtain ⟨_, h, _⟩ := return_ok.1 h
    obtain ⟨_, _, _, _, _, step⟩ := switchFeature_ok h
    exact (untouched step).elim
  | enrol i p r =>
    obtain ⟨_, h, _⟩ := return_ok.1 h
    obtain ⟨initiative, _, _, _, _, _, rfl, free, step⟩ := enrol_ok h
    obtain ⟨_, _, _, _, e⟩ := Tables.step_putMembership.1 step
    -- a first membership replaces none
    refine absurd loss (Tables.levelOn_not_lt (fun _ hg _ _ => e ▸ hg) (fun m hm _ _ => ?_)
      fun _ hg _ => e ▸ hg)
    rw [← e]
    exact mem_insert.2 (Or.inr ⟨hm, find?_eq_none_iff.1 free m hm⟩)
  | reassign i p r =>
    obtain ⟨_, h, _⟩ := return_ok.1 h
    exact .moved (reassign_loss h loss)
  | dismiss i p =>
    obtain ⟨_, h, _⟩ := return_ok.1 h
    exact .moved (dismiss_loss h hx loss)
  | restoreOwners i =>
    obtain ⟨_, h, _⟩ := return_ok.1 h
    obtain ⟨_, _, filled⟩ := restoreOwners_ok h
    exact absurd loss (Succession.fillVacancies_lowers_none filled)
  | addResource i kind name =>
    obtain ⟨_, h, _⟩ := return_ok.1 h
    exact absurd (addResource_levelOn h hx) moved
  | dropResource r =>
    simp only [perform, bind_ok, pure_ok] at h
    obtain ⟨_, _, h, _, rfl⟩ := h
    obtain ⟨_, _, _, step⟩ := dropResource_ok h
    obtain rfl : r = x.id := untouched step
    obtain ⟨_, e⟩ := Tables.step_removeResource.1 step
    rw [← e, ht.stored.removeResource] at hx'
    exact absurd rfl (mem_erase.1 hx').2
  | share r p level =>
    obtain ⟨_, h, _⟩ := return_ok.1 h
    obtain ⟨acl, _, _, owned, _, _, rfl, step⟩ := share_ok h
    obtain ⟨hr, rfl, _⟩ := owned_resource owned
    obtain ⟨e, _⟩ := untouched step
    exact .regranted e (eq_of_key hr hx e ▸ Scope.levelAtLeast_owner owned)
  | unshare r p =>
    obtain ⟨_, h, _⟩ := return_ok.1 h
    obtain ⟨acl, _, owned, _, ⟨_, same⟩ | ⟨_, _, _, step⟩⟩ := unshare_ok h
    · exact (idle same).elim
    · obtain ⟨hr, rfl, _⟩ := owned_resource owned
      obtain ⟨e, _⟩ := untouched step
      exact .regranted e (eq_of_key hr hx e ▸ Scope.levelAtLeast_owner owned)
  | shareWithRole r role level =>
    obtain ⟨_, h, _⟩ := return_ok.1 h
    obtain ⟨acl, _, _, _, owned, _, _, _, rfl, step⟩ := shareWithRole_ok h
    obtain ⟨hr, rfl, _⟩ := owned_resource owned
    have e := untouched step
    exact .regranted e (eq_of_key hr hx e ▸ Scope.levelAtLeast_owner owned)
  | unshareWithRole r role =>
    obtain ⟨_, h, _⟩ := return_ok.1 h
    obtain ⟨acl, _, owned, _, ⟨_, same⟩ | ⟨_, _, _, step⟩⟩ := unshareWithRole_ok h
    · exact (idle same).elim
    · obtain ⟨hr, rfl, _⟩ := owned_resource owned
      have e := untouched step
      exact .regranted e (eq_of_key hr hx e ▸ Scope.levelAtLeast_owner owned)

namespace Reachable

variable {σ : Type} [Store.Backend σ] [Faithful σ] {s : σ} {settings : Settings} {call : Call}
  {ids : Supply} {answer : Answer}

/-- Nobody loses access by the way: somebody's level on a resource is lower after a call only if the
caller acted in the tenant of the resource and either changed grants on it as an owner or moved the one
that it took the level from. So to rename, change or delete a role, to switch a feature and to restore
owners lowers nobody. -/
theorem loss_caused (h : Reachable s) (fresh : ids.FreshFor (call.draws settings) (tables s))
    (done : (call.run settings s ids).result = .ok answer) {x x' : Resource}
    (hx : x ∈ (tables s).resources) (hx' : x' ∈ (tables (call.run settings s ids).store).resources)
    (same : x'.id = x.id) {q : PrincipalId}
    (loss : (tables (call.run settings s ids).store).levelOn x' q < (tables s).levelOn x q) :
    ∃ caller command, call = .request caller (.order command) ∧ caller.tenant = x.tenant ∧
      LossCause (tables s) caller.principal x q command := by
  obtain ⟨f, performed, store⟩ := h.performed fresh done
  rw [store] at hx' loss
  obtain rfl := Call.perform_resource (f := ⟨tables s, ids, []⟩) h.consistent fresh performed hx hx'
    same
  obtain ⟨caller, command, scope, events, rfl, tenant, principal, _, _, ordered⟩ :=
    Call.perform_moved (f := ⟨tables s, ids, []⟩) h.consistent fresh performed hx
      (Tables.ne_of_rise loss).symm
  refine ⟨caller, command, rfl, tenant, ?_⟩
  rw [← principal]
  exact Command.perform_loss (f := ⟨tables s, ids, events⟩) h.consistent ordered hx hx' loss

/-- A founder that leaves its initiative is no owner there any more. -/
theorem loss_caused_staffing :
    let staffed : Tables := (Call.runAll default (Call.staffing 3) .empty .empty).1
    let project : Resource :=
      ⟨Supply.numberedId 5, .project, Supply.numberedId 2, Supply.numberedId 1, "plan"⟩
    let leave : Call := .request ⟨Supply.numberedId 0, .member, Supply.numberedId 1, .activeTenant⟩
      (.order (.dismiss (Supply.numberedId 2) (Supply.numberedId 0)))
    (tables (leave.run default staffed .empty).store).levelOn project (Supply.numberedId 0) <
        (tables staffed).levelOn project (Supply.numberedId 0) ∧
      ∃ caller command, leave = .request caller (.order command) ∧
        caller.tenant = project.tenant ∧
        LossCause (tables staffed) caller.principal project (Supply.numberedId 0) command := by
  intro staffed project leave
  have reachable : Reachable staffed := of_runAll (by decide +kernel)
  have fresh : Supply.empty.FreshFor (leave.draws default) (tables staffed) := by decide +kernel
  have before : project ∈ (tables staffed).resources := mem_iff.2 (by decide +kernel)
  have after : project ∈ (tables (leave.run default staffed .empty).store).resources :=
    mem_iff.2 (by decide +kernel)
  obtain ⟨answer, done⟩ := exists_of_isOk (x := (leave.run default staffed .empty).result)
    (by decide +kernel)
  have owner : (tables staffed).levelOn project (Supply.numberedId 0) = some .owner := by
    decide +kernel
  have none : (tables (leave.run default staffed .empty).store).levelOn project
      (Supply.numberedId 0) = none := by decide +kernel
  clear_value staffed
  have loss : (tables (leave.run default staffed .empty).store).levelOn project
      (Supply.numberedId 0) < (tables staffed).levelOn project (Supply.numberedId 0) := by
    rw [none, owner, Level.lt_iff]
    decide
  exact ⟨loss, reachable.loss_caused fresh done before after rfl loss⟩

end Reachable

end TenantAccess
