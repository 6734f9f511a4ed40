import TenantAccess.Proofs.Effects
import TenantAccess.Proofs.Mirror.Reads

/-!
# Calls on a faithful store and on its tables

Every call on a faithful store mirrors the same call on its tables, as long as the rows fit together
and the identifiers that it draws are fresh.
-/

namespace TenantAccess

open Store (Faithful Tables Change)
open Store.Faithful (tables Sound)
open Transaction

variable {σ : Type} [Store.Backend σ] [Faithful σ]

/-! ## Handovers -/

namespace Succession

theorem carryOut_mirrors (tenant : TenantId) (plan : Handover.Plan) :
    Mirrors (carryOut tenant plan : Transaction σ HandoverReport) (carryOut tenant plan) := by
  refine .bind (.forM fun c => ?_) fun _ => .bind (.forM fun c => ?_) fun _ =>
    .bind (.forM fun w => .report _) fun _ => .pure _
  · exact .bind (.change fun _ => trivial) fun _ => .pure _
  · exact .bind (.change fun _ => trivial) fun _ => .pure _

theorem fillVacancies_mirrors (i : InitiativeId) :
    Mirrors (fillVacancies i : Transaction σ HandoverReport) (fillVacancies i) := by
  refine .read fun s h => ?_
  simp only [Store.ask_tables h, accessLists_tables h, Store.roleMap_tables h,
    Store.managingRoles_tables h]
  cases Store.Backend.ask (.initiative i) (tables s) with
  | none => exact .pure _
  | some initiative => exact .bind (.check _) fun acls => carryOut_mirrors _ _

theorem afterDeparture_mirrors (i : InitiativeId) (p : PrincipalId) :
    Mirrors (afterDeparture i p : Transaction σ HandoverReport) (afterDeparture i p) := by
  refine .read fun s h => ?_
  simp only [Store.ask_tables h, accessLists_tables h, Store.roleMap_tables h,
    Store.managingRoles_tables h]
  cases Store.Backend.ask (.initiative i) (tables s) with
  | none => exact .pure _
  | some initiative =>
    exact .bind (.check _) fun acls => .bind (carryOut_mirrors _ _) fun first =>
      .bind (carryOut_mirrors _ _) fun second => .bind (.report _) fun _ => .pure _

theorem leaveInitiative_mirrors (p : PrincipalId) (i : InitiativeId) :
    Mirrors (leaveInitiative p i : Transaction σ HandoverReport) (leaveInitiative p i) := by
  refine .bind (.change fun _ => trivial) fun wasMember => .read fun s h => ?_
  simp only [accessLists_tables h]
  refine .bind (.check _) fun acls => .ite (.pure _) ?_
  refine .bind (afterDeparture_mirrors i p) fun result => .bind (.mapM fun r => ?_) fun dropped =>
    .bind (.report _) fun _ => .pure _
  exact .change fun _ => trivial

theorem leaveTenant_mirrors (tenant : TenantId) (p : PrincipalId) :
    Mirrors (leaveTenant tenant p : Transaction σ HandoverReport) (leaveTenant tenant p) := by
  refine .read fun s h => ?_
  simp only [Store.ask_tables h]
  exact .bind (.mapM fun i => leaveInitiative_mirrors p i.id) fun reports => .pure _

end Succession

/-! ## Commands -/

namespace Administration

theorem register_mirrors (name : String) (role : PlatformRole) :
    Mirrors (register name role : Transaction σ Principal) (register name role) :=
  .bind (.check _) fun _ => .bind .fresh fun _ => .bind (.change fun _ => trivial) fun _ =>
    .bind (.report _) fun _ => .pure _

theorem foundTenant_mirrors (creator : PrincipalId) (name : String) :
    Mirrors (foundTenant creator name : Transaction σ Tenant) (foundTenant creator name) := by
  refine .bind (.check _) fun _ => .read fun s h => ?_
  simp only [knownPrincipal_tables h]
  exact .bind (.check _) fun _ => .bind .fresh fun _ => .bind (.change fun _ => trivial) fun _ =>
    .bind (.change fun _ => trivial) fun _ => .bind (.report _) fun _ => .pure _

variable (scope : Scope)

theorem bringIn_mirrors (p : PrincipalId) (role : TenantRole) :
    Mirrors (bringIn scope p role : Transaction σ TenantMembership) (bringIn scope p role) := by
  refine .bind (.check _) fun _ => .read fun s h => ?_
  simp only [knownPrincipal_tables h]
  exact .bind (.check _) fun _ => .bind (.change fun _ => trivial) fun _ =>
    .bind (.report _) fun _ => .pure _

theorem expel_mirrors (p : PrincipalId) :
    Mirrors (expel scope p : Transaction σ HandoverReport) (expel scope p) := by
  refine .bind (.check _) fun _ => .bind (.change fun _ => trivial) fun wasMember => ?_
  have left : Mirrors (Succession.leaveTenant scope.tenant p : Transaction σ HandoverReport)
      (Succession.leaveTenant scope.tenant p) := Succession.leaveTenant_mirrors scope.tenant p
  have rest := left.bind fun result =>
    (Mirrors.report (.tenantMemberRemoved scope.tenant p)).bind fun _ => .pure result
  exact .ite (.bind (.check _) fun _ => rest) rest

theorem retireRole_mirrors (id : RoleId) :
    Mirrors (retireRole scope id : Transaction σ HandoverReport) (retireRole scope id) := by
  refine .read fun s h => ?_
  simp only [Scope.managedRole_tables h, Store.ask_tables h]
  refine .bind (.check _) fun ⟨role, initiative⟩ => .bind (.check _) fun _ => ?_
  have removed : Mirrors (change (.removeRole role.id) : Transaction σ Bool)
      (change (.removeRole role.id)) := .change fun _ => trivial
  have rest := removed.bind fun _ =>
    (Succession.fillVacancies_mirrors initiative.id).bind fun result =>
    (Mirrors.report (.roleDeleted role.id initiative.id)).bind fun _ => .pure result
  exact .ite (.bind (.check _) fun _ => rest) rest

theorem switchFeature_mirrors (id : RoleId) (c : Feature) (enabled : Bool) :
    Mirrors (switchFeature scope id c enabled : Transaction σ Role)
      (switchFeature scope id c enabled) := by
  refine .read fun s h => ?_
  simp only [Scope.managedRole_tables h]
  exact .bind (.check _) fun _ => .bind (.change fun _ => trivial) fun _ => .bind (.report _) fun _ =>
    .pure _

theorem enrol_mirrors (i : InitiativeId) (p : PrincipalId) (r : RoleId) :
    Mirrors (enrol scope i p r : Transaction σ Membership) (enrol scope i p r) := by
  refine .read fun s h => ?_
  simp only [Scope.managedInitiative_tables h, knownPrincipal_tables h, needTenantMember_tables h,
    roleIn_tables h, Store.ask_tables h]
  refine .bind (.check _) fun initiative => .bind (.check _) fun _ => .bind (.check _) fun _ =>
    .bind (.check _) fun role => ?_
  have added : Mirrors (change (.putMembership ⟨initiative.id, p, role.id⟩) : Transaction σ Bool)
      (change (.putMembership ⟨initiative.id, p, role.id⟩)) := .change fun _ => trivial
  have rest := added.bind fun _ =>
    (Mirrors.report (.memberAdded initiative.id p role.name)).bind fun _ =>
      .pure (⟨initiative.id, p, role.id⟩ : Membership)
  exact .ite (.bind (.check _) fun _ => rest) rest

theorem reassign_mirrors (i : InitiativeId) (p : PrincipalId) (r : RoleId) :
    Mirrors (reassign scope i p r : Transaction σ HandoverReport) (reassign scope i p r) := by
  refine .read fun s h => ?_
  simp only [Scope.managedInitiative_tables h, roleIn_tables h, Store.ask_tables h]
  exact .bind (.check _) fun _ => .bind (.check _) fun _ => .bind (.check _) fun _ =>
    .bind (.change fun _ => trivial) fun _ => Succession.fillVacancies_mirrors _

theorem dismiss_mirrors (i : InitiativeId) (p : PrincipalId) :
    Mirrors (dismiss scope i p : Transaction σ HandoverReport) (dismiss scope i p) := by
  refine .read fun s h => ?_
  simp only [Scope.findInitiative_tables h, Scope.needManager_tables h]
  refine .bind (.check _) fun initiative => ?_
  have left : Mirrors (Succession.afterDeparture initiative.id p : Transaction σ HandoverReport)
      (Succession.afterDeparture initiative.id p) :=
    Succession.afterDeparture_mirrors initiative.id p
  have removed : Mirrors (change (.removeMembership initiative.id p) : Transaction σ Bool)
      (change (.removeMembership initiative.id p)) := .change fun _ => trivial
  have rest := removed.bind fun wasMember =>
      Mirrors.ite (p := (!wasMember) = true)
        ((Mirrors.check (.error (.notFound s!"membership of {p}") : Except Failure Unit)).bind
          fun _ => left) left
  exact .ite (.bind (.check _) fun _ => rest) (.bind (.check _) fun _ => rest)

theorem restoreOwners_mirrors (i : InitiativeId) :
    Mirrors (restoreOwners scope i : Transaction σ HandoverReport) (restoreOwners scope i) := by
  refine .read fun s h => ?_
  simp only [Scope.managedInitiative_tables h]
  exact .bind (.check _) fun _ => Succession.fillVacancies_mirrors _

theorem addResource_mirrors (i : InitiativeId) (kind : ResourceKind) (name : String) :
    Mirrors (addResource scope i kind name : Transaction σ Resource)
      (addResource scope i kind name) := by
  refine .read fun s h => ?_
  simp only [Scope.findInitiative_tables h, Store.heldRole_tables h]
  refine .bind (.check _) fun initiative => .bind (.check _) fun _ => .bind (.check _) fun _ => ?_
  have drawn : Mirrors (fresh : Transaction σ ResourceId) fresh := .fresh
  have rest := drawn.bind fun id =>
    (Mirrors.change (c := .addResource ⟨id, kind, initiative.id, initiative.tenant, name⟩)
      fun _ => trivial).bind fun _ =>
    (Mirrors.change (c := .putUserGrant ⟨id, scope.principal.id, .owner, initiative.tenant⟩)
      fun _ => trivial).bind fun _ =>
    (Mirrors.report (.resourceCreated id kind scope.principal.id)).bind fun _ =>
      .pure (⟨id, kind, initiative.id, initiative.tenant, name⟩ : Resource)
  exact .ite (.bind (.check _) fun _ => rest) rest

theorem dropResource_mirrors (r : ResourceId) :
    Mirrors (dropResource scope r : Transaction σ Unit) (dropResource scope r) := by
  refine .read fun s h => ?_
  simp only [Scope.levelAtLeast_tables h]
  exact .bind (.check _) fun _ => .bind (.change fun _ => trivial) fun _ => .report _

theorem share_mirrors (r : ResourceId) (p : PrincipalId) (level : Level) :
    Mirrors (share scope r p level : Transaction σ UserGrant) (share scope r p level) := by
  refine .read fun s h => ?_
  simp only [Scope.levelAtLeast_tables h, knownPrincipal_tables h, needTenantMember_tables h,
    needOwner_tables h]
  exact .bind (.check _) fun _ => .bind (.check _) fun _ => .bind (.check _) fun _ =>
    .bind (.check _) fun _ => .bind (.change fun _ => trivial) fun _ => .bind (.report _) fun _ =>
    .pure _

theorem withdraw_mirrors (r : ResourceId) (held : Acl → Option Level) (without : Acl → Acl)
    {removal : Change} (event : Event) (upright : ∀ t, removal.Upright t) :
    Mirrors (withdraw scope r held without removal event : Transaction σ Bool)
      (withdraw scope r held without removal event) := by
  refine .read fun s h => ?_
  simp only [Scope.levelAtLeast_tables h, needOwner_tables h]
  exact .bind (.check _) fun _ => .ite (.pure _) <| .bind (.check _) fun _ =>
    .bind (.change fun _ => upright _) fun _ => .bind (.report _) fun _ => .pure _

theorem unshare_mirrors (r : ResourceId) (p : PrincipalId) :
    Mirrors (unshare scope r p : Transaction σ Bool) (unshare scope r p) :=
  withdraw_mirrors scope r _ _ _ fun _ => trivial

theorem shareWithRole_mirrors (r : ResourceId) (id : RoleId) (level : Level) :
    Mirrors (shareWithRole scope r id level : Transaction σ RoleGrant)
      (shareWithRole scope r id level) := by
  refine .read fun s h => ?_
  simp only [Scope.levelAtLeast_tables h, Store.ask_tables h, needOwner_tables h]
  exact .bind (.check _) fun _ => .bind (.check _) fun _ => .bind (.check _) fun _ =>
    .bind (.check _) fun _ => .bind (.change fun _ => trivial) fun _ => .bind (.report _) fun _ =>
    .pure _

theorem unshareWithRole_mirrors (r : ResourceId) (role : RoleId) :
    Mirrors (unshareWithRole scope r role : Transaction σ Bool) (unshareWithRole scope r role) :=
  withdraw_mirrors scope r _ _ _ fun _ => trivial

/-- A role under an identifier that no role bears can be written to any rows. -/
theorem newRole_upright {t : Tables} {id : RoleId} (free : t.roles.contains id = false)
    {i : InitiativeId} {name : String} {isManager : Bool} {position : UInt32} :
    (Change.putRole (Role.plain id i name isManager position)).Upright t :=
  ⟨.plain, fun r hr e => absurd e (Table.not_contains_iff.1 free r hr)⟩

theorem defineRole_mirrors {f : Frame σ} (sound : Sound f.store)
    (free : f.ids.FreshFor 1 (tables f.store)) (i : InitiativeId) (name : String)
    (isManager : Bool) :
    MirrorsAt f (defineRole scope i name isManager) (defineRole scope i name isManager) := by
  refine .read ?_
  simp only [Scope.managedInitiative_tables sound, needFreeName_tables sound,
    Store.ask_tables sound]
  refine .check sound fun _ _ => .check sound fun _ _ => .check sound fun _ _ => .fresh ?_
  refine .bind (.change ?_ ?_) fun _ f' _ sound' => (Mirrors.report _).bind (fun _ => .pure _) f' sound'
  · exact sound
  · exact newRole_upright free.role_free

theorem relabelRole_mirrors {f : Frame σ} (sound : Sound f.store)
    (ht : (tables f.store).Consistent) (id : RoleId) (name : String) :
    MirrorsAt f (relabelRole scope id name) (relabelRole scope id name) := by
  refine .read ?_
  simp only [Scope.managedRole_tables sound, needFreeName_tables sound]
  refine .check sound fun ⟨role, initiative⟩ managed => .check sound fun _ _ =>
    .check sound fun _ _ => ?_
  split
  · exact Mirrors.pure _ f sound
  · refine .check sound fun _ _ => .bind (.change sound ?_) fun _ f' _ sound' =>
      Mirrors.pure _ f' sound'
    have allowed : Within scope.tenant (tables f.store) (.putRole { role with name }) :=
      updateRole_within ht managed rfl rfl rfl
    exact allowed.fits.upright

theorem empowerRole_mirrors {f : Frame σ} (sound : Sound f.store)
    (ht : (tables f.store).Consistent) (id : RoleId) (isManager : Bool) :
    MirrorsAt f (empowerRole scope id isManager) (empowerRole scope id isManager) := by
  refine .read ?_
  simp only [Scope.managedRole_tables sound]
  refine .check sound fun ⟨role, initiative⟩ managed => .check sound fun _ _ =>
    .bind (.change sound ?_) fun _ f' _ sound' => Mirrors.pure _ f' sound'
  have allowed : Within scope.tenant (tables f.store) (.putRole { role with isManager }) :=
    updateRole_within ht managed rfl rfl rfl
  exact allowed.fits.upright

theorem startInitiative_mirrors {settings : Settings} {f : Frame σ} (sound : Sound f.store)
    (free : f.ids.FreshFor (if settings.seedsRoles then 3 else 1) (tables f.store))
    (name : String) :
    MirrorsAt f (startInitiative settings scope name) (startInitiative settings scope name) := by
  refine .check sound fun _ _ => .check sound fun _ _ => .fresh ?_
  refine .bind (.change ?_ trivial) fun _ f₁ e₁ sound₁ => ?_
  · exact sound
  simp only [change_ok] at e₁
  obtain ⟨t, step, e₁⟩ := e₁
  have ids₁ : f₁.ids = (@Supply.draw .initiative f.ids).2 := congrArg Frame.ids e₁.symm
  have roles₁ : (tables f₁.store).roles = (tables f.store).roles := by
    obtain ⟨_, _, _, rfl⟩ := Tables.step_addInitiative.1 step
    exact congrArg (fun g => g.store.roles) e₁.symm
  refine .ite (fun seeds => ?_) fun _ => ?_
  · rw [if_pos seeds] at free
    have free := free.next .initiative
    rw [← ids₁] at free
    refine .fresh (.fresh ?_)
    refine .bind (.change ?_ ?_) fun _ f₂ e₂ sound₂ => ?_
    · exact sound₁
    · exact newRole_upright (roles₁ ▸ free.role_free)
    simp only [change_ok] at e₂
    obtain ⟨t', step', e₂⟩ := e₂
    refine .bind (.change ?_ ?_) fun _ f₃ e₃ sound₃ => ?_
    · exact sound₂
    · -- the manager role bears another identifier
      refine newRole_upright (Table.not_contains_iff.2 fun r hr e => ?_)
      have hr : r ∈ t'.roles := (congrArg (fun g => g.store.roles) e₂) ▸ hr
      obtain ⟨_, _, _, rfl⟩ := Tables.step_putRole.1 step'
      rcases Table.mem_insert.1 hr with rfl | ⟨hr, _⟩
      · exact free.draw_ne .role e
      · exact Table.not_contains_iff.1 (free.next .role).role_free r (roles₁ ▸ hr) e
    refine .ite (fun _ => ?_) fun _ => ?_
    · refine .bind (.change sound₃ trivial) fun _ f₄ e₄ sound₄ => ?_
      exact (Mirrors.report _).bind (fun _ => .pure _) f₄ sound₄
    · exact (Mirrors.report _).bind (fun _ => .pure _) f₃ sound₃
  · exact (Mirrors.report _).bind (fun _ => .pure _) f₁ sound₁

end Administration

/-! ## Calls -/

theorem Caller.openScope_mirrors (settings : Settings) (caller : Caller) :
    Mirrors (caller.openScope settings : Transaction σ Scope) (caller.openScope settings) := by
  refine .read fun s h => ?_
  simp only [Caller.warnings_tables h, Caller.scope_tables h]
  exact .bind (.forM fun e => .report e) fun _ => .check _

theorem Caller.openScope_ok {settings : Settings} {caller : Caller} {f f' : Frame Tables}
    {scope : Scope} (h : caller.openScope settings f = (.ok scope, f')) :
    caller.scope settings f.store = .ok scope ∧ ∃ events, f' = { f with events } := by
  simp only [openScope, bind_ok, current_ok, lift_ok, forM_report, Prod.mk.injEq, true_and] at h
  obtain ⟨_, _, ⟨rfl, rfl⟩, _, _, rfl, opened, rfl⟩ := h
  exact ⟨opened, _, rfl⟩

theorem Command.perform_mirrors {f : Frame σ} {settings : Settings} {scope : Scope}
    (command : Command) (sound : Sound f.store) (ht : (tables f.store).Consistent)
    (fresh : f.ids.FreshFor (command.draws settings) (tables f.store)) :
    MirrorsAt f (command.perform settings scope) (command.perform settings scope) := by
  open Administration in
  cases command with
  | bringIn p role => exact (bringIn_mirrors scope p role).bind (fun _ => .pure _) f sound
  | expel p => exact (expel_mirrors scope p).bind (fun _ => .pure _) f sound
  | startInitiative name =>
    exact (startInitiative_mirrors scope sound fresh name).bind fun _ f' _ sound' =>
      Mirrors.pure _ f' sound'
  | defineRole i name isManager =>
    exact (defineRole_mirrors scope sound fresh i name isManager).bind fun _ f' _ sound' =>
      Mirrors.pure _ f' sound'
  | relabelRole r name =>
    exact (relabelRole_mirrors scope sound ht r name).bind fun _ f' _ sound' =>
      Mirrors.pure _ f' sound'
  | empowerRole r isManager =>
    exact (empowerRole_mirrors scope sound ht r isManager).bind fun _ f' _ sound' =>
      Mirrors.pure _ f' sound'
  | retireRole r => exact (retireRole_mirrors scope r).bind (fun _ => .pure _) f sound
  | switchFeature r c enabled =>
    exact (switchFeature_mirrors scope r c enabled).bind (fun _ => .pure _) f sound
  | enrol i p r => exact (enrol_mirrors scope i p r).bind (fun _ => .pure _) f sound
  | reassign i p r => exact (reassign_mirrors scope i p r).bind (fun _ => .pure _) f sound
  | dismiss i p => exact (dismiss_mirrors scope i p).bind (fun _ => .pure _) f sound
  | restoreOwners i => exact (restoreOwners_mirrors scope i).bind (fun _ => .pure _) f sound
  | addResource i kind name =>
    exact (addResource_mirrors scope i kind name).bind (fun _ => .pure _) f sound
  | dropResource r => exact (dropResource_mirrors scope r).bind (fun _ => .pure _) f sound
  | share r p level => exact (share_mirrors scope r p level).bind (fun _ => .pure _) f sound
  | unshare r p => exact (unshare_mirrors scope r p).bind (fun _ => .pure _) f sound
  | shareWithRole r role level =>
    exact (shareWithRole_mirrors scope r role level).bind (fun _ => .pure _) f sound
  | unshareWithRole r role =>
    exact (unshareWithRole_mirrors scope r role).bind (fun _ => .pure _) f sound

theorem Question.perform_mirrors (scope : Scope) (q : Question) :
    Mirrors (q.perform scope : Transaction σ Answer) (q.perform scope) := by
  refine .read fun s h => ?_
  simp only [Question.answer_tables h]
  exact .bind (.forM fun e => .report e) fun _ => .check _

theorem Call.perform_mirrors {f : Frame σ} {settings : Settings} (call : Call)
    (sound : Sound f.store) (ht : (tables f.store).Consistent)
    (fresh : f.ids.FreshFor (call.draws settings) (tables f.store)) :
    MirrorsAt f (call.perform settings) (call.perform settings) := by
  cases call with
  | register name role =>
    exact (Administration.register_mirrors name role).bind (fun _ => .pure _) f sound
  | foundTenant creator name =>
    exact (Administration.foundTenant_mirrors creator name).bind (fun _ => .pure _) f sound
  | request caller r =>
    refine (caller.openScope_mirrors settings f sound).bind fun scope f' opened sound' => ?_
    obtain ⟨_, _, same⟩ := Caller.openScope_ok opened
    have store : tables f'.store = tables f.store := congrArg (fun view : Frame Tables => view.store) same
    have ids : f'.ids = f.ids := congrArg (fun view : Frame Tables => view.ids) same
    cases r with
    | ask q => exact q.perform_mirrors scope f' sound'
    | order command =>
      refine command.perform_mirrors sound' (store ▸ ht) ?_
      rw [store, ids]
      exact fresh

/-- The outcome of a call on a faithful store is that of the call on its tables. -/
structure Outcome.Mirrors {α : Type} (o : Outcome σ α) (o' : Outcome Tables α) : Prop where
  sound : Sound o.store
  store : tables o.store = o'.store
  ids : o.ids = o'.ids
  events : o.events = o'.events
  result : SameResult o.result o'.result

theorem Call.run_mirrors {s : σ} {settings : Settings} (call : Call) {ids : Supply}
    (sound : Sound s) (ht : (tables s).Consistent)
    (fresh : ids.FreshFor (call.draws settings) (tables s)) :
    (call.run settings s ids).Mirrors (call.run settings (tables s) ids) := by
  have mirrored : MirrorsAt (⟨s, ids, []⟩ : Frame σ) (call.perform settings)
      (call.perform settings) := call.perform_mirrors sound ht fresh
  obtain ⟨sound', view, result⟩ := mirrored
  have start : (⟨s, ids, []⟩ : Frame σ).view = ⟨tables s, ids, []⟩ := rfl
  rw [start] at view result
  unfold run commit
  rcases ex : call.perform settings (⟨s, ids, []⟩ : Frame σ) with ⟨_ | a, f⟩ <;>
    rcases ey : call.perform settings (⟨tables s, ids, []⟩ : Frame Tables) with ⟨_ | b, g⟩ <;>
    rw [ex] at sound' view result <;> rw [ey] at view result <;> subst view
  case error.error => exact ⟨sound, rfl, rfl, rfl, result⟩
  case ok.ok => exact ⟨sound', rfl, rfl, rfl, result⟩
  case error.ok => exact absurd (result.ok_iff.2 rfl) (by simp)
  case ok.error => exact absurd (result.ok_iff.1 rfl) (by simp)

end TenantAccess
