import TenantAccess.Proofs.Isolation
import TenantAccess.Proofs.Store.Removal

/-!
# Rows out of sight are like missing ones

A command that names a row out of sight of its caller fails like the same command where there is no such
row. Only a role that a member shall hold, or that a level shall be granted to, is looked up wherever it
lies, and one of another tenant is told apart from a missing one.
-/

namespace TenantAccess

open Store (Faithful Tables Target)
open Store.Faithful (tables Sound)
open Transaction Table

/-! ## What a command names -/

namespace Command

/-- The row that a command is about. -/
def subject : Command → Option Target
  | bringIn .. | expel _ | startInitiative _ => none
  | defineRole i .. | enrol i .. | reassign i .. | dismiss i _ | restoreOwners i | addResource i .. =>
    some (.initiative i)
  | relabelRole r _ | empowerRole r _ | retireRole r | switchFeature r .. => some (.role r)
  | dropResource x | share x .. | unshare x _ | shareWithRole x .. | unshareWithRole x _ =>
    some (.resource x)

/-- The role that a command names besides. -/
def otherRole : Command → Option RoleId
  | enrol _ _ r | reassign _ _ r | shareWithRole _ r _ | unshareWithRole _ r => some r
  | _ => none

/-- The rows that the arguments of a command name. -/
def targets (command : Command) : List Target :=
  command.subject.toList ++ (command.otherRole.map Target.role).toList

/-- The refusals that tell of a role in another initiative. -/
inductive TellsOf (t : Tables) (role : Role) : Command → String → Prop
  | enrol (i : InitiativeId) (p : PrincipalId) :
    TellsOf t role (.enrol i p role.id) s!"role {role.id} does not belong to initiative {i}"
  | reassign (i : InitiativeId) (p : PrincipalId) :
    TellsOf t role (.reassign i p role.id) s!"role {role.id} does not belong to initiative {i}"
  | shareWithRole {x : Resource} (stored : x ∈ t.resources) (level : Level) :
    TellsOf t role (.shareWithRole x.id role.id level)
      s!"role {role.id} belongs to initiative {role.initiative}, resource {x.id} to initiative {x.initiative}"

end Command

/-! ## Results that are the same or a refusal -/

namespace Transaction

variable {σ α β : Type} {f : Frame σ} {e : Failure}

theorem bind_error {x : Transaction σ α} {g : α → Transaction σ β} (h : (x f).1 = .error e) :
    ((x >>= g) f).1 = .error e := by
  rw [bind_eq]
  rcases hx : x f with ⟨_ | _, _⟩ <;> rw [hx] at h
  · exact congrArg _ (Except.error.inj h)
  · cases h

theorem read_error {x : σ → Except Failure α} {g : σ → α → Transaction σ β}
    (h : x f.store = .error e) : ((current >>= fun s => check (x s) >>= g s) f).1 = .error e :=
  bind_error (x := check (x f.store)) (g := g f.store) h

end Transaction

/-- The same result, or a reason for the first that tells of a role and the second not finding it. -/
def AgreeUnless {α : Type} (telling : String → Prop) (role : RoleId) (a b : Except Failure α) : Prop :=
  a = b ∨ ∃ reason, telling reason ∧ a = .error (.invalidReference reason) ∧
    b = .error (.notFound s!"role {role}")

namespace AgreeUnless

variable {σ σ' α β : Type} {f : Frame σ} {f' : Frame σ'} {telling : String → Prop} {role : RoleId}

theorem check {x x' : Except Failure α} {g : α → Transaction σ β} {g' : α → Transaction σ' β}
    (same : x = x') (h : ∀ a, x = .ok a → AgreeUnless telling role (g a f).1 (g' a f').1) :
    AgreeUnless telling role ((check x >>= g) f).1 ((Transaction.check x' >>= g') f').1 := by
  subst same
  cases x with
  | error e => exact Or.inl rfl
  | ok a => exact h a rfl

theorem read {x : σ → Except Failure α} {x' : σ' → Except Failure α} {g : σ → α → Transaction σ β}
    {g' : σ' → α → Transaction σ' β} (same : x f.store = x' f'.store)
    (h : ∀ a, x f.store = .ok a →
      AgreeUnless telling role (g f.store a f).1 (g' f'.store a f').1) :
    AgreeUnless telling role ((current >>= fun s => Transaction.check (x s) >>= g s) f).1
      ((current >>= fun s => Transaction.check (x' s) >>= g' s) f').1 :=
  check (g := g f.store) same h

theorem answer {x : Transaction σ α} {y : Transaction σ' α} {g : α → Answer}
    (h : AgreeUnless telling role (x f).1 (y f').1) :
    AgreeUnless telling role ((do return g (← x) : Transaction σ Answer) f).1
      ((do return g (← y) : Transaction σ' Answer) f').1 := by
  rcases h with h | ⟨reason, telling, h, h'⟩
  · refine Or.inl ?_
    simp only [bind_eq]
    rcases hx : x f with ⟨_ | _, _⟩ <;> rcases hy : y f' with ⟨_ | _, _⟩ <;> rw [hx, hy] at h <;>
      cases h <;> rfl
  · exact Or.inr ⟨reason, telling, bind_error h, bind_error h'⟩

end AgreeUnless

/-! ## Rows out of sight -/

namespace Scope

variable {scope : Scope} {t t' : Tables}

/-- The scope does not see the row, if there is one. -/
def Misses (scope : Scope) (t : Tables) (target : Target) : Prop :=
  ∀ u, t.homeOf target = some u → scope.sees u = false

theorem findInitiative_missed {id : InitiativeId} (h : scope.Misses t (.initiative id)) :
    scope.findInitiative t id = .error (.notFound s!"initiative {id}") := by
  have hidden : ∀ i, t.initiatives.find? id = some i → scope.reaches i = false :=
    fun i found => h i.tenant (Tables.tenantOf_found found)
  rw [findInitiative, ask_initiative, disclose_missed hidden]
  rfl

theorem managedInitiative_missed {id : InitiativeId} (h : scope.Misses t (.initiative id)) :
    scope.managedInitiative t id = .error (.notFound s!"initiative {id}") := by
  rw [managedInitiative, findInitiative_missed h]
  rfl

theorem managedRole_missed {id : RoleId} (h : scope.Misses t (.role id)) :
    scope.managedRole t id = .error (.notFound s!"role {id}") := by
  rw [managedRole, ask_role]
  cases found : t.roles.find? id with
  | none => rfl
  | some role =>
    have hidden : ∀ i, t.initiatives.find? role.initiative = some i → scope.reaches i = false :=
      fun i found' => h i.tenant (by
        rw [Tables.homeOf, found, Option.bind_some, Tables.tenantOf_found found'])
    simp only [TenantAccess.found, bind, Except.bind, ask_initiative, disclose_missed hidden]
    rfl

theorem levelAtLeast_missed {id : ResourceId} (h : scope.Misses t (.resource id)) (minimum : Level) :
    scope.levelAtLeast t id minimum = .error (.notFound s!"resource {id}") := by
  have hidden : ∀ x, t.resources.find? id = some x → scope.reaches x = false :=
    fun x found => h x.tenant (by rw [Tables.homeOf, found, Option.map_some])
  rw [levelAtLeast, findResource_missed hidden]
  rfl

end Scope

/-- A command about a row out of sight fails in the way of a command about a row that is not there. -/
theorem Command.perform_missed {σ : Type} [Store.Backend σ] [Faithful σ] {f : Frame σ}
    {settings : Settings} {scope : Scope} {target : Target} {command : Command} (sound : Sound f.store)
    (about : command.subject = some target) (missed : scope.Misses (tables f.store) target) :
    (command.perform settings scope f).1 = .error (.notFound target.text) := by
  cases command <;> cases about
  case defineRole | enrol | reassign | restoreOwners =>
    refine bind_error (read_error ?_)
    rw [Scope.managedInitiative_tables sound]
    exact Scope.managedInitiative_missed missed
  case dismiss | addResource =>
    refine bind_error (read_error ?_)
    rw [Scope.findInitiative_tables sound]
    exact Scope.findInitiative_missed missed
  case relabelRole | empowerRole | retireRole | switchFeature =>
    refine bind_error (read_error ?_)
    rw [Scope.managedRole_tables sound]
    exact Scope.managedRole_missed missed
  case dropResource | share | unshare | shareWithRole | unshareWithRole =>
    refine bind_error (read_error ?_)
    rw [Scope.levelAtLeast_tables sound]
    exact Scope.levelAtLeast_missed missed .owner

namespace Scope

variable {scope : Scope} {t t' : Tables} {target : Target}

theorem SameInSight.managedInitiative (same : scope.SameInSight t t') (ht : t.Consistent)
    (ht' : t'.Consistent) (id : InitiativeId) :
    scope.managedInitiative t id = scope.managedInitiative t' id := by
  simp only [Scope.managedInitiative, ← same.findInitiative]
  cases found : scope.findInitiative t id with
  | error e => rfl
  | ok i =>
    obtain ⟨sees, hi⟩ := findInitiative_tenantOf found
    have manager : scope.isManagerOf t i.id = scope.isManagerOf t' i.id := by
      simp only [isManagerOf, same.heldRole ht ht' sees hi]
    simp only [bind, Except.bind, needManager, manager]

/-- Where a row out of sight is removed, what is in sight stays the same. -/
theorem Misses.sameInSight (missed : scope.Misses t target) (ht : t.Consistent) :
    scope.SameInSight t (t.without target) := by
  refine fun u sees => (ht.part_without fun home => ?_).symm
  rw [missed u home] at sees
  cases sees

end Scope

variable {σ σ' : Type} [Store.Backend σ] [Faithful σ] [Store.Backend σ'] [Faithful σ']

/-! ## A scope without the role -/

/-- Of two stores the second is the first without a role that the scope does not see. -/
structure Scope.LosesUnseen (scope : Scope) (role : Role) (s : σ) (s' : σ') : Prop where
  sound : Sound s
  sound' : Sound s'
  consistent : (tables s).Consistent
  stored : role ∈ (tables s).roles
  missed : scope.Misses (tables s) (.role role.id)
  gone : tables s' = (tables s).without (.role role.id)

namespace Scope.LosesUnseen

open Administration

variable {s : σ} {s' : σ'} {scope : Scope} {role : Role} (h : scope.LosesUnseen role s s')

include h

theorem sameInSight : scope.SameInSight (tables s) (tables s') :=
  h.gone ▸ h.missed.sameInSight h.consistent

theorem consistent' : (tables s').Consistent := h.gone ▸ h.consistent.without _

theorem managedInitiative (i : InitiativeId) :
    scope.managedInitiative s i = scope.managedInitiative s' i := by
  rw [managedInitiative_tables h.sound, managedInitiative_tables h.sound']
  exact h.sameInSight.managedInitiative h.consistent h.consistent' i

theorem levelAtLeast (x : ResourceId) (minimum : Level) :
    scope.levelAtLeast s x minimum = scope.levelAtLeast s' x minimum := by
  rw [levelAtLeast_tables h.sound, levelAtLeast_tables h.sound']
  exact h.sameInSight.levelAtLeast h.consistent h.consistent' x minimum

theorem knownPrincipal (p : PrincipalId) :
    Administration.knownPrincipal s p = Administration.knownPrincipal s' p := by
  rw [knownPrincipal_tables h.sound, knownPrincipal_tables h.sound', h.gone]
  rfl

theorem needTenantMember (u : TenantId) (p : PrincipalId) :
    Administration.needTenantMember s u p = Administration.needTenantMember s' u p := by
  rw [needTenantMember_tables h.sound, needTenantMember_tables h.sound', h.gone]
  rfl

/-- The role belongs to no initiative in sight. -/
theorem elsewhere {i : InitiativeId} {u : TenantId} (sees : scope.sees u = true)
    (hi : (tables s).tenantOf i = some u) : role.initiative ≠ i := by
  rintro rfl
  have found : (tables s).roles.find? role.id = some role := find?_eq_some_iff.2 ⟨h.stored, rfl⟩
  have hidden := h.missed u (by rw [Tables.homeOf, found, Option.bind_some, hi])
  rw [hidden] at sees
  cases sees

theorem managed_elsewhere {i : InitiativeId} {initiative : Initiative}
    (managed : scope.managedInitiative s i = .ok initiative) : initiative.id = i ∧
      scope.sees initiative.tenant = true ∧
      (tables s).tenantOf initiative.id = some initiative.tenant ∧ role.initiative ≠ initiative.id := by
  rw [managedInitiative_tables h.sound, managedInitiative_eq_ok] at managed
  obtain ⟨row, sees, _⟩ := managed
  obtain rfl : initiative.id = i := (find?_eq_some_iff.1 row).2
  have home := Tables.tenantOf_found row
  exact ⟨rfl, sees, home, h.elsewhere sees home⟩

theorem owned_elsewhere {x : ResourceId} {acl : Acl} {held : Level}
    (owned : scope.levelAtLeast s x .owner = .ok (acl, held)) :
    acl.resource ∈ (tables s).resources ∧ acl.resource.id = x ∧
      acl = (tables s).acl acl.resource ∧ role.initiative ≠ acl.resource.initiative := by
  rw [levelAtLeast_tables h.sound] at owned
  obtain ⟨stored, e, tenant, list⟩ := owned_resource owned
  have sees : scope.sees acl.resource.tenant = true := by simp [sees, tenant]
  exact ⟨stored, e, list, h.elsewhere sees (h.consistent.tenantOf_resource stored)⟩

theorem found : Store.Backend.ask (.role role.id) s = some role := by
  rw [Store.ask_tables h.sound]
  exact find?_eq_some_iff.2 ⟨h.stored, rfl⟩

theorem missing : Store.Backend.ask (.role role.id) s' = none := by
  rw [Store.ask_tables h.sound', h.gone]
  exact find?_eq_none_iff.2 fun r hr e => (Tables.mem_roles_without.1 hr).2.1 (congrArg _ e.symm)

theorem roleIn {i : Initiative} (apart : role.initiative ≠ i.id) :
    Administration.roleIn s i role.id =
        .error (.invalidReference s!"role {role.id} does not belong to initiative {i.id}") ∧
      Administration.roleIn s' i role.id = .error (.notFound s!"role {role.id}") := by
  constructor
  · rw [Administration.roleIn, h.found]
    simp only [TenantAccess.found, bind, Except.bind, Role.checkIn, if_neg apart]
    rfl
  · rw [Administration.roleIn, h.missing]
    rfl

end Scope.LosesUnseen

/-! ## Commands that name a role -/

namespace Administration

variable {f : Frame σ} {f' : Frame σ'} {scope : Scope} {role : Role}
  (h : scope.LosesUnseen role f.store f'.store)

include h

theorem enrol_alike (i : InitiativeId) (p : PrincipalId) :
    AgreeUnless (Command.TellsOf (tables f.store) role (.enrol i p role.id)) role.id
      (enrol scope i p role.id f).1 (enrol scope i p role.id f').1 := by
  refine .read (h.managedInitiative i) fun (initiative : Initiative) managed => ?_
  refine .check (h.knownPrincipal p) fun _ _ => .check (h.needTenantMember _ p) fun _ _ => ?_
  obtain ⟨rfl, _, _, apart⟩ := h.managed_elsewhere managed
  obtain ⟨told, missing⟩ := h.roleIn apart
  exact Or.inr ⟨_, .enrol _ p, bind_error told, bind_error missing⟩

theorem reassign_alike (i : InitiativeId) (p : PrincipalId) :
    AgreeUnless (Command.TellsOf (tables f.store) role (.reassign i p role.id)) role.id
      (reassign scope i p role.id f).1 (reassign scope i p role.id f').1 := by
  refine .read (h.managedInitiative i) fun (initiative : Initiative) managed => ?_
  obtain ⟨rfl, sees, home, apart⟩ := h.managed_elsewhere managed
  have member : Store.Backend.ask (.membership initiative.id p) f.store =
      Store.Backend.ask (.membership initiative.id p) f'.store := by
    rw [Store.ask_tables h.sound, Store.ask_tables h.sound']
    exact h.sameInSight.membership sees home p
  refine .check (by rw [member]) fun _ _ => ?_
  obtain ⟨told, missing⟩ := h.roleIn apart
  exact Or.inr ⟨_, .reassign _ p, bind_error told, bind_error missing⟩

theorem shareWithRole_alike (x : ResourceId) (level : Level) :
    AgreeUnless (Command.TellsOf (tables f.store) role (.shareWithRole x role.id level)) role.id
      (shareWithRole scope x role.id level f).1 (shareWithRole scope x role.id level f').1 := by
  refine .read (h.levelAtLeast x .owner) fun (entry : Acl × Level) owned => ?_
  obtain ⟨stored, rfl, _, apart⟩ := h.owned_elsewhere owned
  have told : (liftM (role.checkOn entry.1.resource) : Except Failure Unit) =
      .error (.invalidReference s!"role {role.id} belongs to initiative {role.initiative}, resource {entry.1.resource.id} to initiative {entry.1.resource.initiative}") := by
    rw [Role.checkOn, if_neg apart]
    rfl
  refine Or.inr ⟨_, .shareWithRole stored level, ?_, ?_⟩
  · rw [h.found]
    exact bind_error (x := check (liftM (role.checkOn entry.1.resource))) told
  · rw [h.missing]
    rfl

theorem unshareWithRole_alike (x : ResourceId) :
    AgreeUnless (Command.TellsOf (tables f.store) role (.unshareWithRole x role.id)) role.id
      (unshareWithRole scope x role.id f).1 (unshareWithRole scope x role.id f').1 := by
  refine .read (h.levelAtLeast x .owner) fun (entry : Acl × Level) owned => ?_
  obtain ⟨stored, rfl, list, apart⟩ := h.owned_elsewhere owned
  have none : entry.1.levelOfRole? role.id = none := by
    rw [list, Store.Tables.levelOfRole?_acl, Option.map_eq_none_iff, find?_eq_none_iff]
    intro g hg e
    obtain ⟨ex, er⟩ := Prod.mk.inj e
    exact apart ((h.consistent.aligned.roleGrant g hg _ stored ex.symm).2 role h.stored er.symm)
  refine Or.inl ?_
  simp only [none]
  rfl

end Administration

theorem Command.perform_alike {f : Frame σ} {f' : Frame σ'} {settings : Settings} {scope : Scope}
    {role : Role} {command : Command} (h : scope.LosesUnseen role f.store f'.store)
    (named : command.otherRole = some role.id) :
    AgreeUnless (command.TellsOf (tables f.store) role) role.id (command.perform settings scope f).1
      (command.perform settings scope f').1 := by
  cases command <;> cases named
  case enrol i p => exact (Administration.enrol_alike h i p).answer
  case reassign i p => exact (Administration.reassign_alike h i p).answer
  case shareWithRole x level => exact (Administration.shareWithRole_alike h x level).answer
  case unshareWithRole x => exact (Administration.unshareWithRole_alike h x).answer

/-! ## What the caller is told -/

/-- The status and the text of a failure. -/
def Outcome.refusal {σ α : Type} (out : Outcome σ α) : Option (Nat × String) :=
  match out.result with
  | .ok _ => none
  | .error e => some (e.status, e.message)

namespace Reachable

/-- A command that names a row which its caller does not see gives what it gives where the row and all
that depends on it are missing. The exception is a role out of sight that a member shall hold or that a
level shall be granted to: it is refused as one of another initiative, not as one that is missing. -/
theorem unseen_like_missing {s : σ} {s' : σ'} (h : Reachable s) (sound' : Sound s')
    {settings : Settings} {caller : Caller} {command : Command} {target : Target} {scope : Scope}
    {u : TenantId} (gone : tables s' = (tables s).without target)
    (opened : caller.scope settings s = .ok scope) (named : target ∈ command.targets)
    (home : (tables s).homeOf target = some u) (hidden : scope.sees u = false) (ids : Supply) :
    let result := ((Call.request caller (.order command)).run settings s ids).result
    let without := ((Call.request caller (.order command)).run settings s' ids).result
    result = without ∨ ∃ role ∈ (tables s).roles, ∃ reason, target = .role role.id ∧
      command.TellsOf (tables s) role reason ∧ result = .error (.invalidReference reason) ∧
      without = .error (.notFound target.text) := by
  have missed : scope.Misses (tables s) target := by
    intro v hv
    rwa [Option.some.inj (hv.symm.trans home)]
  have opened' : caller.scope settings s' = .ok scope := by
    rw [caller.scope_tables h.sound] at opened
    rw [caller.scope_tables sound', gone]
    exact opened
  simp only [Call.request_result, opened, opened', Except.bind, Request.perform]
  -- the row is the one that the command is about, or the role that it names besides
  rcases List.mem_append.1 named with about | besides
  · rw [Option.mem_toList] at about
    have missed' : scope.Misses (tables s') target := by
      rw [gone]
      intro v hv
      rw [Tables.homeOf_without] at hv
      cases hv
    exact Or.inl ((Command.perform_missed h.sound about missed).trans
      (Command.perform_missed sound' about missed').symm)
  · rw [Option.mem_toList, Option.map_eq_some_iff] at besides
    obtain ⟨r, other, rfl⟩ := besides
    obtain ⟨role, found, _⟩ := Option.bind_eq_some_iff.1 home
    obtain ⟨stored, rfl⟩ := find?_eq_some_iff.1 found
    have loses : scope.LosesUnseen role s s' := ⟨h.sound, sound', h.consistent, stored, missed, gone⟩
    have alike : AgreeUnless (command.TellsOf (tables s) role) role.id
        (command.perform settings scope ⟨s, ids, []⟩).1
        (command.perform settings scope ⟨s', ids, []⟩).1 := Command.perform_alike loses other
    refine alike.imp_right ?_
    rintro ⟨reason, tells, told, missing⟩
    exact ⟨role, stored, reason, rfl, tells, told, missing⟩

/-- The founder of a tenant gets the same refusal for the project of another tenant as without it. -/
theorem unseen_like_missing_project :
    let both : Store.Database := (Call.runAll default Call.foundingTwo Store.Backend.empty .empty).1
    let lone : Tables := (tables both).without (.resource (Supply.numberedId 11))
    let drop : Call := .request ⟨Supply.numberedId 0, .member, Supply.numberedId 1, .global⟩
      (.order (.dropResource (Supply.numberedId 11)))
    (drop.run default both .empty).result = (drop.run default lone .empty).result := by
  intro both lone drop
  have reachable : Reachable both := of_runAll (by decide +kernel)
  have home : (tables both).homeOf (.resource (Supply.numberedId 11)) =
      some (Supply.numberedId 7) := by decide +kernel
  obtain ⟨scope, opened, hidden⟩ := exists_of_toOption_map
    (x := Caller.scope default ⟨Supply.numberedId 0, .member, Supply.numberedId 1, .global⟩ both)
    (g := fun scope => scope.sees (Supply.numberedId 7)) (b := false) (by decide +kernel)
  have sound : Sound lone := trivial
  refine (reachable.unseen_like_missing sound rfl opened List.mem_cons_self home hidden
    .empty).resolve_right ?_
  rintro ⟨_, _, _, e, _⟩
  cases e

/-- The founder of a tenant that tries to hold the role of another tenant is told something else than
if there were no such role. -/
theorem unseen_role_told_apart :
    let both : Tables := (Call.runAll default Call.foundingTwo .empty .empty).1
    let role : RoleId := Supply.numberedId 9
    let initiative : InitiativeId := Supply.numberedId 2
    let caller : Caller := ⟨Supply.numberedId 0, .member, Supply.numberedId 1, .activeTenant⟩
    let enrol : Call := .request caller (.order (.enrol initiative caller.principal role))
    Reachable both ∧ both.homeOf (.role role) = some (Supply.numberedId 7) ∧
      (∃ scope, caller.scope default both = .ok scope ∧ scope.isPlatformAdmin = false ∧
        scope.sees (Supply.numberedId 7) = false) ∧
      (enrol.run default both .empty).refusal =
        some (422, s!"invalid reference: role {role} does not belong to initiative {initiative}") ∧
      (enrol.run default (both.without (.role role)) .empty).refusal =
        some (404, s!"not found: role {role}") := by
  intro both role initiative caller enrol
  obtain ⟨scope, opened, seen⟩ := exists_of_toOption_map (x := caller.scope default both)
    (g := fun scope => (scope.isPlatformAdmin, scope.sees (Supply.numberedId 7)))
    (b := (false, false)) (by decide +kernel)
  obtain ⟨ordinary, hidden⟩ := Prod.mk.inj seen
  exact ⟨of_runAll (by decide +kernel), by decide +kernel, ⟨scope, opened, ordinary, hidden⟩,
    by decide +kernel, by decide +kernel⟩

end Reachable

end TenantAccess
