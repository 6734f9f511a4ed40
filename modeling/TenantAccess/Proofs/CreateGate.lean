import TenantAccess.Proofs.LastSwitch
import TenantAccess.Proofs.Reading

/-!
# The gate before new resources

Whether a caller may create resources of a kind is what it is told when it asks for the feature that this
takes. Behind the gate nothing fails any more, and the new resource belongs to its creator alone.
-/

namespace TenantAccess

open Store (Faithful Tables)
open Store.Backend (ask)
open Store.Faithful (tables Sound)
open Transaction Table

/-! ## Rows with a new resource -/

namespace Store.Tables

/-- The rows with a new resource that a principal owns. -/
def withOwned (t : Tables) (r : Resource) (p : PrincipalId) : Tables :=
  { t with
    resources := t.resources.insert r
    userGrants := t.userGrants.insert ⟨r.id, p, .owner, r.tenant⟩ }

variable {t : Tables} {r : Resource} {p q : PrincipalId}

section

variable (ht : t.Integrity) (new : t.resources.contains r.id = false)

include ht new

theorem userGrant_elsewhere : ∀ g ∈ t.userGrants, g.resource ≠ r.id := fun g hg e => by
  obtain ⟨there, _⟩ := ht.userGrant g hg
  rw [e, new] at there
  cases there

theorem roleGrant_elsewhere : ∀ g ∈ t.roleGrants, g.resource ≠ r.id := fun g hg e => by
  obtain ⟨there, _⟩ := ht.roleGrant g hg
  rw [e, new] at there
  cases there

theorem ask_userGrants_withOwned :
    Backend.ask (.userGrants r.id) (t.withOwned r p) = [⟨r.id, p, .owner, r.tenant⟩] := by
  refine filter_eq_singleton fun g => ?_
  rw [decide_eq_true_eq, withOwned, mem_insert]
  constructor
  · rintro ⟨rfl | ⟨hg, _⟩, e⟩
    · rfl
    · exact absurd e (userGrant_elsewhere ht new g hg)
  · rintro rfl
    exact ⟨Or.inl rfl, rfl⟩

theorem ask_roleGrants_withOwned :
    Backend.ask (.roleGrants r.id) (t.withOwned r p) = [] := by
  refine List.filter_eq_nil_iff.2 fun g hg => ?_
  rw [decide_eq_true_eq]
  exact roleGrant_elsewhere ht new g hg

/-- No grant but that of the owner gives a level on the new resource. -/
theorem levelOn_withOwned :
    (t.withOwned r p).levelOn r q = if q = p then some .owner else none := by
  have user : (t.withOwned r p).userGrants.find? (r.id, q) =
      if q = p then some ⟨r.id, p, .owner, r.tenant⟩ else none := by
    have old : t.userGrants.find? (r.id, q) = none :=
      find?_eq_none_iff.2 fun g hg e => userGrant_elsewhere ht new g hg (congrArg Prod.fst e)
    rw [withOwned, find?_insert, old]
    simp only [Keyed.key, Prod.mk.injEq, true_and]
  have role : ∀ k, (t.withOwned r p).roleGrants.find? (r.id, k) = none := fun k =>
    find?_eq_none_iff.2 fun g hg e => roleGrant_elsewhere ht new g hg (congrArg Prod.fst e)
  rw [levelOn, user]
  cases (t.withOwned r p).memberships.find? (r.initiative, q) with
  | none => split <;> rfl
  | some m =>
    rw [Option.bind_some, role]
    split <;> rfl

end

end Store.Tables

/-! ## The gate -/

namespace Administration

section

variable {σ : Type} [Store.Backend σ]

/-- Whether the role of a principal lets it create resources of a kind. -/
def mayCreate (scope : Scope) (s : σ) (i : Initiative) (kind : ResourceKind) : Bool :=
  scope.principal.may (Store.heldRole s i.id scope.principal.id) (.toCreate kind)

/-- What is done behind the gate. -/
def enterResource (scope : Scope) (i : Initiative) (kind : ResourceKind) (name : String) :
    Transaction σ Resource := do
  let resource : Resource := ⟨← fresh, kind, i.id, i.tenant, name⟩
  let _ ← change (.addResource resource)
  let _ ← change (.putUserGrant ⟨resource.id, scope.principal.id, .owner, resource.tenant⟩)
  report (.resourceCreated resource.id kind scope.principal.id)
  return resource

variable {f : Frame σ} {s : σ} {scope : Scope} {i : Initiative} {kind : ResourceKind} {name : String}

/-- In an initiative of the active tenant only the gate is left in the way of a good name. -/
theorem addResource_gated (found : scope.findInitiative f.store i.id = .ok i)
    (active : i.tenant = scope.tenant) (form : Naming.checkDisplayName kind.word name = .ok ()) :
    addResource scope i.id kind name f =
      if mayCreate scope f.store i kind then enterResource scope i kind name f
      else (.error (.featureDisabled (.toCreate kind)), f) := by
  have own : scope.needActiveTenant i = .ok () := if_pos (decide_eq_true active)
  simp only [addResource, bind_eq, current, check, liftM, monadLift, MonadLift.monadLift, found, own,
    form, Except.mapError]
  rw [← mayCreate]
  cases mayCreate scope f.store i kind with
  | true => rfl
  | false => rfl

theorem hasFeature_mayCreate (found : scope.findInitiative s i.id = .ok i) :
    scope.hasFeature s i.id (.toCreate kind) = .ok (mayCreate scope s i kind) :=
  Scope.hasFeature_found found

end

theorem enterResource_done {f : Frame Tables} {scope : Scope} {i : Initiative} (kind : ResourceKind)
    (name : String) (ht : f.store.Consistent) (stored : scope.Stored f.store)
    (hi : i ∈ f.store.initiatives) (fresh : f.ids.FreshFor 1 f.store) :
    let r : Resource := ⟨(@Supply.draw .resource f.ids).1, kind, i.id, i.tenant, name⟩
    ∃ f', enterResource scope i kind name f = (.ok r, f') ∧
      f'.store = f.store.withOwned r scope.principal.id ∧ f'.ids = (@Supply.draw .resource f.ids).2 := by
  intro r
  have initiative : f.store.initiatives.contains i.id = true := contains_iff.2 ⟨i, hi, rfl⟩
  have tenant := ht.stored.initiative i hi
  have added : Tables.step (.addResource r) f.store =
      .ok (true, { f.store with resources := f.store.resources.insert r }) :=
    Tables.step_addResource.2 ⟨initiative, tenant, fresh.resource_free, rfl, rfl⟩
  have owned : Tables.step (.putUserGrant ⟨r.id, scope.principal.id, .owner, r.tenant⟩)
      { f.store with resources := f.store.resources.insert r } =
        .ok (true, f.store.withOwned r scope.principal.id) :=
    Tables.step_putUserGrant.2
      ⟨contains_iff.2 ⟨r, mem_insert_self, rfl⟩, stored.principal, rfl, rfl⟩
  refine ⟨⟨f.store.withOwned r scope.principal.id, (@Supply.draw .resource f.ids).2,
    f.events ++ [.resourceCreated r.id kind scope.principal.id]⟩, ?_, rfl, rfl⟩
  simp only [enterResource, bind_ok, fresh_ok, change_ok, report_ok, pure_ok]
  exact ⟨_, _, ⟨rfl, rfl⟩, true, _, ⟨_, added, rfl⟩, true, _, ⟨_, owned, rfl⟩, (), _, rfl, rfl, rfl⟩

end Administration

section

variable {σ : Type} [Store.Backend σ] [Faithful σ]

/-! ## The new resource -/

/-- From the store `s` on, the resource `r` has been created for a caller and nothing else done. -/
structure Caller.Created (settings : Settings) (caller : Caller) (s s' : σ) (r : Resource) : Prop where
  new : ask (.resource r.id) s = none
  rows : tables s' = (tables s).withOwned r caller.principal
  userGrants : ask (.userGrants r.id) s' = [⟨r.id, caller.principal, .owner, r.tenant⟩]
  roleGrants : ask (.roleGrants r.id) s' = []
  owner : ∀ ids, ((Call.request caller (.ask (.level r.id))).run settings s' ids).result =
    .ok (.level (some .owner))
  others : ∀ (settings : Settings) (other : Caller) (scope : Scope) (ids : Supply),
    other.principal ≠ caller.principal → other.scope settings s' = .ok scope →
      scope.sees r.tenant = true →
        ((Call.request other (.ask (.level r.id))).run settings s' ids).result = .ok (.level none)

variable {s s' : σ} {settings : Settings} {caller : Caller} {scope : Scope}

theorem Caller.Created.of_rows {r : Resource} (sound : Sound s) (sound' : Sound s')
    (ht : (tables s).Consistent) (ht' : (tables s').Consistent)
    (new : (tables s).resources.contains r.id = false)
    (rows : tables s' = (tables s).withOwned r caller.principal)
    (opened : caller.scope settings s = .ok scope) (active : r.tenant = caller.tenant) :
    caller.Created settings s s' r := by
  have level (settings : Settings) (other : Caller) (scope : Scope) (ids : Supply)
      (opened : other.scope settings s' = .ok scope) (sees : scope.sees r.tenant = true) :
      ((Call.request other (.ask (.level r.id))).run settings s' ids).result =
        .ok (.level (if other.principal = caller.principal then some .owner else none)) := by
    rw [Call.ask_result, opened, Except.bind, Question.answer_tables sound',
      ← Tables.levelOn_withOwned ht.stored new, ← rows]
    rw [other.scope_tables sound'] at opened
    refine (other.readsAgree ht' opened).level r ?_ ((Caller.sees_iff opened).1 sees)
    rw [rows]
    exact mem_insert_self
  constructor
  case new =>
    rw [Faithful.ask_eq sound]
    exact find?_eq_none_iff.2 (not_contains_iff.1 new)
  case rows => exact rows
  case userGrants =>
    rw [Faithful.ask_eq sound', rows]
    exact Tables.ask_userGrants_withOwned ht.stored new
  case roleGrants =>
    rw [Faithful.ask_eq sound', rows]
    exact Tables.ask_roleGrants_withOwned ht.stored new
  case owner =>
    -- principals and memberships are as they were, and so are all scopes
    have opened' : caller.scope settings s' = .ok scope := by
      rw [← opened, caller.scope_tables sound, caller.scope_tables sound', rows]
      rfl
    have sees : scope.sees r.tenant = true := by
      rw [caller.scope_tables sound] at opened
      obtain ⟨_, _, _, tenant, _⟩ := Caller.scope_eq_ok opened
      have here : InTenant.tenant r = scope.tenant := active.trans tenant.symm
      exact Scope.reaches_own here
    intro ids
    rw [level settings caller scope ids opened' sees, if_pos rfl]
  case others =>
    intro settings other scope ids apart opened sees
    rw [level settings other scope ids opened sees, if_neg apart]

end

namespace Reachable

variable {σ : Type} [Store.Backend σ] [Faithful σ] {s : σ} {settings : Settings} {caller : Caller}
  {scope : Scope} {i : Initiative} {kind : ResourceKind} {name : String} {ids : Supply}

/-- A command that succeeds on the tables, whatever was reported before it, succeeds on the store. -/
theorem order_done (h : Reachable s) (opened : caller.scope settings s = .ok scope) {command : Command}
    (fresh : ids.FreshFor (command.draws settings) (tables s)) {answer : Answer} {t : Tables}
    (done : ∀ events, ∃ f', command.perform settings scope ⟨tables s, ids, events⟩ = (.ok answer, f') ∧
      f'.store = t) :
    ((Call.request caller (.order command)).run settings s ids).result = .ok answer ∧
      tables ((Call.request caller (.order command)).run settings s ids).store = t := by
  rw [caller.scope_tables h.sound] at opened
  -- opening the scope may have reported something, which is why `done` is about any events
  obtain ⟨events, opens⟩ := caller.openScope_eq settings (⟨tables s, ids, []⟩ : Frame Tables)
  obtain ⟨f', performed, store⟩ := done events
  have out : (Call.request caller (.order command)).run settings (tables s) ids =
      ⟨.ok answer, f'.store, f'.ids, f'.events⟩ := by
    simp only [Call.run, commit, Call.perform, Request.perform, bind_eq, opens, opened, performed]
  have mirrors : ((Call.request caller (.order command)).run settings s ids).Mirrors
      ((Call.request caller (.order command)).run settings (tables s) ids) := h.run_mirrors fresh
  rw [out] at mirrors
  exact ⟨mirrors.result.ok_iff.2 rfl, mirrors.store.trans store⟩

theorem addResource_created (h : Reachable s) (opened : caller.scope settings s = .ok scope)
    (found : scope.findInitiative s i.id = .ok i) (active : i.tenant = caller.tenant)
    (form : Naming.checkDisplayName kind.word name = .ok ()) (fresh : ids.FreshFor 1 (tables s))
    (allowed : Administration.mayCreate scope s i kind = true) :
    let r : Resource := ⟨(@Supply.draw .resource ids).1, kind, i.id, i.tenant, name⟩
    let create := (Call.request caller (.order (.addResource i.id kind name))).run settings s ids
    create.result = .ok (.resource r) ∧ caller.Created settings s create.store r := by
  intro r create
  have entered : caller.scope settings (tables s) = .ok scope := by
    rw [← opened, caller.scope_tables h.sound]
  obtain ⟨_, _, _, tenant, _⟩ := Caller.scope_eq_ok entered
  have found : scope.findInitiative (tables s) i.id = .ok i := scope.findInitiative_tables h.sound ▸ found
  have allowed : Administration.mayCreate scope (tables s) i kind = true := by
    rw [← allowed, Administration.mayCreate, Administration.mayCreate, Store.heldRole_tables h.sound]
  obtain ⟨hi, _⟩ := find?_eq_some_iff.1 (Scope.findInitiative_eq_ok.1 found).1
  have performed (events : List Event) : ∃ f', (Command.addResource i.id kind name).perform settings scope
      ⟨tables s, ids, events⟩ = (.ok (.resource r), f') ∧
        f'.store = (tables s).withOwned r scope.principal.id := by
    obtain ⟨f', done, store, _⟩ := Administration.enterResource_done (f := ⟨tables s, ids, events⟩) kind name
      h.consistent (Caller.scope_stored entered) hi fresh
    refine ⟨f', return_ok.2 ⟨r, ?_, rfl⟩, store⟩
    rw [Administration.addResource_gated found (active.trans tenant.symm) form, if_pos allowed, done]
  obtain ⟨result, rows⟩ := h.order_done opened fresh performed
  rw [Caller.scope_principal entered] at rows
  have after : Reachable create.store := h.call settings _ fresh
  exact ⟨result, .of_rows h.sound after.sound h.consistent after.consistent fresh.resource_free rows
    opened active⟩

/-- The gate that a caller is told of is the one that stands before the resources of an initiative of its
tenant: it creates one of some kind just if it has the feature that this takes, fails for the lack of it
otherwise and then leaves the store as it was. A new resource belongs to the caller alone. -/
theorem create_gate_enforced (h : Reachable s) (opened : caller.scope settings s = .ok scope)
    (there : ask (.initiative i.id) s = some i) (active : i.tenant = caller.tenant)
    (form : Naming.checkDisplayName kind.word name = .ok ()) (fresh : ids.FreshFor 1 (tables s))
    (ids' : Supply) :
    let create := (Call.request caller (.order (.addResource i.id kind name))).run settings s ids
    let check := (Call.request caller (.ask (.feature i.id (.toCreate kind)))).run settings s ids'
    ((∃ answer, create.result = .ok answer) ↔ check.result = .ok (.flag true)) ∧
      (check.result ≠ .ok (.flag true) →
        create.result = .error (.featureDisabled (.toCreate kind)) ∧ create.store = s) ∧
      ∀ answer, create.result = .ok answer → ∃ r : Resource, answer = .resource r ∧
        r = ⟨(@Supply.draw .resource ids).1, kind, i.id, i.tenant, name⟩ ∧
        caller.Created settings s create.store r := by
  intro create check
  have tenant : scope.tenant = caller.tenant := by
    rw [caller.scope_tables h.sound] at opened
    obtain ⟨_, _, _, tenant, _⟩ := Caller.scope_eq_ok opened
    exact tenant
  have active' : i.tenant = scope.tenant := active.trans tenant.symm
  have sees : scope.reaches i = true := Scope.reaches_own active'
  have found : scope.findInitiative s i.id = .ok i :=
    lift_refusal_eq_ok.2 (Scope.disclose_eq_ok.2 ⟨there, sees⟩)
  have told : check.result = .ok (.flag (Administration.mayCreate scope s i kind)) := by
    simp only [check, Call.ask_result, opened, Except.bind, Question.answer,
      Administration.hasFeature_mayCreate found]
    rfl
  rw [told]
  cases gate : Administration.mayCreate scope s i kind with
  | true =>
    obtain ⟨result, created⟩ := h.addResource_created opened found active form fresh gate
    refine ⟨iff_of_true ⟨_, result⟩ rfl, fun shut => absurd rfl shut, fun answer done => ?_⟩
    exact ⟨_, (Except.ok.inj (result.symm.trans done)).symm, rfl, created⟩
  | false =>
    have refused : create.result = .error (.featureDisabled (.toCreate kind)) := by
      have gated := Administration.addResource_gated (f := ⟨s, ids, []⟩) found active' form
      rw [gate, if_neg Bool.false_ne_true] at gated
      simp only [create, Call.request_result, opened, Except.bind, Request.perform, Command.perform,
        bind_eq, gated]
    refine ⟨iff_of_false ?_ ?_, fun _ => ⟨refused, commit_error refused⟩, ?_⟩
    · rintro ⟨answer, done⟩
      cases refused.symm.trans done
    · intro open'
      cases open'
    · intro answer done
      cases refused.symm.trans done

/-- Such as a founder that creates a document beside its project. -/
theorem create_gate_enforced_founding :
    let founded : Store.Database :=
      (Call.runAll default (Call.founding 0 "ada" "acme") Store.Backend.empty .empty).1
    let ada : Caller := ⟨Supply.numberedId 0, .member, Supply.numberedId 1, .activeTenant⟩
    let launch : Initiative := ⟨Supply.numberedId 2, ada.tenant, "launch"⟩
    let create : Call := .request ada (.order (.addResource launch.id .document "notes"))
    let notes : Resource := ⟨Supply.numberedId 6, .document, launch.id, launch.tenant, "notes"⟩
    (create.run default founded ⟨[], 6⟩).result = .ok (.resource notes) ∧
      ada.Created default founded (create.run default founded ⟨[], 6⟩).store notes := by
  intro founded ada launch create notes
  have reachable : Reachable founded := of_runAll (by decide +kernel)
  obtain ⟨scope, opened⟩ := exists_of_isOk
    (show (ada.scope default founded).isOk = true by decide +kernel)
  have there : ask (.initiative launch.id) founded = some launch := by decide +kernel
  have form : Naming.checkDisplayName ResourceKind.document.word "notes" = .ok () := by decide +kernel
  have fresh : Supply.FreshFor ⟨[], 6⟩ 1 (tables founded) := by decide +kernel
  obtain ⟨exact, _, created⟩ := reachable.create_gate_enforced opened there rfl form fresh .empty
  have told : ((Call.request ada (.ask (.feature launch.id (.toCreate .document)))).run default founded
      .empty).result = .ok (.flag true) := by rfl
  obtain ⟨answer, done⟩ := exact.2 told
  obtain ⟨_, rfl, rfl, rows⟩ := created answer done
  exact ⟨done, rows⟩

end Reachable

end TenantAccess
