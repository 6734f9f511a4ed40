import TenantAccess.Proofs.Reachable
import TenantAccess.Proofs.Reporting
import TenantAccess.Proofs.Sight

/-!
# Tenants are isolated from each other

What an ordinary caller reads depends only on its own rows and on the tenants that it observes, and
what any caller changes lies in the tenant that it acts in.
-/

namespace TenantAccess

open Store (Faithful Tables)
open Store.Faithful (tables)
open Transaction Table

/-! ## Scopes -/

namespace Scope

variable {scope : Scope} {principal : Principal} {tenant u : TenantId} {l : List TenantMembership}
  {reach : Reach}

/-- A scope is that of a member of the tenant or of an administrator of the platform. -/
theorem enter_eq_ok (h : enter principal tenant l reach = .ok scope) :
    scope.principal = principal ∧ scope.tenant = tenant ∧ scope.reach = reach ∧
      (scope.ownTenants.contains u = true ↔
        ∃ m ∈ l, m.principal = principal.id ∧ m.tenant = u) ∧
      (principal.isPlatformAdmin = false →
        ∃ m ∈ l, m.principal = principal.id ∧ m.tenant = tenant) := by
  simp only [enter] at h
  split at h
  · cases h
  · rename_i entered
    obtain rfl := Except.ok.inj h
    refine ⟨rfl, rfl, rfl, ?_, fun ordinary => ?_⟩
    · rw [contains_iff]
      simp only [mem_ofList_of_injective (fun a b : TenantId => id), List.mem_map, List.mem_filter,
        decide_eq_true_eq, and_assoc]
      constructor
      · rintro ⟨_, ⟨m, hm, hp, rfl⟩, e⟩
        exact ⟨m, hm, hp, e⟩
      · rintro ⟨m, hm, hp, rfl⟩
        exact ⟨m.tenant, ⟨m, hm, hp, rfl⟩, rfl⟩
    · rw [ordinary] at entered
      simp only [Option.isNone_map, Bool.not_false, Bool.and_true, Bool.not_eq_true,
        Option.isNone_eq_false_iff, List.find?_isSome, List.mem_filter, decide_eq_true_eq] at entered
      obtain ⟨m, ⟨hm, hp⟩, e⟩ := entered
      exact ⟨m, hm, hp, e⟩

theorem enter_stranger (ordinary : principal.isPlatformAdmin = false)
    (stranger : ∀ m ∈ l, m.principal = principal.id → m.tenant ≠ tenant) :
    enter principal tenant l reach = .error (.notFound s!"tenant {tenant}") := by
  cases h : enter principal tenant l reach with
  | error e =>
    simp only [enter] at h
    split at h
    · exact h.symm
    · cases h
  | ok scope =>
    obtain ⟨m, hm, hp, e⟩ := (enter_eq_ok (u := tenant) h).2.2.2.2 ordinary
    exact absurd e (stranger m hm hp)

theorem enter_opens (reach : Reach) (h : principal.isPlatformAdmin = true ∨
    ∃ m ∈ l, m.principal = principal.id ∧ m.tenant = tenant) :
    ∃ scope, enter principal tenant l reach = .ok scope := by
  have open' : (((l.filter fun m => m.principal = principal.id).find? fun m =>
      m.tenant = tenant).map TenantMembership.role).isNone = false ∨
        principal.isPlatformAdmin = true := by
    rcases h with admin | ⟨m, hm, hp, hu⟩
    · exact Or.inr admin
    · rw [Option.isNone_map, Option.isNone_eq_false_iff, List.find?_isSome]
      exact Or.inl ⟨m, List.mem_filter.2 ⟨hm, decide_eq_true hp⟩, decide_eq_true hu⟩
  rw [enter]
  refine ⟨_, if_neg fun closed => ?_⟩
  obtain ⟨unknown, ordinary⟩ := (Bool.and_eq_true _ _).mp closed
  rcases open' with known | admin
  · rw [known] at unknown
    cases unknown
  · rw [admin] at ordinary
    cases ordinary

end Scope

/-! ## What a caller observes -/

namespace Caller

variable {settings : Settings} {caller : Caller} {t t' : Tables} {scope : Scope}

/-- Whether the caller is a member of a tenant. -/
def BelongsTo (caller : Caller) (t : Tables) (u : TenantId) : Prop :=
  ∃ m ∈ t.tenantMemberships, m.principal = caller.principal ∧ m.tenant = u

/-- The tenants that an ordinary caller observes: of those that it belongs to the one it acts in, and
all of them where it asks to read globally and may. -/
def Observes (settings : Settings) (caller : Caller) (t : Tables) (u : TenantId) : Prop :=
  caller.BelongsTo t u ∧
    (u = caller.tenant ∨ caller.reach = .global ∧ settings.globalReads = true)

/-- Rows that agree on the principal of a caller, on its memberships in tenants and on all tenants that
it observes. -/
structure SameView (settings : Settings) (caller : Caller) (t t' : Tables) : Prop where
  principal : t.principals.find? caller.principal = t'.principals.find? caller.principal
  memberships : (t.tenantMemberships.filter fun m => m.principal = caller.principal) =
    t'.tenantMemberships.filter fun m => m.principal = caller.principal
  parts : ∀ u, caller.Observes settings t u → t.part u = t'.part u

theorem scope_eq_ok (h : caller.scope settings t = .ok scope) :
    ∃ principal, t.principals.find? caller.principal = some principal ∧
      scope.principal = principal ∧ scope.tenant = caller.tenant ∧
      scope.reach = (if caller.overreaches settings then .activeTenant else caller.reach) ∧
      (∀ u, scope.ownTenants.contains u = true ↔ caller.BelongsTo t u) ∧
      (principal.isPlatformAdmin = false → caller.BelongsTo t caller.tenant) := by
  simp only [Caller.scope, bind_eq_ok, found_eq_ok, ask_principal, ask_tenant,
    ask_tenantMembershipsBy, lift_refusal_eq_ok] at h
  obtain ⟨principal, found, _, _, entered⟩ := h
  have e : principal.id = caller.principal := (find?_eq_some_iff.1 found).2
  have belongs {u : TenantId} : (∃ m ∈ t.tenantMemberships.rows.filter fun m =>
      m.principal = principal.id, m.principal = principal.id ∧ m.tenant = u) ↔
      caller.BelongsTo t u := by
    rw [e]
    simp only [List.mem_filter, decide_eq_true_eq, BelongsTo, ← mem_iff]
    constructor
    · rintro ⟨m, ⟨hm, hp⟩, _, hu⟩
      exact ⟨m, hm, hp, hu⟩
    · rintro ⟨m, hm, hp, hu⟩
      exact ⟨m, ⟨hm, hp⟩, hp, hu⟩
  obtain ⟨hp, htenant, hreach, _, member⟩ := Scope.enter_eq_ok (u := caller.tenant) entered
  refine ⟨principal, found, hp, htenant, hreach, fun u => ?_, fun h => belongs.1 (member h)⟩
  exact (Scope.enter_eq_ok (u := u) entered).2.2.2.1.trans belongs

/-- A stored principal has a scope in the tenants that it belongs to, and an administrator of the
platform has one in every tenant. -/
theorem scope_opens (settings : Settings) {principal : Principal}
    (found : t.principals.find? caller.principal = some principal)
    (tenant : t.tenants.contains caller.tenant = true)
    (enters : principal.isPlatformAdmin = true ∨ caller.BelongsTo t caller.tenant) :
    ∃ scope, caller.scope settings t = .ok scope := by
  have e : principal.id = caller.principal := (find?_eq_some_iff.1 found).2
  obtain ⟨row, stored⟩ := Option.isSome_iff_exists.1 tenant
  obtain ⟨scope, entered⟩ := Scope.enter_opens
    (l := t.tenantMemberships.rows.filter fun m => m.principal = principal.id)
    (if caller.overreaches settings then .activeTenant else caller.reach)
    (enters.imp_right fun ⟨m, hm, hp, hu⟩ =>
      ⟨m, List.mem_filter.2 ⟨hm, decide_eq_true (hp.trans e.symm)⟩, hp.trans e.symm, hu⟩)
  refine ⟨scope, ?_⟩
  simp only [Caller.scope, bind_eq_ok, found_eq_ok, ask_principal, ask_tenant,
    ask_tenantMembershipsBy, lift_refusal_eq_ok]
  exact ⟨principal, found, row, stored, entered⟩

theorem scope_opens_of_member (ht : t.Consistent) (belongs : caller.BelongsTo t caller.tenant)
    (settings : Settings) : ∃ scope, caller.scope settings t = .ok scope := by
  obtain ⟨m, hm, hp, hu⟩ := belongs
  obtain ⟨tenant, principal⟩ := ht.stored.tenantMembership m hm
  rw [hp] at principal
  obtain ⟨row, found⟩ := Option.isSome_iff_exists.1 principal
  exact scope_opens settings found (hu ▸ tenant) (Or.inr ⟨m, hm, hp, hu⟩)

theorem scope_principal (h : caller.scope settings t = .ok scope) :
    scope.principal.id = caller.principal := by
  obtain ⟨_, found, rfl, _⟩ := scope_eq_ok h
  exact (find?_eq_some_iff.1 found).2

theorem sees_observed (ordinary : ∀ p, t.principals.find? caller.principal = some p →
    p.isPlatformAdmin = false) (h : caller.scope settings t = .ok scope) {u : TenantId}
    (sees : scope.sees u = true) : caller.Observes settings t u := by
  obtain ⟨principal, found, rfl, tenant, reach, own, member⟩ := scope_eq_ok h
  have ordinary := ordinary _ found
  simp only [Scope.sees, Scope.isPlatformAdmin, ordinary, Bool.or_false, Bool.or_eq_true,
    decide_eq_true_eq, Bool.and_eq_true] at sees
  rcases sees with rfl | ⟨global, hu⟩
  · rw [tenant]
    exact ⟨member ordinary, Or.inl rfl⟩
  · -- the scope has a global reach only where the settings let the caller read globally
    refine ⟨(own u).1 hu, Or.inr ?_⟩
    rw [reach] at global
    split at global
    · cases global
    · rename_i allowed
      simp only [overreaches, global, decide_true, Bool.true_and, Bool.not_eq_true',
        Bool.not_eq_false] at allowed
      exact ⟨global, allowed⟩

namespace SameView

variable (same : caller.SameView settings t t')

include same

/-- A tenant that the caller may not enter is not found, whether there is one or not. -/
theorem scope_eq (ordinary : ∀ p, t.principals.find? caller.principal = some p →
    p.isPlatformAdmin = false) : caller.scope settings t = caller.scope settings t' := by
  simp only [Caller.scope, ask_principal, ask_tenant, ask_tenantMembershipsBy, ← same.principal]
  cases found : t.principals.find? caller.principal with
  | none => rfl
  | some principal =>
    have e : principal.id = caller.principal := (find?_eq_some_iff.1 found).2
    have rows : (t.tenantMemberships.rows.filter fun m => m.principal = principal.id) =
        t'.tenantMemberships.rows.filter fun m => m.principal = principal.id := by
      rw [e]
      exact congrArg Table.rows same.memberships
    simp only [TenantAccess.found, ← rows, bind, Except.bind]
    by_cases member : caller.BelongsTo t caller.tenant
    · have tenant : t.tenants.find? caller.tenant = t'.tenants.find? caller.tenant :=
        congrArg Store.Part.tenant (same.parts _ ⟨member, Or.inl rfl⟩)
      rw [tenant]
    · -- the refusal of a stranger reads like that for a missing tenant
      rw [Scope.enter_stranger (ordinary principal found) fun m hm _ hu => member ?_]
      · cases t.tenants.find? caller.tenant <;> cases t'.tenants.find? caller.tenant <;> rfl
      · obtain ⟨hm, hp⟩ := List.mem_filter.1 hm
        exact ⟨m, hm, (of_decide_eq_true hp).trans e, hu⟩

theorem inSight (ordinary : ∀ p, t.principals.find? caller.principal = some p →
    p.isPlatformAdmin = false) (h : caller.scope settings t = .ok scope) :
    scope.SameInSight t t' :=
  fun u sees => same.parts u (sees_observed ordinary h sees)

end SameView

end Caller

/-! ## Results of requests -/

section Result

variable {σ : Type} [Store.Backend σ] {s : σ} {settings : Settings} {caller : Caller}

/-- Opening a scope only reports. -/
theorem Caller.openScope_eq (settings : Settings) (caller : Caller) (f : Frame σ) : ∃ events,
    caller.openScope settings f = (caller.scope settings f.store, { f with events }) := by
  refine ⟨f.events ++ caller.warnings settings f.store, ?_⟩
  have e : caller.openScope settings f =
      ((caller.warnings settings f.store).forM report >>= fun _ =>
        check (caller.scope settings f.store)) f := rfl
  rw [e, bind_eq, forM_report]
  rfl

/-- What a request gives is what is done in the scope of the caller. -/
theorem Call.request_result (settings : Settings) (caller : Caller) (r : Request) (s : σ)
    (ids : Supply) : ((Call.request caller r).run settings s ids).result =
      (caller.scope settings s).bind fun scope => (r.perform settings scope ⟨s, ids, []⟩).1 := by
  rw [request_run]
  simp only [Outcome.after, commit, bind_eq, check]
  cases caller.scope settings s with
  | error e => rfl
  | ok scope =>
    simp only [Except.bind]
    rcases r.perform settings scope ⟨s, ids, []⟩ with ⟨_ | _, _⟩ <;> rfl

theorem Call.ask_result {q : Question} {ids : Supply} :
    ((Call.request caller (.ask q)).run settings s ids).result =
      (caller.scope settings s).bind fun scope => q.answer scope s := by
  have asked (scope : Scope) (f : Frame σ) : (q.perform scope f).1 = q.answer scope f.store := by
    have e : q.perform scope f = ((q.events scope (q.answer scope f.store)).forM report >>= fun _ =>
        check (q.answer scope f.store)) f := rfl
    rw [e, bind_eq, forM_report]
    rfl
  simp only [request_result, Request.perform, asked]

/-- What a request leaves comes about by changes within the tenant that the caller acts in. -/
theorem Call.request_run_within {t : Tables} {r : Request} {ids : Supply} (ht : t.Consistent)
    (fresh : ids.FreshFor ((request caller r).draws settings) t) :
    Changes (Within caller.tenant) t ((request caller r).run settings t ids).store := by
  cases e : ((request caller r).run settings t ids).result with
  | error =>
    rw [run, commit_error e]
    exact .none
  | ok answer =>
    obtain ⟨f, performed, store⟩ := commit_ok e
    obtain ⟨scope, opened, changes⟩ := request_within (f := ⟨t, ids, []⟩) ht fresh performed
    obtain ⟨_, _, _, tenant, _⟩ := Caller.scope_eq_ok opened
    rw [run, store, ← tenant]
    exact changes

/-- Whoever sees an initiative is told its roles as they are stored. -/
def Store.TellsRoles (s : σ) : Prop :=
  ∀ (settings : Settings) (caller : Caller) (scope : Scope) (i : Initiative) (ids : Supply),
    caller.scope settings s = .ok scope → Backend.ask (.initiative i.id) s = some i →
      scope.sees i.tenant = true →
        ((Call.request caller (.ask (.roles i.id))).run settings s ids).result =
          .ok (.roles (Backend.ask (.rolesIn i.id) s))

theorem Store.tellsRoles (s : σ) : TellsRoles s := by
  intro settings caller scope i ids opened there sees
  have found : scope.findInitiative s i.id = .ok i :=
    lift_refusal_eq_ok.2 (Scope.disclose_eq_ok.2 ⟨there, sees⟩)
  rw [Call.ask_result, opened]
  simp only [Except.bind, Question.answer, Scope.roles, found]
  rfl

end Result

namespace Reachable

variable {σ σ' : Type} [Store.Backend σ] [Faithful σ] [Store.Backend σ'] [Faithful σ'] {s : σ}
  {settings : Settings} {caller : Caller}

/-- An ordinary caller gets the same answers, and the same failures, from stores that agree on its own
rows and on the tenants that it observes. -/
theorem ask_result_eq {s' : σ'} (h : Reachable s) (h' : Reachable s')
    (ordinary : ∀ p, (tables s).principals.find? caller.principal = some p →
      p.isPlatformAdmin = false)
    (same : caller.SameView settings (tables s) (tables s')) (q : Question) (ids ids' : Supply) :
    ((Call.request caller (.ask q)).run settings s ids).result =
      ((Call.request caller (.ask q)).run settings s' ids').result := by
  rw [Call.ask_result, Call.ask_result, caller.scope_tables h.sound, caller.scope_tables h'.sound,
    ← same.scope_eq ordinary]
  cases opened : caller.scope settings (tables s) with
  | error e => rfl
  | ok scope =>
    simp only [Except.bind, Question.answer_tables h.sound, Question.answer_tables h'.sound]
    exact (same.inSight ordinary opened).answer h.consistent h'.consistent q

/-- Who reads in one tenant does not learn whether there is a second one. -/
theorem ask_result_eq_founding :
    let alone : Tables := (Call.runAll default (Call.founding 0 "ada" "acme") .empty .empty).1
    let both : Store.Database := (Call.runAll default Call.foundingTwo Store.Backend.empty .empty).1
    let list : Call := .request ⟨Supply.numberedId 0, .member, Supply.numberedId 1, .global⟩
      (.ask .visible)
    (list.run default alone .empty).result = (list.run default both .empty).result := by
  intro alone both list
  have ada : alone.principals.find? (Supply.numberedId 0) =
      some ⟨Supply.numberedId 0, "ada", .member⟩ := by decide +kernel
  have first : Reachable alone := of_runAll (by decide +kernel)
  have second : Reachable both := of_runAll (by decide +kernel)
  refine first.ask_result_eq second (fun p found => ?_) ⟨?_, ?_, ?_⟩ .visible .empty .empty
  · obtain rfl := Option.some.inj (ada.symm.trans found)
    rfl
  · decide +kernel
  · decide +kernel
  · rintro u ⟨_, rfl | e⟩
    · decide +kernel
    · exact absurd e (by decide)

/-- A request leaves all rows outside the tenant that the caller acts in as they were. -/
theorem request_sameOutside (h : Reachable s) {r : Request} {ids : Supply}
    (fresh : ids.FreshFor ((Call.request caller r).draws settings) (tables s)) :
    Tables.SameOutside caller.tenant (tables s)
      (tables ((Call.request caller r).run settings s ids).store) := by
  rw [(h.run_mirrors fresh).store]
  exact (Call.request_run_within h.consistent fresh).sameOutside h.consistent

/-- A founder that leaves its initiative leaves the other tenant alone. -/
theorem request_sameOutside_founding :
    let founded : Tables := (Call.runAll default Call.foundingTwo .empty .empty).1
    let leave : Call := .request ⟨Supply.numberedId 0, .member, Supply.numberedId 1, .global⟩
      (.order (.dismiss (Supply.numberedId 2) (Supply.numberedId 0)))
    Tables.SameOutside (Supply.numberedId 1) (tables founded)
      (tables (leave.run default founded .empty).store) := by
  intro founded leave
  have reachable : Reachable founded := of_runAll (by decide +kernel)
  have fresh : Supply.empty.FreshFor (leave.draws default) (tables founded) := by decide +kernel
  exact reachable.request_sameOutside fresh

end Reachable

end TenantAccess
