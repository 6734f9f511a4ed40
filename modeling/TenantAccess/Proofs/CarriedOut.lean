import TenantAccess.Proofs.Coverage
import TenantAccess.Proofs.Inheritance

/-!
# Carrying a plan out

A plan is carried out on stored rows, or applied to access lists that were read before. Either way the
same access lists come about, and to go the same way again makes no difference.
-/

namespace TenantAccess

open Store (Faithful Tables)
open Store.Backend (ask)
open Store.Faithful (tables Sound)
open Transaction Table

theorem Acl.ext_direct? {a b : Acl} (resource : a.resource = b.resource)
    (users : ∀ p, a.direct? p = b.direct? p) (roles : a.roles = b.roles) : a = b := by
  have same : a.users = b.users := by
    apply ext_mem
    rintro ⟨p, level⟩
    rw [← direct?_eq_some, ← direct?_eq_some, users]
  cases a
  cases b
  cases resource
  cases same
  cases roles
  rfl

/-! ## Plans for access lists -/

namespace Handover.Plan

variable {σ : Type} [Store.Backend σ] {plan : Plan} {t : Tables} {i : InitiativeId}
  {c : ResourceId × PrincipalId}

/-- What a plan makes of a grant does not depend on the grant if it mentions it. -/
@[simp] theorem applyTo_applyTo {acl : Acl} :
    plan.applyTo (plan.applyTo acl) = plan.applyTo acl := by
  apply Acl.ext_direct?
  · exact applyTo_resource
  · intro p
    rw [direct?_applyTo, applyTo_resource]
    by_cases made : (acl.resource.id, p) ∈ plan.grantOwner
    · rw [if_pos made, direct?_applyTo, if_pos made]
    · rw [if_neg made]
      by_cases revoked : (acl.resource.id, p) ∈ plan.revoke
      · rw [if_pos revoked, direct?_applyTo, if_neg made, if_pos revoked]
      · rw [if_neg revoked]
  · exact applyTo_roles

theorem apply_apply {acls : List Acl} : plan.apply (plan.apply acls) = plan.apply acls := by
  simp [apply]

/-- The grants that a plan revokes or makes are those of stored principals on resources of the
initiative. -/
def Names (plan : Plan) (s : σ) (i : InitiativeId) : Prop :=
  ∀ c ∈ plan.revoke ++ plan.grantOwner,
    (∃ x ∈ ask (.resourcesIn i) s, x.id = c.1) ∧ (ask (.principal c.2) s).isSome = true

instance {s : σ} : Decidable (plan.Names s i) :=
  inferInstanceAs (Decidable (∀ c ∈ plan.revoke ++ plan.grantOwner,
    (∃ x ∈ ask (.resourcesIn i) s, x.id = c.1) ∧ (ask (.principal c.2) s).isSome = true))

namespace Names

theorem tables [Faithful σ] {s : σ} (sound : Sound s) (names : plan.Names s i) :
    plan.Names (Faithful.tables s) i := by
  intro c hc
  have named := names c hc
  rw [Faithful.ask_eq sound, Faithful.ask_eq sound] at named
  exact named

theorem resource (names : plan.Names t i) (hc : c ∈ plan.revoke ++ plan.grantOwner) :
    ∃ x ∈ t.resources, x.initiative = i ∧ x.id = c.1 := by
  obtain ⟨x, hx, e⟩ := (names c hc).1
  obtain ⟨hx, hi⟩ := List.mem_filter.1 hx
  exact ⟨x, hx, of_decide_eq_true hi, e⟩

theorem stored (names : plan.Names t i) (hc : c ∈ plan.grantOwner) :
    t.resources.contains c.1 = true ∧ t.principals.contains c.2 = true := by
  have hc := List.mem_append_right plan.revoke hc
  obtain ⟨x, hx, _, e⟩ := names.resource hc
  exact ⟨contains_iff.2 ⟨x, hx, e⟩, (names c hc).2⟩

theorem tenant (names : plan.Names t i) (ht : t.Consistent) {u : TenantId}
    (hi : t.tenantOf i = some u) (hc : c ∈ plan.revoke ++ plan.grantOwner) :
    ∀ x ∈ t.resources, x.id = c.1 → x.tenant = u := by
  intro x hx e
  obtain ⟨y, hy, rfl, e'⟩ := names.resource hc
  obtain rfl := eq_of_key hx hy (e.trans e'.symm)
  rw [ht.tenantOf_resource hx] at hi
  exact Option.some.inj hi

end Names

end Handover.Plan

/-! ## Plans for rows -/

namespace Succession

variable {σ : Type} [Store.Backend σ] [Faithful σ] {plan : Handover.Plan} {i : InitiativeId}
  {u : TenantId}

theorem granted_granted {grants : Table UserGrant} :
    granted u plan (granted u plan grants) = granted u plan grants := by
  apply ext_find?
  intro c
  rw [find?_granted]
  by_cases made : c ∈ plan.grantOwner
  · rw [if_pos made, find?_granted, if_pos made]
  · rw [if_neg made]
    by_cases revoked : c ∈ plan.revoke
    · rw [if_pos revoked, find?_granted, if_neg made, if_pos revoked]
    · rw [if_neg revoked]

/-- The access lists of the initiative are those that the plan makes of the ones before, and no row but
grants of users on its resources has changed. -/
structure CarriedOut (plan : Handover.Plan) (i : InitiativeId) (s s' : σ) : Prop where
  lists : ∃ acls, accessLists s i = .ok acls ∧ accessLists s' i = .ok (plan.apply acls)
  others : ∃ grants, tables s' = (tables s).regrant grants
  elsewhere : ∀ c, (∀ x ∈ ask (.resourcesIn i) s, x.id ≠ c.1) →
    (tables s').userGrants.find? c = (tables s).userGrants.find? c

/-- A plan for stored rows is carried out, and the rows fit together then. -/
theorem carryOut_run {f : Frame σ} (sound : Sound f.store) (ht : (tables f.store).Consistent)
    (here : (tables f.store).tenantOf i = some u) (names : plan.Names (tables f.store) i) :
    ∃ f', carryOut u plan f = (.ok ⟨plan.revoke, plan.grantOwner, plan.ownerless⟩, f') ∧
      Sound f'.store ∧ (tables f'.store).Consistent ∧
      tables f'.store =
        (tables f.store).regrant (granted u plan (tables f.store).userGrants) := by
  have accepted : Accepted f.view (carryOut u plan) := carryOut_accepted fun c => names.stored
  obtain ⟨report, f', done, sound', done'⟩ :=
    (carryOut_mirrors u plan).done sound accepted (carryOut_unchecked u plan)
  obtain ⟨rfl, stored⟩ := carryOut_ok done'
  have within := carryOut_within (fun c => names.tenant ht here) done'
  exact ⟨f', done, sound', (within.mono fun _ _ h => h.fits).consistent ht, stored⟩

/-- What the plan does to the rows it does to the access lists too. -/
theorem CarriedOut.of_granted {s s' : σ} (sound : Sound s) (sound' : Sound s')
    (ht : (tables s).Consistent) (ht' : (tables s').Consistent) (names : plan.Names (tables s) i)
    (stored : tables s' = (tables s).regrant (granted u plan (tables s).userGrants)) :
    CarriedOut plan i s s' where
  lists := by
    rw [accessLists_tables sound, accessLists_tables sound']
    refine ⟨_, accessLists_of_consistent ht i, (accessLists_of_consistent ht' i).trans ?_⟩
    rw [stored, Handover.Plan.apply, List.map_map]
    refine congrArg _ (List.map_congr_left fun x _ => ?_)
    exact Tables.acl_granted
  others := ⟨_, stored⟩
  elsewhere := by
    intro c outside
    rw [Faithful.ask_eq sound] at outside
    have unnamed : ¬ c ∈ plan.revoke ++ plan.grantOwner := fun hc => by
      obtain ⟨x, hx, e⟩ := (names c hc).1
      exact outside x hx e
    obtain ⟨spared, unraised⟩ := not_or.1 (mt List.mem_append.2 unnamed)
    rw [stored]
    exact find?_granted.trans (by rw [if_neg unraised, if_neg spared])

end Succession

namespace Reachable

open Succession

variable {σ : Type} [Store.Backend σ] [Faithful σ] {s : σ} {i : Initiative} {plan : Handover.Plan}

/-- To carry out a plan for an initiative gives the access lists that the plan makes of those before,
and changes only grants of users on its resources. To carry it out or to apply it again changes
nothing. -/
theorem plan_routes_agree (h : Reachable s) (there : ask (.initiative i.id) s = some i)
    (names : plan.Names s i.id) (ids : Supply) (events : List Event) :
    (∃ report f, carryOut i.tenant plan ⟨s, ids, events⟩ = (.ok report, f) ∧
      CarriedOut plan i.id s f.store ∧
      ∃ f', carryOut i.tenant plan f = (.ok report, f') ∧ tables f'.store = tables f.store ∧
        ∀ {α : Type} (q : Store.Query α), ask q f'.store = ask q f.store) ∧
    ∀ acls, plan.apply (plan.apply acls) = plan.apply acls := by
  refine ⟨?_, fun _ => Handover.Plan.apply_apply⟩
  rw [Faithful.ask_eq h.sound] at there
  have here : (tables s).tenantOf i.id = some i.tenant := Tables.tenantOf_found there
  have names := names.tables h.sound
  obtain ⟨f, done, sound, consistent, stored⟩ :=
    carryOut_run (f := ⟨s, ids, events⟩) h.sound h.consistent here names
  -- the second run finds the same initiatives, resources and principals
  have here' : (tables f.store).tenantOf i.id = some i.tenant := by
    rw [stored]
    exact here
  have names' : plan.Names (tables f.store) i.id := by
    rw [stored]
    exact names
  obtain ⟨f', done', sound', _, stored'⟩ := carryOut_run sound consistent here' names'
  have same : tables f'.store = tables f.store := by
    rw [stored', stored]
    exact congrArg (tables s).regrant granted_granted
  refine ⟨_, f, done, .of_granted h.sound sound h.consistent consistent names stored, f', done', same, ?_⟩
  intro α q
  rw [Faithful.ask_eq sound', Faithful.ask_eq sound, same]

/-- A plan that revokes a grant and makes it again, and makes another one twice. -/
theorem plan_routes_agree_staffing :
    let staffed : Store.Database :=
      (Call.runAll default (Call.staffing 3) Store.Backend.empty .empty).1
    let launch : Initiative := ⟨Supply.numberedId 2, Supply.numberedId 1, "launch"⟩
    let founder : ResourceId × PrincipalId := (Supply.numberedId 5, Supply.numberedId 0)
    let other : ResourceId × PrincipalId := (Supply.numberedId 5, Supply.numberedId 6)
    let plan : Handover.Plan := ⟨[founder, other, founder], [other, founder, other], []⟩
    ask (.initiative launch.id) staffed = some launch ∧ plan.Names staffed launch.id ∧
      ∃ report f, carryOut launch.tenant plan ⟨staffed, .empty, []⟩ = (.ok report, f) ∧
        CarriedOut plan launch.id staffed f.store := by
  intro staffed launch founder other plan
  have reachable : Reachable staffed := of_runAll (by decide +kernel)
  have there : ask (.initiative launch.id) staffed = some launch := by decide +kernel
  have names : plan.Names staffed launch.id := by decide +kernel
  obtain ⟨⟨report, f, done, carried, _⟩, _⟩ := reachable.plan_routes_agree there names .empty []
  exact ⟨there, names, report, f, done, carried⟩

end Reachable

end TenantAccess
