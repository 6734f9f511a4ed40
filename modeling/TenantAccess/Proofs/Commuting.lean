import TenantAccess.Proofs.Locality.Commands

/-!
# Orders in different tenants

What is ordered in one tenant neither depends on what is ordered in another nor gets in its way: whichever
comes first, the same rows are left and each order gives the same value or fails.
-/

namespace TenantAccess

open Store (Faithful Tables)
open Store.Faithful (tables)
open Transaction Table

/-! ## The rows of one tenant -/

theorem Scope.enter_among {principal : Principal} {tenant : TenantId}
    {l l' : List TenantMembership}
    (same : ((l'.filter fun m => m.principal = principal.id).find? fun m => m.tenant = tenant) =
      (l.filter fun m => m.principal = principal.id).find? fun m => m.tenant = tenant) :
    ∃ own, ∀ reach, enter principal tenant l' reach =
      (enter principal tenant l reach).map fun scope => scope.among own := by
  refine ⟨.ofList ((l'.filter fun m => m.principal = principal.id).map TenantMembership.tenant),
    fun reach => ?_⟩
  simp only [enter, same]
  split <;> rfl

/-- Memberships in other tenants only widen the reach of a caller. -/
theorem Caller.scope_only (settings : Settings) (caller : Caller) (t : Tables) :
    ∃ own, caller.scope settings (t.only caller.tenant) =
      (caller.scope settings t).map fun scope => scope.among own := by
  have principals : (t.only caller.tenant).principals = t.principals := rfl
  simp only [Caller.scope, ask_principal, ask_tenant, ask_tenantMembershipsBy, Tables.tenant_only,
    principals]
  cases t.principals.find? caller.principal with
  | none => exact ⟨.empty, rfl⟩
  | some principal =>
    cases t.tenants.find? caller.tenant with
    | none => exact ⟨.empty, rfl⟩
    | some tenant =>
      have same : ((((t.only caller.tenant).tenantMemberships.rows.filter fun m =>
          m.principal = principal.id).filter fun m => m.principal = principal.id).find? fun m =>
            m.tenant = caller.tenant) =
          ((t.tenantMemberships.rows.filter fun m => m.principal = principal.id).filter fun m =>
            m.principal = principal.id).find? fun m => m.tenant = caller.tenant := by
        have rows : (t.only caller.tenant).tenantMemberships.rows =
            t.tenantMemberships.rows.filter fun m => m.tenant = caller.tenant := rfl
        rw [rows, List.find?_filter, List.find?_filter, List.filter_filter, List.find?_filter,
          List.find?_filter]
        refine congrArg (fun p => List.find? p _) (funext fun m => ?_)
        by_cases home : m.tenant = caller.tenant <;> simp [home]
      obtain ⟨own, entered⟩ := Scope.enter_among same
      refine ⟨own, ?_⟩
      simp only [found, bind, Except.bind, entered]
      cases Scope.enter principal caller.tenant _ _ <;> rfl

namespace Call

variable {f g : Frame Tables} {settings : Settings} {caller : Caller} {command : Command} {t : Tables}
  {ids : Supply}

theorem order_local (narrow : f.NarrowsTo caller.tenant g)
    (fresh : f.ids.FreshFor (command.draws settings) f.store) :
    LocalAt caller.tenant f g ((request caller (.order command)).perform settings)
      ((request caller (.order command)).perform settings) := by
  obtain ⟨_, ids, reported⟩ := g
  obtain ⟨consistent, rfl, rfl⟩ := narrow
  obtain ⟨own, only⟩ := caller.scope_only settings f.store
  obtain ⟨events, opened⟩ := caller.openScope_eq settings f
  obtain ⟨events', opened'⟩ := caller.openScope_eq settings ⟨f.store.only caller.tenant, f.ids, reported⟩
  rw [only] at opened'
  cases entered : caller.scope settings f.store with
  | error e =>
    rw [entered] at opened opened'
    have refused {f f' : Frame Tables} (h : caller.openScope settings f = (.error e, f'))
        (answer : Answer) :
        ((request caller (.order command)).perform settings f).1 ≠ .ok answer := by
      rw [perform, bind_eq, h]
      intro done
      cases done
    exact ⟨fun answer => iff_of_false (refused opened answer) (refused opened' answer),
      fun answer done => absurd done (refused opened answer)⟩
  | ok scope =>
    rw [entered] at opened opened'
    have performed {f f' : Frame Tables} {scope : Scope}
        (h : caller.openScope settings f = (.ok scope, f')) :
        (request caller (.order command)).perform settings f = command.perform settings scope f' := by
      rw [perform, bind_eq, h]
      rfl
    obtain ⟨_, _, _, tenant, _⟩ := Caller.scope_eq_ok entered
    have narrow : Frame.NarrowsTo scope.tenant { f with events }
        ⟨f.store.only caller.tenant, f.ids, events'⟩ := ⟨consistent, by rw [tenant], rfl⟩
    have done : LocalAt scope.tenant _ _ (command.perform settings scope)
        (command.perform settings (scope.among own)) := command.perform_local narrow fresh
    rw [tenant] at done
    refine ⟨?_, ?_⟩ <;> rw [performed opened, performed opened']
    · exact done.alike
    · exact done.narrows

/-- An order on the rows of the tenant alone goes as on all rows. -/
theorem order_run_only (ht : t.Consistent) (fresh : ids.FreshFor (command.draws settings) t) :
    Alike ((request caller (.order command)).run settings t ids).result
        ((request caller (.order command)).run settings (t.only caller.tenant) ids).result ∧
      ((request caller (.order command)).run settings (t.only caller.tenant) ids).store =
        ((request caller (.order command)).run settings t ids).store.only caller.tenant := by
  have narrow : Frame.NarrowsTo caller.tenant ⟨t, ids, []⟩ ⟨t.only caller.tenant, ids, []⟩ :=
    ⟨ht, rfl, rfl⟩
  exact (order_local narrow fresh).commit

end Call

/-! ## Errands -/

/-- What a caller orders, under which settings and with which identifiers to draw. -/
structure Errand where
  settings : Settings
  caller : Caller
  command : Command
  ids : Supply

namespace Errand

def call (errand : Errand) : Call := .request errand.caller (.order errand.command)

def run {σ : Type} [Store.Backend σ] (errand : Errand) (s : σ) : Outcome σ Answer :=
  errand.call.run errand.settings s errand.ids

/-- The identifiers that are drawn are fresh. -/
def Fresh (errand : Errand) (t : Tables) : Prop :=
  errand.ids.FreshFor (errand.call.draws errand.settings) t

instance {errand : Errand} {t : Tables} : Decidable (errand.Fresh t) :=
  inferInstanceAs (Decidable (errand.ids.FreshFor _ t))

/-- Two errands on a store, in either order. -/
structure Commute {σ : Type} [Store.Backend σ] [Faithful σ] (one two : Errand) (s : σ) : Prop where
  /-- The same rows are left. -/
  rows : tables (two.run (one.run s).store).store = tables (one.run (two.run s).store).store
  /-- The first succeeds with the same value, or fails. -/
  first : Alike (one.run s).result (one.run (two.run s).store).result
  /-- And so does the second. -/
  second : Alike (two.run s).result (two.run (one.run s).store).result

variable {one two errand : Errand} {t t' : Tables}

theorem run_sameOutside (ht : t.Consistent) (fresh : errand.Fresh t) :
    Tables.SameOutside errand.caller.tenant t (errand.run t).store :=
  (Call.request_run_within ht fresh).sameOutside ht

theorem run_consistent (ht : t.Consistent) (fresh : errand.Fresh t) :
    (errand.run t).store.Consistent :=
  Call.run_consistent ht fresh

theorem run_local (ht : t.Consistent) (ht' : t'.Consistent) (fresh : errand.Fresh t)
    (fresh' : errand.Fresh t') (same : t.only errand.caller.tenant = t'.only errand.caller.tenant) :
    Alike (errand.run t).result (errand.run t').result ∧
      (errand.run t).store.only errand.caller.tenant =
        (errand.run t').store.only errand.caller.tenant := by
  obtain ⟨alike, store⟩ := Call.order_run_only ht fresh
  obtain ⟨alike', store'⟩ := Call.order_run_only ht' fresh'
  rw [same] at alike store
  exact ⟨fun answer => (alike answer).trans (alike' answer).symm, store.symm.trans store'⟩

theorem commute (ht : t.Consistent) (apart : one.caller.tenant ≠ two.caller.tenant)
    (fresh : one.Fresh t) (fresh' : two.Fresh t) (later : two.Fresh (one.run t).store)
    (later' : one.Fresh (two.run t).store) : one.Commute two t := by
  have outside := run_sameOutside ht fresh
  have outside' := run_sameOutside ht fresh'
  have ht₁ := run_consistent ht fresh
  have ht₂ := run_consistent ht fresh'
  have outside₁ := run_sameOutside ht₁ later
  have outside₂ := run_sameOutside ht₂ later'
  obtain ⟨alike, left⟩ := run_local ht ht₂ fresh later' (outside'.only apart).symm
  obtain ⟨alike', left'⟩ := run_local ht ht₁ fresh' later (outside.only apart.symm).symm
  have rows : (two.run (one.run t).store).store = (one.run (two.run t).store).store := by
    refine (run_consistent ht₁ later).eq_of_only (run_consistent ht₂ later') fun u => ?_
    by_cases here : u = one.caller.tenant
    · rw [here, outside₁.only apart, left]
    · by_cases there : u = two.caller.tenant
      · rw [there, outside₂.only apart.symm, left']
      · rw [outside₁.only there, outside₂.only here, outside.only here, outside'.only there]
  exact ⟨rows, alike, alike'⟩

end Errand

namespace Reachable

variable {σ : Type} [Store.Backend σ] [Faithful σ] {s : σ} {one two : Errand}

/-- Orders in different tenants can be carried out in either order. -/
theorem errands_commute (h : Reachable s) (apart : one.caller.tenant ≠ two.caller.tenant)
    (fresh : one.Fresh (tables s)) (fresh' : two.Fresh (tables s))
    (later : two.Fresh (tables (one.run s).store)) (later' : one.Fresh (tables (two.run s).store)) :
    one.Commute two s := by
  have mirrors : (one.run s).Mirrors (one.run (tables s)) := h.run_mirrors fresh
  have mirrors' : (two.run s).Mirrors (two.run (tables s)) := h.run_mirrors fresh'
  have first : Reachable (one.run s).store := h.call one.settings one.call fresh
  have second : Reachable (two.run s).store := h.call two.settings two.call fresh'
  have next : (two.run (one.run s).store).Mirrors (two.run (tables (one.run s).store)) :=
    first.run_mirrors later
  have next' : (one.run (two.run s).store).Mirrors (one.run (tables (two.run s).store)) :=
    second.run_mirrors later'
  rw [mirrors.store] at later next
  rw [mirrors'.store] at later' next'
  obtain ⟨rows, alike, alike'⟩ := Errand.commute h.consistent apart fresh fresh' later later'
  refine ⟨next.store.trans (rows.trans next'.store.symm), fun answer => ?_, fun answer => ?_⟩
  · rw [mirrors.result.ok_iff, next'.result.ok_iff]
    exact alike answer
  · rw [mirrors'.result.ok_iff, next.result.ok_iff]
    exact alike' answer

/-- Two founders work on at the same time, one of them on a store that it reads globally. -/
theorem errands_commute_founding :
    let founded : Store.Database := (Call.runAll default Call.foundingTwo Store.Backend.empty .empty).1
    let start : Errand := ⟨default, ⟨Supply.numberedId 0, .member, Supply.numberedId 1, .global⟩,
      .startInitiative "sequel", ⟨[], 12⟩⟩
    let add : Errand := ⟨default, ⟨Supply.numberedId 6, .member, Supply.numberedId 7, .activeTenant⟩,
      .addResource (Supply.numberedId 8) .document "notes", ⟨[], 15⟩⟩
    start.Commute add founded := by
  intro founded start add
  have reachable : Reachable founded := of_runAll (by decide +kernel)
  exact reachable.errands_commute (by decide) (by decide +kernel) (by decide +kernel)
    (by decide +kernel) (by decide +kernel)

end Reachable

end TenantAccess
