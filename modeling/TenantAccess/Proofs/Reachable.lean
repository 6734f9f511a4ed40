import TenantAccess.Proofs.Mirror.Calls
import TenantAccess.Proofs.Store.RoleStatements

/-!
# Reachable stores

The stores that calls lead to from an empty store on. Whatever the backend, their rows fit together,
for every call that succeeds makes changes that fit the rows that it finds, and one that fails makes
none.
-/

namespace TenantAccess

open Store (Faithful Tables Change)
open Store.Faithful (tables Sound)
open Transaction

/-! ## Runs of calls -/

/-- A store that comes about by calls on an empty one, each of which draws fresh identifiers under
settings of its own. -/
inductive Reachable {σ : Type} [Store.Backend σ] [Faithful σ] : σ → Prop
  | empty : Reachable Store.Backend.empty
  | call {s : σ} (before : Reachable s) (settings : Settings) (call : Call) {ids : Supply}
      (fresh : ids.FreshFor (call.draws settings) (tables s)) :
      Reachable (call.run settings s ids).store

/-- A sequence of calls, each on what the one before has left. -/
def Call.runAll {σ : Type} [Store.Backend σ] (settings : Settings) :
    List Call → σ → Supply → σ × Supply
  | [], s, ids => (s, ids)
  | call :: rest, s, ids =>
    let out := call.run settings s ids
    runAll settings rest out.store out.ids

/-- Each call of a sequence finds fresh identifiers. -/
def Call.AllFresh (settings : Settings) : List Call → Tables → Supply → Prop
  | [], _, _ => True
  | call :: rest, t, ids =>
    ids.FreshFor (call.draws settings) t ∧
      AllFresh settings rest (call.run settings t ids).store (call.run settings t ids).ids

instance Call.decidableAllFresh {settings : Settings} :
    (calls : List Call) → (t : Tables) → (ids : Supply) → Decidable (AllFresh settings calls t ids)
  | [], _, _ => .isTrue trivial
  | _ :: rest, _, _ =>
    have (t : Tables) (ids : Supply) : Decidable (AllFresh settings rest t ids) :=
      decidableAllFresh rest t ids
    instDecidableAnd

/-- A principal registers, founds a tenant, starts an initiative there and adds a project, after
`drawn` numbered identifiers have been drawn. -/
def Call.founding (drawn : Nat) (name tenant : String) : List Call :=
  let caller : Caller := ⟨Supply.numberedId drawn, .member, Supply.numberedId (drawn + 1),
    .activeTenant⟩
  [.register name .member, .foundTenant caller.principal tenant,
    .request caller (.order (.startInitiative "launch")),
    .request caller (.order (.addResource (Supply.numberedId (drawn + 2)) .project "plan"))]

/-- The same for two principals one after the other. -/
def Call.foundingTwo : List Call := founding 0 "ada" "acme" ++ founding 6 "bob" "globex"

theorem Question.perform_ok {f f' : Frame Tables} {scope : Scope} {q : Question} {answer : Answer}
    (h : q.perform scope f = (.ok answer, f')) :
    q.answer scope f.store = .ok answer ∧ f'.store = f.store := by
  simp only [perform, bind_ok, current_ok, lift_ok, forM_report, Prod.mk.injEq, true_and] at h
  obtain ⟨_, _, ⟨rfl, rfl⟩, _, _, rfl, answered, rfl⟩ := h
  exact ⟨answered, rfl⟩

/-- The initiative that an answer says was started. -/
def Answer.started : Answer → Option Initiative
  | initiative i => some i
  | _ => none

theorem Question.answer_started {t : Tables} {scope : Scope} {q : Question} {answer : Answer}
    (h : q.answer scope t = .ok answer) : answer.started = none := by
  cases q <;> simp only [Question.answer, bind_eq_ok, pure_eq_ok] at h
  case scope | visible => rw [← h]; rfl
  all_goals
    obtain ⟨_, _, rfl⟩ := h
    rfl

/-! ## What a call does -/

namespace Call

/-- What a call orders, if it orders anything. -/
def command? : Call → Option Command
  | request _ (.order command) => some command
  | _ => none

variable {f f' : Frame Tables} {settings : Settings} {call : Call} {answer : Answer}

theorem perform_register {name : String} {role : PlatformRole}
    (h : (register name role).perform settings f = (.ok answer, f')) : ∃ p, answer = .principal p ∧
      f'.store = { f.store with principals := f.store.principals.insert p } := by
  obtain ⟨p, done, rfl⟩ := return_ok.1 h
  obtain ⟨_, _, step⟩ := Administration.register_ok done
  obtain ⟨_, e⟩ := Tables.step_putPrincipal.1 step
  exact ⟨p, rfl, e.symm⟩

theorem perform_foundTenant {creator : PrincipalId} {name : String}
    (h : (foundTenant creator name).perform settings f = (.ok answer, f')) :
    ∃ tenant, answer = .tenant tenant ∧ f'.store = { f.store with
      tenants := f.store.tenants.insert tenant
      tenantMemberships := f.store.tenantMemberships.insert ⟨tenant.id, creator, .admin⟩ } := by
  obtain ⟨tenant, done, rfl⟩ := return_ok.1 h
  obtain ⟨_, _, _, t, step, step'⟩ := Administration.foundTenant_ok done
  obtain ⟨_, _, rfl⟩ := Tables.step_addTenant.1 step
  obtain ⟨_, _, _, e⟩ := Tables.step_putTenantMembership.1 step'
  exact ⟨tenant, rfl, e.symm⟩

theorem perform_ask {caller : Caller} {q : Question}
    (h : (request caller (.ask q)).perform settings f = (.ok answer, f')) : ∃ scope,
      caller.scope settings f.store = .ok scope ∧ q.answer scope f.store = .ok answer ∧
        f'.store = f.store := by
  simp only [perform, bind_ok] at h
  obtain ⟨scope, f₁, opened, asked⟩ := h
  obtain ⟨entered, events, rfl⟩ := Caller.openScope_ok opened
  exact ⟨scope, entered, Question.perform_ok (f := { f with events }) asked⟩

theorem perform_order {caller : Caller} {command : Command}
    (h : (request caller (.order command)).perform settings f = (.ok answer, f')) : ∃ scope events,
      caller.scope settings f.store = .ok scope ∧
        command.perform settings scope { f with events } = (.ok answer, f') := by
  simp only [perform, bind_ok] at h
  obtain ⟨scope, _, opened, performed⟩ := h
  obtain ⟨entered, events, rfl⟩ := Caller.openScope_ok opened
  exact ⟨scope, events, entered, performed⟩

/-- A call that succeeds has carried out a command, or else has left all rows alone but those about who
there is and in which tenants. -/
theorem perform_cases (h : call.perform settings f = (.ok answer, f')) :
    (∃ caller command scope events, call = request caller (.order command) ∧
      caller.scope settings f.store = .ok scope ∧
      command.perform settings scope { f with events } = (.ok answer, f')) ∨
    call.command? = none ∧ answer.started = none ∧ ∃ principals tenants tenantMemberships,
      f'.store = { f.store with principals, tenants, tenantMemberships } := by
  cases call with
  | register name role =>
    obtain ⟨_, rfl, e⟩ := perform_register h
    exact Or.inr ⟨rfl, rfl, _, _, _, e⟩
  | foundTenant creator name =>
    obtain ⟨_, rfl, e⟩ := perform_foundTenant h
    exact Or.inr ⟨rfl, rfl, _, _, _, e⟩
  | request caller r =>
    cases r with
    | ask q =>
      obtain ⟨_, _, answered, e⟩ := perform_ask h
      exact Or.inr ⟨rfl, Question.answer_started answered, _, _, _, e⟩
    | order command =>
      obtain ⟨scope, events, entered, performed⟩ := perform_order h
      exact Or.inl ⟨caller, command, scope, events, rfl, entered, performed⟩

/-- A request that succeeds makes changes within the tenant that the caller acts in. -/
theorem request_within {caller : Caller} {r : Request} (ht : f.store.Consistent)
    (fresh : f.ids.FreshFor ((request caller r).draws settings) f.store)
    (h : (request caller r).perform settings f = (.ok answer, f')) :
    ∃ scope, caller.scope settings f.store = .ok scope ∧
      Changes (Within scope.tenant) f.store f'.store := by
  cases r with
  | ask q =>
    obtain ⟨scope, entered, _, same⟩ := perform_ask h
    rw [same]
    exact ⟨scope, entered, .none⟩
  | order command =>
    obtain ⟨scope, events, entered, performed⟩ := perform_order h
    exact ⟨scope, entered, Command.perform_within (f := { f with events }) ht fresh performed⟩

theorem perform_fits (ht : f.store.Consistent)
    (fresh : f.ids.FreshFor (call.draws settings) f.store)
    (h : call.perform settings f = (.ok answer, f')) :
    Changes (fun t c => c.Fits t) f.store f'.store := by
  cases call with
  | register name role =>
    obtain ⟨_, h, _⟩ := return_ok.1 h
    obtain ⟨_, _, step⟩ := Administration.register_ok h
    exact .single (c := .putPrincipal _) trivial step
  | foundTenant creator name =>
    obtain ⟨_, h, _⟩ := return_ok.1 h
    obtain ⟨_, _, _, t, step, step'⟩ := Administration.foundTenant_ok h
    exact (Changes.single (c := .addTenant _) trivial step).next
      (c := .putTenantMembership _) trivial step'
  | request caller r =>
    obtain ⟨_, _, within⟩ := request_within ht fresh h
    exact within.mono fun _ _ h => h.fits

theorem run_fits {t : Tables} {ids : Supply} (ht : t.Consistent)
    (fresh : ids.FreshFor (call.draws settings) t) :
    Changes (fun t c => c.Fits t) t (call.run settings t ids).store := by
  cases e : (call.run settings t ids).result with
  | error =>
    rw [run, commit_error e]
    exact .none
  | ok answer =>
    obtain ⟨f, h, store⟩ := commit_ok e
    rw [run, store]
    exact perform_fits (f := ⟨t, ids, []⟩) ht fresh h

theorem run_consistent {t : Tables} {ids : Supply} (ht : t.Consistent)
    (fresh : ids.FreshFor (call.draws settings) t) :
    (call.run settings t ids).store.Consistent :=
  (run_fits ht fresh).consistent ht

end Call

/-! ## What holds along all runs -/

namespace Reachable

variable {σ : Type} [Store.Backend σ] [Faithful σ] {s : σ}

theorem sound_consistent (h : Reachable s) : Sound s ∧ (tables s).Consistent := by
  induction h with
  | empty =>
    rw [Faithful.tables_empty]
    exact ⟨Faithful.empty_sound, .empty⟩
  | call _ settings call fresh ih =>
    obtain ⟨sound, consistent⟩ := ih
    have mirrors := call.run_mirrors sound consistent fresh
    rw [mirrors.store]
    exact ⟨mirrors.sound, Call.run_consistent consistent fresh⟩

theorem sound (h : Reachable s) : Sound s := h.sound_consistent.1

theorem consistent (h : Reachable s) : (tables s).Consistent := h.sound_consistent.2

theorem run_mirrors (h : Reachable s) {settings : Settings} {call : Call} {ids : Supply}
    (fresh : ids.FreshFor (call.draws settings) (tables s)) :
    (call.run settings s ids).Mirrors (call.run settings (tables s) ids) :=
  call.run_mirrors h.sound h.consistent fresh

/-- A call that succeeds on a reachable store succeeds on its tables, with the tables of what it
leaves. -/
theorem performed (h : Reachable s) {settings : Settings} {call : Call} {ids : Supply}
    {answer : Answer} (fresh : ids.FreshFor (call.draws settings) (tables s))
    (done : (call.run settings s ids).result = .ok answer) :
    ∃ f, call.perform settings ⟨tables s, ids, []⟩ = (.ok answer, f) ∧
      tables (call.run settings s ids).store = f.store := by
  have mirrors := h.run_mirrors fresh
  rw [mirrors.result.ok_iff] at done
  obtain ⟨f, performed, store⟩ := commit_ok done
  exact ⟨f, performed, mirrors.store.trans store⟩

/-- A command that succeeds on a reachable store is performed in the scope of its caller on the tables. -/
theorem ordered (h : Reachable s) {settings : Settings} {caller : Caller} {command : Command}
    {ids : Supply} {answer : Answer} (fresh : ids.FreshFor (command.draws settings) (tables s))
    (done : ((Call.request caller (.order command)).run settings s ids).result = .ok answer) :
    ∃ scope events f, caller.scope settings (tables s) = .ok scope ∧
      command.perform settings scope ⟨tables s, ids, events⟩ = (.ok answer, f) ∧
      tables ((Call.request caller (.order command)).run settings s ids).store = f.store := by
  obtain ⟨f, performed, store⟩ := h.performed fresh done
  obtain ⟨scope, events, entered, performed⟩ := Call.perform_order performed
  exact ⟨scope, events, f, entered, performed, store⟩

/-- What holds of no rows and is kept by every call that succeeds holds of all stores that calls lead
to. -/
theorem invariant {P : Tables → Prop} (empty : P .empty)
    (step : ∀ (settings : Settings) (call : Call) (answer : Answer) (f f' : Frame Tables),
      f.store.Consistent → P f.store → f.ids.FreshFor (call.draws settings) f.store →
      call.perform settings f = (.ok answer, f') → P f'.store)
    (h : Reachable s) : P (tables s) := by
  induction h with
  | empty =>
    rw [Faithful.tables_empty]
    exact empty
  | @call s before settings call ids fresh ih =>
    rw [(before.run_mirrors fresh).store]
    cases e : (call.run settings (tables s) ids).result with
    | error =>
      rw [Call.run, commit_error e]
      exact ih
    | ok answer =>
      obtain ⟨f, performed, store⟩ := commit_ok e
      rw [Call.run, store]
      exact step settings call answer ⟨tables s, ids, []⟩ f before.consistent ih fresh performed

theorem runAll {settings : Settings} {calls : List Call} {ids : Supply} (h : Reachable s)
    (fresh : Call.AllFresh settings calls (tables s) ids) :
    Reachable (Call.runAll settings calls s ids).1 := by
  induction calls generalizing s ids with
  | nil => exact h
  | cons call rest ih =>
    obtain ⟨first, later⟩ := fresh
    have mirrors := h.run_mirrors first
    rw [← mirrors.store, ← mirrors.ids] at later
    exact ih (h.call settings call first) later

/-- Calls from an empty store on, each of which finds fresh identifiers. -/
theorem of_runAll {settings : Settings} {calls : List Call} {ids : Supply}
    (fresh : Call.AllFresh settings calls .empty ids) :
    Reachable (Call.runAll settings calls (Store.Backend.empty : σ) ids).1 :=
  empty.runAll (by rw [Faithful.tables_empty]; exact fresh)

/-- In every store that calls lead to, each row leads to stored rows that agree with it. -/
theorem rows_coherent (h : Reachable s) : (tables s).Coherent := h.consistent.coherent

/-- Such as a database with a tenant. -/
theorem rows_coherent_founding :
    (tables (Call.runAll default (Call.founding 0 "ada" "acme")
      (Store.Backend.empty : Store.Database) .empty).1).Coherent :=
  rows_coherent (of_runAll (by decide +kernel))

end Reachable

end TenantAccess
