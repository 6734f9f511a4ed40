import TenantAccess.Proofs.RoleNames
import TenantAccess.Proofs.Store.RoleWrites

/-!
# Calls that answer with a role

To define, rename or empower a role and to switch one of its features answers with the role as it is then
stored and listed. It differs from the one before in what the call is about, and no other row has changed.
-/

namespace TenantAccess

open Store (Faithful Tables RoleWritten)
open Store.Backend (ask)
open Store.Faithful (tables Sound)
open Transaction Table

namespace Command

/-- The command writes the role that it answers with. -/
def writesRole : Command → Bool
  | defineRole .. | relabelRole .. | empowerRole .. | switchFeature .. => true
  | _ => false

/-- What is new about the role that a command answers with. -/
def Alters {σ : Type} [Store.Backend σ] (s : σ) (role : Role) : Command → Prop
  | defineRole i name isManager => ask (.role role.id) s = none ∧
    role = .plain role.id i name isManager role.position
  | relabelRole id name => ∃ before, ask (.role id) s = some before ∧ role = { before with name }
  | empowerRole id isManager => ∃ before, ask (.role id) s = some before ∧
    role = { before with isManager }
  | switchFeature id c enabled => ∃ before, ask (.role id) s = some before ∧
    role = { before with toggles := role.toggles } ∧
    ∀ x, x ∈ role.toggles ↔ x = ⟨id, c, enabled⟩ ∨ x ∈ before.toggles ∧ x.feature ≠ c
  | _ => False

theorem perform_writesRole {f f' : Frame Tables} {scope : Scope} {settings : Settings}
    {command : Command} {answer : Answer} (ht : f.store.Consistent)
    (fresh : f.ids.FreshFor (command.draws settings) f.store) (writes : command.writesRole = true)
    (h : command.perform settings scope f = (.ok answer, f')) :
    ∃ role, answer = .role role ∧ command.Alters f.store role ∧
      f'.store = { f.store with roles := f.store.roles.insert role } := by
  open Administration in
  cases command with
  | defineRole i name isManager =>
    obtain ⟨role, done, rfl⟩ := return_ok.1 h
    obtain ⟨initiative, position, _, managed, _, _, new, step⟩ := defineRole_ok done
    obtain ⟨_, _, _, e⟩ := Tables.step_putRole.1 step
    obtain rfl : initiative.id = i :=
      (find?_eq_some_iff.1 (Scope.managedInitiative_eq_ok.1 managed).1).2
    subst new
    exact ⟨_, rfl, ⟨find?_eq_none_iff.2 (not_contains_iff.1 fresh.role_free), rfl⟩, e.symm⟩
  | relabelRole id name =>
    obtain ⟨role, done, rfl⟩ := return_ok.1 h
    obtain ⟨stored, _, managed, _, ⟨⟨rfl, rfl⟩, e⟩ | ⟨_, _, new, _, step⟩⟩ := relabelRole_ok done
    · -- the name is the one before, and nothing is written
      have found := (Scope.managedRole_eq_ok.1 managed).1
      exact ⟨_, rfl, ⟨role, found, rfl⟩, e.trans (by rw [insert_eq_self (managedRole_tenant managed).1])⟩
    · obtain ⟨_, _, _, e⟩ := Tables.step_putRole.1 step
      exact ⟨_, rfl, ⟨stored, (Scope.managedRole_eq_ok.1 managed).1, new⟩, e.symm⟩
  | empowerRole id isManager =>
    obtain ⟨role, done, rfl⟩ := return_ok.1 h
    obtain ⟨stored, _, _, managed, _, new, step⟩ := empowerRole_ok done
    obtain ⟨_, _, _, e⟩ := Tables.step_putRole.1 step
    exact ⟨_, rfl, ⟨stored, (Scope.managedRole_eq_ok.1 managed).1, new⟩, e.symm⟩
  | switchFeature id c enabled =>
    obtain ⟨role, done, rfl⟩ := return_ok.1 h
    obtain ⟨stored, _, _, managed, rfl, step⟩ := switchFeature_ok done
    obtain ⟨_, old, again, e⟩ := Tables.step_putToggle.1 step
    have found := (Scope.managedRole_eq_ok.1 managed).1
    obtain ⟨hstored, rfl⟩ := find?_eq_some_iff.1 found
    obtain rfl : stored = old := Option.some.inj (found.symm.trans again)
    exact ⟨_, rfl, ⟨stored, found, rfl, fun x => (ht.aligned.toggles stored hstored).mem_withToggle⟩,
      e.symm⟩
  | _ => cases writes

end Command

section

variable {σ : Type} [Store.Backend σ] [Faithful σ]

/-- From the store `s` on, a command has answered with the role that it has written. -/
structure Command.ReadsBack (command : Command) (s s' : σ) (role : Role) : Prop where
  altered : command.Alters s role
  written : RoleWritten role s s'
  once : (ask (.rolesIn role.initiative) s').filter (fun r => r.id = role.id) = [role]
  told : Store.TellsRoles s'
  rows : tables s' = { tables s with roles := (tables s).roles.insert role }

end

namespace Reachable

variable {σ : Type} [Store.Backend σ] [Faithful σ] {s : σ} {settings : Settings} {caller : Caller}
  {command : Command} {ids : Supply} {answer : Answer}

theorem alters_of_tables (sound : Sound s) {role : Role} (h : command.Alters (tables s) role) :
    command.Alters s role := by
  have asked (id : RoleId) : ask (.role id) s = ask (.role id) (tables s) := Faithful.ask_eq sound _
  cases command <;> simp only [Command.Alters, asked] at h ⊢ <;> exact h

/-- A call that creates, renames or empowers a role or switches one of its features answers with the role
as everybody reads it afterwards. Only what the call is about has changed in it, and no other row has. -/
theorem role_calls_read_back (h : Reachable s) (writes : command.writesRole = true)
    (fresh : ids.FreshFor (command.draws settings) (tables s))
    (done : ((Call.request caller (.order command)).run settings s ids).result = .ok answer) :
    ∃ role, answer = .role role ∧ command.ReadsBack s
      ((Call.request caller (.order command)).run settings s ids).store role := by
  have after : Reachable ((Call.request caller (.order command)).run settings s ids).store :=
    h.call settings _ fresh
  obtain ⟨scope, events, f, _, performed, rows⟩ := h.ordered fresh done
  obtain ⟨role, answered, alters, e⟩ :=
    Command.perform_writesRole (f := ⟨tables s, ids, events⟩) h.consistent fresh writes performed
  rw [e] at rows
  have written := Tables.insertRole_written (tables s) role
  rw [← rows] at written
  have written : RoleWritten role s _ := .of_tables h.sound after.sound written
  refine ⟨role, answered, alters_of_tables h.sound alters, written, ?_, Store.tellsRoles _, rows⟩
  have listed := (written.listed role.initiative role rfl).2 ⟨rfl, rfl⟩
  rw [Faithful.ask_eq after.sound] at listed ⊢
  exact (Tables.distinct_rolesIn _ _).filter_key listed

/-- Such as a founder that lets members of its initiative create documents. -/
theorem role_calls_read_back_founding :
    let founded : Store.Database :=
      (Call.runAll default (Call.founding 0 "ada" "acme") Store.Backend.empty .empty).1
    let switch : Command := .switchFeature (Supply.numberedId 4) .createDocs true
    let call : Call := .request ⟨Supply.numberedId 0, .member, Supply.numberedId 1, .activeTenant⟩
      (.order switch)
    let member : Role :=
      (Role.seededMember (Supply.numberedId 4) (Supply.numberedId 2)).withToggle .createDocs true
    (call.run default founded .empty).result = .ok (.role member) ∧
      switch.ReadsBack founded (call.run default founded .empty).store member := by
  intro founded switch call member
  have reachable : Reachable founded := of_runAll (by decide +kernel)
  have done : (call.run default founded .empty).result = .ok (.role member) := by rfl
  obtain ⟨role, e, readsBack⟩ := reachable.role_calls_read_back rfl .zero done
  obtain rfl : member = role := Answer.role.inj e
  exact ⟨done, readsBack⟩

end Reachable

end TenantAccess
