import TenantAccess.Proofs.Reachable

/-!
# Logs of calls

A store that calls lead to, with a log of these calls and of what each of them gave. What is known of all
logs is shown along one of them: a call that fails only makes it longer.
-/

namespace TenantAccess

open Store (Faithful Tables)
open Store.Faithful (tables)

namespace Call

/-- A call with the settings under which it was made, the identifiers that it was given and what it
gave. -/
structure Entry where
  settings : Settings
  call : Call
  ids : Supply
  result : Except Failure Answer

/-- The log of a sequence of calls, on top of an earlier one. The latest call comes first. -/
def logAll {σ : Type} [Store.Backend σ] (settings : Settings) :
    List Call → List Entry → σ → Supply → List Entry
  | [], log, _, _ => log
  | call :: rest, log, s, ids =>
    let out := call.run settings s ids
    logAll settings rest (⟨settings, call, ids, out.result⟩ :: log) out.store out.ids

end Call

/-- A store that calls from the start on lead to, with a log of these calls. -/
inductive Logged {σ : Type} [Store.Backend σ] [Faithful σ] : List Call.Entry → σ → Prop
  | start : Logged [] Store.Backend.empty
  | call {log : List Call.Entry} {s : σ} (before : Logged log s) (settings : Settings) (call : Call)
      {ids : Supply} (fresh : ids.FreshFor (call.draws settings) (tables s)) :
      Logged (⟨settings, call, ids, (call.run settings s ids).result⟩ :: log)
        (call.run settings s ids).store

namespace Logged

variable {σ : Type} [Store.Backend σ] [Faithful σ] {log : List Call.Entry} {s : σ}

theorem reachable (h : Logged log s) : Reachable s := by
  induction h with
  | start => exact .empty
  | call _ settings call fresh ih => exact ih.call settings call fresh

/-- What holds at the start, of a log with one more failure and of a log with one more success holds of
every log and the rows that there are after it. -/
theorem invariant {P : List Call.Entry → Tables → Prop} (start : P [] .empty)
    (failed : ∀ (log : List Call.Entry) (t : Tables) (entry : Call.Entry) (e : Failure), P log t →
      entry.result = .error e → P (entry :: log) t)
    (done : ∀ (log : List Call.Entry) (entry : Call.Entry) (answer : Answer) (f f' : Frame Tables),
      f.store.Consistent → P log f.store → f.ids = entry.ids →
      f.ids.FreshFor (entry.call.draws entry.settings) f.store → entry.result = .ok answer →
      entry.call.perform entry.settings f = (.ok answer, f') → P (entry :: log) f'.store)
    (h : Logged log s) : P log (tables s) := by
  induction h with
  | start =>
    rw [Faithful.tables_empty]
    exact start
  | @call log s before settings call ids fresh ih =>
    cases e : (call.run settings s ids).result with
    | error failure =>
      have left : (call.run settings s ids).store = s := by
        rw [Call.run, Transaction.commit_error e]
      rw [left]
      exact failed log _ ⟨settings, call, ids, _⟩ failure ih rfl
    | ok answer =>
      obtain ⟨f, performed, store⟩ := before.reachable.performed fresh e
      rw [store]
      exact done log ⟨settings, call, ids, _⟩ answer ⟨tables s, ids, []⟩ f before.reachable.consistent
        ih rfl fresh rfl performed

theorem runAll {settings : Settings} {calls : List Call} {ids : Supply} (h : Logged log s)
    (fresh : Call.AllFresh settings calls (tables s) ids) :
    Logged (Call.logAll settings calls log s ids) (Call.runAll settings calls s ids).1 := by
  induction calls generalizing log s ids with
  | nil => exact h
  | cons call rest ih =>
    obtain ⟨first, later⟩ := fresh
    have mirrors := h.reachable.run_mirrors first
    rw [← mirrors.store, ← mirrors.ids] at later
    exact ih (h.call settings call first) later

/-- Calls from an empty store on, each of which finds fresh identifiers. -/
theorem of_runAll {settings : Settings} {calls : List Call} {ids : Supply}
    (fresh : Call.AllFresh settings calls .empty ids) :
    Logged (Call.logAll settings calls [] (Store.Backend.empty : σ) ids)
      (Call.runAll settings calls (Store.Backend.empty : σ) ids).1 :=
  start.runAll (by rw [Faithful.tables_empty]; exact fresh)

end Logged

end TenantAccess
