import Mathlib.Data.List.Forall2
import TenantAccess.Proofs.Acceptance
import TenantAccess.Proofs.Store.Agreement

/-!
# Calls on a database and on tables

The same calls with the same identifiers go alike on a database and on ordered tables. Which
constraint a change breaks may differ, but no call makes a change that breaks one.
-/

namespace TenantAccess

open Store (Backend Database Tables Faithful)
open Store.Faithful (tables Sound)

/-- The same in all but the store that is left, where the database holds the rows of the tables. -/
structure Outcome.Agrees {α : Type} (o : Outcome Database α) (o' : Outcome Tables α) : Prop where
  result : o.result = o'.result
  ids : o.ids = o'.ids
  events : o.events = o'.events
  store : o.store.Holds o'.store

namespace Call

/-- The outcomes of calls that are made one after the other, each with identifiers of its own. -/
def outcomes {σ : Type} [Backend σ] (settings : Settings) :
    List (Call × Supply) → σ → List (Outcome σ Answer)
  | [], _ => []
  | (call, ids) :: rest, s =>
    let out := call.run settings s ids
    out :: outcomes settings rest out.store

/-- Each call gets fresh identifiers. -/
def EachFresh (settings : Settings) : List (Call × Supply) → Tables → Prop
  | [], _ => True
  | (call, ids) :: rest, t =>
    ids.FreshFor (call.draws settings) t ∧ EachFresh settings rest (call.run settings t ids).store

instance decidableEachFresh {settings : Settings} :
    (calls : List (Call × Supply)) → (t : Tables) → Decidable (EachFresh settings calls t)
  | [], _ => .isTrue trivial
  | (call, ids) :: rest, t =>
    have := @decidableEachFresh settings rest (call.run settings t ids).store
    instDecidableAnd

variable {settings : Settings} {d : Database} {t : Tables} {calls : List (Call × Supply)}

/-- In whatever order a database holds the rows of tables, a call on it goes like the call on them. -/
theorem run_agrees (call : Call) {ids : Supply} (holds : d.Holds t) (ht : t.Consistent)
    (names : t.NamesApart) (fresh : ids.FreshFor (call.draws settings) t) :
    (call.run settings d ids).Agrees (call.run settings t ids) := by
  have tidy := ht.aligned.toggles
  have same : tables d = t := holds.tables_eq tidy
  have mirrors : (call.run settings d ids).Mirrors (call.run settings (tables d) ids) :=
    call.run_mirrors (holds.sound ht.stored tidy) (same ▸ ht) (same ▸ fresh)
  rw [same] at mirrors
  -- two errors of the store might differ, but the tables give none
  have rows := Database.Sound.holds mirrors.sound
  have left : Database.tables _ = (call.run settings t ids).store := mirrors.store
  exact
    { result := mirrors.result.eq_of_checked (call.run_checked ht names fresh)
      ids := mirrors.ids
      events := mirrors.events
      store := left ▸ rows }

theorem outcomes_agree_of_holds (holds : d.Holds t) (ht : t.Consistent) (names : t.NamesApart)
    (fresh : EachFresh settings calls t) :
    List.Forall₂ Outcome.Agrees (outcomes settings calls d) (outcomes settings calls t) := by
  induction calls generalizing d t with
  | nil => exact .nil
  | cons call rest ih =>
    obtain ⟨here, later⟩ := fresh
    have agrees := call.1.run_agrees holds ht names here
    have names' := (run_fits ht here).namesApart names
    exact .cons agrees (ih agrees.store (run_consistent ht here) names' later)

theorem outcomes_kept (ht : t.Consistent) (names : t.NamesApart)
    (fresh : EachFresh settings calls t) :
    ∀ o ∈ outcomes settings calls t, o.store.Consistent ∧ o.store.NamesApart := by
  induction calls generalizing t with
  | nil => exact fun _ h => absurd h List.not_mem_nil
  | cons call rest ih =>
    obtain ⟨here, later⟩ := fresh
    have ht' := run_consistent ht here
    have names' := (run_fits ht here).namesApart names
    intro o ho
    rcases List.mem_cons.1 ho with rfl | ho
    · exact ⟨ht', names'⟩
    · exact ih ht' names' later o ho

/-- Any calls from the start on have the same results on a database and on tables, errors with their
texts and statuses among them, and after each the database holds the rows of the tables. In whatever
order it has them then, a call that is made next goes alike on both. -/
theorem outcomes_agree (fresh : EachFresh settings calls .empty) :
    List.Forall₂ Outcome.Agrees (outcomes settings calls (Backend.empty : Database))
        (outcomes settings calls Tables.empty) ∧
      ∀ o ∈ outcomes settings calls Tables.empty, ∀ (d : Database) (next : Call) (ids : Supply),
        d.Holds o.store → ids.FreshFor (next.draws settings) o.store →
          (next.run settings d ids).Agrees (next.run settings o.store ids) := by
  have start : (Backend.empty : Database).Holds .empty := by
    have rows : tables (Backend.empty : Database) = .empty := Faithful.tables_empty
    have sound : Sound (Backend.empty : Database) := Faithful.empty_sound
    exact rows ▸ Database.Sound.holds sound
  refine ⟨outcomes_agree_of_holds start .empty .empty fresh, fun o ho d next ids holds fresh' => ?_⟩
  obtain ⟨ht, names⟩ := outcomes_kept .empty .empty fresh o ho
  exact next.run_agrees holds ht names fresh'

/-- A founding on both, with identifiers from one list. -/
theorem outcomes_agree_founding :
    let ids : List Supply := [⟨[], 0⟩, ⟨[], 1⟩, ⟨[], 2⟩, ⟨[], 5⟩]
    let calls := (founding 0 "ada" "acme").zip ids
    List.Forall₂ Outcome.Agrees (outcomes default calls (Backend.empty : Database))
      (outcomes default calls Tables.empty) := by
  intro ids calls
  have fresh : EachFresh default calls .empty := by decide +kernel
  exact (outcomes_agree fresh).1

end Call

end TenantAccess
