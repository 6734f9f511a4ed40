import TenantAccess.Transaction

/-!
# Batches

Several steps in one transaction, each with an answer of its own. A step that fails ends the batch
and undoes it, unless the batch is told to go on; then its failure is its answer. A step may also be
unreadable, which counts as a failure.
-/

namespace TenantAccess

/-- What is left when a batch has ended. -/
structure BatchOutcome (σ ε α : Type) where
  results : List (Except ε α)
  /-- Why the batch was undone, if it was. -/
  failure : Option ε
  store : σ
  ids : Supply
  events : List Event

namespace Batch

variable {σ ε α : Type}

/-- Runs one step, if it could be read. -/
def attempt (ofFailure : Failure → ε) (step : Except ε (Transaction σ α)) (f : Frame σ) :
    Except ε α × Frame σ :=
  match step with
  | .error e => (.error e, f)
  | .ok t =>
    let (result, f') := t f
    (result.mapError ofFailure, f')

/-- Runs steps one after the other and collects their answers, up to the first failure if the batch
does not go on. -/
def steps (ofFailure : Failure → ε) (goesOn : Bool) :
    List (Except ε (Transaction σ α)) → Frame σ → List (Except ε α) × Option ε × Frame σ
  | [], f => ([], none, f)
  | step :: rest, f =>
    let (result, f') := attempt ofFailure step f
    match result, goesOn with
    | .error e, false => ([], some e, f')
    | _, _ =>
      let (results, failure, f'') := steps ofFailure goesOn rest f'
      (result :: results, failure, f'')

/-- Runs a batch on a store. With `aborts` the batch fails when all its steps are done. -/
def run (ofFailure : Failure → ε) (goesOn : Bool) (aborts : Option Failure)
    (batch : List (Except ε (Transaction σ α))) (store : σ) (ids : Supply) : BatchOutcome σ ε α :=
  let (results, failure, f) := steps ofFailure goesOn batch ⟨store, ids, []⟩
  let failure := failure.or (aborts.map ofFailure)
  ⟨results, failure, if failure.isSome then store else f.store, f.ids, f.events⟩

end Batch

end TenantAccess
