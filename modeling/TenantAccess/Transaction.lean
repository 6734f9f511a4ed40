import TenantAccess.Event
import TenantAccess.Failure
import TenantAccess.Supply

/-!
# Transactions

Steps on a store that succeed together or leave it as it was. Identifiers that were drawn and
events that were reported stay drawn and reported when a transaction fails.
-/

namespace TenantAccess

/-- What a transaction works on. -/
structure Frame (σ : Type) where
  store : σ
  ids : Supply
  events : List Event

/-- A transaction that gives a value or fails. -/
def Transaction (σ α : Type) : Type := Frame σ → Except Failure α × Frame σ

/-- What is left when a transaction has ended. -/
structure Outcome (σ α : Type) where
  result : Except Failure α
  store : σ
  ids : Supply
  events : List Event

namespace Transaction

variable {σ α β : Type}

instance : Monad (Transaction σ) where
  pure a := fun f => (.ok a, f)
  bind x g := fun f =>
    match x f with
    | (.ok a, f') => g a f'
    | (.error e, f') => (.error e, f')

theorem bind_eq (x : Transaction σ α) (g : α → Transaction σ β) (f : Frame σ) :
    (x >>= g) f = match x f with
      | (.ok a, f') => g a f'
      | (.error e, f') => (.error e, f') := rfl

theorem pure_eq (a : α) (f : Frame σ) : (pure a : Transaction σ α) f = (.ok a, f) := rfl

instance : LawfulMonad (Transaction σ) := LawfulMonad.mk' _
  (fun x => by
    funext f
    show (match x f with
      | (.ok a, f') => (Except.ok a, f')
      | (.error e, f') => (.error e, f')) = x f
    split <;> simp_all)
  (fun _ _ => rfl)
  (fun x g h => by
    funext f
    simp only [bind_eq]
    cases x f with
    | mk r f' => cases r <;> rfl)

/-- A value that may be refused. -/
def check (r : Except Failure α) : Transaction σ α := fun f => (r, f)

instance : MonadLift (Except Failure) (Transaction σ) := ⟨check⟩

/-- The store as it is now. -/
def current : Transaction σ σ := fun f => (.ok f.store, f)

/-- Makes a change to the store. -/
def change [Store.Backend σ] (c : Store.Change) : Transaction σ Bool := fun f =>
  match Store.Backend.change c f.store with
  | (.ok hit, s) => (.ok hit, { f with store := s })
  | (.error e, s) => (.error (.store e), { f with store := s })

/-- Draws an identifier. -/
def fresh {noun : Noun} : Transaction σ (Id noun) := fun f =>
  let (id, ids) := f.ids.draw
  (.ok id, { f with ids })

/-- Reports an event. -/
def report (e : Event) : Transaction σ Unit := fun f =>
  (.ok (), { f with events := f.events ++ [e] })

/-- Runs a transaction on a store. -/
def commit (t : Transaction σ α) (store : σ) (ids : Supply) : Outcome σ α :=
  match t ⟨store, ids, []⟩ with
  | (.ok a, f) => ⟨.ok a, f.store, f.ids, f.events⟩
  | (.error e, f) => ⟨.error e, store, f.ids, f.events⟩

end Transaction

end TenantAccess
