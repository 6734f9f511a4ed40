import TenantAccess.Store.Operation

/-!
# Where rows are kept

What becomes of the rows of a store when it is closed and opened again.
-/

namespace TenantAccess.Store

inductive Medium
  | memory
  | file
  deriving DecidableEq, Repr

/-- A store that was closed and opened again; rows outlive that in a file only. -/
def Medium.reopen {σ : Type} [Backend σ] : Medium → σ → σ
  | memory, _ => Backend.empty
  | file, s => s

end TenantAccess.Store
