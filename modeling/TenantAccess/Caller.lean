import TenantAccess.Settings
import TenantAccess.Scope
import TenantAccess.Transaction

/-!
# Callers

What a request says about its caller, and the scope that the stored rows allow it. The stored
platform role counts, not the one in the request.
-/

namespace TenantAccess

/-- What a request says about its caller. -/
structure Caller where
  principal : PrincipalId
  platformRole : PlatformRole
  tenant : TenantId
  reach : Reach
  deriving DecidableEq

/-- A row that was looked up, if it is there. -/
def found {α : Type} (row : Option α) (target : String) : Except Failure α :=
  match row with
  | some x => .ok x
  | none => .error (.notFound target)

namespace Caller

variable {σ : Type} [Store.Backend σ]

/-- Whether the caller asks for reads across tenants that the settings do not allow. -/
def overreaches (settings : Settings) (caller : Caller) : Bool :=
  caller.reach = .global && !settings.globalReads

/-- The scope of a caller. A principal or a tenant that does not exist and a tenant that the
principal may not enter are all not found. -/
def scope (settings : Settings) (caller : Caller) (s : σ) : Except Failure Scope := do
  let principal ← found (Store.Backend.ask (.principal caller.principal) s)
    s!"principal {caller.principal}"
  let _ ← found (Store.Backend.ask (.tenant caller.tenant) s) s!"tenant {caller.tenant}"
  let reach := if caller.overreaches settings then .activeTenant else caller.reach
  Scope.enter principal caller.tenant
    (Store.Backend.ask (.tenantMembershipsBy principal.id) s) reach

/-- What is reported about what a caller says: a platform role other than the stored one, and
reads that reach too far. -/
def warnings (settings : Settings) (caller : Caller) (s : σ) : List Event :=
  match Store.Backend.ask (.principal caller.principal) s with
  | none => []
  | some principal =>
    (if principal.platformRole ≠ caller.platformRole then
      [.roleMismatch principal.id caller.platformRole principal.platformRole]
    else []) ++
    (if (Store.Backend.ask (.tenant caller.tenant) s).isSome && caller.overreaches settings then
      [.globalReadsDisabled principal.id]
    else [])

/-- Opens the scope of a caller at the start of a request. -/
def openScope (settings : Settings) (caller : Caller) : Transaction σ Scope := do
  let s ← Transaction.current
  (caller.warnings settings s).forM Transaction.report
  caller.scope settings s

end Caller

end TenantAccess
