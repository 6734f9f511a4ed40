import TenantAccess.Command
import TenantAccess.Question

/-!
# Calls

All that the service does when it is called. Principals register and tenants are founded by anyone;
all else is asked or ordered by a caller, whose scope is opened first. A call is one transaction.
-/

namespace TenantAccess

inductive Request
  | ask (question : Question)
  | order (command : Command)
  deriving DecidableEq

inductive Call
  | register (name : String) (role : PlatformRole)
  | foundTenant (creator : PrincipalId) (name : String)
  | request (caller : Caller) (request : Request)
  deriving DecidableEq

variable {σ : Type} [Store.Backend σ]

def Request.perform (settings : Settings) (scope : Scope) : Request → Transaction σ Answer
  | ask question => question.perform scope
  | order command => command.perform settings scope

namespace Call

def perform (settings : Settings) : Call → Transaction σ Answer
  | register name role => return .principal (← Administration.register name role)
  | foundTenant creator name => return .tenant (← Administration.foundTenant creator name)
  | request caller r => do
    let scope ← caller.openScope settings
    r.perform settings scope

/-- Makes a call on a store. -/
def run (settings : Settings) (call : Call) (store : σ) (ids : Supply) : Outcome σ Answer :=
  (call.perform settings).commit store ids

end Call

end TenantAccess
