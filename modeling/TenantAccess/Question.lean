import TenantAccess.Answer
import TenantAccess.Sight

/-!
# Questions

What a principal in its scope may ask. Questions leave the store as it is. That a level was looked
up or was too low is reported.
-/

namespace TenantAccess

inductive Question
  | scope
  | level (resource : ResourceId)
  /-- The level if it is at least `minimum`; otherwise the answer is a denial. -/
  | levelAtLeast (resource : ResourceId) (minimum : Level)
  | feature (initiative : InitiativeId) (feature : Feature)
  | roles (initiative : InitiativeId)
  | visible
  | usable (minimum : Level)
  deriving DecidableEq

namespace Question

variable {σ : Type} [Store.Backend σ]

def answer (scope : Scope) (s : σ) : Question → Except Failure Answer
  | .scope => return .scope scope
  | level r => return .level (← scope.level s r)
  | levelAtLeast r minimum => return .granted (← scope.levelAtLeast s r minimum).2
  | feature i f => return .flag (← scope.hasFeature s i f)
  | roles i => return .roles (← scope.roles s i)
  | visible => return .resourceIds (scope.visibleIds s)
  | usable minimum => return .levels (← scope.usable s minimum)

/-- What is reported about a question and its answer. -/
def events (scope : Scope) : Question → Except Failure Answer → List Event
  | level r, .ok (.level held) => [.permissionResolved r scope.principal.id held]
  | levelAtLeast r minimum, .error (.accessDenied _ effective) =>
    [.permissionDenied r scope.principal.id minimum effective]
  | _, _ => []

/-- Answers a question on the store as it is. -/
def perform (scope : Scope) (q : Question) : Transaction σ Answer := do
  let answer := q.answer scope (← Transaction.current)
  (q.events scope answer).forM Transaction.report
  answer

end Question

end TenantAccess
