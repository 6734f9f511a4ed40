import TenantAccess.Feature
import TenantAccess.Store.Operation

/-!
# Failures

Why a call fails, the text for it, and the status code of HTTP that goes with it. Having too low a
level on a resource that may be seen is a denial; all that may not be seen is not found.
-/

namespace TenantAccess

inductive Failure
  | notFound (target : String)
  | accessDenied (required : Level) (effective : Option Level)
  /-- The caller lacks the role that an administrative call needs. -/
  | forbidden (reason : String)
  | featureDisabled (feature : Feature)
  | invalidReference (reason : String)
  /-- Members hold the role that is to be deleted. -/
  | roleInUse (role : RoleId) (members : Nat)
  /-- The change would take the last owner from a resource. -/
  | lastOwner (resource : ResourceId)
  | conflict (reason : String)
  | invalid (reason : String)
  /-- The text of the settings cannot be read. -/
  | badSettings
  | store (error : Store.Error)

namespace Failure

def message : Failure → String
  | notFound target => s!"not found: {target}"
  | accessDenied required effective => deniedText required effective
  | forbidden reason => s!"forbidden: {reason}"
  | featureDisabled feature => s!"feature disabled: {feature.word}"
  | invalidReference reason => s!"invalid reference: {reason}"
  | roleInUse role members => s!"role {role} is held by {members} member(s)"
  | lastOwner resource => s!"resource {resource} would be left without an owner"
  | conflict reason => s!"conflict: {reason}"
  | invalid reason => s!"validation error: {reason}"
  | badSettings => "config error"
  | store error => s!"storage error: {error.message}"

def status : Failure → Nat
  | notFound _ => 404
  | accessDenied .. | forbidden _ | featureDisabled _ => 403
  | roleInUse .. | lastOwner _ | conflict _ | store (.constraint _) => 409
  | invalidReference _ | invalid _ => 422
  | badSettings | store (.invalidData _) => 500

/-- A refusal as the failure of a call; a word that is not known is invalid input. -/
def ofRefusal : Refusal → Failure
  | .notFound target => notFound target
  | .accessDenied required effective => accessDenied required effective
  | .invalidReference reason => invalidReference reason
  | .invalid reason => invalid reason
  | r@(.unknownValue ..) => invalid r.message

instance : MonadLift (Except Refusal) (Except Failure) := ⟨Except.mapError ofRefusal⟩

instance : MonadLift (Except Store.Error) (Except Failure) := ⟨Except.mapError store⟩

end Failure

end TenantAccess
