import TenantAccess.Standing

/-!
# Refusals

Why a rule of access control does not accept what it is given. Having no access is not a refusal:
resolving an access level answers that there is none.
-/

namespace TenantAccess

inductive Refusal
  /-- The target does not exist or may not be seen; the two are not told apart. -/
  | notFound (target : String)
  /-- The target may be seen, but the level held on it is too low. -/
  | accessDenied (required : Level) (effective : Option Level)
  /-- A reference crosses the boundary of an initiative or a tenant. -/
  | invalidReference (reason : String)
  /-- A word that is not in its vocabulary. -/
  | unknownValue (label value : String)
  /-- A text that breaks a rule of form. -/
  | invalid (reason : String)
  deriving DecidableEq, Repr

/-- The text for a level that is too low. -/
def deniedText (required : Level) (effective : Option Level) : String :=
  s!"access denied: requires {required.word}, effective {Level.wordOrNone effective}"

def Refusal.message : Refusal → String
  | notFound target => s!"not found: {target}"
  | accessDenied required effective => deniedText required effective
  | invalidReference reason => s!"invalid reference: {reason}"
  | unknownValue label value => s!"unknown {label}: {value}"
  | invalid reason => s!"validation failed: {reason}"

/-- The value with a given word. -/
def Vocabulary.parse (α : Type) [Vocabulary α] (text : String) : Except Refusal α :=
  match ofWord? α text with
  | some a => .ok a
  | none => .error (.unknownValue (label α) text)

end TenantAccess
