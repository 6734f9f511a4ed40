import TenantAccess.Refusal
import TenantAccess.Text.Blank

/-!
# Names

The form of the names that callers choose: not blank, no white space at either end, and no longer
than a limit in characters. The first rule that a name breaks, in that order, is the one reported.
-/

namespace TenantAccess.Naming

inductive Fault
  | blank
  | padded
  | tooLong (limit : Nat)
  deriving DecidableEq, Repr

/-- The fault of the name of something called `what`. -/
def Fault.message (what : String) : Fault → String
  | blank => s!"{what} name must not be blank"
  | padded => s!"{what} name must not have surrounding whitespace"
  | tooLong limit => s!"{what} name exceeds {limit} characters"

/-- The first rule that a name breaks. -/
def fault? (limit : Nat) (name : String) : Option Fault :=
  let trimmed := Text.trim name.toList
  if trimmed.isEmpty then some .blank
  else if trimmed ≠ name.toList then some .padded
  else if limit < name.length then some (.tooLong limit)
  else none

def check (what : String) (limit : Nat) (name : String) : Except Refusal Unit :=
  match fault? limit name with
  | some fault => .error (.invalid (fault.message what))
  | none => .ok ()

def roleNameLimit : Nat := 100

def displayNameLimit : Nat := 200

def checkRoleName (name : String) : Except Refusal Unit := check "role" roleNameLimit name

/-- The rule for the names of principals, tenants, initiatives and resources. -/
def checkDisplayName (what name : String) : Except Refusal Unit := check what displayNameLimit name

end TenantAccess.Naming
