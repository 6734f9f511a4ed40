import TenantAccess.Vocabulary

/-!
# Levels of access and roles across the system

A level of access to one resource, each level above the one before it, and the two roles that a
principal may hold on the platform and in a tenant.
-/

namespace TenantAccess

/-! ## Levels -/

/-- What a principal may do with one resource. -/
inductive Level
  | read
  | write
  | owner
  deriving DecidableEq, Repr

namespace Level

def word : Level → String
  | read => "read"
  | write => "write"
  | owner => "owner"

instance : Vocabulary Level := ⟨"permission level", [read, write, owner], word⟩

def height : Level → Nat
  | read => 0
  | write => 1
  | owner => 2

instance : LE Level := ⟨fun a b => a.height ≤ b.height⟩

instance : LT Level := ⟨fun a b => a.height < b.height⟩

instance (a b : Level) : Decidable (a ≤ b) := inferInstanceAs (Decidable (a.height ≤ b.height))

instance (a b : Level) : Decidable (a < b) := inferInstanceAs (Decidable (a.height < b.height))

instance : Max Level := maxOfLe

instance : Min Level := minOfLe

/-- Whether the level is at least `minimum`. -/
def meets (level minimum : Level) : Bool := minimum ≤ level

/-- Acting on a level above `read` changes the resource. -/
def isChanging (level : Level) : Bool := read < level

/-- The greater of two grants, either of which may be missing. -/
def greater : Option Level → Option Level → Option Level
  | none, b => b
  | some a, none => some a
  | some a, some b => some (max a b)

/-- The word of a level, or `none` for no access. -/
def wordOrNone : Option Level → String
  | none => "none"
  | some level => level.word

end Level

/-! ## Roles on the platform -/

/-- The role of a principal on the whole platform. -/
inductive PlatformRole
  | admin
  | member
  deriving DecidableEq, Repr

namespace PlatformRole

def word : PlatformRole → String
  | admin => "admin"
  | member => "member"

instance : Vocabulary PlatformRole := ⟨"platform role", [admin, member], word⟩

instance : Inhabited PlatformRole := ⟨member⟩

def isAdmin : PlatformRole → Bool
  | admin => true
  | member => false

end PlatformRole

/-! ## Roles in a tenant -/

/-- The role of a principal in one tenant. -/
inductive TenantRole
  | admin
  | member
  deriving DecidableEq, Repr

namespace TenantRole

def word : TenantRole → String
  | admin => "admin"
  | member => "member"

instance : Vocabulary TenantRole := ⟨"tenant role", [admin, member], word⟩

instance : Inhabited TenantRole := ⟨member⟩

def isAdmin : TenantRole → Bool
  | admin => true
  | member => false

end TenantRole

end TenantAccess
