import TenantAccess.Record
import TenantAccess.Refusal

/-!
# Access lists

All grants on one resource, and the level that a principal has through them: the greater of its own
grant and the grant of the role that it holds at the moment. Administrative roles play no part.
-/

namespace TenantAccess

/-- The role that each member of an initiative holds. -/
abbrev RoleMap := Table (PrincipalId × RoleId)

/-- The grants on one resource. -/
structure Acl where
  resource : Resource
  users : Table (PrincipalId × Level)
  roles : Table (RoleId × Level)

namespace Acl

/-- An access list that lets nobody in. -/
def bare (resource : Resource) : Acl := ⟨resource, .empty, .empty⟩

def isForeign (resource : Resource) (grantResource : ResourceId) (grantTenant : TenantId) :
    Bool :=
  grantResource != resource.id || grantTenant != resource.tenant

/-- The access list that stored grants make; grants on another resource or in another tenant are
refused. -/
def ofRows (resource : Resource) (users : List UserGrant) (roles : List RoleGrant) :
    Except Refusal Acl :=
  match users.find? fun g => isForeign resource g.resource g.tenant with
  | some g => .error (.invalidReference
      s!"user grant for {g.principal} does not belong to resource {resource.id}")
  | none =>
    match roles.find? fun g => isForeign resource g.resource g.tenant with
    | some g => .error (.invalidReference
        s!"role grant for {g.role} does not belong to resource {resource.id}")
    | none => .ok
        { resource
          users := .ofList (users.map fun g => (g.principal, g.level))
          roles := .ofList (roles.map fun g => (g.role, g.level)) }

def setUser (acl : Acl) (p : PrincipalId) (level : Level) : Acl :=
  { acl with users := acl.users.insert (p, level) }

def setRole (acl : Acl) (r : RoleId) (level : Level) : Acl :=
  { acl with roles := acl.roles.insert (r, level) }

def removeUser (acl : Acl) (p : PrincipalId) : Acl := { acl with users := acl.users.erase p }

def removeRole (acl : Acl) (r : RoleId) : Acl := { acl with roles := acl.roles.erase r }

/-- The level granted to a principal itself. -/
def direct? (acl : Acl) (p : PrincipalId) : Option Level := (acl.users.find? p).map Prod.snd

/-- The level granted to the holders of a role. -/
def levelOfRole? (acl : Acl) (r : RoleId) : Option Level := (acl.roles.find? r).map Prod.snd

def isEmpty (acl : Acl) : Bool := acl.users.isEmpty && acl.roles.isEmpty

/-- The level of a principal that holds `role` in the initiative of the resource, or no role. -/
def effective (acl : Acl) (p : PrincipalId) (role : Option RoleId) : Option Level :=
  Level.greater (acl.direct? p) (role.bind acl.levelOfRole?)

/-- The level of a principal, refused if it is below `minimum`. -/
def demand (acl : Acl) (p : PrincipalId) (role : Option RoleId) (minimum : Level) :
    Except Refusal Level :=
  match acl.effective p role with
  | some level =>
    if level.meets minimum then .ok level
    else .error (.accessDenied minimum (some level))
  | none => .error (.accessDenied minimum none)

/-- The principals whose level is `owner`, when `members` are the members of the initiative. -/
def owners (acl : Acl) (members : RoleMap) : IdSet .principal :=
  .ofList ((acl.users.rows.filter fun g => g.2 = .owner).map Prod.fst ++
    (members.rows.filter fun m => acl.levelOfRole? m.2 = some .owner).map Prod.fst)

end Acl

end TenantAccess
