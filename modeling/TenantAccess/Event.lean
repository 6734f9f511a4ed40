import TenantAccess.Feature
import TenantAccess.Identifier
import TenantAccess.Standing

/-!
# Events

What calls report to the log while they run, with a severity, a text and named values. An event
stays reported when the call fails later.
-/

namespace TenantAccess

/-! ## Events -/

inductive Severity
  | info
  | warn
  | debug
  deriving DecidableEq, Repr

def Severity.word : Severity → String
  | info => "info"
  | warn => "warn"
  | debug => "debug"

inductive FieldValue
  | text (value : String)
  | flag (value : Bool)
  | count (value : Nat)
  deriving DecidableEq, Repr

inductive Event
  | roleMismatch (principal : PrincipalId) (stated stored : PlatformRole)
  | globalReadsDisabled (principal : PrincipalId)
  | permissionResolved (resource : ResourceId) (principal : PrincipalId) (level : Option Level)
  | permissionDenied (resource : ResourceId) (principal : PrincipalId) (required : Level)
      (effective : Option Level)
  | principalRegistered (principal : PrincipalId) (role : PlatformRole)
  | tenantCreated (tenant : TenantId) (creator : PrincipalId)
  | tenantMemberAdded (tenant : TenantId) (principal : PrincipalId) (role : TenantRole)
  | tenantMemberRemoved (tenant : TenantId) (principal : PrincipalId)
  | initiativeCreated (initiative : InitiativeId) (tenant : TenantId)
  | roleCreated (role : RoleId) (initiative : InitiativeId)
  | roleDeleted (role : RoleId) (initiative : InitiativeId)
  | toggleSet (role : RoleId) (feature : Feature) (enabled : Bool)
  | memberAdded (initiative : InitiativeId) (principal : PrincipalId) (roleName : String)
  | resourceCreated (resource : ResourceId) (kind : ResourceKind) (creator : PrincipalId)
  | resourceDeleted (resource : ResourceId)
  | userGranted (resource : ResourceId) (principal : PrincipalId) (level : Level)
  | userRevoked (resource : ResourceId) (principal : PrincipalId)
  | roleGranted (resource : ResourceId) (roleName : String) (level : Level)
  | roleRevoked (resource : ResourceId) (role : RoleId)
  | ownershipTransferred (initiative : InitiativeId) (principal : PrincipalId)
      (revoked granted : Nat)
  | grantsDropped (initiative : InitiativeId) (principal : PrincipalId) (dropped : Nat)
  | leftOwnerless (resource : ResourceId) (initiative : InitiativeId)
  deriving DecidableEq

/-! ## What is logged -/

namespace Event

def severity : Event → Severity
  | roleMismatch .. | globalReadsDisabled .. | leftOwnerless .. => .warn
  | permissionResolved .. | permissionDenied .. | grantsDropped .. => .debug
  | _ => .info

def message : Event → String
  | roleMismatch .. => "claimed platform role does not match stored role"
  | globalReadsDisabled .. => "global read mode disabled, using active tenant"
  | permissionResolved .. => "resolved permission"
  | permissionDenied .. => "permission denied"
  | principalRegistered .. => "registered principal"
  | tenantCreated .. => "created tenant"
  | tenantMemberAdded .. => "added tenant member"
  | tenantMemberRemoved .. => "removed tenant member"
  | initiativeCreated .. => "created initiative"
  | roleCreated .. => "created role"
  | roleDeleted .. => "deleted role"
  | toggleSet .. => "set role toggle"
  | memberAdded .. => "added initiative member"
  | resourceCreated .. => "created resource"
  | resourceDeleted .. => "deleted resource"
  | userGranted .. => "granted user permission"
  | userRevoked .. => "revoked user permission"
  | roleGranted .. => "granted role permission"
  | roleRevoked .. => "revoked role permission"
  | ownershipTransferred .. => "ownership transferred after membership removal"
  | grantsDropped .. => "dropped remaining direct grants on tenant exit"
  | leftOwnerless .. => "resource left without an owner and no manager to absorb it"

private def id {noun : Noun} (name : String) (value : Id noun) : String × FieldValue :=
  (name, .text value.hex)

private def word (name value : String) : String × FieldValue := (name, .text value)

/-- The named values of an event. -/
def fields : Event → List (String × FieldValue)
  | roleMismatch p stated stored =>
    [id "principal" p, word "claimed" stated.word, word "stored" stored.word]
  | globalReadsDisabled p => [id "principal" p]
  | permissionResolved r p level =>
    [id "resource" r, id "principal" p, word "level" (Level.wordOrNone level)]
  | permissionDenied r p required effective =>
    [id "resource" r, id "principal" p, word "required" required.word,
     word "effective" (Level.wordOrNone effective)]
  | principalRegistered p role => [id "principal" p, word "role" role.word]
  | tenantCreated t creator => [id "tenant" t, id "creator" creator]
  | tenantMemberAdded t p role => [id "tenant" t, id "principal" p, word "role" role.word]
  | tenantMemberRemoved t p => [id "tenant" t, id "principal" p]
  | initiativeCreated i t => [id "initiative" i, id "tenant" t]
  | roleCreated role i => [id "role" role, id "initiative" i]
  | roleDeleted role i => [id "role" role, id "initiative" i]
  | toggleSet role c enabled => [id "role" role, word "key" c.word, ("enabled", .flag enabled)]
  | memberAdded i p roleName => [id "initiative" i, id "principal" p, word "role" roleName]
  | resourceCreated r kind creator =>
    [id "resource" r, word "kind" kind.word, id "creator" creator]
  | resourceDeleted r => [id "resource" r]
  | userGranted r p level => [id "resource" r, id "principal" p, word "level" level.word]
  | userRevoked r p => [id "resource" r, id "principal" p]
  | roleGranted r roleName level =>
    [id "resource" r, word "role" roleName, word "level" level.word]
  | roleRevoked r role => [id "resource" r, id "role" role]
  | ownershipTransferred i p revoked granted =>
    [id "initiative" i, id "principal" p, ("revoked", .count revoked), ("granted", .count granted)]
  | grantsDropped i p dropped =>
    [id "initiative" i, id "principal" p, ("dropped", .count dropped)]
  | leftOwnerless r i => [id "resource" r, id "initiative" i]

end Event

end TenantAccess
