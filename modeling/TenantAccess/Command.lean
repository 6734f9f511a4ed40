import TenantAccess.Administration.Members
import TenantAccess.Administration.Resources
import TenantAccess.Administration.Roles
import TenantAccess.Administration.Tenants
import TenantAccess.Answer

/-!
# Commands

What a principal in its scope may have changed.
-/

namespace TenantAccess

inductive Command
  | bringIn (principal : PrincipalId) (role : TenantRole)
  | expel (principal : PrincipalId)
  | startInitiative (name : String)
  | defineRole (initiative : InitiativeId) (name : String) (isManager : Bool)
  | relabelRole (role : RoleId) (name : String)
  | empowerRole (role : RoleId) (isManager : Bool)
  | retireRole (role : RoleId)
  | switchFeature (role : RoleId) (feature : Feature) (enabled : Bool)
  | enrol (initiative : InitiativeId) (principal : PrincipalId) (role : RoleId)
  | reassign (initiative : InitiativeId) (principal : PrincipalId) (role : RoleId)
  | dismiss (initiative : InitiativeId) (principal : PrincipalId)
  | restoreOwners (initiative : InitiativeId)
  | addResource (initiative : InitiativeId) (kind : ResourceKind) (name : String)
  | dropResource (resource : ResourceId)
  | share (resource : ResourceId) (principal : PrincipalId) (level : Level)
  | unshare (resource : ResourceId) (principal : PrincipalId)
  | shareWithRole (resource : ResourceId) (role : RoleId) (level : Level)
  | unshareWithRole (resource : ResourceId) (role : RoleId)
  deriving DecidableEq

variable {σ : Type} [Store.Backend σ]

/-- Carries out a command. -/
def Command.perform (settings : Settings) (scope : Scope) : Command → Transaction σ Answer
  | bringIn p role => return .tenantMembership (← Administration.bringIn scope p role)
  | expel p => return .handover (← Administration.expel scope p)
  | startInitiative name =>
    return .initiative (← Administration.startInitiative settings scope name)
  | defineRole i name isManager =>
    return .role (← Administration.defineRole scope i name isManager)
  | relabelRole r name => return .role (← Administration.relabelRole scope r name)
  | empowerRole r isManager => return .role (← Administration.empowerRole scope r isManager)
  | retireRole r => return .handover (← Administration.retireRole scope r)
  | switchFeature r f enabled => return .role (← Administration.switchFeature scope r f enabled)
  | enrol i p r => return .membership (← Administration.enrol scope i p r)
  | reassign i p r => return .handover (← Administration.reassign scope i p r)
  | dismiss i p => return .handover (← Administration.dismiss scope i p)
  | restoreOwners i => return .handover (← Administration.restoreOwners scope i)
  | addResource i kind name => return .resource (← Administration.addResource scope i kind name)
  | dropResource r => do
    Administration.dropResource scope r
    return .done
  | share r p level => return .userGrant (← Administration.share scope r p level)
  | unshare r p => return .flag (← Administration.unshare scope r p)
  | shareWithRole r role level =>
    return .roleGrant (← Administration.shareWithRole scope r role level)
  | unshareWithRole r role => return .flag (← Administration.unshareWithRole scope r role)

end TenantAccess
