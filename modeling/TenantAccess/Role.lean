import TenantAccess.Record

/-!
# Roles and what they allow

The two roles that every initiative starts with, the toggles of a role, and whether a principal has
a feature through the role that it holds.
-/

namespace TenantAccess

namespace Role

def managerName : String := "project_manager"

def memberName : String := "member"

/-- Names that only the seeded roles bear. -/
def isReserved (name : String) : Bool := name == managerName || name == memberName

/-- Seeded roles are told by their name. -/
def isSeeded (role : Role) : Bool := isReserved role.name

/-- A role without toggles. -/
def plain (id : RoleId) (initiative : InitiativeId) (name : String) (isManager : Bool)
    (position : UInt32) : Role :=
  ⟨id, initiative, name, isManager, position, []⟩

/-- The manager role that an initiative starts with. -/
def seededManager (id : RoleId) (initiative : InitiativeId) : Role :=
  plain id initiative managerName true 0

/-- The role for all other members that an initiative starts with. -/
def seededMember (id : RoleId) (initiative : InitiativeId) : Role :=
  plain id initiative memberName false 1

/-- What the role says about a feature, if anything. -/
def setting? (role : Role) (c : Feature) : Option Bool :=
  (role.toggles.find? fun t => t.feature = c).map Toggle.enabled

/-- Puts a toggle at its place among toggles in the order of their features. A toggle for the
same feature only takes over whether it is on. -/
def putToggle (new : Toggle) : List Toggle → List Toggle
  | [] => [new]
  | t :: rest =>
    if new.feature = t.feature then { t with enabled := new.enabled } :: rest
    else if new.feature.position < t.feature.position then new :: t :: rest
    else t :: putToggle new rest

def withToggle (role : Role) (c : Feature) (enabled : Bool) : Role :=
  { role with toggles := putToggle ⟨role.id, c, enabled⟩ role.toggles }

/-- Managers have every feature. For others the toggle decides, and the default where there is
none. -/
def permits (role : Role) (c : Feature) : Bool :=
  role.isManager || (role.setting? c).getD c.isDefault

end Role

/-- Whether a principal has a feature in an initiative where it holds `role`, or no role.
Platform administrators have every feature; others without a role have none. -/
def Principal.may (p : Principal) (role : Option Role) (c : Feature) : Bool :=
  p.isPlatformAdmin || role.any fun r => r.permits c

end TenantAccess
