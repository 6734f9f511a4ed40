import TenantAccess.Acl
import TenantAccess.Supply

/-!
# Cases for resolving a level

An access list made to order around one principal and one role, and the level that the principal
must have on it whatever else the list grants.
-/

namespace TenantAccess.Scenario

/-- What is granted to the principal, to the role and to others. -/
structure GrantMix where
  direct : Option Level
  viaRole : Option Level
  /-- Whether the principal holds the role. -/
  holdsRole : Bool
  otherUsers : List Level
  otherRoles : List Level

/-- The level that the principal must have. -/
def GrantMix.expected (mix : GrantMix) : Option Level :=
  Level.greater mix.direct (if mix.holdsRole then mix.viaRole else none)

structure GrantCase where
  acl : Acl
  principal : PrincipalId
  role : RoleId
  heldRole : Option RoleId

/-- Draws an identifier for each element of a list. -/
def drawEach {noun : Noun} {α : Type} : List α → Supply → List (Id noun × α) × Supply
  | [], ids => ([], ids)
  | a :: rest, ids =>
    let (id, ids) := ids.draw
    let (pairs, ids) := drawEach rest ids
    ((id, a) :: pairs, ids)

/-- The access list for given parameters. Identifiers are drawn for the tenant, the initiative, the
resource, the principal, the role, and then for the others. -/
def GrantMix.build (mix : GrantMix) (ids : Supply) : GrantCase :=
  let (tenant, ids) := ids.draw
  let (initiative, ids) := ids.draw
  let (resource, ids) := ids.draw
  let (principal, ids) := ids.draw
  let (role, ids) := ids.draw
  let (users, ids) := drawEach mix.otherUsers ids
  let (roles, _) := drawEach mix.otherRoles ids
  let bare := Acl.bare ⟨resource, .project, initiative, tenant, "generated"⟩
  let direct := mix.direct.elim bare fun level => bare.setUser principal level
  let derived := mix.viaRole.elim direct fun level => direct.setRole role level
  let acl := users.foldl (fun acl (p, level) => acl.setUser p level) derived
  let acl := roles.foldl (fun acl (r, level) => acl.setRole r level) acl
  ⟨acl, principal, role, if mix.holdsRole then some role else none⟩

end TenantAccess.Scenario
