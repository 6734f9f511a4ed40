/-!
# Settings

The choices that the operator of the service makes.
-/

namespace TenantAccess

structure Settings where
  /-- Whether reads may reach all tenants of a caller; otherwise they stay in the active one. -/
  globalReads : Bool
  /-- Whether a new initiative starts with the two seeded roles. -/
  seedsRoles : Bool
  /-- Whether the creator of an initiative becomes its manager, if roles are seeded. -/
  creatorJoins : Bool
  deriving DecidableEq, Repr

instance : Inhabited Settings := ⟨⟨false, true, true⟩⟩

end TenantAccess
