import TenantAccess.Settings
import TenantAccess.Caller
import TenantAccess.Json.Coded
import TenantAccess.Handover

/-!
# Records in JSON form

The names of the fields of each record, in order. An identifier is an array of its sixteen bytes.
-/

namespace TenantAccess.Json

open Coded

instance {noun : Noun} : Coded (Id noun) where
  read v := do Id.ofBytes? (← read v)
  write a := write a.bytes

instance : Coded Tenant where
  read v := do
    let [id, name] ← allFields? ["id", "name"] v | none
    return ⟨← read id, ← read name⟩
  write t := record [("id", write t.id), ("name", write t.name)]

instance : Coded Principal where
  read v := do
    let [id, name, role] ← allFields? ["id", "display_name", "platform_role"] v | none
    return ⟨← read id, ← read name, ← read role⟩
  write p := record
    [("id", write p.id), ("display_name", write p.displayName),
     ("platform_role", write p.platformRole)]

instance : Coded TenantMembership where
  read v := do
    let [tenant, principal, role] ← allFields? ["tenant_id", "principal_id", "role"] v | none
    return ⟨← read tenant, ← read principal, ← read role⟩
  write m := record
    [("tenant_id", write m.tenant), ("principal_id", write m.principal), ("role", write m.role)]

instance : Coded Initiative where
  read v := do
    let [id, tenant, name] ← allFields? ["id", "tenant_id", "name"] v | none
    return ⟨← read id, ← read tenant, ← read name⟩
  write i := record [("id", write i.id), ("tenant_id", write i.tenant), ("name", write i.name)]

instance : Coded Toggle where
  read v := do
    let [role, feature, enabled] ← allFields? ["role_id", "capability", "enabled"] v | none
    return ⟨← read role, ← read feature, ← read enabled⟩
  write t := record
    [("role_id", write t.role), ("capability", write t.feature), ("enabled", write t.enabled)]

instance : Coded Role where
  read v := do
    let [id, initiative, name, isManager, position, toggles] ←
      allFields? ["id", "initiative_id", "name", "is_manager", "position", "toggles"] v | none
    return ⟨← read id, ← read initiative, ← read name, ← read isManager, ← read position,
      ← read toggles⟩
  write r := record
    [("id", write r.id), ("initiative_id", write r.initiative), ("name", write r.name),
     ("is_manager", write r.isManager), ("position", write r.position),
     ("toggles", write r.toggles)]

instance : Coded Membership where
  read v := do
    let [initiative, principal, role] ← allFields? ["initiative_id", "principal_id", "role_id"] v
      | none
    return ⟨← read initiative, ← read principal, ← read role⟩
  write m := record
    [("initiative_id", write m.initiative), ("principal_id", write m.principal),
     ("role_id", write m.role)]

instance : Coded Resource where
  read v := do
    let [id, kind, initiative, tenant, name] ←
      allFields? ["id", "kind", "initiative_id", "tenant_id", "name"] v | none
    return ⟨← read id, ← read kind, ← read initiative, ← read tenant, ← read name⟩
  write r := record
    [("id", write r.id), ("kind", write r.kind), ("initiative_id", write r.initiative),
     ("tenant_id", write r.tenant), ("name", write r.name)]

instance : Coded UserGrant where
  read v := do
    let [resource, principal, level, tenant] ←
      allFields? ["resource_id", "principal_id", "level", "tenant_id"] v | none
    return ⟨← read resource, ← read principal, ← read level, ← read tenant⟩
  write g := record
    [("resource_id", write g.resource), ("principal_id", write g.principal),
     ("level", write g.level), ("tenant_id", write g.tenant)]

instance : Coded RoleGrant where
  read v := do
    let [resource, role, level, tenant] ←
      allFields? ["resource_id", "role_id", "level", "tenant_id"] v | none
    return ⟨← read resource, ← read role, ← read level, ← read tenant⟩
  write g := record
    [("resource_id", write g.resource), ("role_id", write g.role), ("level", write g.level),
     ("tenant_id", write g.tenant)]

instance : Coded Ownerless where
  read v := do
    let [resource, initiative, tenant] ←
      allFields? ["resource_id", "initiative_id", "tenant_id"] v | none
    return ⟨← read resource, ← read initiative, ← read tenant⟩
  write w := record
    [("resource_id", write w.resource), ("initiative_id", write w.initiative),
     ("tenant_id", write w.tenant)]

/-- The read mode may be missing. -/
instance : Coded Caller where
  read v := do
    let [some principal, some role, some tenant, mode] ←
      fields? false ["principal_id", "platform_role", "active_tenant_id", "read_mode"] v | none
    return ⟨← read principal, ← read role, ← read tenant, ← (mode.map read).getD (some default)⟩
  write i := record
    [("principal_id", write i.principal), ("platform_role", write i.platformRole),
     ("active_tenant_id", write i.tenant), ("read_mode", write i.reach)]

/-- Each field may be missing, and there are no other fields. -/
instance : Coded Settings where
  read v := do
    let [reads, roles, joins] ← fields? true
      ["allow_global_reads", "seed_builtin_roles", "creator_joins_as_manager"] v | none
    let flag (field : Option Json) (standard : Bool) := (field.map read).getD (some standard)
    return ⟨← flag reads (default : Settings).globalReads,
      ← flag roles (default : Settings).seedsRoles, ← flag joins (default : Settings).creatorJoins⟩
  write c := record
    [("allow_global_reads", write c.globalReads), ("seed_builtin_roles", write c.seedsRoles),
     ("creator_joins_as_manager", write c.creatorJoins)]

end TenantAccess.Json

namespace TenantAccess

/-- Reads settings from JSON text. -/
def Settings.ofText (text : String) : Except Failure Settings :=
  match Json.decodeText? Settings text with
  | some settings => .ok settings
  | none => .error .badSettings

end TenantAccess
