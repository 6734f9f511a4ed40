import TenantAccess.Proofs.Mirror.Reads
import TenantAccess.Proofs.Store.RoleStatements

/-!
# A relational database against ordered tables

A database holds the rows of ordered tables if each of its relations has just these rows, in whatever
order. Then every operation gets the same reply from both, but for the constraint that it may break,
and the database holds the rows of the tables again.
-/

namespace TenantAccess

open Keyed

namespace Store

open Faithful (tables Sound)

/-! ## Databases with the rows of tables -/

section Rows

variable {d : Database} {t : Tables}

/-- Each relation has the rows of the tables, in some order; the toggles are those of all roles. -/
structure Database.Holds (d : Database) (t : Tables) : Prop where
  tenants : d.tenants.Perm t.tenants.rows
  principals : d.principals.Perm t.principals.rows
  tenantMemberships : d.tenantMemberships.Perm t.tenantMemberships.rows
  initiatives : d.initiatives.Perm t.initiatives.rows
  roles : d.roles.Perm (t.roles.rows.map Database.rowOf)
  toggles : d.toggles.Perm (t.roles.rows.flatMap Role.toggles)
  memberships : d.memberships.Perm t.memberships.rows
  resources : d.resources.Perm t.resources.rows
  userGrants : d.userGrants.Perm t.userGrants.rows
  roleGrants : d.roleGrants.Perm t.roleGrants.rows

theorem Tables.distinct_toggles (tidy : ∀ r ∈ t.roles, r.Tidy) :
    Distinct (t.roles.rows.flatMap Role.toggles) := by
  refine List.pairwise_flatMap.2 ⟨fun r hr => ?_, ?_⟩
  · refine (tidy r hr).ordered.imp fun {a b} hlt e => ?_
    rw [(Prod.mk.inj e).2] at hlt
    omega
  · -- toggles of two roles differ in the role that they name
    refine List.Pairwise.imp_of_mem (fun {r s} hr hs hne x hx y hy e => hne ?_)
      t.roles.distinct_rows
    have own := (tidy r hr).own x hx
    have own' := (tidy s hs).own y hy
    exact own.symm.trans ((Prod.mk.inj e).1.trans own')

namespace Database

theorem Sound.tidy (h : d.Sound) : ∀ r ∈ d.tables.roles, r.Tidy := by
  intro r hr
  obtain ⟨row, _, rfl⟩ := (mem_tables_roles h.keys).1 hr
  exact assemble_tidy h.keys.toggles row

theorem rowOf_assemble (row : RoleRow) : rowOf (d.assemble row) = row := by simp [rowOf]

theorem Sound.holds (h : d.Sound) : d.Holds d.tables where
  tenants := Table.perm_ofList h.keys.tenants
  principals := Table.perm_ofList h.keys.principals
  tenantMemberships := Table.perm_ofList h.keys.tenantMemberships
  initiatives := Table.perm_ofList h.keys.initiatives
  roles := by
    have perm := (Table.perm_ofList h.keys.distinct_roles).map rowOf
    rw [List.map_map] at perm
    have same : rowOf ∘ d.assemble = id := funext rowOf_assemble
    rwa [same, List.map_id] at perm
  toggles := by
    refine (List.perm_ext_iff_of_nodup h.keys.toggles.nodup
      (Tables.distinct_toggles h.tidy).nodup).2 fun x => ?_
    rw [List.mem_flatMap]
    constructor
    · intro hx
      obtain ⟨row, hrow, e⟩ := h.keys.ownToggles x hx
      exact ⟨d.assemble row, (mem_tables_roles h.keys).2 ⟨row, hrow, rfl⟩,
        (mem_assemble_toggles h.keys.toggles).2 ⟨hx, e.symm⟩⟩
    · rintro ⟨r, hr, hx⟩
      obtain ⟨row, _, rfl⟩ := (mem_tables_roles h.keys).1 hr
      exact ((mem_assemble_toggles h.keys.toggles).1 hx).1
  memberships := Table.perm_ofList h.keys.memberships
  resources := Table.perm_ofList h.keys.resources
  userGrants := Table.perm_ofList h.keys.userGrants
  roleGrants := Table.perm_ofList h.keys.roleGrants

namespace Holds

variable (h : d.Holds t)

include h

theorem mem_roles {row : RoleRow} : row ∈ d.roles ↔ ∃ r ∈ t.roles, rowOf r = row :=
  h.roles.mem_iff.trans List.mem_map

theorem mem_toggles {x : Toggle} : x ∈ d.toggles ↔ ∃ r ∈ t.roles, x ∈ r.toggles :=
  h.toggles.mem_iff.trans List.mem_flatMap

theorem keys (tidy : ∀ r ∈ t.roles, r.Tidy) : d.Keys where
  tenants := t.tenants.distinct_rows.of_perm h.tenants
  principals := t.principals.distinct_rows.of_perm h.principals
  tenantMemberships := t.tenantMemberships.distinct_rows.of_perm h.tenantMemberships
  initiatives := t.initiatives.distinct_rows.of_perm h.initiatives
  roles := by
    have apart : Distinct (t.roles.rows.map rowOf) := List.pairwise_map.2 t.roles.distinct_rows
    exact apart.of_perm h.roles
  toggles := (Tables.distinct_toggles tidy).of_perm h.toggles
  memberships := t.memberships.distinct_rows.of_perm h.memberships
  resources := t.resources.distinct_rows.of_perm h.resources
  userGrants := t.userGrants.distinct_rows.of_perm h.userGrants
  roleGrants := t.roleGrants.distinct_rows.of_perm h.roleGrants
  ownToggles x hx := by
    obtain ⟨r, hr, hx⟩ := h.mem_toggles.1 hx
    exact ⟨rowOf r, h.mem_roles.2 ⟨r, hr, rfl⟩, ((tidy r hr).own x hx).symm⟩

/-- A tidy role is put together again from its row and its toggles. -/
theorem assemble_rowOf (tidy : ∀ r ∈ t.roles, r.Tidy) {r : Role} (hr : r ∈ t.roles) :
    d.assemble (rowOf r) = r := by
  refine assemble_eq_of (h.keys tidy).toggles (tidy r hr) fun x => ⟨fun hx => ?_, ?_⟩
  · exact ⟨h.mem_toggles.2 ⟨r, hr, hx⟩, (tidy r hr).own x hx⟩
  · rintro ⟨hx, e⟩
    obtain ⟨s, hs, hx⟩ := h.mem_toggles.1 hx
    have own := (tidy s hs).own x hx
    obtain rfl := Table.eq_of_key hr hs (e.symm.trans own)
    exact hx

theorem tables_eq (tidy : ∀ r ∈ t.roles, r.Tidy) : d.tables = t := by
  have keys := h.keys tidy
  have roles : d.tables.roles = t.roles := by
    refine Table.ext_mem fun r => (mem_tables_roles keys).trans ⟨?_, fun hr => ?_⟩
    · rintro ⟨row, hrow, rfl⟩
      obtain ⟨r, hr, rfl⟩ := h.mem_roles.1 hrow
      rw [h.assemble_rowOf tidy hr]
      exact hr
    · exact ⟨rowOf r, h.mem_roles.2 ⟨r, hr, rfl⟩, h.assemble_rowOf tidy hr⟩
  have rest : d.tables = { t with roles := d.tables.roles } := by
    rw [tables, Table.ofList_eq h.tenants, Table.ofList_eq h.principals,
      Table.ofList_eq h.tenantMemberships, Table.ofList_eq h.initiatives,
      Table.ofList_eq h.memberships, Table.ofList_eq h.resources, Table.ofList_eq h.userGrants,
      Table.ofList_eq h.roleGrants]
  rw [rest, roles]

theorem sound (stored : t.Integrity) (tidy : ∀ r ∈ t.roles, r.Tidy) : d.Sound :=
  ⟨h.keys tidy, (h.tables_eq tidy).symm ▸ stored⟩

end Holds

end Database

end Rows

/-! ## Operations -/

/-- All that is done with a store in one operation. -/
inductive Operation : Type 1
  | ask {α : Type} (query : Query α)
  | aclOf (resource : Resource)
  | roleMap (initiative : InitiativeId)
  | managingRoles (initiative : InitiativeId)
  | heldRole (initiative : InitiativeId) (principal : PrincipalId)
  | change (change : Change)

namespace Operation

/-- The type of what an operation gives. -/
def Reply : Operation → Type
  | @ask α _ => α
  | aclOf _ => Acl
  | roleMap _ => RoleMap
  | managingRoles _ => IdSet .role
  | heldRole .. => Option Role
  | change _ => Bool

/-- Does an operation on a store. -/
def run {σ : Type} [Backend σ] : (op : Operation) → σ → Except Error op.Reply × σ
  | ask query, s => (.ok (Backend.ask query s), s)
  | aclOf resource, s => (Store.aclOf s resource, s)
  | roleMap i, s => (.ok (Store.roleMap s i), s)
  | managingRoles i, s => (.ok (Store.managingRoles s i), s)
  | heldRole i p, s => (.ok (Store.heldRole s i p), s)
  | change c, s => Backend.change c s

/-- Does operations one after the other, whether they fail or not. -/
def runAll {σ : Type} [Backend σ] : List Operation → σ → σ
  | [], s => s
  | op :: rest, s => runAll rest (op.run s).2

/-- A role is only ever written with tidy toggles and in the initiative that it is stored with. -/
def Upright (t : Tables) : Operation → Prop
  | change c => c.Upright t
  | _ => True

def AllUpright : List Operation → Tables → Prop
  | [], _ => True
  | op :: rest, t => op.Upright t ∧ AllUpright rest (op.run t).2

instance decidableUpright {t : Tables} : (op : Operation) → Decidable (op.Upright t)
  | change c => inferInstanceAs (Decidable (c.Upright t))
  | ask _ | aclOf _ | roleMap _ | managingRoles _ | heldRole _ _ => .isTrue trivial

instance decidableAllUpright : (ops : List Operation) → (t : Tables) → Decidable (AllUpright ops t)
  | [], _ => .isTrue trivial
  | op :: rest, t =>
    have := decidableAllUpright rest (op.run t).2
    instDecidableAnd

end Operation

/-- The same value, or two errors of one kind. -/
inductive SameReply {α : Type} : Except Error α → Except Error α → Prop
  | ok (a : α) : SameReply (.ok a) (.ok a)
  | constraint (v v' : Violation) : SameReply (.error (.constraint v)) (.error (.constraint v'))
  | invalidData (cause cause' : Refusal) :
    SameReply (.error (.invalidData cause)) (.error (.invalidData cause'))

theorem SameReply.refl {α : Type} : (a : Except Error α) → SameReply a a
  | .ok a => .ok a
  | .error (.constraint v) => .constraint v v
  | .error (.invalidData cause) => .invalidData cause cause

namespace Operation

variable {σ : Type} [Backend σ] [Faithful σ] {s : σ} {op : Operation} {ops : List Operation}

/-- An operation on a faithful store goes like that on its tables. -/
theorem run_tables (h : Sound s) (up : op.Upright (tables s)) :
    SameReply (op.run s).1 (op.run (tables s)).1 ∧ Sound (op.run s).2 ∧
      tables (op.run s).2 = (op.run (tables s)).2 := by
  have reads {α : Type} {a b : Except Error α} (e : a = b) :
      SameReply a b ∧ Sound s ∧ tables s = tables s := by
    rw [e]
    exact ⟨.refl b, h, rfl⟩
  cases op with
  | ask query => exact reads (congrArg Except.ok (ask_tables h query))
  | aclOf resource => exact reads (congrFun (aclOf_tables h) resource)
  | roleMap i => exact reads (congrArg Except.ok (congrFun (roleMap_tables h) i))
  | managingRoles i => exact reads (congrArg Except.ok (congrFun (managingRoles_tables h) i))
  | heldRole i p => exact reads (congrArg Except.ok (congrFun (congrFun (heldRole_tables h) i) p))
  | change c =>
    have follows := Faithful.change_follows h up
    have step : (change c).run (tables s) = (Tables.step c).run (tables s) := rfl
    have here : (change c).run s = Backend.change c s := rfl
    rw [step, here, Step.run]
    generalize Backend.change c s = r at follows
    generalize Tables.step c (tables s) = r' at follows
    cases follows with
    | done sound => exact ⟨.ok _, sound, rfl⟩
    | refused v v' => exact ⟨.constraint v v', h, rfl⟩

theorem runAll_tables (h : Sound s) (up : AllUpright ops (tables s)) :
    Sound (runAll ops s) ∧ tables (runAll ops s) = runAll ops (tables s) := by
  induction ops generalizing s with
  | nil => exact ⟨h, rfl⟩
  | cons op rest ih =>
    obtain ⟨here, later⟩ := up
    obtain ⟨_, sound, same⟩ := run_tables h here
    rw [← same] at later
    obtain ⟨sound', same'⟩ := ih sound later
    exact ⟨sound', by rw [runAll, runAll, ← same, same']⟩

/-- After any operations from the start on, failed ones among them, a database holds the rows of the
tables that the same operations lead to. Whatever order it has them in, the next operation gets the
same reply from both, and the rows are the same again. -/
theorem replies_agree (up : AllUpright ops .empty) :
    (runAll ops (Backend.empty : Database)).Holds (runAll ops .empty) ∧
      ∀ (d : Database) (next : Operation), d.Holds (runAll ops .empty) →
        next.Upright (runAll ops .empty) →
          SameReply (next.run d).1 (next.run (runAll ops Tables.empty)).1 ∧
            (next.run d).2.Holds (next.run (runAll ops Tables.empty)).2 := by
  obtain ⟨sound, same⟩ := runAll_tables (s := (Backend.empty : Database)) Faithful.empty_sound
    (by rw [Faithful.tables_empty]; exact up)
  rw [Faithful.tables_empty] at same
  have holds := Database.Sound.holds sound
  have stored := sound.stored
  have tidy := Database.Sound.tidy sound
  rw [show Database.tables _ = _ from same] at holds stored tidy
  refine ⟨holds, fun d next holds up => ?_⟩
  have e : tables d = runAll ops .empty := holds.tables_eq tidy
  rw [← e] at up ⊢
  obtain ⟨reply, sound, rows⟩ := run_tables (s := d) (holds.sound stored tidy) up
  rw [← rows]
  exact ⟨reply, Database.Sound.holds sound⟩

/-- The role of a member is read alike from both after it could not be removed. -/
theorem replies_agree_held :
    let lead : Role :=
      (Role.plain (Supply.numberedId 3) (Supply.numberedId 2) "lead" false 0).withToggle .createDocs true
    let ops : List Operation :=
      [.change (.addTenant ⟨Supply.numberedId 0, "acme"⟩),
        .change (.putPrincipal ⟨Supply.numberedId 1, "ada", .member⟩),
        .change (.addInitiative ⟨lead.initiative, Supply.numberedId 0, "launch"⟩),
        .change (.putRole lead),
        .change (.putMembership ⟨lead.initiative, Supply.numberedId 1, lead.id⟩),
        .change (.removeRole lead.id)]
    let read : Operation := .heldRole lead.initiative (Supply.numberedId 1)
    SameReply (read.run (runAll ops Database.empty)).1 (read.run (runAll ops Tables.empty)).1 := by
  intro lead ops read
  have up : AllUpright ops .empty := by decide +kernel
  obtain ⟨holds, next⟩ := replies_agree up
  exact (next _ read holds trivial).1

end Operation

end Store

end TenantAccess
