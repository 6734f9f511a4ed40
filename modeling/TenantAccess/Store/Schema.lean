/-!
# The schema and its version

The tables and indexes of the relational store, and how a database that may hold anything is
brought up to the schema. The versions that were applied to a database are recorded in it. A
database at the current version or a later one is left alone; otherwise the schema is created as a
whole or not at all.
-/

namespace TenantAccess.Store.Schema

/-! ## Versions and names -/

/-- The version that the schema is at. -/
def currentVersion : Nat := 1

/-- The table that records the applied versions. -/
def historyTable : String := "schema_migrations"

/-- The tables in the order of their creation. -/
def tableNames : List String :=
  ["tenants", "principals", "tenant_memberships", "initiatives", "initiative_roles",
   "role_permission_toggles", "initiative_memberships", "resources", "resource_permissions",
   "resource_role_permissions"]

/-- The indexes in the order of their creation, which follows that of the tables. -/
def indexNames : List String :=
  ["idx_tenant_memberships_principal", "idx_initiatives_tenant", "idx_initiative_roles_initiative",
   "idx_initiative_memberships_principal", "idx_initiative_memberships_role",
   "idx_resources_tenant", "idx_resources_initiative", "idx_resource_permissions_tenant",
   "idx_resource_permissions_principal", "idx_resource_role_permissions_tenant",
   "idx_resource_role_permissions_role"]

/-- The recorded versions, in a column of integers or in one of text. -/
inductive History
  | integers (versions : List Int)
  | texts (versions : List String)
  deriving DecidableEq, Repr

/-- What is in a database, apart from the rows of its tables. -/
structure Catalog where
  /-- The recorded versions, if there is a table for them. -/
  history : Option History
  /-- The other tables. -/
  tables : List String
  indexes : List String
  deriving DecidableEq, Repr

inductive Fault
  /-- The greatest version is no unsigned number of 32 bits. -/
  | versionOutOfRange (version : Int)
  /-- The greatest version is text. -/
  | versionIsText
  | tableExists (name : String)
  | indexNamesTable (name : String)
  | tableNamesIndex (name : String)
  | indexExists (name : String)
  deriving DecidableEq, Repr

def Fault.message : Fault → String
  | versionOutOfRange version => s!"database error: Integer {version} out of range at index 0"
  | versionIsText =>
    "database error: Invalid column type Text at index: 0, name: COALESCE(MAX(version), 0)"
  | tableExists name => s!"database error: table {name} already exists"
  | indexNamesTable name => s!"database error: there is already an index named {name}"
  | tableNamesIndex name => s!"database error: there is already a table named {name}"
  | indexExists name => s!"database error: index {name} already exists"

/-- The greatest recorded version, zero if there is none. -/
def History.latest : History → Except Fault Nat
  | integers [] => .ok 0
  | integers (v :: rest) =>
    let greatest := rest.foldl max v
    if 0 ≤ greatest ∧ greatest < UInt32.size then .ok greatest.toNat
    else .error (.versionOutOfRange greatest)
  | texts [] => .ok 0
  | texts (_ :: _) => .error .versionIsText

/-- Records a version. -/
def History.record (version : Nat) : History → History
  | integers versions => integers (versions ++ [(version : Int)])
  | texts versions => texts (versions ++ [toString version])

/-- Names of tables and indexes are told apart without regard to the case of ASCII letters. -/
def sameName (a b : String) : Bool := a.toList.map Char.toLower == b.toList.map Char.toLower

/-! ## Upgrades -/

namespace Catalog

variable (c : Catalog)

def hasTable (name : String) : Bool :=
  (c.history.isSome && sameName historyTable name) || c.tables.any (sameName name)

def hasIndex (name : String) : Bool := c.indexes.any (sameName name)

def createTable (name : String) : Except Fault Catalog :=
  if c.hasTable name then .error (.tableExists name)
  else if c.hasIndex name then .error (.indexNamesTable name)
  else .ok { c with tables := c.tables ++ [name] }

def createIndex (name : String) : Except Fault Catalog :=
  if c.hasTable name then .error (.tableNamesIndex name)
  else if c.hasIndex name then .error (.indexExists name)
  else .ok { c with indexes := c.indexes ++ [name] }

/-- The database with a table for the versions, which is created if there is none. -/
def withHistory : Except Fault Catalog :=
  if c.history.isSome then .ok c
  else if c.hasIndex historyTable then .error (.indexNamesTable historyTable)
  else .ok { c with history := some (.integers []) }

/-- Creates the tables, then the indexes, up to the first name that is in use. -/
def createSchema : Except Fault Catalog := do
  let c ← tableNames.foldlM createTable c
  indexNames.foldlM createIndex c

/-- Creates the schema, together with the record of its version, where the recorded versions do not
reach it. -/
def applyPending : Except Fault Unit × Catalog :=
  match (c.history.getD (.integers [])).latest with
  | .error fault => (.error fault, c)
  | .ok version =>
    if version < currentVersion then
      match c.createSchema with
      | .error fault => (.error fault, c)
      | .ok created =>
        (.ok (), { created with history := created.history.map (·.record currentVersion) })
    else (.ok (), c)

/-- Brings the database up to the schema. The table for the versions is created first and stays
even if the rest fails. -/
def upgrade : Except Fault Unit × Catalog :=
  match c.withHistory with
  | .error fault => (.error fault, c)
  | .ok started => started.applyPending

/-- Migrates some number of times in a row. -/
def upgradeTimes : (times : Nat) → Catalog → List (Except Fault Unit) × Catalog
  | 0, c => ([], c)
  | times + 1, c =>
    let (first, c) := c.upgrade
    let (rest, c) := upgradeTimes times c
    (first :: rest, c)

/-- All tables, in the order of their names. -/
def allTables : List String :=
  ((if c.history.isSome then [historyTable] else []) ++ c.tables).mergeSort fun a b => !(b < a)

/-- All indexes, in the order of their names. -/
def allIndexes : List String := c.indexes.mergeSort fun a b => !(b < a)

/-- The recorded versions as text, in the order of the texts. -/
def allVersions : List String :=
  let texts := match c.history with
    | some (.integers versions) => versions.map toString
    | some (.texts versions) => versions
    | none => []
  texts.mergeSort fun a b => !(b < a)

end Catalog

end TenantAccess.Store.Schema
