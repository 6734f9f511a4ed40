import TenantAccess.Scenario.Tenancy

/-!
# Level grids

The levels of several principals on several resources, by name. Names stay the same from run to run
where identifiers do not. Of several cells for the same names the last one counts.
-/

namespace TenantAccess.Scenario

/-- Values by name. -/
abbrev ByName (α : Type) := List (String × α)

namespace ByName

variable {α : Type}

def get? (entries : ByName α) (name : String) : Option α := entries.lookup name

/-- Gives a name a new value, made from the old one if there is one. -/
def alter (entries : ByName α) (name : String) (f : Option α → α) : ByName α :=
  match entries with
  | [] => [(name, f none)]
  | (n, a) :: rest => if n = name then (n, f (some a)) :: rest else (n, a) :: alter rest name f

end ByName

/-- Levels by the name of the principal and the name of the resource. -/
abbrev LevelGrid := ByName (ByName (Option Level))

namespace LevelGrid

def empty : LevelGrid := []

/-- The level in a cell; a cell that is missing holds none. -/
def level? (m : LevelGrid) (principal resource : String) : Option Level :=
  ((ByName.get? m principal).bind fun row => ByName.get? row resource).join

/-- Sets the cells of one row. -/
def setRow (m : LevelGrid) (principal : String) (cells : List (String × Option Level)) :
    LevelGrid :=
  ByName.alter m principal fun row =>
    cells.foldl (fun row cell => ByName.alter row cell.1 fun _ => cell.2) (row.getD [])

variable {σ : Type} [Store.Backend σ]

/-- The levels of each principal on each resource. -/
def ofLevels (home : Tenancy) (principals : List Principal) (resources : List Resource) :
    Play σ LevelGrid :=
  principals.foldlM (fun m p => do
    let cells ← resources.mapM fun r => return (r.name, ← home.level p r.id)
    return setRow m p.displayName cells) empty

end LevelGrid

end TenantAccess.Scenario
