import TenantAccess.Proofs.Success
import TenantAccess.Store.Schema

/-!
# Migrating again changes nothing

What the migration of a database does depends on the greatest recorded version and on the names in use.
It creates the whole schema or nothing of it, and every later run finds what the first one has left
(`Catalog.upgradeTimes_settled`).
-/

namespace TenantAccess.Store.Schema

/-! ## Versions -/

section Versions

variable {versions : List Int} {v : Int}

/-- The greatest recorded version, zero if there is none. -/
def greatest (versions : List Int) : Int := versions.max?.getD 0

theorem le_greatest (h : v ∈ versions) : v ≤ greatest versions := by
  cases e : versions.max? with
  | none =>
    rw [List.max?_eq_none_iff.1 e] at h
    cases h
  | some w =>
    rw [greatest, e]
    exact (List.max?_eq_some_iff.1 e).2 v h

theorem greatest_recorded (h : greatest versions = 0) :
    greatest (versions ++ [(currentVersion : Int)]) = 1 := by
  have e : (versions ++ [(currentVersion : Int)]).max? = some 1 := by
    refine List.max?_eq_some_iff.2 ⟨List.mem_append_right _ (List.mem_singleton.2 rfl), ?_⟩
    intro v hv
    rcases List.mem_append.1 hv with hv | hv
    · have := le_greatest hv
      omega
    · rw [List.mem_singleton.1 hv]
      decide
  rw [greatest, e]
  rfl

theorem latest_integers : (History.integers versions).latest =
    if 0 ≤ greatest versions ∧ greatest versions < UInt32.size then .ok (greatest versions).toNat
    else .error (.versionOutOfRange (greatest versions)) := by
  cases versions <;> rfl

end Versions

theorem Fault.exists_message (fault : Fault) :
    ∃ detail, fault.message = "database error: " ++ detail := by
  cases fault with
  | versionOutOfRange version => exact ⟨s!"Integer {version} out of range at index 0", rfl⟩
  | versionIsText =>
    exact ⟨"Invalid column type Text at index: 0, name: COALESCE(MAX(version), 0)", rfl⟩
  | tableExists name => exact ⟨s!"table {name} already exists", rfl⟩
  | indexNamesTable name => exact ⟨s!"there is already an index named {name}", rfl⟩
  | tableNamesIndex name => exact ⟨s!"there is already a table named {name}", rfl⟩
  | indexExists name => exact ⟨s!"index {name} already exists", rfl⟩

/-! ## Tables and indexes -/

namespace Catalog

variable {c c' started : Catalog} {name other : String} {names : List String} {fault : Fault}
  {versions : List Int}

section Creation

/-- A table or an index has the name. -/
def Uses (c : Catalog) (name : String) : Prop := c.hasTable name = true ∨ c.hasIndex name = true

theorem createTable_eq_ok : c.createTable name = .ok c' ↔
    ¬ c.Uses name ∧ { c with tables := c.tables ++ [name] } = c' := by
  rw [createTable, Uses]
  split
  · simp_all
  · split
    · simp_all
    · simp_all

theorem createIndex_eq_ok : c.createIndex name = .ok c' ↔
    ¬ c.Uses name ∧ { c with indexes := c.indexes ++ [name] } = c' := by
  rw [createIndex, Uses]
  split
  · simp_all
  · split
    · simp_all
    · simp_all

theorem uses_tables :
    Uses { c with tables := c.tables ++ names } other ↔
      c.Uses other ∨ ∃ name ∈ names, sameName other name = true := by
  simp only [Uses, hasTable, hasIndex, List.any_append, Bool.or_eq_true, List.any_eq_true (l := names)]
  rw [← or_assoc, or_right_comm]

theorem uses_table :
    Uses { c with tables := c.tables ++ [name] } other ↔ c.Uses other ∨ sameName other name = true := by
  rw [uses_tables]
  simp

theorem uses_index :
    Uses { c with indexes := c.indexes ++ [name] } other ↔ c.Uses other ∨ sameName other name = true := by
  simp only [Uses, hasTable, hasIndex, List.any_append, List.any_cons, List.any_nil, Bool.or_false,
    Bool.or_eq_true, or_assoc]

/-- What creates one table or index at a time creates all of a list, up to the first name in use. -/
theorem foldlM_create {create : Catalog → String → Except Fault Catalog}
    {add : Catalog → String → Catalog}
    (one : ∀ {c c' name}, create c name = .ok c' ↔ ¬ c.Uses name ∧ add c name = c')
    (uses : ∀ {c name other}, (add c name).Uses other ↔ c.Uses other ∨ sameName other name = true)
    (apart : names.Pairwise fun a b => sameName b a = false) :
    names.foldlM create c = .ok c' ↔ (∀ name ∈ names, ¬ c.Uses name) ∧ names.foldl add c = c' := by
  induction names generalizing c with
  | nil => simp
  | cons name rest ih =>
    obtain ⟨differ, apart⟩ := List.pairwise_cons.1 apart
    simp only [List.foldlM_cons, bind_eq_ok, one, ih apart, List.forall_mem_cons]
    constructor
    · rintro ⟨_, ⟨free, rfl⟩, others, e⟩
      exact ⟨⟨free, fun other h used => others other h (uses.2 (Or.inl used))⟩, e⟩
    · rintro ⟨⟨free, others⟩, e⟩
      refine ⟨_, ⟨free, rfl⟩, fun other h used => ?_, e⟩
      -- a later name is not that of what has just been created
      rcases uses.1 used with used | same
      · exact others other h used
      · rw [differ other h] at same
        cases same

theorem foldl_tables : names.foldl (fun c name => { c with tables := c.tables ++ [name] }) c =
    { c with tables := c.tables ++ names } := by
  induction names generalizing c with
  | nil => rw [List.append_nil]; rfl
  | cons name rest ih => rw [List.foldl_cons, ih, List.append_assoc, List.singleton_append]

theorem foldl_indexes : names.foldl (fun c name => { c with indexes := c.indexes ++ [name] }) c =
    { c with indexes := c.indexes ++ names } := by
  induction names generalizing c with
  | nil => rw [List.append_nil]; rfl
  | cons name rest ih => rw [List.foldl_cons, ih, List.append_assoc, List.singleton_append]

theorem schema_apart : (tableNames ++ indexNames).Pairwise fun a b => sameName b a = false := by
  decide +kernel

theorem createSchema_eq_ok : c.createSchema = .ok c' ↔
    (∀ name ∈ tableNames ++ indexNames, ¬ c.Uses name) ∧
      { c with tables := c.tables ++ tableNames, indexes := c.indexes ++ indexNames } = c' := by
  obtain ⟨tables, indexes, across⟩ := List.pairwise_append.1 schema_apart
  simp only [createSchema, bind_eq_ok, foldlM_create createTable_eq_ok uses_table tables,
    foldlM_create createIndex_eq_ok uses_index indexes, foldl_tables, foldl_indexes,
    List.forall_mem_append]
  constructor
  · rintro ⟨_, ⟨free, rfl⟩, free', e⟩
    exact ⟨⟨free, fun name h used => free' name h (uses_tables.2 (Or.inl used))⟩, e⟩
  · rintro ⟨⟨free, free'⟩, e⟩
    refine ⟨_, ⟨free, rfl⟩, fun name h used => ?_, e⟩
    rcases uses_tables.1 used with used | ⟨other, listed, same⟩
    · exact free' name h used
    · rw [across other listed name h] at same
      cases same

end Creation

/-! ## One upgrade -/

section Upgrade

/-- The recorded versions, where the column for them holds integers; none where there is no table for
them yet. -/
def Numbered (c : Catalog) (versions : List Int) : Prop :=
  c.history = none ∧ versions = [] ∨ c.history = some (.integers versions)

/-- A name that the migration is to create is in use, of the table for the versions or in the schema. -/
def Clashes (c : Catalog) : Prop :=
  c.history = none ∧ c.hasIndex historyTable = true ∨
    ∃ name ∈ tableNames ++ indexNames, ∃ other ∈ c.tables ++ c.indexes, sameName name other = true

instance : Decidable c.Clashes :=
  inferInstanceAs (Decidable (c.history = none ∧ c.hasIndex historyTable = true ∨
    ∃ name ∈ tableNames ++ indexNames, ∃ other ∈ c.tables ++ c.indexes, sameName name other = true))

/-- The database with these versions. -/
def recording (c : Catalog) (versions : List Int) : Catalog :=
  { c with history := some (.integers versions) }

/-- The database with the whole schema and the record of its version. -/
def complete (c : Catalog) (versions : List Int) : Catalog where
  history := some (.integers (versions ++ [(currentVersion : Int)]))
  tables := c.tables ++ tableNames
  indexes := c.indexes ++ indexNames

theorem uses_schema (h : name ∈ tableNames ++ indexNames) :
    c.Uses name ↔ ∃ other ∈ c.tables ++ c.indexes, sameName name other = true := by
  have differ : ∀ name ∈ tableNames ++ indexNames, sameName historyTable name = false := by
    decide +kernel
  simp only [Uses, hasTable, hasIndex, differ name h, Bool.and_false, Bool.false_or, List.any_eq_true,
    List.mem_append, or_and_right, exists_or]

theorem recording_self (stored : c.history = some (.integers versions)) :
    c.recording versions = c := by
  rw [recording, ← stored]

theorem withHistory_numbered (numbered : c.Numbered versions)
    (free : c.history = none → c.hasIndex historyTable = false) :
    c.withHistory = .ok (c.recording versions) := by
  rw [withHistory, recording]
  rcases numbered with ⟨none, rfl⟩ | stored
  · rw [none, free none]
    rfl
  · rw [if_pos (by rw [stored]; rfl), ← stored]

section Stored

variable (stored : c.history = some (.integers versions))

include stored

theorem applyPending_current (low : 1 ≤ greatest versions) (high : greatest versions < UInt32.size) :
    c.applyPending = (.ok (), c) := by
  have reached : ¬ (greatest versions).toNat < currentVersion := by
    rw [currentVersion]
    omega
  rw [applyPending, stored, Option.getD_some, latest_integers, if_pos ⟨by omega, high⟩]
  simp only [if_neg reached]

theorem applyPending_created (fresh : greatest versions = 0)
    (free : ∀ name ∈ tableNames ++ indexNames, ¬ c.Uses name) :
    c.applyPending = (.ok (), c.complete versions) := by
  rw [applyPending, stored, Option.getD_some, latest_integers, fresh, createSchema_eq_ok.2 ⟨free, rfl⟩]
  simp only [stored]
  rfl

/-- In every other case nothing is created. -/
theorem applyPending_failed (behind : ¬ (1 ≤ greatest versions ∧ greatest versions < UInt32.size))
    (blocked : greatest versions = 0 → ∃ name ∈ tableNames ++ indexNames, c.Uses name) :
    ∃ fault, c.applyPending = (.error fault, c) := by
  rw [applyPending, stored, Option.getD_some, latest_integers]
  by_cases range : 0 ≤ greatest versions ∧ greatest versions < UInt32.size
  · have fresh : greatest versions = 0 := by omega
    obtain ⟨name, listed, used⟩ := blocked fresh
    rw [if_pos range, fresh]
    cases created : c.createSchema with
    | error fault => exact ⟨fault, rfl⟩
    | ok c' => exact absurd used ((createSchema_eq_ok.1 created).1 name listed)
  · rw [if_neg range]
    exact ⟨_, rfl⟩

end Stored

/-- Where the table for the versions is there or can be created, the rest depends on the versions. -/
theorem upgrade_numbered (numbered : c.Numbered versions)
    (free : c.history = none → c.hasIndex historyTable = false) :
    c.upgrade = (c.recording versions).applyPending := by
  rw [upgrade, withHistory_numbered numbered free]

theorem upgrade_current (numbered : c.Numbered versions) (low : 1 ≤ greatest versions)
    (high : greatest versions < UInt32.size) : c.upgrade = (.ok (), c) := by
  rcases numbered with ⟨_, rfl⟩ | stored
  · exact absurd low (by decide)
  · have there : c.history ≠ none := by rw [stored]; exact nofun
    rw [upgrade_numbered (.inr stored) fun none => absurd none there, recording_self stored,
      applyPending_current stored low high]

theorem upgrade_created (numbered : c.Numbered versions) (fresh : greatest versions = 0)
    (free : ¬ c.Clashes) : c.upgrade = (.ok (), c.complete versions) := by
  obtain ⟨indexed, unused⟩ := not_or.1 free
  rw [upgrade_numbered numbered fun none => Bool.eq_false_iff.2 fun used => indexed ⟨none, used⟩]
  refine applyPending_created rfl fresh fun name listed used => unused ?_
  exact ⟨name, listed, (uses_schema (c := c.recording versions) listed).1 used⟩

theorem upgrade_complete (fresh : greatest versions = 0) :
    (c.complete versions).upgrade = (.ok (), c.complete versions) := by
  have one := greatest_recorded fresh
  have high : greatest (versions ++ [(currentVersion : Int)]) < UInt32.size := by
    rw [one]
    decide
  exact upgrade_current (.inr rfl) (by omega) high

/-- What fails may leave an empty table for the versions, and fails then as it did before. -/
theorem upgrade_failed (numbered : c.Numbered versions)
    (behind : ¬ (1 ≤ greatest versions ∧ greatest versions < UInt32.size))
    (blocked : ¬ (greatest versions = 0 ∧ ¬ c.Clashes)) : ∃ fault c',
      c.upgrade = (.error fault, c') ∧ c'.upgrade = (.error fault, c') ∧
      (c' = c ∨ c.history = none ∧ c' = { c with history := some (.integers []) }) := by
  by_cases indexed : c.history = none ∧ c.hasIndex historyTable = true
  · -- not even that table can be created
    have failed : c.upgrade = (.error (.indexNamesTable historyTable), c) := by
      rw [upgrade, withHistory, indexed.1, indexed.2]
      rfl
    exact ⟨_, c, failed, failed, Or.inl rfl⟩
  · have used (fresh : greatest versions = 0) : ∃ name ∈ tableNames ++ indexNames,
        (c.recording versions).Uses name := by
      have clashes : c.Clashes := Classical.not_not.1 fun free => blocked ⟨fresh, free⟩
      obtain ⟨name, listed, used⟩ := clashes.resolve_left indexed
      exact ⟨name, listed, (uses_schema listed).2 used⟩
    obtain ⟨fault, failed⟩ := applyPending_failed (c := c.recording versions) rfl behind used
    refine ⟨fault, c.recording versions, ?_, ?_, ?_⟩
    · rw [upgrade_numbered numbered fun none => Bool.eq_false_iff.2 fun used => indexed ⟨none, used⟩]
      exact failed
    · rw [upgrade_numbered (c := c.recording versions) (.inr rfl) nofun]
      exact failed
    · rcases numbered with ⟨none, rfl⟩ | stored
      · exact Or.inr ⟨none, rfl⟩
      · exact Or.inl (recording_self stored)

end Upgrade

/-! ## Several upgrades -/

section Runs

variable {result : Except Fault Unit} {times : Nat}

theorem upgradeTimes_succ (h : c.upgrade = (result, c')) : c.upgradeTimes (times + 1) =
    (result :: (c'.upgradeTimes times).1, (c'.upgradeTimes times).2) := by
  rw [upgradeTimes, h]

theorem upgradeTimes_fixed (h : c.upgrade = (result, c)) :
    c.upgradeTimes times = (List.replicate times result, c) := by
  induction times with
  | zero => rfl
  | succ times ih => rw [upgradeTimes_succ h, ih, List.replicate_succ]

theorem upgradeTimes_of_again (h : 1 ≤ times) (first : c.upgrade = (result, c'))
    (again : c'.upgrade = (result, c')) :
    c.upgradeTimes times = (List.replicate times result, c') := by
  cases times with
  | zero => omega
  | succ times => rw [upgradeTimes_succ first, upgradeTimes_fixed again, List.replicate_succ]

end Runs

/-- However often a database is migrated, all runs have the same outcome and later ones change nothing.
At the current version or a later one nothing is done; where no version is applied and no name is in
use the whole schema is created, with a record that is new; in every other case nothing is, and only an
empty table for the versions may have been added. -/
theorem upgradeTimes_settled (numbered : c.Numbered versions) {times : Nat} (h : 1 ≤ times) :
    (1 ≤ greatest versions ∧ greatest versions < UInt32.size →
      c.upgradeTimes times = (List.replicate times (.ok ()), c)) ∧
    (greatest versions = 0 ∧ ¬ c.Clashes → (currentVersion : Int) ∉ versions ∧
      c.upgradeTimes times = (List.replicate times (.ok ()), c.complete versions)) ∧
    (¬ (1 ≤ greatest versions ∧ greatest versions < UInt32.size) →
      ¬ (greatest versions = 0 ∧ ¬ c.Clashes) → ∃ fault c',
        c.upgradeTimes times = (List.replicate times (.error fault), c') ∧
        (∃ detail, fault.message = "database error: " ++ detail) ∧
        (c' = c ∨ c.history = none ∧ c' = { c with history := some (.integers []) })) := by
  refine ⟨fun ⟨low, high⟩ => ?_, fun ⟨fresh, free⟩ => ⟨fun recorded => ?_, ?_⟩, fun behind blocked => ?_⟩
  · exact upgradeTimes_fixed (upgrade_current numbered low high)
  · have := le_greatest recorded
    rw [fresh] at this
    exact absurd this (by decide)
  · exact upgradeTimes_of_again h (upgrade_created numbered fresh free) (upgrade_complete fresh)
  · obtain ⟨fault, c', first, again, left⟩ := upgrade_failed numbered behind blocked
    exact ⟨fault, c', upgradeTimes_of_again h first again, fault.exists_message, left⟩

/-- Versions below the current one are no obstacle, a table whose name differs in case from one of the
schema is, and so is a version out of range. -/
theorem upgradeTimes_settled_cases :
    let behind : Catalog := ⟨some (.integers [0, -7]), ["projects"], ["by_name"]⟩
    let blocked : Catalog := ⟨none, ["Tenants"], []⟩
    let ahead : Catalog := ⟨some (.integers [4294967296, 1]), ["projects"], []⟩
    behind.upgradeTimes 3 = (List.replicate 3 (.ok ()), behind.complete [0, -7]) ∧
    (∃ fault c', blocked.upgradeTimes 3 = (List.replicate 3 (.error fault), c') ∧
      c'.tables = blocked.tables ∧ c'.indexes = blocked.indexes) ∧
    ∃ fault, ahead.upgradeTimes 3 = (List.replicate 3 (.error fault), ahead) := by
  intro behind blocked ahead
  have thrice : 1 ≤ 3 := by decide
  have numbered : behind.Numbered [0, -7] := .inr rfl
  have unnumbered : blocked.Numbered [] := .inl ⟨rfl, rfl⟩
  have numbered' : ahead.Numbered [4294967296, 1] := .inr rfl
  refine ⟨?_, ?_, ?_⟩
  · obtain ⟨_, created, _⟩ := upgradeTimes_settled numbered thrice
    exact (created ⟨by decide, by decide +kernel⟩).2
  · obtain ⟨_, _, failed⟩ := upgradeTimes_settled unnumbered thrice
    obtain ⟨fault, c', runs, _, left⟩ := failed (by decide) (by decide +kernel)
    refine ⟨fault, c', runs, ?_⟩
    rcases left with rfl | ⟨_, rfl⟩ <;> exact ⟨rfl, rfl⟩
  · obtain ⟨_, _, failed⟩ := upgradeTimes_settled numbered' thrice
    obtain ⟨fault, c', runs, _, left⟩ := failed (by decide) (by decide)
    obtain rfl := left.resolve_right nofun
    exact ⟨fault, runs⟩

end Catalog

end TenantAccess.Store.Schema
