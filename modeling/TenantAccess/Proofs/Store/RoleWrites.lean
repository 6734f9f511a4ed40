import TenantAccess.Proofs.Store.Intact

/-!
# What a role that is written reads back as

Ordered tables give back the very role that was written. So does a database, except that a stored role
stays in its initiative: the statement that updates it leaves that column out. Either way all else that
can be asked has the answer that it had.
-/

namespace TenantAccess.Store

open Store (Faithful)
open Store.Faithful (tables Sound)

/-- Whether a question is about roles. -/
def Query.readsRoles : {α : Type} → Query α → Bool
  | _, .role _ | _, .rolesIn _ => true
  | _, _ => false

/-! ## Ordered tables -/

/-- From the store `s` on, a role has been written and nothing else. -/
structure RoleWritten {σ : Type} [Backend σ] (row : Role) (s s' : σ) : Prop where
  found : Backend.ask (.role row.id) s' = some row
  listed : ∀ i r, r.id = row.id →
    (r ∈ Backend.ask (.rolesIn i) s' ↔ r = row ∧ i = row.initiative)
  others : ∀ id, id ≠ row.id → Backend.ask (.role id) s' = Backend.ask (.role id) s
  othersListed : ∀ i r, r.id ≠ row.id →
    (r ∈ Backend.ask (.rolesIn i) s' ↔ r ∈ Backend.ask (.rolesIn i) s)
  elsewhere : ∀ {α : Type} (q : Query α), q.readsRoles = false →
    Backend.ask q s' = Backend.ask q s

/-- The new row takes the place of the one with its key. -/
theorem Tables.insertRole_written (t : Tables) (row : Role) :
    RoleWritten row t { t with roles := t.roles.insert row } := by
  refine
    { found := Table.find?_insert.trans (if_pos rfl)
      listed := fun i r e => ?_
      others := fun id hne => Table.find?_insert.trans (if_neg hne)
      othersListed := fun i r hne => ?_
      elsewhere := fun q aside => ?_ }
  · rw [mem_rolesIn, Table.mem_insert]
    constructor
    · rintro ⟨rfl | ⟨_, hne⟩, rfl⟩
      · exact ⟨rfl, rfl⟩
      · exact absurd e hne
    · rintro ⟨rfl, rfl⟩
      exact ⟨Or.inl rfl, rfl⟩
  · rw [mem_rolesIn, mem_rolesIn, Table.mem_insert]
    refine and_congr_left' ⟨fun h => ?_, fun h => Or.inr ⟨h, hne⟩⟩
    rcases h with rfl | ⟨h, _⟩
    · exact absurd rfl hne
    · exact h
  · cases q with
    | role id => cases aside
    | rolesIn i => cases aside
    | _ => rfl

section

variable {σ : Type} [Backend σ] [Faithful σ] {s s' : σ} {row : Role}

theorem RoleWritten.of_tables (sound : Sound s) (sound' : Sound s')
    (written : RoleWritten row (tables s) (tables s')) : RoleWritten row s s' := by
  have before {α : Type} (q : Query α) : Backend.ask q s = Backend.ask q (tables s) :=
    Faithful.ask_eq sound q
  have after {α : Type} (q : Query α) : Backend.ask q s' = Backend.ask q (tables s') :=
    Faithful.ask_eq sound' q
  constructor <;> simp only [before, after]
  · exact written.found
  · exact written.listed
  · exact written.others
  · exact written.othersListed
  · exact written.elsewhere

theorem RoleWritten.of_follows {hit : Bool} (sound : Sound s)
    (follows : Follows Sound tables s (.ok hit, s') (Tables.step (.putRole row) (tables s))) :
    RoleWritten row s s' := by
  generalize step : Tables.step (.putRole row) (tables s) = r at follows
  cases follows with
  | done sound' =>
    obtain ⟨_, _, _, e⟩ := Tables.step_putRole.1 step
    exact .of_tables sound sound' (e ▸ Tables.insertRole_written _ row)

end

/-! ## Databases -/

namespace Database

variable {d : Database}

/-- A role as a database takes it: a stored role stays in its initiative. -/
def settled (d : Database) (row : Role) : Role := { row with initiative := d.homeOf row }

theorem homeOf_eq (d : Database) (row : Role) : d.homeOf row =
    ((Backend.ask (.role row.id) d).map Role.initiative).getD row.initiative := by
  have asked : Backend.ask (.role row.id) d =
      (d.roles.find? fun r => r.id = row.id).map d.assemble := rfl
  rw [asked, homeOf]
  cases d.roles.find? fun r => r.id = row.id with
  | none => rfl
  | some stored => exact assemble_initiative.symm

theorem settled_eq_iff {row : Role} : d.settled row = row ↔ d.homeOf row = row.initiative :=
  ⟨fun e => congrArg Role.initiative e, fun e => by rw [settled, e]⟩

theorem change_settled (d : Database) (row : Role) :
    change (.putRole (d.settled row)) d = change (.putRole row) d := by
  have first : putRoleRow (d.settled row) d = putRoleRow row d := by
    cases found : d.roles.find? fun r => r.id = row.id <;>
      simp only [putRoleRow, settled, homeOf, found]
  have all (row : Role) : change (.putRole row) d = Step.runAll (fun _ => putRoleRow row d)
      (removeToggles row.id :: row.toggles.map fun t => putToggle { t with role := row.id }) d := rfl
  rw [all, all, first]
  rfl

end Database

/-- A role that has been written to ordered tables is the role that they hold, and all else is as it was.
So it is in a database for a role with tidy toggles, only that a role which is stored already keeps its
initiative: it reads back as it was written just if it was not stored in another one. -/
theorem putRole_reads_back (row : Role) (hit : Bool) :
    (∀ t t' : Tables, Backend.change (.putRole row) t = (.ok hit, t') → RoleWritten row t t') ∧
    ∀ d d' : Database, d.Sound → row.Tidy → Backend.change (.putRole row) d = (.ok hit, d') →
      RoleWritten { row with initiative :=
        ((Backend.ask (.role row.id) d).map Role.initiative).getD row.initiative } d d' ∧
      (RoleWritten row d d' ↔
        ∀ stored, Backend.ask (.role row.id) d = some stored → stored.initiative = row.initiative) := by
  constructor
  · intro t t' done
    exact @RoleWritten.of_follows Tables _ _ t t' row hit trivial
      (done ▸ Tables.change_follows t (.putRole row))
  · intro d d' sound tidy done
    have up : (Change.putRole (d.settled row)).Upright d.tables :=
      ⟨⟨tidy.ordered, tidy.own⟩, fun _ hr e => sound.keys.homeOf_stored row hr e⟩
    have follows := sound.change_follows up
    have done : Database.change (.putRole row) d = (.ok hit, d') := done
    rw [Database.change_settled, done] at follows
    have written : RoleWritten (d.settled row) d d' := .of_follows sound follows
    have stays : d.settled row = row ↔ ∀ stored, Backend.ask (.role row.id) d = some stored →
        stored.initiative = row.initiative := by
      rw [Database.settled_eq_iff, d.homeOf_eq]
      cases Backend.ask (.role row.id) d with
      | none => exact iff_of_true rfl fun _ e => absurd e (Option.some_ne_none _).symm
      | some stored =>
        constructor
        · rintro home _ ⟨⟩
          exact home
        · exact fun home => home stored rfl
    rw [← stays, ← d.homeOf_eq]
    refine ⟨written, fun exact => ?_, fun same => ?_⟩
    · exact Option.some.inj (written.found.symm.trans exact.found)
    · rw [same] at written
      exact written

/-- A stored role with another name and without toggles. -/
theorem putRole_reads_back_renamed :
    let lead : Role :=
      (Role.plain (Supply.numberedId 2) (Supply.numberedId 1) "lead" false 0).withToggle .createDocs true
    let d : Database := Operation.runAll [.change (.addTenant ⟨Supply.numberedId 0, "acme"⟩),
      .change (.addInitiative ⟨lead.initiative, Supply.numberedId 0, "launch"⟩),
      .change (.putRole lead)] .empty
    let head : Role := { lead with name := "head", toggles := [] }
    ∃ d' hit, Backend.change (.putRole head) d = (.ok hit, d') ∧ RoleWritten head d d' := by
  intro lead d head
  have sound : d.Sound := (Whole.runAll Database.kept .empty _).sound
  have succeeds : (Backend.change (.putRole head) d).1.isOk = true := by decide +kernel
  have home : (Backend.ask (.role head.id) d).map Role.initiative = some head.initiative := by
    decide +kernel
  have tidy : head.Tidy := by decide +kernel
  clear_value d
  obtain ⟨hit, done⟩ := exists_of_isOk succeeds
  obtain ⟨written, _⟩ := (putRole_reads_back head hit).2 d _ sound tidy (Prod.ext done rfl)
  rw [home] at written
  exact ⟨_, hit, Prod.ext done rfl, written⟩

/-- A stored role that is written with another initiative moves there in ordered tables. In a database
the write succeeds, but the role does not read back as it was written. -/
theorem putRole_elsewhere :
    let lead : Role :=
      (Role.plain (Supply.numberedId 2) (Supply.numberedId 1) "lead" false 0).withToggle .createDocs true
    let moved : Role := { lead with initiative := Supply.numberedId 3 }
    let ops : List Operation := [.change (.addTenant ⟨Supply.numberedId 0, "acme"⟩),
      .change (.addInitiative ⟨lead.initiative, Supply.numberedId 0, "launch"⟩),
      .change (.addInitiative ⟨moved.initiative, Supply.numberedId 0, "orbit"⟩),
      .change (.putRole lead)]
    let inTables := Backend.change (.putRole moved) (Operation.runAll ops Tables.empty)
    let inDatabase := Backend.change (.putRole moved) (Operation.runAll ops Database.empty)
    moved.Tidy ∧ inTables.1.isOk = true ∧ Backend.ask (.role moved.id) inTables.2 = some moved ∧
      inDatabase.1.isOk = true ∧ Backend.ask (.role moved.id) inDatabase.2 ≠ some moved ∧
      lead ∈ Backend.ask (.rolesIn lead.initiative) inDatabase.2 ∧
      Backend.ask (.rolesIn moved.initiative) inDatabase.2 = [] := by
  decide +kernel

end TenantAccess.Store
