import TenantAccess.Proofs.Store.Statements

/-!
# Statements about roles

A role is kept in a row and in rows for its toggles. It is written by several statements, of which
only the first can fail.
-/

namespace TenantAccess.Store.Database

open Keyed

variable {d d' : Database} {c : Change}

/-! ## Deleting a role -/

/-- The database without a role. -/
def withoutRole (d : Database) (role : RoleId) : Database :=
  { d with
    roles := d.roles.filter fun r => r.id != role
    toggles := d.toggles.filter fun t => t.role != role
    roleGrants := d.roleGrants.filter fun g => g.role != role }

theorem Keys.withoutRole (h : d.Keys) (role : RoleId) : (d.withoutRole role).Keys :=
  { h with
    roles := h.roles.filter _
    toggles := h.toggles.filter _
    roleGrants := h.roleGrants.filter _
    ownToggles := fun x hx => by
      obtain ⟨hx, hne⟩ := List.mem_filter.1 hx
      obtain ⟨r, hr, e⟩ := h.ownToggles x hx
      exact ⟨r, List.mem_filter.2 ⟨hr, by rw [e]; exact hne⟩, e⟩ }

theorem tables_withoutRole (h : d.Keys) (role : RoleId) :
    (d.withoutRole role).tables =
      { d.tables with
        roles := d.tables.roles.erase role
        roleGrants := d.tables.roleGrants.filter fun g => g.role != role } := by
  have keys := h.withoutRole role
  have unchanged {row : RoleRow} (hne : row.id ≠ role) :
      (d.withoutRole role).assemble row = d.assemble row :=
    assemble_congr keys.toggles h.toggles fun x e => by simp [withoutRole, e, hne]
  have roles : (d.withoutRole role).tables.roles = d.tables.roles.erase role :=
    Table.ext_mem fun r => by
      rw [mem_tables_roles keys, Table.mem_erase, mem_tables_roles h]
      constructor
      · rintro ⟨row, hrow, rfl⟩
        obtain ⟨hrow, hne⟩ := List.mem_filter.1 hrow
        have hne : row.id ≠ role := by simpa using hne
        exact ⟨⟨row, hrow, (unchanged hne).symm⟩, by simpa using hne⟩
      · rintro ⟨⟨row, hrow, rfl⟩, hne⟩
        have hne : row.id ≠ role := by simpa using hne
        exact ⟨row, List.mem_filter.2 ⟨hrow, by simpa using hne⟩, unchanged hne⟩
  have grants : (d.withoutRole role).tables.roleGrants =
      d.tables.roleGrants.filter fun g => g.role != role :=
    Table.ofList_filter h.roleGrants _
  rw [← roles, ← grants]
  rfl

theorem Sound.removeRole (h : d.Sound) (role : RoleId) :
    Follows Sound tables d (change (.removeRole role) d)
      (Tables.step (.removeRole role) d.tables) := by
  have mem {m : Membership} : m ∈ d.tables.memberships ↔ m ∈ d.memberships :=
    Table.mem_ofList h.keys.memberships
  refine h.follows (Database.removeRole role) rfl (fun hit t hc => ?_) fun hno => ?_
  · obtain ⟨free, rfl, rfl⟩ := Tables.step_removeRole.1 hc
    have free : (d.memberships.any fun m => m.role = role) = false :=
      List.any_eq_false.2 fun m hm => by simpa using free m (mem.2 hm)
    refine ⟨d.withoutRole role, ?_, h.keys.withoutRole role, ?_⟩
    · rw [h.keys.contains_roles]
      simp only [Database.removeRole, free]
      rfl
    · rw [h.stored.removeRole role, tables_withoutRole h.keys]
  · cases used : d.memberships.any fun m => m.role = role with
    | true => exact ⟨_, by simp only [Database.removeRole, used]; rfl⟩
    | false =>
      refine absurd (Tables.step_removeRole.2 ⟨fun m hm => ?_, rfl, rfl⟩) (hno _ _)
      simpa using List.any_eq_false.1 used m (mem.1 hm)

/-- How the table of roles changes when the row and the toggles of one role do. -/
theorem tables_roles_insert (h : d.Keys) (h' : d'.Keys) {role : Role} (tidy : role.Tidy)
    (written : ⟨role.id, role.initiative, role.name, role.isManager, role.position⟩ ∈ d'.roles)
    (others : ∀ r : RoleRow, r.id ≠ role.id → (r ∈ d'.roles ↔ r ∈ d.roles))
    (toggles : ∀ x, x ∈ role.toggles ↔ x ∈ d'.toggles ∧ x.role = role.id)
    (otherToggles : ∀ x : Toggle, x.role ≠ role.id → (x ∈ d'.toggles ↔ x ∈ d.toggles)) :
    d'.tables.roles = d.tables.roles.insert role := by
  have changed := assemble_eq_of h'.toggles tidy toggles
  have unchanged {row : RoleRow} (hne : row.id ≠ role.id) : d'.assemble row = d.assemble row :=
    assemble_congr h'.toggles h.toggles fun x e => otherToggles x (e ▸ hne)
  refine Table.ext_mem fun r => ?_
  rw [mem_tables_roles h', Table.mem_insert, mem_tables_roles h]
  constructor
  · rintro ⟨row, hrow, rfl⟩
    by_cases e : row.id = role.id
    · rw [h'.roles.eq_of_key hrow written e]
      exact Or.inl changed
    · exact Or.inr ⟨⟨row, (others row e).1 hrow, (unchanged e).symm⟩, by simpa using e⟩
  · rintro (rfl | ⟨⟨row, hrow, rfl⟩, e⟩)
    · exact ⟨_, written, changed⟩
    · have e : row.id ≠ role.id := by simpa using e
      exact ⟨row, (others row e).2 hrow, unchanged e⟩

/-! ## Toggles -/

/-- The database with a toggle written over what is stored of it. -/
def withToggle (d : Database) (row : Toggle) : Database :=
  { d with
    toggles := upsert d.toggles (fun x => x.role = row.role && x.feature = row.feature)
      (fun x => { x with enabled := row.enabled }) row }

section WithToggle

variable {row : Toggle}

theorem same_toggle (x : Toggle) :
    (decide (x.role = row.role) && decide (x.feature = row.feature)) = true ↔ key x = key row := by
  simp

theorem update_toggle {x : Toggle} (e : key x = key row) : { x with enabled := row.enabled } = row := by
  cases row
  simpa using e

theorem mem_withToggle {x : Toggle} :
    x ∈ (d.withToggle row).toggles ↔ x = row ∨ x ∈ d.toggles ∧ key x ≠ key row :=
  mem_upsert same_toggle fun _ _ => update_toggle

theorem Keys.withToggle (h : d.Keys) (there : d.hasRole row.role = true) :
    (d.withToggle row).Keys :=
  { h with
    toggles := upsert_keys h.toggles same_toggle fun _ _ => update_toggle
    ownToggles := fun x hx => by
      rcases mem_withToggle.1 hx with rfl | ⟨hx, _⟩
      · obtain ⟨r, hr, e⟩ := List.any_eq_true.1 there
        exact ⟨r, hr, by simpa using e⟩
      · exact h.ownToggles x hx }

theorem putToggle_eq (h : d.Keys) : putToggle row d = do
    enforce [] [d.hasRole row.role]
    return (true, d.withToggle row) := by
  refine enforce_upsert [] (fun rows => { d with toggles := rows }) fun hit => ?_
  obtain ⟨x, hx, e⟩ := List.any_eq_true.1 hit
  obtain ⟨r, hr, e'⟩ := h.ownToggles x hx
  have e := (same_toggle x).1 e
  simp only [key_toggle, Prod.mk.injEq] at e
  have there : d.hasRole row.role = true :=
    List.any_eq_true.2 ⟨r, hr, decide_eq_true (e'.trans e.1)⟩
  simp [there]

theorem tables_withToggle (h : d.Keys) {stored : RoleRow} (hstored : stored ∈ d.roles)
    (hid : stored.id = row.role) :
    (d.withToggle row).tables = { d.tables with
      roles := d.tables.roles.insert
        ((d.assemble stored).withToggle row.feature row.enabled) } := by
  have there : d.hasRole row.role = true := List.any_eq_true.2 ⟨stored, hstored, by simpa using hid⟩
  have tidy := assemble_tidy h.toggles stored
  have roles := tables_roles_insert h (h.withToggle there) (tidy.withToggle row.feature row.enabled)
    (by simpa [Role.withToggle, Database.withToggle] using hstored) (fun _ _ => Iff.rfl)
    (fun x => by
      rw [tidy.mem_withToggle, mem_assemble_toggles h.toggles, mem_withToggle]
      simp only [Role.withToggle, assemble_id, hid, key_toggle, ne_eq, Prod.mk.injEq]
      constructor
      · rintro (rfl | ⟨⟨hx, e⟩, hne⟩)
        · exact ⟨Or.inl rfl, rfl⟩
        · exact ⟨Or.inr ⟨hx, fun e' => hne e'.2⟩, e⟩
      · rintro ⟨rfl | ⟨hx, hne⟩, e⟩
        · exact Or.inl rfl
        · exact Or.inr ⟨⟨hx, e⟩, fun e' => hne ⟨e, e'⟩⟩)
    fun x hne => by
      have hne : x.role ≠ row.role := by simpa [Role.withToggle, hid] using hne
      rw [mem_withToggle, key_toggle, key_toggle]
      constructor
      · rintro (rfl | ⟨hx, _⟩)
        · exact absurd rfl hne
        · exact hx
      · exact fun hx => Or.inr ⟨hx, fun e => hne (Prod.mk.inj e).1⟩
  rw [← roles]
  rfl

end WithToggle

theorem Sound.putToggle (h : d.Sound) (row : Toggle) :
    Follows Sound tables d (change (.putToggle row) d)
      (Tables.step (.putToggle row) d.tables) := by
  refine h.follows_enforced (Database.putToggle row) rfl (putToggle_eq h.keys) (fun passes => ?_)
    fun hit t => ?_
  · exact h.keys.withToggle ((enforce_ok.1 passes).2 _ List.mem_cons_self)
  · rw [Tables.step_putToggle, enforce_ok]
    constructor
    · rintro ⟨rfl, r, found, rfl⟩
      obtain ⟨hr, hid⟩ := Table.find?_eq_some_iff.1 found
      obtain ⟨stored, hstored, rfl⟩ := (mem_tables_roles h.keys).1 hr
      have hid : stored.id = row.role := by simpa using hid
      have there : d.hasRole row.role = true :=
        List.any_eq_true.2 ⟨stored, hstored, by simpa using hid⟩
      exact ⟨by simp [there], rfl, tables_withToggle h.keys hstored hid⟩
    · rintro ⟨⟨_, there⟩, rfl, rfl⟩
      obtain ⟨stored, hstored, hid⟩ := List.any_eq_true.1 (there _ List.mem_cons_self)
      have hid : stored.id = row.role := by simpa using hid
      have found : d.tables.roles.find? row.role = some (d.assemble stored) :=
        Table.find?_eq_some_iff.2 ⟨(mem_tables_roles h.keys).2 ⟨stored, hstored, rfl⟩, by simpa using hid⟩
      exact ⟨rfl, _, found, (tables_withToggle h.keys hstored hid).symm⟩

theorem runAll_of_error {first : Step Database} {rest : List (Step Database)} {e : Error}
    (h : first d = .error e) : Step.runAll first rest d = (.error e, d) := by
  simp only [Step.runAll, Step.run, h]
  induction rest with
  | nil => rfl
  | cons _ _ ih => exact ih

theorem runAll_cons {first next : Step Database} {rest : List (Step Database)} {hit hit' : Bool}
    {d₂ : Database} (d₁ : Database) (h : first d = .ok (hit, d₁)) (h' : next d₁ = .ok (hit', d₂)) :
    Step.runAll first (next :: rest) d = Step.runAll (fun _ => .ok (hit, d₂)) rest d := by
  simp only [Step.runAll, Step.run, List.foldl_cons, h, h']

theorem runAll_putToggle {l : List Toggle} {hit : Bool} {start : Database}
    (apart : Distinct (d.toggles ++ l)) (stored : ∀ x ∈ l, d.hasRole x.role = true) :
    Step.runAll (fun _ => .ok (hit, d)) (l.map putToggle) start =
      (.ok hit, { d with toggles := d.toggles ++ l }) := by
  induction l generalizing d with
  | nil => simp [Step.runAll, Step.run]
  | cons x rest ih =>
    have free : (d.toggles.any fun y => decide (y.role = x.role) && decide (y.feature = x.feature)) =
        false := List.any_eq_false.2 fun y hy e => by
      have hne := (List.pairwise_append.1 apart).2.2 y hy x List.mem_cons_self
      simp only [key_toggle] at hne
      exact hne (by simpa using e)
    have written : putToggle x d = .ok (true, { d with toggles := d.toggles ++ [x] }) := by
      have there := stored x List.mem_cons_self
      simp [putToggle, free, enforce, there]
    have next := ih (d := { d with toggles := d.toggles ++ [x] }) (by simpa using apart)
      fun y hy => stored y (List.mem_cons_of_mem x hy)
    rw [List.map_cons, runAll_cons d rfl written, next]
    simp

/-! ## Writing a role -/

/-- The row of a role, without its toggles. -/
def rowOf (role : Role) : RoleRow :=
  ⟨role.id, role.initiative, role.name, role.isManager, role.position⟩

theorem Keys.roleNameTaken (h : d.Keys) (row : Role) :
    d.tables.roleNameTaken row = d.roleNameTaken row.id row.initiative row.name := by
  rw [Bool.eq_iff_iff, Tables.roleNameTaken, Database.roleNameTaken, List.any_eq_true,
    List.any_eq_true]
  constructor
  · rintro ⟨r, hr, e⟩
    obtain ⟨stored, hstored, rfl⟩ := (mem_tables_roles h).1 hr
    exact ⟨stored, hstored, by simpa using e⟩
  · rintro ⟨stored, hstored, e⟩
    exact ⟨_, (mem_tables_roles h).2 ⟨stored, hstored, rfl⟩, by simpa using e⟩

/-- The row of a role is written unless its name is taken or its initiative is missing. -/
theorem putRoleRow_eq (h : d.Sound) {row : Role}
    (same : ∀ r ∈ d.tables.roles, r.id = row.id → r.initiative = row.initiative) :
    putRoleRow row d =
      if d.roleNameTaken row.id row.initiative row.name = true then
        .error (.constraint (.notUnique roleNameKey))
      else if d.hasInitiative row.initiative = true then
        .ok (true,
          { d with
            roles := upsert d.roles (fun r => r.id = row.id) (fun r =>
              { r with name := row.name, isManager := row.isManager, position := row.position })
              (rowOf row) })
      else .error (.constraint .danglingReference) := by
  simp only [putRoleRow]
  cases found : d.roles.find? fun r => r.id = row.id with
  | some stored =>
    have hmem := List.mem_of_find?_eq_some found
    have hid : stored.id = row.id := by simpa using List.find?_some found
    have hrole := (mem_tables_roles h.keys).2 ⟨stored, hmem, rfl⟩
    have hi : stored.initiative = row.initiative := by simpa using same _ hrole (by simpa using hid)
    have there : d.hasInitiative row.initiative = true := by
      have := h.stored.role _ hrole
      rw [h.keys.contains_initiatives, assemble_initiative, hi] at this
      exact this
    have hit : (d.roles.any fun r => r.id = row.id) = true :=
      List.any_eq_true.2 ⟨stored, hmem, by simpa using hid⟩
    simp only [hi, enforce, there, upsert, hit]
    cases d.roleNameTaken row.id row.initiative row.name <;> rfl
  | none =>
    have miss : (d.roles.any fun r => r.id = row.id) = false :=
      List.any_eq_false.2 fun r hr => List.find?_eq_none.1 found r hr
    simp only [enforce, upsert, miss]
    cases d.roleNameTaken row.id row.initiative row.name <;>
      cases d.hasInitiative row.initiative <;> rfl

/-- The database with a role written over what is stored of it. -/
def withRole (d : Database) (role : Role) : Database :=
  { d with
    roles := upsert d.roles (fun r => r.id = role.id) (fun r =>
      { r with name := role.name, isManager := role.isManager, position := role.position })
      (rowOf role)
    toggles := d.toggles.filter (fun t => t.role != role.id) ++ role.toggles }

section WithRole

variable {role : Role} (h : d.Sound) (tidy : role.Tidy)
  (same : ∀ r ∈ d.tables.roles, r.id = role.id → r.initiative = role.initiative)

include h same in
/-- The update of a stored row makes it the new one, for the initiative stays. -/
theorem update_eq_rowOf {r : RoleRow} (hr : r ∈ d.roles) (e : key r = key (rowOf role)) :
    { r with name := role.name, isManager := role.isManager, position := role.position } =
      rowOf role := by
  have hi := same _ ((mem_tables_roles h.keys).2 ⟨r, hr, rfl⟩) (by simpa [rowOf] using e)
  simp only [assemble_initiative] at hi
  simp only [key_roleRow, rowOf] at e
  rw [rowOf, ← e, ← hi]

theorem same_rowOf (r : RoleRow) : decide (r.id = role.id) = true ↔ key r = key (rowOf role) := by
  simp [rowOf]

include h same in
theorem mem_withRole_roles {r : RoleRow} :
    r ∈ (d.withRole role).roles ↔ r = rowOf role ∨ r ∈ d.roles ∧ r.id ≠ role.id :=
  mem_upsert same_rowOf fun _ => update_eq_rowOf h same

theorem mem_withRole_toggles {x : Toggle} :
    x ∈ (d.withRole role).toggles ↔ x ∈ role.toggles ∨ x ∈ d.toggles ∧ x.role ≠ role.id := by
  simp only [withRole, List.mem_append, List.mem_filter, bne_iff_ne, or_comm]

include h tidy same in
theorem withRole_keys : (d.withRole role).Keys := by
  have apart : Distinct (d.withRole role).toggles := by
    refine List.pairwise_append.2 ⟨h.keys.toggles.filter _, ?_, fun x hx y hy e => ?_⟩
    · refine tidy.ordered.imp fun {a b} hlt e => ?_
      rw [(Prod.mk.inj e).2] at hlt
      omega
    · have hne := (List.mem_filter.1 hx).2
      rw [(Prod.mk.inj e).1, tidy.own y hy] at hne
      simp at hne
  refine
    { h.keys with
      roles := upsert_keys h.keys.roles same_rowOf fun _ => update_eq_rowOf h same
      toggles := apart
      ownToggles := fun x hx => ?_ }
  rcases mem_withRole_toggles.1 hx with hx | ⟨hx, hne⟩
  · exact ⟨rowOf role, (mem_withRole_roles h same).2 (Or.inl rfl), (tidy.own x hx).symm⟩
  · obtain ⟨r, hr, e⟩ := h.keys.ownToggles x hx
    exact ⟨r, (mem_withRole_roles h same).2 (Or.inr ⟨hr, e ▸ hne⟩), e⟩

include h tidy same in
theorem tables_withRole :
    (d.withRole role).tables = { d.tables with roles := d.tables.roles.insert role } := by
  have roles := tables_roles_insert h.keys (withRole_keys h tidy same) tidy
    ((mem_withRole_roles h same).2 (Or.inl rfl))
    (fun r hne => by
      rw [mem_withRole_roles h same]
      constructor
      · rintro (rfl | ⟨hr, _⟩)
        · exact absurd rfl hne
        · exact hr
      · exact fun hr => Or.inr ⟨hr, hne⟩)
    (fun x => by
      rw [mem_withRole_toggles]
      constructor
      · exact fun hx => ⟨Or.inl hx, tidy.own x hx⟩
      · rintro ⟨hx | ⟨_, hne⟩, e⟩
        · exact hx
        · exact absurd e hne)
    fun x hne => by
      rw [mem_withRole_toggles]
      constructor
      · rintro (hx | ⟨hx, _⟩)
        · exact absurd (tidy.own x hx) hne
        · exact hx
      · exact fun hx => Or.inr ⟨hx, hne⟩
  rw [← roles]
  rfl

include h tidy same in
/-- Once the row of the role is written, no statement about its toggles fails. -/
theorem change_putRole_eq (written : putRoleRow role d = .ok (true,
      { d with roles := (d.withRole role).roles })) :
    change (.putRole role) d = (.ok true, d.withRole role) := by
  have own : ∀ x ∈ role.toggles, ({ x with role := role.id } : Toggle) = x := fun x hx => by
    rw [← tidy.own x hx]
  have stored : ∀ x ∈ role.toggles, (d.withRole role).hasRole x.role = true := fun x hx =>
    List.any_eq_true.2 ⟨rowOf role, (mem_withRole_roles h same).2 (Or.inl rfl),
      decide_eq_true (tidy.own x hx).symm⟩
  simp only [change]
  rw [List.map_congr_left fun x hx => by rw [own x hx], runAll_cons _ written rfl]
  exact runAll_putToggle (withRole_keys h tidy same).toggles stored

end WithRole

theorem Sound.putRole (h : d.Sound) {row : Role} (tidy : row.Tidy)
    (same : ∀ r ∈ d.tables.roles, r.id = row.id → r.initiative = row.initiative) :
    Follows Sound tables d (change (.putRole row) d) (Tables.step (.putRole row) d.tables) := by
  have first := putRoleRow_eq h same
  have step {hit : Bool} {t : Tables} : Tables.step (.putRole row) d.tables = .ok (hit, t) ↔
      d.hasInitiative row.initiative = true ∧ d.roleNameTaken row.id row.initiative row.name = false ∧
        hit = true ∧ { d.tables with roles := d.tables.roles.insert row } = t := by
    rw [Tables.step_putRole, h.keys.contains_initiatives, h.keys.roleNameTaken]
  cases hc : Tables.step (.putRole row) d.tables with
  | error e =>
    obtain ⟨v, rfl⟩ := Tables.step_error hc
    have failed : ∃ v, putRoleRow row d = .error (.constraint v) := by
      rw [first]
      cases taken : d.roleNameTaken row.id row.initiative row.name with
      | true => exact ⟨_, rfl⟩
      | false =>
        cases there : d.hasInitiative row.initiative with
        | false => exact ⟨_, rfl⟩
        | true =>
          have done := step.2 ⟨there, taken, rfl, rfl⟩
          rw [hc] at done
          cases done
    obtain ⟨v', failed⟩ := failed
    have all : change (.putRole row) d = (.error (.constraint v'), d) := runAll_of_error failed
    rw [all]
    exact .refused v' v
  | ok r =>
    obtain ⟨hit, t⟩ := r
    obtain ⟨there, free, rfl, rfl⟩ := step.1 hc
    rw [free, if_neg Bool.false_ne_true, if_pos there] at first
    rw [← hc]
    exact h.follows_done (d.withRole row) (withRole_keys h tidy same)
      (change_putRole_eq h tidy same first)
      (hc.trans (by rw [tables_withRole h tidy same]))

/-! ## All changes -/

/-- Each change to a sound database is the same change to its tables. -/
theorem Sound.change_follows (h : d.Sound) (up : c.Upright d.tables) :
    Follows Sound tables d (change c d) (Tables.step c d.tables) := by
  cases c with
  | addTenant row => exact h.addTenant row
  | putPrincipal row => exact h.putPrincipal row
  | putTenantMembership row => exact h.putTenantMembership row
  | removeTenantMembership tenant p => exact h.removeTenantMembership tenant p
  | addInitiative row => exact h.addInitiative row
  | putRole row => exact h.putRole up.1 up.2
  | removeRole role => exact h.removeRole role
  | putToggle row => exact h.putToggle row
  | putMembership row => exact h.putMembership row
  | removeMembership i p => exact h.removeMembership i p
  | addResource row => exact h.addResource row
  | removeResource r => exact h.removeResource r
  | putUserGrant row => exact h.putUserGrant row
  | removeUserGrant r p => exact h.removeUserGrant r p
  | putRoleGrant row => exact h.putRoleGrant row
  | removeRoleGrant r role => exact h.removeRoleGrant r role

theorem Sound.empty : Sound Database.empty where
  keys := by constructor <;> first | exact Distinct.nil | simp [Database.empty]
  stored := Tables.Consistent.empty.stored

end TenantAccess.Store.Database

namespace TenantAccess.Store

instance : Faithful Database where
  tables := Database.tables
  Sound := Database.Sound
  empty_sound := .empty
  tables_empty := rfl
  ask_eq h _ q := Database.ask_eq h.keys q
  change_follows h _ up := h.change_follows up

end TenantAccess.Store
