import TenantAccess.Proofs.Store.Faithful
import TenantAccess.Store.Database

/-!
# A relational database as ordered tables

In a sound database no key occurs twice and every reference leads to a row. Then each question has
the answer that the tables of the database give. A role is put together from the toggles that name
it, in whatever order they were written.
-/

namespace TenantAccess.Store

open Keyed

instance : Keyed RoleRow RoleId := ⟨RoleRow.id⟩

instance : Keyed Toggle (RoleId × Feature) := ⟨fun x => (x.role, x.feature)⟩

@[simp] theorem key_roleRow (x : RoleRow) : key x = x.id := rfl

@[simp] theorem key_toggle (x : Toggle) : key x = (x.role, x.feature) := rfl

/-- No relation holds a key twice, and toggles are toggles of stored roles. -/
structure Database.Keys (d : Database) : Prop where
  tenants : Distinct d.tenants
  principals : Distinct d.principals
  tenantMemberships : Distinct d.tenantMemberships
  initiatives : Distinct d.initiatives
  roles : Distinct d.roles
  toggles : Distinct d.toggles
  memberships : Distinct d.memberships
  resources : Distinct d.resources
  userGrants : Distinct d.userGrants
  roleGrants : Distinct d.roleGrants
  ownToggles : ∀ x ∈ d.toggles, ∃ r ∈ d.roles, r.id = x.role

/-- What holds of a database that arises from changes. -/
structure Database.Sound (d : Database) : Prop where
  keys : d.Keys
  stored : d.tables.Integrity

/-! ## Roles and their toggles -/

section Assemble

variable {role : Role} {l : List Toggle} {x : Toggle}

theorem foldl_withToggle (tidy : role.Tidy) (own : ∀ y ∈ l, y.role = role.id) (apart : Distinct l) :
    (l.foldl (fun r t => r.withToggle t.feature t.enabled) role).Tidy ∧
    ∀ x, x ∈ (l.foldl (fun r t => r.withToggle t.feature t.enabled) role).toggles ↔
      x ∈ l ∨ x ∈ role.toggles ∧ ∀ y ∈ l, x.feature ≠ y.feature := by
  induction l generalizing role with
  | nil => simpa using tidy
  | cons y rest ih =>
    have hy := List.pairwise_cons.1 apart
    have own' : ∀ z ∈ rest, z.role = role.id := fun z hz => own z (List.mem_cons_of_mem y hz)
    have later : ∀ z ∈ rest, y.feature ≠ z.feature := fun z hz e => by
      apply hy.1 z hz
      rw [key_toggle, key_toggle, own y List.mem_cons_self, own' z hz, e]
    have same : (⟨role.id, y.feature, y.enabled⟩ : Toggle) = y := by
      rw [← own y List.mem_cons_self]
    obtain ⟨tidy', mem⟩ := ih (tidy.withToggle y.feature y.enabled) own' hy.2
    refine ⟨tidy', fun x => ?_⟩
    rw [List.foldl_cons, mem x, tidy.mem_withToggle, same, List.mem_cons]
    constructor
    · rintro (hx | ⟨rfl | ⟨hx, hne⟩, hrest⟩)
      · exact Or.inl (Or.inr hx)
      · exact Or.inl (Or.inl rfl)
      · refine Or.inr ⟨hx, fun z hz => ?_⟩
        rcases List.mem_cons.1 hz with rfl | hz
        · exact hne
        · exact hrest z hz
    · rintro ((rfl | hx) | ⟨hx, hne⟩)
      · exact Or.inr ⟨Or.inl rfl, later⟩
      · exact Or.inl hx
      · exact Or.inr ⟨Or.inr ⟨hx, hne y List.mem_cons_self⟩,
          fun z hz => hne z (List.mem_cons_of_mem y hz)⟩

theorem foldl_withToggle_fields :
    { l.foldl (fun r t => r.withToggle t.feature t.enabled) role with toggles := role.toggles } =
      role := by
  induction l generalizing role with
  | nil => rfl
  | cons y rest ih =>
    have h := @ih (role.withToggle y.feature y.enabled)
    simp only [Role.withToggle, Role.mk.injEq] at h
    rw [List.foldl_cons]
    simp only [Role.withToggle]
    cases role
    simpa using h

end Assemble

namespace Database

variable {d d' : Database} {row : RoleRow} {x : Toggle}

theorem assemble_fields (d : Database) (row : RoleRow) :
    { d.assemble row with toggles := [] } =
      Role.plain row.id row.initiative row.name row.isManager row.position :=
  foldl_withToggle_fields

@[simp] theorem assemble_id : (d.assemble row).id = row.id := congrArg Role.id (assemble_fields d row)

@[simp] theorem assemble_initiative : (d.assemble row).initiative = row.initiative :=
  congrArg Role.initiative (assemble_fields d row)

@[simp] theorem assemble_name : (d.assemble row).name = row.name :=
  congrArg Role.name (assemble_fields d row)

@[simp] theorem assemble_isManager : (d.assemble row).isManager = row.isManager :=
  congrArg Role.isManager (assemble_fields d row)

@[simp] theorem assemble_position : (d.assemble row).position = row.position :=
  congrArg Role.position (assemble_fields d row)

/-- The toggles of a role are those that name it, in the order of their features. -/
theorem assemble_toggles (h : Distinct d.toggles) (row : RoleRow) :
    (d.assemble row).Tidy ∧
      ∀ x, x ∈ (d.assemble row).toggles ↔ x ∈ d.toggles ∧ x.role = row.id := by
  have own : ∀ y ∈ d.toggles.filter fun t => t.role = row.id, y.role = row.id := fun y hy => by
    simpa using (List.mem_filter.1 hy).2
  have plain : (Role.plain row.id row.initiative row.name row.isManager row.position).Tidy := .plain
  obtain ⟨tidy, mem⟩ := foldl_withToggle plain own (h.filter _)
  refine ⟨tidy, fun x => (mem x).trans ?_⟩
  simp [Role.plain]

theorem assemble_tidy (h : Distinct d.toggles) (row : RoleRow) : (d.assemble row).Tidy :=
  (assemble_toggles h row).1

theorem mem_assemble_toggles (h : Distinct d.toggles) :
    x ∈ (d.assemble row).toggles ↔ x ∈ d.toggles ∧ x.role = row.id :=
  (assemble_toggles h row).2 x

theorem assemble_eq_of (h : Distinct d.toggles) {role : Role} (tidy : role.Tidy)
    (same : ∀ x, x ∈ role.toggles ↔ x ∈ d.toggles ∧ x.role = role.id) :
    d.assemble ⟨role.id, role.initiative, role.name, role.isManager, role.position⟩ = role := by
  have fields := assemble_fields d ⟨role.id, role.initiative, role.name, role.isManager, role.position⟩
  have toggles := (assemble_tidy h ⟨role.id, role.initiative, role.name, role.isManager,
    role.position⟩).toggles_eq tidy fun x => by rw [mem_assemble_toggles h, same]
  cases e : d.assemble ⟨role.id, role.initiative, role.name, role.isManager, role.position⟩
  rw [e] at fields toggles
  cases role
  simp_all [Role.plain]

theorem assemble_congr (h : Distinct d.toggles) (h' : Distinct d'.toggles)
    (same : ∀ x, x.role = row.id → (x ∈ d.toggles ↔ x ∈ d'.toggles)) :
    d.assemble row = d'.assemble row := by
  have e := assemble_eq_of h (assemble_tidy h' row) fun x => by
    rw [mem_assemble_toggles h', assemble_id]
    exact and_congr_left fun e => (same x e).symm
  simpa using e

theorem Keys.distinct_roles (h : d.Keys) : Distinct (d.roles.map d.assemble) := by
  refine List.pairwise_map.2 (h.roles.imp fun hne => ?_)
  simpa using hne

theorem mem_tables_roles (h : d.Keys) {role : Role} :
    role ∈ d.tables.roles ↔ ∃ row ∈ d.roles, d.assemble row = role :=
  (Table.mem_ofList h.distinct_roles).trans List.mem_map

/-! ## Questions -/

theorem select_second {R : Type} {one two : Noun} [Keyed R (Id one × Id two)] {rows : List R}
    (h : Distinct rows) {first : R → Id one} {second : R → Id two}
    (hk : ∀ r, key r = (first r, second r)) (k : Id one) :
    select rows second (fun r => first r = k) =
      (Table.ofList rows).rows.filter fun r => first r = k := by
  refine Table.sortOn_filter h fun a b ha hb => ?_
  have ha : first a = k := by simpa using ha
  have hb : first b = k := by simpa using hb
  simp only [place, Ranked.rank, hk, ha, hb]
  omega

theorem select_first {R : Type} {one two : Noun} [Keyed R (Id one × Id two)] {rows : List R}
    (h : Distinct rows) {first : R → Id one} {second : R → Id two}
    (hk : ∀ r, key r = (first r, second r)) (k : Id two) :
    select rows first (fun r => second r = k) =
      (Table.ofList rows).rows.filter fun r => second r = k := by
  refine Table.sortOn_filter h fun a b ha hb => ?_
  have ha : second a = k := by simpa using ha
  have hb : second b = k := by simpa using hb
  simp only [place, Ranked.rank, hk, ha, hb]
  omega

theorem select_id {R : Type} {noun : Noun} [Keyed R (Id noun)] {rows : List R} (h : Distinct rows)
    (p : R → Bool) : select rows key p = (Table.ofList rows).rows.filter p :=
  Table.sortOn_filter h fun _ _ _ _ => Iff.rfl

/-- The roles of an initiative come by position and, where that is the same, by identifier. -/
theorem ask_rolesIn (h : d.Keys) (i : InitiativeId) :
    ask (.rolesIn i) d = Tables.ask (.rolesIn i) d.tables := by
  have rank : ∀ a b : RoleRow, roleOrder a < roleOrder b ↔
      a.position.toNat < b.position.toNat ∨
        a.position.toNat = b.position.toNat ∧ a.id.value < b.id.value := fun a b => by
    have ha := a.id.bounded
    have hb := b.id.bounded
    simp only [roleOrder]
    omega
  refine eq_of_strictly_sorted (fun r : Role => r.position.toNat <<< 128 + r.id.value) ?_ ?_
    fun role => ?_
  · have perm := sortOn_perm roleOrder (d.roles.filter fun r => r.initiative = i)
    have apart : Distinct (sortOn roleOrder (d.roles.filter fun r => r.initiative = i)) :=
      (h.roles.filter _).perm perm.symm fun hne e => hne e.symm
    refine List.pairwise_map.2 (((sortOn_pairwise roleOrder _).and apart).imp fun {a b} hab => ?_)
    have hne : a.id.value ≠ b.id.value := fun e => hab.2 (Id.eq_of_value e)
    have hle := hab.1
    have ha := a.id.bounded
    have hb := b.id.bounded
    simp only [roleOrder] at hle
    simp only [assemble_position, assemble_id]
    omega
  · have stable := sortOn_stable (fun r : Role => r.position.toNat)
      (d.tables.roles.ordered.filter fun r => r.initiative = i)
    refine stable.imp fun {a b} hab => ?_
    have ha := a.id.bounded
    have hb := b.id.bounded
    simp only [place, Ranked.rank, key_role] at hab
    omega
  · have perm := sortOn_perm roleOrder (d.roles.filter fun r => r.initiative = i)
    have perm' := sortOn_perm (fun r : Role => r.position.toNat)
      (d.tables.roles.rows.filter fun r => r.initiative = i)
    simp only [ask, Tables.ask]
    rw [List.mem_map, perm'.mem_iff, List.mem_filter, ← Table.mem_iff, mem_tables_roles h]
    constructor
    · rintro ⟨row, hrow, rfl⟩
      obtain ⟨hrow, hi⟩ := List.mem_filter.1 (perm.mem_iff.1 hrow)
      exact ⟨⟨row, hrow, rfl⟩, by simpa using hi⟩
    · rintro ⟨⟨row, hrow, rfl⟩, hi⟩
      exact ⟨row, perm.mem_iff.2 (List.mem_filter.2 ⟨hrow, by simpa using hi⟩), rfl⟩

/-- Each question has the answer that the tables give. -/
theorem ask_eq (h : d.Keys) {α : Type} (q : Query α) : ask q d = Tables.ask q d.tables := by
  cases q with
  | tenant id => exact (Table.find?_ofList h.tenants (by simp)).symm
  | principal id => exact (Table.find?_ofList h.principals (by simp)).symm
  | tenantMembership tenant p => exact (Table.find?_ofList h.tenantMemberships (by simp)).symm
  | tenantMembershipsBy p => exact select_first h.tenantMemberships (fun _ => rfl) p
  | initiative id => exact (Table.find?_ofList h.initiatives (by simp)).symm
  | initiativesIn tenant => exact select_id h.initiatives _
  | role id =>
    have e := Table.find?_ofList h.distinct_roles (k := id) (p := fun r => r.id = id) (by simp)
    refine Eq.trans ?_ e.symm
    rw [List.find?_map]
    simp only [ask, Function.comp_def, assemble_id]
  | rolesIn i => exact ask_rolesIn h i
  | membership i p => exact (Table.find?_ofList h.memberships (by simp)).symm
  | membershipsIn i =>
    exact (select_second h.memberships (fun _ => rfl) i).trans (Tables.ask_membershipsIn (t := d.tables)).symm
  | membershipsBy p => exact select_first h.memberships (fun _ => rfl) p
  | resource id => exact (Table.find?_ofList h.resources (by simp)).symm
  | resourcesIn i => exact select_id h.resources _
  | resourcesWithin tenants => exact select_id h.resources _
  | resources =>
    refine (select_id h.resources fun _ => true).trans ?_
    simp [Tables.ask, tables]
  | userGrants r => exact select_second h.userGrants (fun _ => rfl) r
  | roleGrants r => exact select_second h.roleGrants (fun _ => rfl) r
  | grantsToRole r => exact select_first h.roleGrants (fun _ => rfl) r

end Database

end TenantAccess.Store
