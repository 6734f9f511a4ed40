import TenantAccess.Proofs.Store.Agreement

/-!
# What no operation can break

Operations may come in any order and with any arguments, and some of them fail. From the empty store
on every row is found under its key all the same, every reference leads to a stored row, and roles of
one initiative have different names. An operation that fails leaves all rows as they were.

The one change that is not a change to ordered tables is the writing of a role with arbitrary toggles
or into another initiative. A database does it in several statements: first the row of the role, then
toggle after toggle.
-/

namespace TenantAccess.Store

open Keyed
open Faithful (tables Sound)

/-! ## Rows in order -/

/-- The rows of ordered tables as relations. -/
def Tables.relations (t : Tables) : Database where
  tenants := t.tenants.rows
  principals := t.principals.rows
  tenantMemberships := t.tenantMemberships.rows
  initiatives := t.initiatives.rows
  roles := t.roles.rows.map Database.rowOf
  toggles := t.roles.rows.flatMap Role.toggles
  memberships := t.memberships.rows
  resources := t.resources.rows
  userGrants := t.userGrants.rows
  roleGrants := t.roleGrants.rows

theorem Tables.holds_relations (t : Tables) : t.relations.Holds t := by
  constructor <;> exact List.Perm.refl _

/-- A look-up by key finds each of the rows under its own key and nothing else. -/
def Finds {R K : Type} [Keyed R K] (find : K → Option R) (rows : List R) : Prop :=
  ∀ k r, find k = some r ↔ r ∈ rows ∧ key r = k

/-- A store finds each of the rows under its own key. A grant is looked up among those on its
resource. -/
structure FindsRows {σ : Type} [Backend σ] (s : σ) (rows : Database) : Prop where
  tenants : Finds (fun k => Backend.ask (.tenant k) s) rows.tenants
  principals : Finds (fun k => Backend.ask (.principal k) s) rows.principals
  tenantMemberships : Finds (fun k : TenantId × PrincipalId =>
    Backend.ask (.tenantMembership k.1 k.2) s) rows.tenantMemberships
  initiatives : Finds (fun k => Backend.ask (.initiative k) s) rows.initiatives
  roles : Finds (fun k => (Backend.ask (.role k) s).map Database.rowOf) rows.roles
  memberships : Finds (fun k : InitiativeId × PrincipalId =>
    Backend.ask (.membership k.1 k.2) s) rows.memberships
  resources : Finds (fun k => Backend.ask (.resource k) s) rows.resources
  userGrants : Finds (fun k : ResourceId × PrincipalId =>
    (Backend.ask (.userGrants k.1) s).find? fun g => g.principal = k.2) rows.userGrants
  roleGrants : Finds (fun k : ResourceId × RoleId =>
    (Backend.ask (.roleGrants k.1) s).find? fun g => g.role = k.2) rows.roleGrants

/-- Every row that a row names is there, and no two roles of one initiative share a name. -/
structure Database.Linked (d : Database) : Prop where
  tenantMembership : ∀ m ∈ d.tenantMemberships,
    d.hasTenant m.tenant = true ∧ d.hasPrincipal m.principal = true
  initiative : ∀ i ∈ d.initiatives, d.hasTenant i.tenant = true
  role : ∀ r ∈ d.roles, d.hasInitiative r.initiative = true
  membership : ∀ m ∈ d.memberships, d.hasInitiative m.initiative = true ∧
    d.hasPrincipal m.principal = true ∧ d.hasRole m.role = true
  resource : ∀ x ∈ d.resources,
    d.hasInitiative x.initiative = true ∧ d.hasTenant x.tenant = true
  userGrant : ∀ g ∈ d.userGrants,
    d.hasResource g.resource = true ∧ d.hasPrincipal g.principal = true
  roleGrant : ∀ g ∈ d.roleGrants, d.hasResource g.resource = true ∧ d.hasRole g.role = true
  names : d.roles.Pairwise fun r s => r.initiative = s.initiative → r.name ≠ s.name

/-- A store with these rows is in order, and an operation that fails does nothing to it. -/
structure Intact {σ : Type} [Backend σ] (s : σ) (rows : Database) : Prop where
  found : FindsRows s rows
  linked : rows.Linked
  undone : ∀ (op : Operation) (e : Error), (op.run s).1 = .error e → (op.run s).2 = s

section Rows

variable {R K : Type} [Ranked K] [Keyed R K] {t : Table R} {rows : List R}

theorem finds_of_perm (perm : rows.Perm t.rows) : Finds t.find? rows := fun _ _ =>
  Table.find?_eq_some_iff.trans (and_congr_left' perm.mem_iff.symm)

theorem finds_of_filter {p q : K → R → Bool} (perm : rows.Perm t.rows)
    (parts : ∀ k r, (p k r && q k r) = true ↔ key r = k) :
    Finds (fun k => (t.rows.filter (p k)).find? (q k)) rows := fun k r => by
  have same : (t.rows.filter (p k)).find? (q k) = t.find? k := by
    rw [List.find?_filter, Table.find?]
    congr 1
    funext x
    rw [Bool.eq_iff_iff, decide_eq_true_iff, ← Bool.and_eq_true_iff, parts, beq_iff_eq]
    exact ⟨congrArg Ranked.rank, Ranked.rank_injective⟩
  simp only [same]
  exact finds_of_perm perm k r

theorem any_of_perm (perm : rows.Perm t.rows) {k : K} {p : R → Bool}
    (same : ∀ r, p r = true ↔ key r = k) : rows.any p = t.contains k := by
  rw [Bool.eq_iff_iff, List.any_eq_true, Table.contains_iff]
  exact exists_congr fun r => and_congr perm.mem_iff (same r)

end Rows

namespace Database.Holds

variable {d : Database} {t : Tables} (h : d.Holds t)

include h

theorem hasTenant (id : TenantId) : d.hasTenant id = t.tenants.contains id :=
  any_of_perm h.tenants (by simp)

theorem hasPrincipal (id : PrincipalId) : d.hasPrincipal id = t.principals.contains id :=
  any_of_perm h.principals (by simp)

theorem hasInitiative (id : InitiativeId) : d.hasInitiative id = t.initiatives.contains id :=
  any_of_perm h.initiatives (by simp)

theorem hasRole (id : RoleId) : d.hasRole id = t.roles.contains id := by
  rw [Database.hasRole, h.roles.any_eq, List.any_map]
  exact any_of_perm (.refl _) fun _ => decide_eq_true_iff

theorem hasResource (id : ResourceId) : d.hasResource id = t.resources.contains id :=
  any_of_perm h.resources (by simp)

theorem linked (stored : t.Integrity) (apart : t.NamesApart) : d.Linked where
  tenantMembership m hm := by
    rw [h.hasTenant, h.hasPrincipal]
    exact stored.tenantMembership m (h.tenantMemberships.mem_iff.1 hm)
  initiative i hi := by
    rw [h.hasTenant]
    exact stored.initiative i (h.initiatives.mem_iff.1 hi)
  role row hrow := by
    obtain ⟨r, hr, rfl⟩ := h.mem_roles.1 hrow
    rw [h.hasInitiative]
    exact stored.role r hr
  membership m hm := by
    rw [h.hasInitiative, h.hasPrincipal, h.hasRole]
    exact stored.membership m (h.memberships.mem_iff.1 hm)
  resource x hx := by
    rw [h.hasInitiative, h.hasTenant]
    exact stored.resource x (h.resources.mem_iff.1 hx)
  userGrant g hg := by
    rw [h.hasResource, h.hasPrincipal]
    exact stored.userGrant g (h.userGrants.mem_iff.1 hg)
  roleGrant g hg := by
    rw [h.hasResource, h.hasRole]
    exact stored.roleGrant g (h.roleGrants.mem_iff.1 hg)
  names := by
    have names : t.roles.rows.Pairwise fun r s => r.initiative = s.initiative → r.name ≠ s.name :=
      t.roles.distinct_rows.imp_of_mem fun hr hs hne hi hn =>
        hne (congrArg key (apart _ hr _ hs hi hn))
    refine (List.pairwise_map.2 names).perm h.roles.symm fun hne hi hn => ?_
    exact hne hi.symm hn.symm

end Database.Holds

/-- What keeps a store in order. -/
structure Whole {σ : Type} [Backend σ] [Faithful σ] (s : σ) : Prop where
  sound : Sound s
  stored : (tables s).Integrity
  apart : (tables s).NamesApart

/-- How a change ends: with a store in order again and, if it fails, with the same store. -/
structure Kept {σ : Type} [Backend σ] [Faithful σ] (s : σ) (done : Except Error Bool × σ) :
    Prop where
  whole : Whole done.2
  undone : ∀ e, done.1 = .error e → done.2 = s

/-! ## Changes -/

section Stores

variable {σ : Type} [Backend σ] [Faithful σ] {s : σ} {c : Change}

theorem Whole.empty : Whole (Backend.empty : σ) where
  sound := Faithful.empty_sound
  stored := by
    rw [Faithful.tables_empty]
    exact Tables.Consistent.empty.stored
  apart := by
    rw [Faithful.tables_empty]
    exact Tables.NamesApart.empty

theorem Whole.finds (h : Whole s) {rows : Database} (holds : rows.Holds (tables s)) :
    FindsRows s rows := by
  have ask {α : Type} (q : Query α) : Backend.ask q s = Tables.ask q (tables s) :=
    Faithful.ask_eq h.sound q
  constructor <;> simp only [ask]
  · exact finds_of_perm holds.tenants
  · exact finds_of_perm holds.principals
  · exact finds_of_perm holds.tenantMemberships
  · exact finds_of_perm holds.initiatives
  · intro k row
    rw [Option.map_eq_some_iff, holds.mem_roles]
    constructor
    · rintro ⟨r, found, rfl⟩
      obtain ⟨hr, e⟩ := Table.find?_eq_some_iff.1 found
      exact ⟨⟨r, hr, rfl⟩, e⟩
    · rintro ⟨⟨r, hr, rfl⟩, e⟩
      exact ⟨r, Table.find?_eq_some_iff.2 ⟨hr, e⟩, rfl⟩
  · exact finds_of_perm holds.memberships
  · exact finds_of_perm holds.resources
  · exact finds_of_filter holds.userGrants fun k r => by simp [Prod.ext_iff]
  · exact finds_of_filter holds.roleGrants fun k r => by simp [Prod.ext_iff]

theorem Whole.kept (h : Whole s) {done : Except Error Bool × σ}
    (follows : Follows Sound tables s done (Tables.step c (tables s))) : Kept s done := by
  generalize hc : Tables.step c (tables s) = stepped at follows
  cases follows with
  | done sound => exact ⟨⟨sound, h.stored.step hc, h.apart.step hc⟩, fun _ e => by cases e⟩
  | refused => exact ⟨h, fun _ _ => rfl⟩

/-! ## Operations -/

section Operations

variable (changes : ∀ {s : σ}, Whole s → ∀ c, Kept s (Backend.change c s))

include changes

/-- What every change keeps, every operation keeps. -/
theorem Whole.run (h : Whole s) (op : Operation) :
    Whole (op.run s).2 ∧ ∀ e, (op.run s).1 = .error e → (op.run s).2 = s := by
  cases op with
  | change c => exact ⟨(changes h c).whole, (changes h c).undone⟩
  | ask | aclOf | roleMap | managingRoles | heldRole => exact ⟨h, fun _ _ => rfl⟩

theorem Whole.runAll (h : Whole s) (ops : List Operation) : Whole (Operation.runAll ops s) := by
  induction ops generalizing s with
  | nil => exact h
  | cons op rest ih => exact ih (Whole.run changes h op).1

theorem Whole.intact (h : Whole s) {rows : Database} (holds : rows.Holds (tables s)) :
    Intact s rows where
  found := h.finds holds
  linked := holds.linked h.stored h.apart
  undone op := (Whole.run changes h op).2

end Operations

end Stores

theorem Tables.kept {t : Tables} (h : Whole t) (c : Change) : Kept t (Backend.change c t) :=
  h.kept (Tables.change_follows t c)

/-! ## Roles in a database -/

namespace Database

variable {d : Database}

/-- The initiative in which a role ends up: a stored role stays where it is. -/
def homeOf (d : Database) (row : Role) : InitiativeId :=
  match d.roles.find? fun r => r.id = row.id with
  | some stored => stored.initiative
  | none => row.initiative

/-- What the first statement writes of a role: all but its toggles, in the initiative where it is. -/
def bare (d : Database) (row : Role) : Role :=
  Role.plain row.id (d.homeOf row) row.name row.isManager row.position

theorem putRoleRow_bare (row : Role) : putRoleRow (d.bare row) d = putRoleRow row d := by
  cases found : d.roles.find? fun r => r.id = row.id <;>
    simp only [putRoleRow, bare, homeOf, Role.plain, found]

theorem Keys.homeOf_stored (h : d.Keys) (row : Role) {r : Role} (hr : r ∈ d.tables.roles)
    (e : r.id = row.id) : r.initiative = d.homeOf row := by
  obtain ⟨stored, hstored, rfl⟩ := (mem_tables_roles h).1 hr
  have e : stored.id = row.id := assemble_id.symm.trans e
  rw [assemble_initiative]
  simp only [homeOf]
  cases found : d.roles.find? fun r => r.id = row.id with
  | none => exact absurd (decide_eq_true e) (List.find?_eq_none.1 found stored hstored)
  | some first =>
    have hid : first.id = row.id := by simpa using List.find?_some found
    rw [h.roles.eq_of_key hstored (List.mem_of_find?_eq_some found) (e.trans hid.symm)]

theorem Keys.bare_upright (h : d.Keys) (row : Role) :
    (Change.putRole (d.bare row)).Upright d.tables :=
  ⟨.plain, fun _ hr e => h.homeOf_stored row hr e⟩

theorem putToggle_whole (h : Whole d) {x : Toggle} (there : d.hasRole x.role = true) :
    putToggle x d = .ok (true, d.withToggle x) ∧ Whole (d.withToggle x) := by
  have written : putToggle x d = .ok (true, d.withToggle x) := by
    rw [putToggle_eq h.sound.keys, there]
    rfl
  have run : change (.putToggle x) d = (.ok true, d.withToggle x) := by
    simp only [change, Step.run, written]
  have kept := h.kept (Sound.putToggle h.sound x)
  rw [run] at kept
  exact ⟨written, kept.whole⟩

theorem putToggles_whole (h : Whole d) {role : RoleId} (there : d.hasRole role = true)
    (l : List Toggle) (hit : Bool) (start : Database) :
    ∃ d', Step.runAll (fun _ => .ok (hit, d)) (l.map fun x => putToggle { x with role := role })
      start = (.ok hit, d') ∧ Whole d' := by
  induction l generalizing d with
  | nil => exact ⟨d, rfl, h⟩
  | cons x rest ih =>
    obtain ⟨written, whole⟩ := putToggle_whole (x := { x with role := role }) h there
    rw [List.map_cons, runAll_cons d rfl written]
    exact ih whole there

/-- The database without the toggles of a role. -/
def cleared (d : Database) (role : RoleId) : Database :=
  { d with toggles := d.toggles.filter fun x => x.role != role }

/-- After its first two statements the writing of a role comes to that of a role without toggles,
which fits what is stored. -/
theorem cleared_whole (h : Whole d) {row : Role} {hit : Bool} {written : Database}
    (first : putRoleRow row d = .ok (hit, written)) :
    Whole (written.cleared row.id) ∧ (written.cleared row.id).hasRole row.id = true := by
  have run : change (.putRole (d.bare row)) d = (.ok hit, written.cleared row.id) :=
    runAll_cons written ((putRoleRow_bare row).trans first) rfl
  have follows := h.sound.change_follows (h.sound.keys.bare_upright row)
  have whole := (h.kept follows).whole
  rw [run] at follows whole
  refine ⟨whole, ?_⟩
  generalize hc : Tables.step _ d.tables = stepped at follows
  cases follows with
  | done sound =>
    obtain ⟨_, _, _, e⟩ := Tables.step_putRole.1 hc
    rw [← sound.keys.contains_roles, ← e]
    exact Table.contains_iff.2 ⟨_, Table.mem_insert_self, rfl⟩

theorem kept_putRole (h : Whole d) (row : Role) : Kept d (change (.putRole row) d) := by
  cases first : putRoleRow row d with
  | error e =>
    have failed : change (.putRole row) d = (.error e, d) := runAll_of_error first
    rw [failed]
    exact ⟨h, fun _ _ => rfl⟩
  | ok r =>
    obtain ⟨hit, written⟩ := r
    obtain ⟨whole, there⟩ := cleared_whole h first
    obtain ⟨d', run, whole'⟩ := putToggles_whole whole there row.toggles hit d
    have run : change (.putRole row) d = (.ok hit, d') := (runAll_cons written first rfl).trans run
    rw [run]
    exact ⟨whole', fun _ e => by cases e⟩

theorem kept (h : Whole d) (c : Change) : Kept d (Backend.change c d) := by
  cases c with
  | putRole row => exact kept_putRole h row
  | _ => exact h.kept (Sound.change_follows h.sound trivial)

theorem Sound.finds_toggles (h : d.Sound) : Finds (fun k : RoleId × Feature =>
    (Backend.ask (.role k.1) d).bind fun r => r.toggles.find? fun x => x.feature = k.2) d.toggles := by
  intro k x
  have asked : Backend.ask (.role k.1) d = d.tables.roles.find? k.1 := ask_eq h.keys _
  simp only [asked, Option.bind_eq_some_iff, Table.find?_eq_some_iff]
  constructor
  · rintro ⟨r, ⟨hr, e⟩, found⟩
    obtain ⟨row, _, rfl⟩ := (mem_tables_roles h.keys).1 hr
    have hfeature : x.feature = k.2 := by simpa using List.find?_some found
    obtain ⟨hx, own⟩ := (mem_assemble_toggles h.keys.toggles).1 (List.mem_of_find?_eq_some found)
    exact ⟨hx, Prod.ext (own.trans (assemble_id.symm.trans e)) hfeature⟩
  · rintro ⟨hx, rfl⟩
    obtain ⟨row, hrow, e⟩ := h.keys.ownToggles x hx
    have mem {y : Toggle} : y ∈ (d.assemble row).toggles ↔ y ∈ d.toggles ∧ y.role = row.id :=
      mem_assemble_toggles h.keys.toggles
    refine ⟨d.assemble row, ⟨(mem_tables_roles h.keys).2 ⟨row, hrow, rfl⟩, assemble_id.trans e⟩, ?_⟩
    have present : ((d.assemble row).toggles.find? fun y => y.feature = x.feature).isSome = true :=
      List.find?_isSome.2 ⟨x, mem.2 ⟨hx, e.symm⟩, by simp⟩
    obtain ⟨y, found⟩ := Option.isSome_iff_exists.1 present
    have hfeature : y.feature = x.feature := by simpa using List.find?_some found
    obtain ⟨hy, own⟩ := mem.1 (List.mem_of_find?_eq_some found)
    have same : y = x := h.keys.toggles.eq_of_key hy hx (Prod.ext (own.trans e) hfeature)
    exact found.trans (congrArg some same)

end Database

/-- Whatever is done with an empty store of either kind, its rows are in order, and an operation that
fails does nothing. In a database no key is there twice; a toggle, too, is found under its key and
names a stored role. -/
theorem Operation.runAll_intact (ops : List Operation) :
    Intact (runAll ops Tables.empty) (runAll ops Tables.empty).relations ∧
      Intact (runAll ops Database.empty) (runAll ops Database.empty) ∧
      (runAll ops Database.empty).Keys ∧
      Finds (fun k : RoleId × Feature =>
        (Backend.ask (.role k.1) (runAll ops Database.empty)).bind fun r =>
          r.toggles.find? fun x => x.feature = k.2) (runAll ops Database.empty).toggles := by
  have inTables : Whole (runAll ops (Backend.empty : Tables)) := .runAll Tables.kept .empty ops
  have inDatabase : Whole (runAll ops (Backend.empty : Database)) := .runAll Database.kept .empty ops
  have sound : Database.Sound _ := inDatabase.sound
  exact ⟨Whole.intact Tables.kept inTables (Tables.holds_relations _),
    Whole.intact Database.kept inDatabase sound.holds, sound.keys, sound.finds_toggles⟩

end TenantAccess.Store
