import TenantAccess.Proofs.Store.Relations

/-!
# Statements of a relational database

Each statement succeeds with the same change to the tables of the database or fails with it, and
leaves a sound database.
-/

namespace TenantAccess.Store.Database

open Keyed

/-! ## Rows -/

section Rows

variable {R K : Type} [Keyed R K] {rows : List R} {row : R} {k : K} {same : R → Bool}
  {update : R → R}

/-- Amends the rows that are the same as `row`, or else appends it. -/
def upsert (rows : List R) (same : R → Bool) (update : R → R) (row : R) : List R :=
  if rows.any same then amend rows same update else rows ++ [row]

theorem append_keys (h : Distinct rows) (hs : ∀ x, same x = true ↔ key x = key row)
    (miss : rows.any same = false) : Distinct (rows ++ [row]) :=
  h.append_single fun x hx e => by
    have := List.any_eq_false.1 miss x hx
    exact this ((hs x).2 e)

theorem mem_upsert {x : R} (hs : ∀ x, same x = true ↔ key x = key row)
    (hu : ∀ x ∈ rows, key x = key row → update x = row) :
    x ∈ upsert rows same update row ↔ x = row ∨ x ∈ rows ∧ key x ≠ key row := by
  cases hit : rows.any same with
  | true =>
    rw [upsert, if_pos hit, amend, List.mem_map]
    obtain ⟨s, hmem, hsame⟩ := List.any_eq_true.1 hit
    constructor
    · rintro ⟨y, hy, rfl⟩
      split
      · rename_i e
        exact Or.inl (hu y hy ((hs y).1 e))
      · rename_i e
        exact Or.inr ⟨hy, fun hk => e ((hs y).2 hk)⟩
    · rintro (rfl | ⟨hx, hne⟩)
      · exact ⟨s, hmem, by rw [if_pos hsame, hu s hmem ((hs s).1 hsame)]⟩
      · exact ⟨x, hx, if_neg fun e => hne ((hs x).1 e)⟩
  | false =>
    have hmiss := List.any_eq_false.1 hit
    rw [upsert, hit, if_neg Bool.false_ne_true, List.mem_append, List.mem_singleton, or_comm]
    exact or_congr_right (iff_self_and.2 fun hx e => hmiss x hx ((hs x).2 e))

theorem upsert_keys (h : Distinct rows) (hs : ∀ x, same x = true ↔ key x = key row)
    (hu : ∀ x ∈ rows, key x = key row → update x = row) :
    Distinct (upsert rows same update row) := by
  cases hit : rows.any same with
  | true =>
    rw [upsert, if_pos hit]
    refine h.map fun x hx => ?_
    split
    · rename_i e
      rw [hu x hx ((hs x).1 e), (hs x).1 e]
    · rfl
  | false =>
    rw [upsert, hit]
    exact append_keys h hs hit

variable [Ranked K]

theorem ofList_upsert (h : Distinct rows) (hs : ∀ x, same x = true ↔ key x = key row)
    (hu : ∀ x ∈ rows, key x = key row → update x = row) :
    Table.ofList (upsert rows same update row) = (Table.ofList rows).insert row :=
  Table.ext_mem fun x => by
    rw [Table.mem_ofList (upsert_keys h hs hu), mem_upsert hs hu, Table.mem_insert,
      Table.mem_ofList h]

theorem ofList_remove (h : Distinct rows) (hs : ∀ x, same x = true ↔ key x = k) :
    Table.ofList (rows.filter fun x => !same x) = (Table.ofList rows).erase k := by
  refine Table.ext_mem fun x => ?_
  rw [Table.mem_ofList (h.filter _), List.mem_filter, Table.mem_erase, Table.mem_ofList h]
  refine and_congr_right fun _ => ?_
  rw [ne_eq, ← hs x]
  cases same x <;> simp

end Rows

variable {d d' : Database} {c : Change}

theorem Keys.contains_tenants (h : d.Keys) (id : TenantId) :
    d.tables.tenants.contains id = d.hasTenant id :=
  Table.contains_ofList h.tenants (by simp)

theorem Keys.contains_principals (h : d.Keys) (id : PrincipalId) :
    d.tables.principals.contains id = d.hasPrincipal id :=
  Table.contains_ofList h.principals (by simp)

theorem Keys.contains_initiatives (h : d.Keys) (id : InitiativeId) :
    d.tables.initiatives.contains id = d.hasInitiative id :=
  Table.contains_ofList h.initiatives (by simp)

theorem Keys.contains_roles (h : d.Keys) (id : RoleId) :
    d.tables.roles.contains id = d.hasRole id := by
  have e := Table.contains_ofList h.distinct_roles (k := id) (p := fun r => r.id = id) (by simp)
  refine e.trans ?_
  rw [List.any_map]
  simp only [hasRole, Function.comp_def, assemble_id]

theorem Keys.contains_resources (h : d.Keys) (id : ResourceId) :
    d.tables.resources.contains id = d.hasResource id :=
  Table.contains_ofList h.resources (by simp)

/-- How a statement is compared with the step on the tables. -/
theorem Sound.follows (h : d.Sound) (statement : Step Database)
    (hrun : change c d = statement.run d)
    (done : ∀ hit t, Tables.step c d.tables = .ok (hit, t) →
      ∃ d', statement d = .ok (hit, d') ∧ d'.Keys ∧ d'.tables = t)
    (refused : (∀ hit t, Tables.step c d.tables ≠ .ok (hit, t)) →
      ∃ v, statement d = .error (.constraint v)) :
    Follows Sound tables d (change c d) (Tables.step c d.tables) := by
  rw [hrun, Step.run]
  cases hc : Tables.step c d.tables with
  | ok r =>
    obtain ⟨hit, t⟩ := r
    obtain ⟨d', hd, keys, rfl⟩ := done hit t hc
    rw [hd]
    exact .done ⟨keys, h.stored.step hc⟩
  | error e =>
    obtain ⟨v, hd⟩ := refused fun hit t e' => by
      rw [hc] at e'
      cases e'
    obtain ⟨v', rfl⟩ := Tables.step_error hc
    rw [hd]
    exact .refused v v'

theorem Sound.follows_done (h : d.Sound) {hit : Bool} (d' : Database) (keys : d'.Keys)
    (run : change c d = (.ok hit, d')) (step : Tables.step c d.tables = .ok (hit, d'.tables)) :
    Follows Sound tables d (change c d) (Tables.step c d.tables) := by
  rw [run, step]
  exact .done ⟨keys, h.stored.step step⟩

/-! ## References -/

section Enforced

variable {uniques : List (Bool × String)} {references : List Bool}

theorem enforce_ok {u : Unit} : enforce uniques references = .ok u ↔
    (∀ unique ∈ uniques, unique.1 = false) ∧ ∀ reference ∈ references, reference = true := by
  unfold enforce
  cases used : uniques.find? Prod.fst with
  | some unique =>
    have hused := List.find?_some used
    simp only [reduceCtorEq, false_iff, not_and]
    intro free
    rw [free unique (List.mem_of_find?_eq_some used)] at hused
    cases hused
  | none =>
    rw [List.find?_eq_none] at used
    have stored : references.all id = true ↔ ∀ reference ∈ references, reference = true := by simp
    have free : ∀ unique ∈ uniques, unique.1 = false := fun unique hunique => by
      simpa using used unique hunique
    rw [← stored]
    cases references.all id with
    | true => exact ⟨fun _ => ⟨free, rfl⟩, fun _ => rfl⟩
    | false =>
      constructor
      · intro h
        cases h
      · rintro ⟨_, all⟩
        cases all

theorem enforce_error {e : Error} (h : enforce uniques references = .error e) :
    ∃ v, e = .constraint v := by
  unfold enforce at h
  split at h
  · cases h
    exact ⟨_, rfl⟩
  · split at h
    · cases h
    · cases h
      exact ⟨_, rfl⟩

/-- A statement that enforces just what the step on the tables asks for. -/
theorem Sound.follows_enforced (h : d.Sound) (statement : Step Database)
    (hrun : change c d = statement.run d)
    (enforced : statement d = do
      enforce uniques references
      return (true, d'))
    (keys : enforce uniques references = .ok () → d'.Keys)
    (step : ∀ hit t, Tables.step c d.tables = .ok (hit, t) ↔
      enforce uniques references = .ok () ∧ hit = true ∧ d'.tables = t) :
    Follows Sound tables d (change c d) (Tables.step c d.tables) := by
  refine h.follows statement hrun (fun hit t hc => ?_) fun hno => ?_
  · obtain ⟨passes, rfl, rfl⟩ := (step hit t).1 hc
    rw [enforced, passes]
    exact ⟨d', rfl, keys passes, rfl⟩
  · rw [enforced]
    cases passes : enforce uniques references with
    | ok => exact absurd ((step true d'.tables).2 ⟨passes, rfl, rfl⟩) (hno _ _)
    | error e =>
      obtain ⟨v, rfl⟩ := enforce_error passes
      exact ⟨v, rfl⟩

/-- Where a stored row with the key shows that the references are stored, those that are looked up
for an update decide as much as those for a new row. -/
theorem enforce_upsert {R : Type} {rows : List R} {same : R → Bool} {update : R → R} {row : R}
    (early : List Bool) (put : List R → Database)
    (covered : rows.any same = true → ((∀ r ∈ early, r = true) ↔ ∀ r ∈ references, r = true)) :
    (if rows.any same then do
        enforce [] early
        return (true, put (amend rows same update))
      else do
        enforce [] references
        return (true, put (rows ++ [row])) : Except Error (Bool × Database)) = do
      enforce [] references
      return (true, put (upsert rows same update row)) := by
  unfold upsert
  split
  · rename_i hit
    have stored : early.all id = references.all id := by
      rw [Bool.eq_iff_iff]
      simpa using covered hit
    simp only [enforce, List.find?_nil, stored]
  · rfl

end Enforced

/-! ## One relation -/

/-- A relation of a database whose rows make up a table as they are, with what becomes of the database and
of the tables when other rows stand in it. -/
structure Relation (d : Database) (R : Type) {K : Type} [Ranked K] [Keyed R K] where
  rows : List R
  write : List R → Database
  table : Table R → Tables
  distinct : Distinct rows
  keys : ∀ {rows' : List R}, Distinct rows' → (write rows').Keys
  view : ∀ rows' : List R, (write rows').tables = table (.ofList rows')

namespace Relation

variable {R K : Type} [Ranked K] [Keyed R K] {row : R} {k : K} {update : R → R}
  {references : List Bool} {statement : Step Database}

/-- A row is added if its key is free. -/
theorem follows_add (rel : Relation d R) (h : d.Sound) (same : R → Bool) {column : String}
    (hs : ∀ x, same x = true ↔ key x = key row) (hrun : change c d = statement.run d)
    (form : statement d = do
      enforce [(rel.rows.any same, column)] references
      return (true, rel.write (rel.rows ++ [row])))
    (step : ∀ hit t, Tables.step c d.tables = .ok (hit, t) ↔ rel.rows.any same = false ∧
      (∀ r ∈ references, r = true) ∧ hit = true ∧
        rel.table ((Table.ofList rel.rows).insert row) = t) :
    Follows Sound tables d (change c d) (Tables.step c d.tables) := by
  refine h.follows_enforced statement hrun form (fun passes => ?_) fun hit t => ?_
  · have free : rel.rows.any same = false := (enforce_ok.1 passes).1 _ List.mem_cons_self
    exact rel.keys (append_keys rel.distinct hs free)
  · rw [step, enforce_ok, rel.view, Table.ofList_append_single, List.forall_mem_singleton, and_assoc]

/-- A row under a key that is not there yet is added, and else the row with that key is updated. -/
theorem follows_upsert (rel : Relation d R) (h : d.Sound) (same : R → Bool) (early : List Bool)
    (hs : ∀ x, same x = true ↔ key x = key row)
    (hu : ∀ x ∈ rel.rows, key x = key row → update x = row)
    (covered : ∀ x ∈ rel.rows, key x = key row →
      ((∀ r ∈ early, r = true) ↔ ∀ r ∈ references, r = true))
    (hrun : change c d = statement.run d)
    (form : statement d = if rel.rows.any same then do
        enforce [] early
        return (true, rel.write (amend rel.rows same update))
      else do
        enforce [] references
        return (true, rel.write (rel.rows ++ [row])))
    (step : ∀ hit t, Tables.step c d.tables = .ok (hit, t) ↔ (∀ r ∈ references, r = true) ∧
      hit = true ∧ rel.table ((Table.ofList rel.rows).insert row) = t) :
    Follows Sound tables d (change c d) (Tables.step c d.tables) := by
  refine h.follows_enforced statement hrun (form.trans (enforce_upsert early rel.write fun hit => ?_))
    (fun _ => rel.keys (upsert_keys rel.distinct hs hu)) fun hit t => ?_
  · obtain ⟨x, hx, e⟩ := List.any_eq_true.1 hit
    exact covered x hx ((hs x).1 e)
  · rw [step, enforce_ok, rel.view, ofList_upsert rel.distinct hs hu, and_assoc]
    exact (and_iff_right (List.forall_mem_nil _)).symm

/-- The row with a key is removed, if there is one. -/
theorem follows_remove (rel : Relation d R) (h : d.Sound) (same : R → Bool)
    (hs : ∀ x, same x = true ↔ key x = k)
    (run : change c d = (.ok (rel.rows.any same), rel.write (rel.rows.filter fun x => !same x)))
    (step : ∀ hit t, Tables.step c d.tables = .ok (hit, t) ↔
      (Table.ofList rel.rows).contains k = hit ∧ rel.table ((Table.ofList rel.rows).erase k) = t) :
    Follows Sound tables d (change c d) (Tables.step c d.tables) := by
  refine h.follows_done _ (rel.keys (rel.distinct.filter _)) run
    ((step _ _).2 ⟨Table.contains_ofList rel.distinct hs, ?_⟩)
  rw [rel.view, ofList_remove rel.distinct hs]

end Relation

namespace Sound

def tenants (h : d.Sound) : Relation d Tenant where
  rows := d.tenants
  write rows := { d with tenants := rows }
  table t := { d.tables with tenants := t }
  distinct := h.keys.tenants
  keys distinct := { h.keys with tenants := distinct }
  view _ := rfl

def principals (h : d.Sound) : Relation d Principal where
  rows := d.principals
  write rows := { d with principals := rows }
  table t := { d.tables with principals := t }
  distinct := h.keys.principals
  keys distinct := { h.keys with principals := distinct }
  view _ := rfl

def tenantMemberships (h : d.Sound) : Relation d TenantMembership where
  rows := d.tenantMemberships
  write rows := { d with tenantMemberships := rows }
  table t := { d.tables with tenantMemberships := t }
  distinct := h.keys.tenantMemberships
  keys distinct := { h.keys with tenantMemberships := distinct }
  view _ := rfl

def initiatives (h : d.Sound) : Relation d Initiative where
  rows := d.initiatives
  write rows := { d with initiatives := rows }
  table t := { d.tables with initiatives := t }
  distinct := h.keys.initiatives
  keys distinct := { h.keys with initiatives := distinct }
  view _ := rfl

def memberships (h : d.Sound) : Relation d Membership where
  rows := d.memberships
  write rows := { d with memberships := rows }
  table t := { d.tables with memberships := t }
  distinct := h.keys.memberships
  keys distinct := { h.keys with memberships := distinct }
  view _ := rfl

def resources (h : d.Sound) : Relation d Resource where
  rows := d.resources
  write rows := { d with resources := rows }
  table t := { d.tables with resources := t }
  distinct := h.keys.resources
  keys distinct := { h.keys with resources := distinct }
  view _ := rfl

def userGrants (h : d.Sound) : Relation d UserGrant where
  rows := d.userGrants
  write rows := { d with userGrants := rows }
  table t := { d.tables with userGrants := t }
  distinct := h.keys.userGrants
  keys distinct := { h.keys with userGrants := distinct }
  view _ := rfl

def roleGrants (h : d.Sound) : Relation d RoleGrant where
  rows := d.roleGrants
  write rows := { d with roleGrants := rows }
  table t := { d.tables with roleGrants := t }
  distinct := h.keys.roleGrants
  keys distinct := { h.keys with roleGrants := distinct }
  view _ := rfl

/-! ## Statements -/

theorem addTenant (h : d.Sound) (row : Tenant) :
    Follows Sound tables d (change (.addTenant row) d) (Tables.step (.addTenant row) d.tables) := by
  refine h.tenants.follows_add h (fun t => t.id = row.id) (by simp) rfl rfl fun hit t => ?_
  rw [Tables.step_addTenant, h.keys.contains_tenants]
  exact and_congr_right fun _ => (and_iff_right (List.forall_mem_nil _)).symm

theorem addInitiative (h : d.Sound) (row : Initiative) :
    Follows Sound tables d (change (.addInitiative row) d)
      (Tables.step (.addInitiative row) d.tables) := by
  refine h.initiatives.follows_add h (fun i => i.id = row.id) (by simp) rfl rfl fun hit t => ?_
  rw [Tables.step_addInitiative, h.keys.contains_tenants, h.keys.contains_initiatives,
    List.forall_mem_singleton]
  exact and_left_comm

theorem addResource (h : d.Sound) (row : Resource) :
    Follows Sound tables d (change (.addResource row) d)
      (Tables.step (.addResource row) d.tables) := by
  refine h.resources.follows_add h (fun r => r.id = row.id) (by simp) rfl rfl fun hit t => ?_
  rw [Tables.step_addResource, h.keys.contains_initiatives, h.keys.contains_tenants,
    h.keys.contains_resources, List.forall_mem_cons, List.forall_mem_singleton, and_assoc]
  constructor
  · rintro ⟨initiative, tenant, free, done⟩
    exact ⟨free, initiative, tenant, done⟩
  · rintro ⟨free, initiative, tenant, done⟩
    exact ⟨initiative, tenant, free, done⟩

theorem putPrincipal (h : d.Sound) (row : Principal) :
    Follows Sound tables d (change (.putPrincipal row) d)
      (Tables.step (.putPrincipal row) d.tables) := by
  refine h.principals.follows_upsert h (fun p => p.id = row.id) [] (by simp) (fun x _ e => ?_)
    (fun _ _ _ => Iff.rfl) rfl rfl fun hit t => ?_
  · cases row
    simpa using e
  · rw [Tables.step_putPrincipal]
    exact (and_iff_right (List.forall_mem_nil _)).symm

theorem putTenantMembership (h : d.Sound) (row : TenantMembership) :
    Follows Sound tables d (change (.putTenantMembership row) d)
      (Tables.step (.putTenantMembership row) d.tables) := by
  refine h.tenantMemberships.follows_upsert h
    (fun m => m.tenant = row.tenant && m.principal = row.principal) [] (by simp) (fun x _ e => ?_)
    (fun m hm e => ?_) rfl rfl fun hit t => ?_
  · cases row
    simpa using e
  · have refs := h.stored.tenantMembership m ((Table.mem_ofList h.keys.tenantMemberships).2 hm)
    simp only [key_tenantMembership, Prod.mk.injEq] at e
    rw [e.1, e.2, h.keys.contains_tenants, h.keys.contains_principals] at refs
    simpa using refs
  · rw [Tables.step_putTenantMembership, h.keys.contains_tenants, h.keys.contains_principals,
      List.forall_mem_cons, List.forall_mem_singleton, and_assoc]
    rfl

theorem putMembership (h : d.Sound) (row : Membership) :
    Follows Sound tables d (change (.putMembership row) d)
      (Tables.step (.putMembership row) d.tables) := by
  refine h.memberships.follows_upsert h
    (fun m => m.initiative = row.initiative && m.principal = row.principal) [d.hasRole row.role]
    (by simp) (fun x _ e => ?_) (fun m hm e => ?_) rfl rfl fun hit t => ?_
  · cases row
    simpa using e
  · obtain ⟨initiative, principal, _⟩ :=
      h.stored.membership m ((Table.mem_ofList h.keys.memberships).2 hm)
    simp only [key_membership, Prod.mk.injEq] at e
    rw [e.1, h.keys.contains_initiatives] at initiative
    rw [e.2, h.keys.contains_principals] at principal
    simp [initiative, principal]
  · rw [Tables.step_putMembership, h.keys.contains_initiatives, h.keys.contains_principals,
      h.keys.contains_roles, List.forall_mem_cons, List.forall_mem_cons, List.forall_mem_singleton,
      and_assoc, and_assoc]
    rfl

theorem putUserGrant (h : d.Sound) (row : UserGrant) :
    Follows Sound tables d (change (.putUserGrant row) d)
      (Tables.step (.putUserGrant row) d.tables) := by
  refine h.userGrants.follows_upsert h
    (fun g => g.resource = row.resource && g.principal = row.principal) [] (by simp)
    (fun x _ e => ?_) (fun g hg e => ?_) rfl rfl fun hit t => ?_
  · cases row
    simpa using e
  · have refs := h.stored.userGrant g ((Table.mem_ofList h.keys.userGrants).2 hg)
    simp only [key_userGrant, Prod.mk.injEq] at e
    rw [e.1, e.2, h.keys.contains_resources, h.keys.contains_principals] at refs
    simpa using refs
  · rw [Tables.step_putUserGrant, h.keys.contains_resources, h.keys.contains_principals,
      List.forall_mem_cons, List.forall_mem_singleton, and_assoc]
    rfl

theorem putRoleGrant (h : d.Sound) (row : RoleGrant) :
    Follows Sound tables d (change (.putRoleGrant row) d)
      (Tables.step (.putRoleGrant row) d.tables) := by
  refine h.roleGrants.follows_upsert h
    (fun g => g.resource = row.resource && g.role = row.role) [] (by simp)
    (fun x _ e => ?_) (fun g hg e => ?_) rfl rfl fun hit t => ?_
  · cases row
    simpa using e
  · have refs := h.stored.roleGrant g ((Table.mem_ofList h.keys.roleGrants).2 hg)
    simp only [key_roleGrant, Prod.mk.injEq] at e
    rw [e.1, e.2, h.keys.contains_resources, h.keys.contains_roles] at refs
    simpa using refs
  · rw [Tables.step_putRoleGrant, h.keys.contains_resources, h.keys.contains_roles,
      List.forall_mem_cons, List.forall_mem_singleton, and_assoc]
    rfl

theorem removeTenantMembership (h : d.Sound) (tenant : TenantId) (p : PrincipalId) :
    Follows Sound tables d (change (.removeTenantMembership tenant p) d)
      (Tables.step (.removeTenantMembership tenant p) d.tables) :=
  h.tenantMemberships.follows_remove h (fun m => m.tenant = tenant && m.principal = p) (by simp) rfl
    fun _ _ => Tables.step_removeTenantMembership

theorem removeMembership (h : d.Sound) (i : InitiativeId) (p : PrincipalId) :
    Follows Sound tables d (change (.removeMembership i p) d)
      (Tables.step (.removeMembership i p) d.tables) :=
  h.memberships.follows_remove h (fun m => m.initiative = i && m.principal = p) (by simp) rfl
    fun _ _ => Tables.step_removeMembership

theorem removeUserGrant (h : d.Sound) (r : ResourceId) (p : PrincipalId) :
    Follows Sound tables d (change (.removeUserGrant r p) d)
      (Tables.step (.removeUserGrant r p) d.tables) :=
  h.userGrants.follows_remove h (fun g => g.resource = r && g.principal = p) (by simp) rfl
    fun _ _ => Tables.step_removeUserGrant

theorem removeRoleGrant (h : d.Sound) (r : ResourceId) (role : RoleId) :
    Follows Sound tables d (change (.removeRoleGrant r role) d)
      (Tables.step (.removeRoleGrant r role) d.tables) :=
  h.roleGrants.follows_remove h (fun g => g.resource = r && g.role = role) (by simp) rfl
    fun _ _ => Tables.step_removeRoleGrant

theorem removeResource (h : d.Sound) (r : ResourceId) :
    Follows Sound tables d (change (.removeResource r) d)
      (Tables.step (.removeResource r) d.tables) := by
  have hs : ∀ x : Resource, (x.id == r) = true ↔ key x = r := by simp
  have erased : Table.ofList (d.resources.filter fun x => x.id != r) = d.tables.resources.erase r :=
    ofList_remove h.keys.resources hs
  have users := Table.ofList_filter h.keys.userGrants fun g => g.resource != r
  have roles := Table.ofList_filter h.keys.roleGrants fun g => g.resource != r
  refine h.follows_done
    { d with
      resources := d.resources.filter fun x => x.id != r
      userGrants := d.userGrants.filter fun g => g.resource != r
      roleGrants := d.roleGrants.filter fun g => g.resource != r }
    { h.keys with
      resources := h.keys.resources.filter _
      userGrants := h.keys.userGrants.filter _
      roleGrants := h.keys.roleGrants.filter _ } rfl
    (Tables.step_removeResource.2 ⟨h.keys.contains_resources r, ?_⟩)
  rw [h.stored.removeResource r]
  simp only [tables] at erased ⊢
  rw [erased, users, roles]
  rfl

end Sound

end TenantAccess.Store.Database
