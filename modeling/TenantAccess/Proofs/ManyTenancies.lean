import TenantAccess.Proofs.Naming
import TenantAccess.Proofs.SettingUp

/-!
# Several tenancies in one store

Tenancies that are set up one after the other share no row: each has an administrator, a tenant, an
initiative and roles of its own, and the rows of all of them are all that there is.
-/

namespace TenantAccess

open Store (Tables)
open Store.Backend (ask)
open Transaction Table

namespace Scenario

namespace Tenancy

variable (home : Tenancy)

/-- The numbers of the rows of a tenancy. -/
def numbers : List Nat :=
  [home.admin.id.value, home.tenant.id.value, home.initiative.id.value, home.managerRole.id.value,
    home.memberRole.id.value]

def adminship : TenantMembership := ⟨home.tenant.id, home.admin.id, .admin⟩

def managership : Membership := ⟨home.initiative.id, home.admin.id, home.managerRole.id⟩

/-- The rows belong together. -/
structure Formed : Prop where
  ordinary : home.admin.isPlatformAdmin = false
  initiative : home.initiative.tenant = home.tenant.id
  manager : home.managerRole = .seededManager home.managerRole.id home.initiative.id
  member : home.memberRole = .seededMember home.memberRole.id home.initiative.id

variable {ids : Supply} {adminName tenantName : String}

theorem next_numbers : (next ids adminName tenantName).numbers = ids.upcoming 5 := by
  rw [numbers, next, (ids.draw_eq .principal .tenant).1, ((ids.after 2).draw_eq .initiative .tenant).1]
  have roles := congrArg₂ (fun a b => [a, b]) ((ids.after 3).draw_eq .role .tenant).1
    ((ids.after 4).draw_eq .role .tenant).1
  exact congrArg (List.cons _ <| List.cons _ <| List.cons _ ·) roles

theorem next_formed : (next ids adminName tenantName).Formed := ⟨rfl, rfl, rfl, rfl⟩

end Tenancy

/-! ## Tenancies in one store -/

/-- The rows are those of the tenancies, none of which shares a number with another row, and whatever
resources there are. -/
structure LaidOut (homes : List Tenancy) (t : Tables) : Prop where
  consistent : t.Consistent
  apart : (homes.flatMap Tenancy.numbers).Nodup
  formed : ∀ home ∈ homes, home.Formed
  principals : ∀ p, p ∈ t.principals ↔ ∃ home ∈ homes, p = home.admin
  tenants : ∀ u, u ∈ t.tenants ↔ ∃ home ∈ homes, u = home.tenant
  tenantMemberships : ∀ m, m ∈ t.tenantMemberships ↔ ∃ home ∈ homes, m = home.adminship
  initiatives : ∀ i, i ∈ t.initiatives ↔ ∃ home ∈ homes, i = home.initiative
  roles : ∀ r, r ∈ t.roles ↔ ∃ home ∈ homes, r = home.managerRole ∨ r = home.memberRole
  memberships : ∀ m, m ∈ t.memberships ↔ ∃ home ∈ homes, m = home.managership

namespace LaidOut

variable {homes : List Tenancy} {home : Tenancy} {t : Tables} {ids : Supply} {more : Nat}

theorem none : LaidOut [] .empty := by
  refine ⟨.empty, List.nodup_nil, by simp, ?_, ?_, ?_, ?_, ?_, ?_⟩ <;>
    exact fun _ => iff_of_false not_mem_empty (by simp)

theorem exists_concat {P : Tenancy → Prop} :
    (∃ h ∈ homes ++ [home], P h) ↔ (∃ h ∈ homes, P h) ∨ P home := by
  simp only [List.mem_append, List.mem_singleton, or_and_right, exists_or, exists_eq_left]

theorem mem_insert {R K : Type} [Ranked K] [Keyed R K] {table : Table R} (row : Tenancy → R)
    (rows : ∀ r, r ∈ table ↔ ∃ h ∈ homes, r = row h)
    (free : table.contains (Keyed.key (row home)) = false) (r : R) :
    r ∈ table.insert (row home) ↔ ∃ h ∈ homes ++ [home], r = row h := by
  rw [mem_insert_free free, rows, exists_concat]

theorem named (laid : LaidOut homes t) : ∀ n ∈ homes.flatMap Tenancy.numbers, t.names n = true := by
  intro n hn
  obtain ⟨h, hh, hn⟩ := List.mem_flatMap.1 hn
  simp only [Tenancy.numbers, List.mem_cons, List.not_mem_nil, or_false] at hn
  rw [Tables.names_iff]
  rcases hn with rfl | rfl | rfl | rfl | rfl
  · exact Or.inr (Or.inl ⟨_, (laid.principals _).2 ⟨h, hh, rfl⟩, rfl⟩)
  · exact Or.inl ⟨_, (laid.tenants _).2 ⟨h, hh, rfl⟩, rfl⟩
  · exact Or.inr (Or.inr (Or.inl ⟨_, (laid.initiatives _).2 ⟨h, hh, rfl⟩, rfl⟩))
  · exact Or.inr (Or.inr (Or.inr (Or.inl ⟨_, (laid.roles _).2 ⟨h, hh, Or.inl rfl⟩, rfl⟩)))
  · exact Or.inr (Or.inr (Or.inr (Or.inl ⟨_, (laid.roles _).2 ⟨h, hh, Or.inr rfl⟩, rfl⟩)))

/-- Setting up a tenancy adds its rows and leaves those that are there alone. -/
theorem withTenancy (laid : LaidOut homes t) (formed : home.Formed)
    (drawn : home.numbers = ids.upcoming 5) (fresh : ids.FreshFor 5 t)
    (consistent : (t.withTenancy home).Consistent) :
    LaidOut (homes ++ [home]) (t.withTenancy home) := by
  obtain ⟨apart, unused⟩ := fresh
  rw [← drawn] at apart unused
  have each := unused
  simp only [Tenancy.numbers, List.forall_mem_cons] at each
  obtain ⟨admin, tenant, initiative, manager, member, _⟩ := each
  have admin := (Tables.free_of_names admin).2.1 home.admin.id rfl
  have tenant := (Tables.free_of_names tenant).1 home.tenant.id rfl
  have initiative := (Tables.free_of_names initiative).2.2.1 home.initiative.id rfl
  have manager := (Tables.free_of_names manager).2.2.2 home.managerRole.id rfl
  have member := (Tables.free_of_names member).2.2.2 home.memberRole.id rfl
  have member' : (t.roles.insert home.managerRole).contains home.memberRole.id = false := by
    refine not_contains_iff.2 fun r hr e => ?_
    rcases Table.mem_insert.1 hr with rfl | ⟨hr, _⟩
    · have two : [home.managerRole.id.value, home.memberRole.id.value].Nodup :=
        apart.sublist (List.sublist_append_right [_, _, _] _)
      exact List.pairwise_pair.1 two (congrArg Id.value e)
    · exact not_contains_iff.1 member r hr e
  constructor
  case consistent => exact consistent
  case apart =>
    rw [List.flatMap_append, List.flatMap_singleton]
    refine List.nodup_append.2 ⟨laid.apart, apart, fun a ha b hb e => ?_⟩
    have named := laid.named a ha
    rw [e, unused b hb] at named
    cases named
  case formed =>
    exact List.forall_mem_append.2 ⟨laid.formed, List.forall_mem_singleton.2 formed⟩
  case principals => exact mem_insert Tenancy.admin laid.principals admin
  case tenants => exact mem_insert Tenancy.tenant laid.tenants tenant
  case tenantMemberships =>
    refine mem_insert Tenancy.adminship laid.tenantMemberships (not_contains_iff.2 fun m hm e => ?_)
    obtain ⟨there, _⟩ := laid.consistent.stored.tenantMembership m hm
    exact ne_of_contains tenant there (Prod.mk.inj e).1
  case initiatives => exact mem_insert Tenancy.initiative laid.initiatives initiative
  case roles =>
    intro r
    have added : r ∈ (t.withTenancy home).roles ↔
        r ∈ t.roles ∨ r = home.managerRole ∨ r = home.memberRole :=
      (mem_insert_free member').trans ((or_congr_left (mem_insert_free manager)).trans or_assoc)
    rw [added, laid.roles, exists_concat]
  case memberships =>
    refine mem_insert Tenancy.managership laid.memberships (not_contains_iff.2 fun m hm e => ?_)
    obtain ⟨there, _⟩ := laid.consistent.stored.membership m hm
    exact ne_of_contains initiative there (Prod.mk.inj e).1

/-- Any number of tenancies are set up one after the other. -/
theorem setUps {α : Type} {adminName tenantName : α → String} {settings : Settings}
    (seeds : settings.seedsRoles = true) (joins : settings.creatorJoins = true) {l : List α}
    (adminForm : ∀ a ∈ l, Naming.checkDisplayName "principal" (adminName a) = .ok ())
    (tenantForm : ∀ a ∈ l, Naming.checkDisplayName "tenant" (tenantName a) = .ok ())
    (laid : LaidOut homes t) (fresh : ids.FreshFor (5 * l.length + more) t) :
    ∃ others t', (l.mapM fun a => Tenancy.setUp (adminName a) (tenantName a) : Play Tables (List Tenancy))
        ⟨settings, t, ids⟩ = (.ok others, ⟨settings, t', ids.after (5 * l.length)⟩) ∧
      others.length = l.length ∧ LaidOut (homes ++ others) t' ∧
      (ids.after (5 * l.length)).FreshFor more t' := by
  -- each tenancy starts from the rows and the numbers that the one before it leaves
  induction l generalizing homes t ids with
  | nil =>
    rw [List.length_nil, Nat.mul_zero, Nat.zero_add] at fresh
    exact ⟨[], t, rfl, rfl, by rwa [List.append_nil], fresh⟩
  | cons a rest ih =>
    have five : 5 * (a :: rest).length = 5 + 5 * rest.length := by
      rw [List.length_cons, Nat.mul_add_one, Nat.add_comm]
    rw [five, Nat.add_assoc] at fresh
    obtain ⟨done, ready⟩ := Tenancy.setUp_done ⟨laid.consistent, fresh⟩ seeds joins
      (adminForm a List.mem_cons_self) (tenantForm a List.mem_cons_self)
    have laid := laid.withTenancy Tenancy.next_formed Tenancy.next_numbers fresh.first ready.consistent
    obtain ⟨others, t', done', length, laid, later⟩ :=
      ih (fun b hb => adminForm b (List.mem_cons_of_mem a hb))
        (fun b hb => tenantForm b (List.mem_cons_of_mem a hb)) laid ready.fresh
    rw [Supply.after_after, ← five] at done' later
    rw [List.append_assoc] at laid
    refine ⟨_ :: others, t', ?_, congrArg Nat.succ length, laid, later⟩
    rw [List.mapM_cons]
    exact (bind_done done).trans ((bind_done done').trans rfl)

end LaidOut

/-! ## Numbered tenancies -/

section Many

variable {ids : Supply} {count more : Nat}

/-- There are not so many identifiers that the number of a tenancy makes a name too long. -/
theorem numbered_accepted {what stem : String} {number : Nat} {first : Char}
    (start : stem.toList.head? = some first) (solid : Text.isBlank first = false)
    (short : stem.length ≤ 161) (few : number ≤ 1 <<< 128) :
    Naming.checkDisplayName what (stem ++ toString number) = .ok () := by
  have solid : ∀ c ∈ stem.toList.head?, Text.isBlank c = false := by
    rw [start]
    rintro c ⟨⟩
    exact solid
  have digits : number < 10 ^ 39 := few.trans_lt (by decide)
  have short : stem.length + 39 ≤ 200 := Nat.add_le_add_right short 39
  exact Naming.check_eq_ok.2 (Naming.numbered_wellFormed solid digits short (by decide))

/-- The tenancies that are given back are the first of those that have been set up. -/
theorem manyTenancies_done (fresh : ids.FreshFor (5 * max 1 count + more) .empty) :
    ∃ first others start t ids',
      (Tenancy.setUp "ada" "acme" : Play Tables Tenancy) (Site.fresh default ids) = (.ok first, start) ∧
      (manyTenancies count : Play Tables (List Tenancy)) (Site.fresh default ids) =
        (.ok ((first :: others).take count), ⟨default, t, ids'⟩) ∧
      others.length = count - 1 ∧ LaidOut (first :: others) t ∧ ids'.FreshFor more t := by
  have few : 5 * max 1 count ≤ 1 <<< 128 := fresh.first.count_le
  have total : 5 * max 1 count + more = 5 + (5 * (List.range' 1 (count - 1)).length + more) := by
    rw [List.length_range']
    omega
  have number {i : Nat} (hi : i ∈ List.range' 1 (count - 1)) : i ≤ 1 <<< 128 := by
    have := List.mem_range'_1.1 hi
    omega
  have seeds : (default : Settings).seedsRoles = true := rfl
  have joins : (default : Settings).creatorJoins = true := rfl
  have ada : Naming.checkDisplayName "principal" "ada" = .ok () := by decide
  have acme : Naming.checkDisplayName "tenant" "acme" = .ok () := by decide
  have admins : ∀ i ∈ List.range' 1 (count - 1),
      Naming.checkDisplayName "principal" s!"admin-{i}" = .ok () :=
    fun i hi => numbered_accepted rfl rfl (by decide) (number hi)
  have tenants : ∀ i ∈ List.range' 1 (count - 1),
      Naming.checkDisplayName "tenant" s!"tenant-{i}" = .ok () :=
    fun i hi => numbered_accepted rfl rfl (by decide) (number hi)
  rw [total] at fresh
  obtain ⟨done, ready⟩ := Tenancy.setUp_done ⟨.empty, fresh⟩ seeds joins ada acme
  have laid :=
    LaidOut.none.withTenancy Tenancy.next_formed Tenancy.next_numbers fresh.first ready.consistent
  obtain ⟨others, t, done', length, laid, later⟩ := laid.setUps seeds joins admins tenants ready.fresh
  rw [List.length_range'] at length
  refine ⟨_, others, _, t, _, done, ?_, length, laid, later⟩
  exact (bind_done done).trans ((bind_done done').trans rfl)

end Many

end Scenario

end TenantAccess
