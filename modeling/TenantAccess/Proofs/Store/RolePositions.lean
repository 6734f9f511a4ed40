import Mathlib.Data.List.Pairwise
import TenantAccess.Proofs.Store.Step

/-!
# Positions of roles

Roles of one initiative do not share a position, so that there is one way only to list them. What is done
to the roles shows in the list: roles are added at the end, taken out or written over in their place.
-/

namespace TenantAccess

open Table

/-- The manager role that an initiative starts with goes before the other one, and both before custom
roles. -/
def Role.grade (role : Role) : Nat :=
  if role.name = managerName then 0 else if role.name = memberName then 1 else 2

/-! ## Roles in their places -/

namespace Store.Tables

/-- No two roles of an initiative share a position, built-in ones come first, and all positions are below
a bound. -/
structure Placed (bound : Nat) (t : Tables) : Prop where
  apart : ∀ a ∈ t.roles, ∀ b ∈ t.roles, a.initiative = b.initiative → a.position = b.position → a = b
  graded : ∀ a ∈ t.roles, ∀ b ∈ t.roles, a.initiative = b.initiative → a.grade < b.grade →
    a.position < b.position
  below : ∀ r ∈ t.roles, r.position.toNat < bound

/-- The roles of an initiative as they are listed, by their identifiers. -/
def roleIds (t : Tables) (i : InitiativeId) : List RoleId := (Backend.ask (.rolesIn i) t).map Role.id

/-- The lists of roles have been edited, and positions are below a bound. -/
structure Edited (bound : Nat) (edit : InitiativeId → List RoleId → List RoleId) (t t' : Tables) :
    Prop where
  placed : t'.Placed bound
  ids : ∀ i, t'.roleIds i = edit i (t.roleIds i)

variable {t t' : Tables} {i : InitiativeId} {row : Role} {bound : Nat}

theorem Placed.empty : Placed bound .empty :=
  ⟨fun _ ha => absurd ha not_mem_empty, fun _ ha => absurd ha not_mem_empty,
    fun _ hr => absurd hr not_mem_empty⟩

theorem Placed.mono {more : Nat} (h : t.Placed bound) (le : bound ≤ more) : t.Placed more :=
  ⟨h.apart, h.graded, fun r hr => Nat.lt_of_lt_of_le (h.below r hr) le⟩

theorem Placed.sorted (h : t.Placed bound) (i : InitiativeId) :
    (Backend.ask (.rolesIn i) t).Pairwise fun a b => a.position.toNat < b.position.toNat := by
  have rising := sortOn_pairwise (fun r : Role => r.position.toNat)
    (t.roles.rows.filter fun r => r.initiative = i)
  refine List.Pairwise.imp_of_mem (fun {a b} ha hb hab => ?_) (rising.and (t.distinct_rolesIn i))
  obtain ⟨ha, hia⟩ := mem_rolesIn.1 ha
  obtain ⟨hb, hib⟩ := mem_rolesIn.1 hb
  refine Nat.lt_of_le_of_ne hab.1 fun e => hab.2 ?_
  rw [h.apart a ha b hb (hia.trans hib.symm) (UInt32.toNat_inj.1 e)]

theorem Placed.rolesIn_eq (h : t.Placed bound) {l : List Role}
    (sorted : l.Pairwise fun a b => a.position.toNat < b.position.toNat)
    (same : ∀ r, r ∈ l ↔ r ∈ t.roles ∧ r.initiative = i) : Backend.ask (.rolesIn i) t = l :=
  eq_of_strictly_sorted (fun r => r.position.toNat) (h.sorted i) sorted
    fun r => mem_rolesIn.trans (same r).symm

theorem Placed.roleIds_eq (h : t.Placed bound) {l : List Role}
    (sorted : l.Pairwise fun a b => a.position.toNat < b.position.toNat)
    (same : ∀ r, r ∈ l ↔ r ∈ t.roles ∧ r.initiative = i) : t.roleIds i = l.map Role.id := by
  rw [roleIds, h.rolesIn_eq sorted same]

theorem Edited.of_same (h : t.Placed bound) (same : t'.roles = t.roles) :
    t.Edited bound (fun _ listed => listed) t' where
  placed := ⟨same ▸ h.apart, same ▸ h.graded, same ▸ h.below⟩
  ids i := by
    have e : Backend.ask (.rolesIn i) t' =
        sortOn (fun r => r.position.toNat) (t'.roles.rows.filter fun r => r.initiative = i) := rfl
    rw [roleIds, e, same]
    rfl

/-! ## A new role -/

/-- Roles are added to an initiative behind those that it has. -/
structure Appended (i : InitiativeId) (rows : List Role) (t t' : Tables) : Prop where
  mem : ∀ r, r ∈ t'.roles ↔ r ∈ t.roles ∨ r ∈ rows
  home : ∀ a ∈ rows, a.initiative = i
  rising : rows.Pairwise fun a b => a.position.toNat < b.position.toNat
  graded : ∀ a ∈ rows, ∀ b ∈ rows, a.grade < b.grade → a.position < b.position
  last : ∀ r ∈ t.roles, r.initiative = i → ∀ a ∈ rows, r.position < a.position ∧ r.grade ≤ a.grade

namespace Appended

variable {rows : List Role} {more : Nat}

theorem apart (h : Appended i rows t t') {a b : Role} (ha : a ∈ rows) (hb : b ∈ rows)
    (same : a.position = b.position) : a = b := by
  have differ : rows.Pairwise fun a b => a.position ≠ b.position :=
    h.rising.imp fun hlt e => by rw [e] at hlt; omega
  have : Std.Symm fun a b : Role => a.position ≠ b.position := ⟨fun _ _ hne => hne.symm⟩
  exact Classical.byContradiction fun hne => differ.forall ha hb hne same

theorem placed (h : Appended i rows t t') (before : t.Placed bound) (le : bound ≤ more)
    (small : ∀ a ∈ rows, a.position.toNat < more) : t'.Placed more := by
  constructor
  case apart =>
    intro a ha b hb hi hp
    -- of an old role and a new one the new one is behind, so that they cannot share a position
    rcases (h.mem a).1 ha with ha | ha <;> rcases (h.mem b).1 hb with hb | hb
    · exact before.apart a ha b hb hi hp
    · exact absurd (h.last a ha (hi.trans (h.home b hb)) b hb).1 (hp ▸ UInt32.lt_irrefl _)
    · exact absurd (h.last b hb (hi.symm.trans (h.home a ha)) a ha).1 (hp ▸ UInt32.lt_irrefl _)
    · exact h.apart ha hb hp
  case graded =>
    intro a ha b hb hi hlt
    rcases (h.mem a).1 ha with ha | ha <;> rcases (h.mem b).1 hb with hb | hb
    · exact before.graded a ha b hb hi hlt
    · exact (h.last a ha (hi.trans (h.home b hb)) b hb).1
    · exact absurd hlt (Nat.not_lt.2 (h.last b hb (hi.symm.trans (h.home a ha)) a ha).2)
    · exact h.graded a ha b hb hlt
  case below =>
    intro r hr
    rcases (h.mem r).1 hr with hr | hr
    · exact Nat.lt_of_lt_of_le (before.below r hr) le
    · exact small r hr

theorem edited (h : Appended i rows t t') (before : t.Placed bound) (le : bound ≤ more)
    (small : ∀ a ∈ rows, a.position.toNat < more) :
    t.Edited more (fun j listed => if i = j then listed ++ rows.map Role.id else listed) t' := by
  have placed := h.placed before le small
  refine ⟨placed, fun j => ?_⟩
  by_cases here : i = j
  · subst here
    have sorted : (Backend.ask (.rolesIn i) t ++ rows).Pairwise
        fun a b => a.position.toNat < b.position.toNat := by
      refine List.pairwise_append.2 ⟨before.sorted i, h.rising, fun a ha b hb => ?_⟩
      obtain ⟨ha, hi⟩ := mem_rolesIn.1 ha
      exact UInt32.lt_iff_toNat_lt.1 (h.last a ha hi b hb).1
    rw [if_pos rfl, placed.roleIds_eq sorted fun r => ?_, List.map_append]
    · rfl
    · rw [List.mem_append, mem_rolesIn, h.mem]
      constructor
      · rintro (⟨hr, hi⟩ | hr)
        · exact ⟨Or.inl hr, hi⟩
        · exact ⟨Or.inr hr, h.home r hr⟩
      · rintro ⟨hr | hr, hi⟩
        · exact Or.inl ⟨hr, hi⟩
        · exact Or.inr hr
  · rw [if_neg here, placed.roleIds_eq (before.sorted j) fun r => ?_]
    · rfl
    · rw [mem_rolesIn, h.mem]
      refine and_congr_left fun hi => ⟨Or.inl, fun hr => hr.resolve_right fun new => ?_⟩
      exact here ((h.home r new).symm.trans hi)

end Appended

/-- A role that is taken out leaves the others in their order. -/
theorem Edited.of_erased {id : RoleId} (h : t.Placed bound) (roles : t'.roles = t.roles.erase id) :
    t.Edited bound (fun _ listed => listed.filter (· ≠ id)) t' := by
  have mem (r : Role) : r ∈ t'.roles ↔ r ∈ t.roles ∧ r.id ≠ id := by
    rw [roles]
    exact mem_erase
  have placed : t'.Placed bound :=
    ⟨fun a ha b hb => h.apart a ((mem a).1 ha).1 b ((mem b).1 hb).1,
      fun a ha b hb => h.graded a ((mem a).1 ha).1 b ((mem b).1 hb).1,
      fun r hr => h.below r ((mem r).1 hr).1⟩
  refine ⟨placed, fun i => ?_⟩
  rw [placed.roleIds_eq ((h.sorted i).filter fun r => r.id ≠ id) fun r => ?_, roleIds, List.filter_map]
  · rfl
  · rw [List.mem_filter, mem_rolesIn, mem, decide_eq_true_eq, and_right_comm]

/-! ## A role in its place -/

/-- What is done to the roles keeps all that their order depends on. -/
structure Renewed (renew : Role → Role) (t t' : Tables) : Prop where
  mem : ∀ r, r ∈ t'.roles ↔ ∃ a ∈ t.roles, renew a = r
  id : ∀ a ∈ t.roles, (renew a).id = a.id
  initiative : ∀ a ∈ t.roles, (renew a).initiative = a.initiative
  position : ∀ a ∈ t.roles, (renew a).position = a.position
  grade : ∀ a ∈ t.roles, (renew a).grade = a.grade

namespace Renewed

variable {renew : Role → Role}

theorem placed (h : Renewed renew t t') (before : t.Placed bound) : t'.Placed bound := by
  constructor
  case apart =>
    intro x hx y hy
    obtain ⟨a, ha, rfl⟩ := (h.mem x).1 hx
    obtain ⟨b, hb, rfl⟩ := (h.mem y).1 hy
    rw [h.initiative a ha, h.initiative b hb, h.position a ha, h.position b hb]
    intro hi hp
    rw [before.apart a ha b hb hi hp]
  case graded =>
    intro x hx y hy
    obtain ⟨a, ha, rfl⟩ := (h.mem x).1 hx
    obtain ⟨b, hb, rfl⟩ := (h.mem y).1 hy
    rw [h.initiative a ha, h.initiative b hb, h.position a ha, h.position b hb, h.grade a ha,
      h.grade b hb]
    exact before.graded a ha b hb
  case below =>
    intro x hx
    obtain ⟨a, ha, rfl⟩ := (h.mem x).1 hx
    rw [h.position a ha]
    exact before.below a ha

theorem edited (h : Renewed renew t t') (before : t.Placed bound) :
    t.Edited bound (fun _ listed => listed) t' := by
  refine ⟨h.placed before, fun i => ?_⟩
  have sorted : ((Backend.ask (.rolesIn i) t).map renew).Pairwise
      fun a b => a.position.toNat < b.position.toNat := by
    refine List.pairwise_map.2 (List.Pairwise.imp_of_mem (fun {a b} ha hb hab => ?_) (before.sorted i))
    rw [h.position a (mem_rolesIn.1 ha).1, h.position b (mem_rolesIn.1 hb).1]
    exact hab
  rw [(h.placed before).roleIds_eq sorted fun r => ?_, roleIds, List.map_map]
  · exact List.map_congr_left fun r hr => h.id r (mem_rolesIn.1 hr).1
  · rw [List.mem_map, h.mem]
    constructor
    · rintro ⟨a, ha, rfl⟩
      obtain ⟨ha, hi⟩ := mem_rolesIn.1 ha
      exact ⟨⟨a, ha, rfl⟩, (h.initiative a ha).trans hi⟩
    · rintro ⟨⟨a, ha, rfl⟩, hi⟩
      exact ⟨a, mem_rolesIn.2 ⟨ha, (h.initiative a ha).symm.trans hi⟩, rfl⟩

end Renewed

/-- A role that keeps its place and its grade may change in all else. -/
theorem Edited.of_rewritten {old : Role} (h : t.Placed bound)
    (roles : t'.roles = t.roles.insert row) (stored : old ∈ t.roles) (hid : row.id = old.id)
    (hi : row.initiative = old.initiative) (hp : row.position = old.position)
    (hg : row.grade = old.grade) : t.Edited bound (fun _ listed => listed) t' := by
  -- the roles are those that were there, with the row in place of one of them
  let renew (r : Role) : Role := if r.id = row.id then row else r
  have renews (r : Role) (hr : r ∈ t.roles) : r = old ∧ renew r = row ∨ r.id ≠ row.id ∧ renew r = r := by
    by_cases e : r.id = row.id
    · exact Or.inl ⟨eq_of_key hr stored (e.trans hid), if_pos e⟩
    · exact Or.inr ⟨e, if_neg e⟩
  have keeps {α : Type} (field : Role → α) (same : field row = field old) (r : Role)
      (hr : r ∈ t.roles) : field (renew r) = field r := by
    rcases renews r hr with ⟨rfl, e⟩ | ⟨_, e⟩
    · rw [e, same]
    · rw [e]
  have renewed : Renewed renew t t' := by
    refine ⟨fun r => ?_, keeps Role.id hid, keeps Role.initiative hi, keeps Role.position hp,
      keeps Role.grade hg⟩
    rw [roles, mem_insert]
    constructor
    · rintro (rfl | ⟨hr, e⟩)
      · exact ⟨old, stored, if_pos hid.symm⟩
      · exact ⟨r, hr, if_neg e⟩
    · rintro ⟨a, ha, rfl⟩
      rcases renews a ha with ⟨_, e⟩ | ⟨other, e⟩
      · exact Or.inl e
      · rw [e]
        exact Or.inr ⟨ha, other⟩
  exact renewed.edited h

end Store.Tables

end TenantAccess
