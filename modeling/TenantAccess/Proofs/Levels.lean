import TenantAccess.Proofs.Handover
import TenantAccess.Proofs.Succession

/-!
# The levels that rows give

The level of a principal on a resource, read off the rows, is the one that the access list of the
resource gives it. What a change of one grant does to the access list, and who owns a resource.
-/

namespace TenantAccess

open Store (Tables)
open Keyed Table

theorem Level.greater_eq_owner {a b : Option Level} :
    greater a b = some .owner ↔ a = some .owner ∨ b = some .owner := by
  cases a with
  | none => simp [greater]
  | some a =>
    cases b with
    | none => simp [greater]
    | some b => cases a <;> cases b <;> decide

/-! ## Access lists -/

namespace Acl

variable {acl : Acl} {members : RoleMap} {p q : PrincipalId} {r s : RoleId} {level : Level}
  {role : Option RoleId}

theorem effective_eq_owner : acl.effective p role = some .owner ↔
    acl.direct? p = some .owner ∨ ∃ r, role = some r ∧ acl.levelOfRole? r = some .owner := by
  rw [effective, Level.greater_eq_owner, Option.bind_eq_some_iff]

theorem direct?_setUser :
    (acl.setUser p level).direct? q = if q = p then some level else acl.direct? q := by
  simp only [direct?, setUser, find?_insert, key_pair]
  split <;> rfl

theorem direct?_removeUser :
    (acl.removeUser p).direct? q = if q = p then none else acl.direct? q := by
  simp only [direct?, removeUser, find?_erase]
  split <;> rfl

/-- Some principal is an owner, when `members` are the members of the initiative. -/
def Owned (acl : Acl) (members : RoleMap) : Prop :=
  ∃ p, acl.effective p ((members.find? p).map Prod.snd) = some .owner

theorem owned_iff : acl.Owned members ↔ (∃ p, acl.direct? p = some .owner) ∨
    ∃ m ∈ members, acl.levelOfRole? m.2 = some .owner := by
  simp only [Owned, effective_eq_owner, Option.map_eq_some_iff]
  constructor
  · rintro ⟨p, h | ⟨r, ⟨m, hm, rfl⟩, h⟩⟩
    · exact Or.inl ⟨p, h⟩
    · exact Or.inr ⟨m, (find?_eq_some_iff.1 hm).1, h⟩
  · rintro (⟨p, h⟩ | ⟨m, hm, h⟩)
    · exact ⟨p, Or.inl h⟩
    · exact ⟨m.1, Or.inr ⟨m.2, ⟨m, find?_eq_some_iff.2 ⟨hm, rfl⟩, rfl⟩, h⟩⟩

theorem Owned.removeUser (h : acl.Owned members) (hp : acl.direct? p ≠ some .owner) :
    (acl.removeUser p).Owned members := by
  refine owned_iff.2 ((owned_iff.1 h).imp_left fun ⟨q, hq⟩ => ⟨q, ?_⟩)
  rw [direct?_removeUser, if_neg, hq]
  rintro rfl
  exact hp hq

theorem Owned.of_removeUser (h : (acl.removeUser p).Owned members) : acl.Owned members := by
  refine owned_iff.2 ((owned_iff.1 h).imp_left fun ⟨q, hq⟩ => ⟨q, ?_⟩)
  rw [direct?_removeUser] at hq
  split at hq
  · cases hq
  · exact hq

theorem direct?_eq_some : acl.direct? p = some level ↔ (p, level) ∈ acl.users := by
  simp only [direct?, Option.map_eq_some_iff]
  constructor
  · rintro ⟨⟨_, _⟩, found, rfl⟩
    obtain ⟨hg, rfl⟩ := find?_eq_some_iff.1 found
    exact hg
  · intro hg
    exact ⟨(p, level), find?_eq_some_iff.2 ⟨hg, rfl⟩, rfl⟩

theorem mem_owners : p ∈ acl.owners members ↔
    acl.effective p ((members.find? p).map Prod.snd) = some .owner := by
  rw [effective_eq_owner]
  simp only [owners, mem_ofList_of_injective (fun a b : PrincipalId => id), List.mem_append,
    List.mem_map, List.mem_filter, decide_eq_true_eq, ← mem_iff]
  refine or_congr ⟨?_, fun direct => ?_⟩ ⟨?_, ?_⟩
  · rintro ⟨⟨q, level⟩, ⟨granted, rfl⟩, rfl⟩
    exact direct?_eq_some.2 granted
  · exact ⟨(p, .owner), ⟨direct?_eq_some.1 direct, rfl⟩, rfl⟩
  · rintro ⟨⟨q, r⟩, ⟨member, owns⟩, rfl⟩
    exact ⟨r, Option.map_eq_some_iff.2 ⟨(q, r), find?_eq_some_iff.2 ⟨member, rfl⟩, rfl⟩, owns⟩
  · rintro ⟨r, held, owns⟩
    obtain ⟨⟨q, r⟩, found, rfl⟩ := Option.map_eq_some_iff.1 held
    obtain ⟨member, rfl⟩ := find?_eq_some_iff.1 found
    exact ⟨(q, r), ⟨member, owns⟩, rfl⟩

theorem owners_isEmpty : (acl.owners members).isEmpty = true ↔ ¬ acl.Owned members := by
  rw [isEmpty_iff_forall, Owned, not_exists]
  exact forall_congr' fun p => not_congr mem_owners

theorem Owned.isEmpty_owners (owned : acl.Owned members) : (acl.owners members).isEmpty = false :=
  Bool.eq_false_iff.2 fun unowned => owners_isEmpty.1 unowned owned

end Acl

theorem Handover.mem_managers {members : RoleMap} {roles : IdSet .role} {p : PrincipalId} :
    p ∈ managers members roles ↔ ∃ m ∈ members, m.1 = p ∧ roles.contains m.2 = true := by
  simp only [managers, mem_ofList_of_injective (fun a b : PrincipalId => id), List.mem_map,
    List.mem_filter, ← mem_iff]
  exact ⟨fun ⟨m, ⟨hm, hr⟩, e⟩ => ⟨m, hm, e, hr⟩, fun ⟨m, hm, e, hr⟩ => ⟨m, ⟨hm, hr⟩, e⟩⟩

/-! ## Stored resources -/

namespace Store

variable {t : Tables} {x : Resource} {i : InitiativeId} {p : PrincipalId} {r : RoleId}

namespace Tables

/-- The level of a principal on a resource: the greater of its own grant and of the grant to the role
that it holds in the initiative of the resource. -/
def levelOn (t : Tables) (x : Resource) (p : PrincipalId) : Option Level :=
  Level.greater ((t.userGrants.find? (x.id, p)).map UserGrant.level)
    ((t.memberships.find? (x.initiative, p)).bind fun m =>
      (t.roleGrants.find? (x.id, m.role)).map RoleGrant.level)

/-- Some principal is an owner of the resource. -/
def Owned (t : Tables) (x : Resource) : Prop := ∃ p, t.levelOn x p = some .owner

/-- Some member of the initiative holds a manager role. -/
def Managed (t : Tables) (i : InitiativeId) : Prop :=
  ∃ m ∈ t.memberships, m.initiative = i ∧ ∃ r ∈ t.roles, r.id = m.role ∧ r.isManager = true

theorem find?_acl_users : (t.acl x).users.find? p =
    (t.userGrants.find? (x.id, p)).map fun g => (g.principal, g.level) :=
  find?_slice (fun p => (x.id, p)) (by simp)

theorem find?_acl_roles : (t.acl x).roles.find? r =
    (t.roleGrants.find? (x.id, r)).map fun g => (g.role, g.level) :=
  find?_slice (fun r => (x.id, r)) (by simp)

/-- What is looked up in an access list determines it. -/
theorem acl_eq {acl : Acl} (resource : acl.resource = x)
    (users : ∀ p, acl.users.find? p =
      (t.userGrants.find? (x.id, p)).map fun g => (g.principal, g.level))
    (roles : ∀ r, acl.roles.find? r =
      (t.roleGrants.find? (x.id, r)).map fun g => (g.role, g.level)) : t.acl x = acl := by
  obtain ⟨_, _, _⟩ := acl
  obtain rfl := resource
  refine Acl.mk.injEq .. ▸ ⟨rfl, ?_, ?_⟩
  · exact ext_find? fun p => find?_acl_users.trans (users p).symm
  · exact ext_find? fun r => find?_acl_roles.trans (roles r).symm

theorem direct?_acl : (t.acl x).direct? p = (t.userGrants.find? (x.id, p)).map UserGrant.level := by
  rw [Acl.direct?, find?_acl_users, Option.map_map]
  rfl

theorem levelOfRole?_acl :
    (t.acl x).levelOfRole? r = (t.roleGrants.find? (x.id, r)).map RoleGrant.level := by
  rw [Acl.levelOfRole?, find?_acl_roles, Option.map_map]
  rfl

/-! ## Changes of grants -/

section Grants

variable {g : UserGrant} {g' : RoleGrant} {key : ResourceId × PrincipalId}
  {key' : ResourceId × RoleId}

theorem acl_insert : (t.regrant (t.userGrants.insert g)).acl x =
    if g.resource = x.id then (t.acl x).setUser g.principal g.level else t.acl x := by
  split
  · rename_i e
    refine acl_eq rfl (fun p => ?_) fun r => find?_acl_roles
    simp only [Acl.setUser, regrant, find?_insert, key_pair, key_userGrant, e, Prod.mk.injEq, true_and,
      find?_acl_users]
    split <;> rfl
  · rename_i e
    refine acl_eq rfl (fun p => ?_) fun r => find?_acl_roles
    have hne : ¬ (x.id, p) = (g.resource, g.principal) := fun h => e (Prod.mk.inj h).1.symm
    rw [find?_acl_users, regrant, find?_insert, key_userGrant, if_neg hne]

theorem acl_erase : (t.regrant (t.userGrants.erase key)).acl x =
    if key.1 = x.id then (t.acl x).removeUser key.2 else t.acl x := by
  split
  · rename_i e
    refine acl_eq rfl (fun p => ?_) fun r => find?_acl_roles
    have hkey : (x.id, p) = key ↔ p = key.2 := by
      rw [← e]
      exact ⟨fun h => congrArg Prod.snd h, fun h => Prod.ext rfl h⟩
    simp only [Acl.removeUser, regrant, find?_erase, hkey, find?_acl_users]
    split <;> rfl
  · rename_i e
    refine acl_eq rfl (fun p => ?_) fun r => find?_acl_roles
    have hne : ¬ (x.id, p) = key := fun h => e (congrArg Prod.fst h).symm
    rw [find?_acl_users, regrant, find?_erase, if_neg hne]

theorem acl_insertRole : Tables.acl { t with roleGrants := t.roleGrants.insert g' } x =
    if g'.resource = x.id then (t.acl x).setRole g'.role g'.level else t.acl x := by
  split
  · rename_i e
    refine acl_eq rfl (fun p => find?_acl_users) fun r => ?_
    simp only [Acl.setRole, find?_insert, key_pair, key_roleGrant, e, Prod.mk.injEq, true_and,
      find?_acl_roles]
    split <;> rfl
  · rename_i e
    refine acl_eq rfl (fun p => find?_acl_users) fun r => ?_
    have hne : ¬ (x.id, r) = (g'.resource, g'.role) := fun h => e (Prod.mk.inj h).1.symm
    rw [find?_acl_roles, find?_insert, key_roleGrant, if_neg hne]

theorem acl_eraseRole : Tables.acl { t with roleGrants := t.roleGrants.erase key' } x =
    if key'.1 = x.id then (t.acl x).removeRole key'.2 else t.acl x := by
  split
  · rename_i e
    refine acl_eq rfl (fun p => find?_acl_users) fun r => ?_
    have hkey : (x.id, r) = key' ↔ r = key'.2 := by
      rw [← e]
      exact ⟨fun h => congrArg Prod.snd h, fun h => Prod.ext rfl h⟩
    simp only [Acl.removeRole, find?_erase, hkey, find?_acl_roles]
    split <;> rfl
  · rename_i e
    refine acl_eq rfl (fun p => find?_acl_users) fun r => ?_
    have hne : ¬ (x.id, r) = key' := fun h => e (congrArg Prod.fst h).symm
    rw [find?_acl_roles, find?_erase, if_neg hne]

/-- A list of writes to the grants updates an access list by those for its resource. -/
theorem acl_foldl (write : Table UserGrant → ResourceId × PrincipalId → Table UserGrant)
    (update : Acl → PrincipalId → Acl)
    (one : ∀ (t : Tables) (c : ResourceId × PrincipalId), (t.regrant (write t.userGrants c)).acl x =
      if c.1 = x.id then update (t.acl x) c.2 else t.acl x)
    {l : List (ResourceId × PrincipalId)} : (t.regrant (l.foldl write t.userGrants)).acl x =
      (l.filter fun c => c.1 = x.id).foldl (fun a c => update a c.2) (t.acl x) := by
  induction l generalizing t with
  | nil => rfl
  | cons c rest ih =>
    rw [List.foldl_cons]
    refine (ih (t := t.regrant (write t.userGrants c))).trans ?_
    rw [one]
    split
    · rename_i e
      rw [List.filter_cons_of_pos (by simpa using e), List.foldl_cons]
    · rename_i e
      rw [List.filter_cons_of_neg (by simpa using e)]

/-- Carrying out a plan on rows applies it to every access list. -/
theorem acl_granted {tenant : TenantId} {plan : Handover.Plan} :
    (t.regrant (Succession.granted tenant plan t.userGrants)).acl x = plan.applyTo (t.acl x) := by
  have revoked := acl_foldl (t := t) (x := x) (l := plan.revoke) Table.erase Acl.removeUser
    fun _ _ => acl_erase
  have raised := acl_foldl (t := t.regrant (plan.revoke.foldl Table.erase t.userGrants)) (x := x)
    (l := plan.grantOwner) (fun g c => g.insert ⟨c.1, c.2, .owner, tenant⟩)
    (fun a p => a.setUser p .owner) fun _ _ => acl_insert
  rw [revoked] at raised
  exact raised

end Grants

end Tables

theorem mem_roleMap {entry : PrincipalId × RoleId} : entry ∈ roleMap t i ↔
    ∃ m ∈ t.memberships, m.initiative = i ∧ (m.principal, m.role) = entry := by
  rw [roleMap, ask_membershipsIn, mem_slice (fun p => (i, p)) (by simp)]
  simp only [decide_eq_true_eq]

theorem find?_roleMap : (roleMap t i).find? p =
    (t.memberships.find? (i, p)).map fun m => (m.principal, m.role) := by
  rw [roleMap, ask_membershipsIn, find?_slice (fun p => (i, p)) (by simp)]

namespace Tables

theorem levelOn_eq : t.levelOn x p =
    (t.acl x).effective p (((roleMap t x.initiative).find? p).map Prod.snd) := by
  rw [levelOn, Acl.effective, direct?_acl, find?_roleMap]
  cases t.memberships.find? (x.initiative, p) with
  | none => rfl
  | some m => rw [Option.map_some, Option.map_some, Option.bind_some, Option.bind_some, levelOfRole?_acl]

theorem levelOn_eq_none (grant : t.userGrants.find? (x.id, p) = none)
    (member : t.memberships.find? (x.initiative, p) = none) : t.levelOn x p = none := by
  rw [levelOn, grant, member]
  rfl

theorem owned_iff : t.Owned x ↔ (t.acl x).Owned (roleMap t x.initiative) := by
  simp only [Owned, levelOn_eq]
  exact Iff.rfl

theorem contains_managingRoles : (managingRoles t i).contains r = true ↔
    ∃ role ∈ t.roles, role.initiative = i ∧ role.isManager = true ∧ role.id = r := by
  rw [managingRoles, contains_iff]
  simp only [mem_ofList_of_injective (fun a b : RoleId => id), List.mem_map, List.mem_filter, mem_rolesIn,
    key_id]
  constructor
  · rintro ⟨_, ⟨role, ⟨⟨hr, hi⟩, hm⟩, rfl⟩, rfl⟩
    exact ⟨role, hr, hi, hm, rfl⟩
  · rintro ⟨role, hr, hi, hm, rfl⟩
    exact ⟨role.id, ⟨role, ⟨⟨hr, hi⟩, hm⟩, rfl⟩, rfl⟩

/-- In consistent tables an initiative without managers to plan for has no member with a manager
role. -/
theorem Consistent.not_managed (h : t.Consistent)
    (none : (Handover.managers (roleMap t i) (managingRoles t i)).isEmpty = true) :
    ¬ t.Managed i := by
  rintro ⟨m, hm, hi, role, hr, e, manages⟩
  refine isEmpty_iff_forall.1 none m.principal (Handover.mem_managers.2 ?_)
  have same := (h.aligned.membership m hm role hr e).trans hi
  exact ⟨(m.principal, m.role), mem_roleMap.2 ⟨m, hm, hi, rfl⟩, rfl,
    contains_managingRoles.2 ⟨role, hr, same, manages, e⟩⟩

end Tables

end Store

end TenantAccess
