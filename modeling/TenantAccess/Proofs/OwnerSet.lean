import TenantAccess.Proofs.Reading
import TenantAccess.Proofs.Rises

/-!
# The owners of a resource

The owners that an access list names, whatever rows it was read from and however its grants were changed
since, are just those whose level is `owner`. A grant that is made or raised and a new member take nobody
away from them.
-/

namespace TenantAccess

open Table

/-! ## Edits -/

namespace Acl

/-- A change to the grants on a resource. -/
inductive Edit
  | setUser (p : PrincipalId) (level : Level)
  | setRole (r : RoleId) (level : Level)
  | removeUser (p : PrincipalId)
  | removeRole (r : RoleId)
  deriving DecidableEq

namespace Edit

def apply (acl : Acl) : Edit → Acl
  | setUser p level => acl.setUser p level
  | setRole r level => acl.setRole r level
  | removeUser p => acl.removeUser p
  | removeRole r => acl.removeRole r

/-- What a change says about the grant of a principal, if anything. -/
def onUser? (p : PrincipalId) : Edit → Option (Option Level)
  | setUser q level => if p = q then some (some level) else none
  | removeUser q => if p = q then some none else none
  | setRole _ _ | removeRole _ => none

/-- What a change says about the grant of a role, if anything. -/
def onRole? (r : RoleId) : Edit → Option (Option Level)
  | setRole s level => if r = s then some (some level) else none
  | removeRole s => if r = s then some none else none
  | setUser _ _ | removeUser _ => none

/-- The grants that rows give, as changes. -/
def ofRows (users : List UserGrant) (roles : List RoleGrant) : List Edit :=
  users.map (fun g => setUser g.principal g.level) ++ roles.map fun g => setRole g.role g.level

/-- The grant that the last change to say anything leaves. -/
def lastWord (said? : Edit → Option (Option Level)) (edits : List Edit) : Option Level :=
  (edits.reverse.findSome? said?).getD none

end Edit

/-- The access list after changes, one after the other. -/
def edited (acl : Acl) (edits : List Edit) : Acl := edits.foldl Edit.apply acl

variable {acl acl' : Acl} {members members' : RoleMap} {p q : PrincipalId} {r s : RoleId}
  {level : Level} {role : Option RoleId} {edits : List Edit} {edit : Edit}

section Grants

theorem levelOfRole?_setRole :
    (acl.setRole s level).levelOfRole? r = if r = s then some level else acl.levelOfRole? r := by
  simp only [levelOfRole?, setRole, find?_insert, key_pair]
  split <;> rfl

theorem levelOfRole?_removeRole :
    (acl.removeRole s).levelOfRole? r = if r = s then none else acl.levelOfRole? r := by
  simp only [levelOfRole?, removeRole, find?_erase]
  split <;> rfl

theorem direct?_apply : (edit.apply acl).direct? p = (edit.onUser? p).getD (acl.direct? p) := by
  cases edit with
  | setUser q level =>
    rw [Edit.apply, direct?_setUser, Edit.onUser?]
    split <;> rfl
  | removeUser q =>
    rw [Edit.apply, direct?_removeUser, Edit.onUser?]
    split <;> rfl
  | setRole r level => rfl
  | removeRole r => rfl

theorem levelOfRole?_apply :
    (edit.apply acl).levelOfRole? r = (edit.onRole? r).getD (acl.levelOfRole? r) := by
  cases edit with
  | setRole s level =>
    rw [Edit.apply, levelOfRole?_setRole, Edit.onRole?]
    split <;> rfl
  | removeRole s =>
    rw [Edit.apply, levelOfRole?_removeRole, Edit.onRole?]
    split <;> rfl
  | setUser p level => rfl
  | removeUser p => rfl

/-- A grant is in the end what the last change to it says. -/
theorem edited_reads (read : Acl → Option Level) {said? : Edit → Option (Option Level)}
    (one : ∀ {acl edit}, read (Edit.apply acl edit) = (said? edit).getD (read acl)) :
    read (acl.edited edits) = (edits.reverse.findSome? said?).getD (read acl) := by
  -- the list starts with the earliest change, and the latest to say anything counts
  induction edits generalizing acl with
  | nil => rfl
  | cons edit rest ih =>
    have step : acl.edited (edit :: rest) = (edit.apply acl).edited rest := rfl
    rw [step, ih, one, List.reverse_cons, List.findSome?_append]
    cases rest.reverse.findSome? said? with
    | none =>
      rw [Option.none_or, List.findSome?_cons]
      cases said? edit <;> rfl
    | some last => rfl

end Grants

/-! ## Rows -/

section Rows

variable {resource : Resource} {users : List UserGrant} {roles : List RoleGrant}

theorem edited_append {more : List Edit} :
    acl.edited (edits ++ more) = (acl.edited edits).edited more :=
  List.foldl_append

theorem foldl_setUser {pairs : List (PrincipalId × Level)} :
    pairs.foldl (fun acl (p, level) => acl.setUser p level) acl =
      { acl with users := pairs.foldl Table.insert acl.users } := by
  induction pairs generalizing acl with
  | nil => rfl
  | cons g rest ih => exact ih

theorem foldl_setRole {pairs : List (RoleId × Level)} :
    pairs.foldl (fun acl (r, level) => acl.setRole r level) acl =
      { acl with roles := pairs.foldl Table.insert acl.roles } := by
  induction pairs generalizing acl with
  | nil => rfl
  | cons g rest ih => exact ih

theorem edited_users : acl.edited (users.map fun g => .setUser g.principal g.level) =
    { acl with users := (users.map fun g => (g.principal, g.level)).foldl Table.insert acl.users } := by
  rw [edited, List.foldl_map, ← foldl_setUser, List.foldl_map]
  rfl

theorem edited_roles : acl.edited (roles.map fun g => .setRole g.role g.level) =
    { acl with roles := (roles.map fun g => (g.role, g.level)).foldl Table.insert acl.roles } := by
  rw [edited, List.foldl_map, ← foldl_setRole, List.foldl_map]
  rfl

/-- Reading rows makes their grants one after the other. -/
theorem eq_edited_of_rows (accepted : ofRows resource users roles = .ok acl) :
    acl = (bare resource).edited (Edit.ofRows users roles) := by
  obtain ⟨_, _, rfl⟩ := ofRows_eq_ok.1 accepted
  rw [Edit.ofRows, edited_append, edited_users, edited_roles]
  rfl

theorem direct?_of_rows (accepted : ofRows resource users roles = .ok acl) :
    (acl.edited edits).direct? p =
      Edit.lastWord (Edit.onUser? p) (Edit.ofRows users roles ++ edits) := by
  rw [eq_edited_of_rows accepted, ← edited_append, edited_reads (·.direct? p) direct?_apply]
  rfl

theorem levelOfRole?_of_rows (accepted : ofRows resource users roles = .ok acl) :
    (acl.edited edits).levelOfRole? r =
      Edit.lastWord (Edit.onRole? r) (Edit.ofRows users roles ++ edits) := by
  rw [eq_edited_of_rows accepted, ← edited_append,
    edited_reads (·.levelOfRole? r) levelOfRole?_apply]
  rfl

end Rows

/-! ## Owners that stay -/

section Raised

theorem eq_owner_of_not_lt {granted : Option Level} (h : ¬ granted < some .owner) :
    granted = some .owner := by
  have top := Level.standing_le_owner granted
  rw [Level.lt_iff] at h
  exact Level.standing_injective (by omega)

/-- What grants at least as much, where all members keep their roles, names at least the same owners. -/
theorem mem_owners_of_not_lt (direct : ¬ acl'.direct? p < acl.direct? p)
    (derived : ∀ r, ¬ acl'.levelOfRole? r < acl.levelOfRole? r)
    (kept : ∀ m ∈ members, members'.find? m.1 = some m) (owner : p ∈ acl.owners members) :
    p ∈ acl'.owners members' := by
  rw [mem_owners, effective_eq_owner] at owner ⊢
  rcases owner with own | ⟨r, held, owns⟩
  · rw [own] at direct
    exact Or.inl (eq_owner_of_not_lt direct)
  · obtain ⟨m, found, rfl⟩ := Option.map_eq_some_iff.1 held
    obtain ⟨hm, rfl⟩ := find?_eq_some_iff.1 found
    have derived := derived m.2
    rw [owns] at derived
    exact Or.inr ⟨m.2, Option.map_eq_some_iff.2 ⟨m, kept m hm, rfl⟩, eq_owner_of_not_lt derived⟩

theorem find?_of_mem {m : PrincipalId × RoleId} (hm : m ∈ members) : members.find? m.1 = some m :=
  find?_eq_some_iff.2 ⟨hm, rfl⟩

theorem not_lt_self (level : Option Level) : ¬ level < level := by
  rw [Level.lt_iff]
  omega

/-- To raise a grant or to make one takes no owner away. -/
theorem mem_owners_setUser (raised : ¬ some level < acl.direct? q) (owner : p ∈ acl.owners members) :
    p ∈ (acl.setUser q level).owners members := by
  have direct : ¬ (acl.setUser q level).direct? p < acl.direct? p := by
    rw [direct?_setUser]
    split
    · rename_i e
      rw [e]
      exact raised
    · exact not_lt_self _
  exact mem_owners_of_not_lt direct (fun r => not_lt_self (acl.levelOfRole? r))
    (fun m => find?_of_mem) owner

theorem mem_owners_setRole (raised : ¬ some level < acl.levelOfRole? s)
    (owner : p ∈ acl.owners members) : p ∈ (acl.setRole s level).owners members := by
  have derived (r : RoleId) : ¬ (acl.setRole s level).levelOfRole? r < acl.levelOfRole? r := by
    rw [levelOfRole?_setRole]
    split
    · rename_i e
      rw [e]
      exact raised
    · exact not_lt_self _
  exact mem_owners_of_not_lt (not_lt_self (acl.direct? p)) derived (fun m => find?_of_mem) owner

/-- Nor does a new member. -/
theorem mem_owners_insert (new : members.contains q = false) (owner : p ∈ acl.owners members) :
    p ∈ acl.owners (members.insert (q, r)) := by
  have kept (m : PrincipalId × RoleId) (hm : m ∈ members) :
      (members.insert (q, r)).find? m.1 = some m := by
    have other : m.1 ≠ q := not_contains_iff.1 new m hm
    rw [find?_insert, key_pair, if_neg other, find?_of_mem hm]
  exact mem_owners_of_not_lt (not_lt_self _) (fun r => not_lt_self _) kept owner

end Raised

theorem demand_owner : (acl.demand p role .owner).isOk = true ↔ acl.effective p role = some .owner := by
  constructor
  · intro succeeds
    obtain ⟨held, demanded⟩ := exists_of_isOk succeeds
    obtain ⟨effective, least⟩ := demand_eq_ok.1 demanded
    rw [effective]
    cases held <;> first | rfl | exact absurd least (by decide)
  · intro owner
    rw [demand_eq_ok.2 ⟨owner, by decide⟩]
    rfl

/-- The owners of a resource, from the rows that its access list was read from and all changes since:
they are those whose level is `owner`, and that is settled by the last word on their own grant and on
that of their role. -/
theorem owners_exact {resource : Resource} {users : List UserGrant} {roles : List RoleGrant}
    (accepted : ofRows resource users roles = .ok acl) (edits : List Edit) (members : RoleMap) :
    let now := acl.edited edits
    let all := Edit.ofRows users roles ++ edits
    let held p := (members.find? p).map Prod.snd
    (∀ p, (p ∈ now.owners members ↔ now.effective p (held p) = some .owner) ∧
      (p ∈ now.owners members ↔ (now.demand p (held p) .owner).isOk = true) ∧
      (p ∈ now.owners members ↔ Edit.lastWord (Edit.onUser? p) all = some .owner ∨
        ∃ r, held p = some r ∧ Edit.lastWord (Edit.onRole? r) all = some .owner)) ∧
    ((now.owners members).isEmpty = true ↔ ∀ p, now.effective p (held p) ≠ some .owner) ∧
    ∀ p ∈ now.owners members,
      (∀ q level, ¬ some level < now.direct? q → p ∈ (now.setUser q level).owners members) ∧
      (∀ r level, ¬ some level < now.levelOfRole? r → p ∈ (now.setRole r level).owners members) ∧
      ∀ q r, members.contains q = false → p ∈ now.owners (members.insert (q, r)) := by
  intro now all held
  refine ⟨fun p => ⟨mem_owners, mem_owners.trans demand_owner.symm, ?_⟩, ?_, fun p owner => ⟨?_, ?_, ?_⟩⟩
  · rw [mem_owners, effective_eq_owner, direct?_of_rows accepted]
    refine or_congr_right (exists_congr fun r => and_congr_right fun _ => ?_)
    rw [levelOfRole?_of_rows accepted]
  · rw [isEmpty_iff_forall]
    exact forall_congr' fun p => not_congr mem_owners
  · exact fun q level raised => mem_owners_setUser raised owner
  · exact fun r level raised => mem_owners_setRole raised owner
  · exact fun q r new => mem_owners_insert new owner

/-- An owner whose grant is removed, a stranger that is made an owner and a member that owns through its
role alone. -/
theorem owners_exact_launch :
    let ada : PrincipalId := Supply.numberedId 0
    let bob : PrincipalId := Supply.numberedId 1
    let eve : PrincipalId := Supply.numberedId 2
    let leads : RoleId := Supply.numberedId 3
    let launch : Resource := ⟨Supply.numberedId 4, .project, Supply.numberedId 5, Supply.numberedId 6,
      "launch"⟩
    let users : List UserGrant := [⟨launch.id, ada, .read, launch.tenant⟩,
      ⟨launch.id, bob, .write, launch.tenant⟩, ⟨launch.id, ada, .owner, launch.tenant⟩]
    let roles : List RoleGrant := [⟨launch.id, leads, .owner, launch.tenant⟩]
    let edits : List Edit := [.removeUser ada, .setUser eve .owner, .setUser bob .read]
    let members : RoleMap := .ofList [(bob, leads)]
    let acl := (bare launch).edited (Edit.ofRows users roles)
    ofRows launch users roles = .ok acl ∧
      (ada ∈ acl.owners members ∧ ¬ ada ∈ (acl.edited edits).owners members) ∧
      (bob ∈ (acl.edited edits).owners members ∧ eve ∈ (acl.edited edits).owners members) ∧
      eve ∈ ((acl.edited edits).setUser bob .write).owners members ∧
      bob ∈ (acl.edited edits).owners (members.insert (ada, leads)) := by
  intro ada bob eve leads launch users roles edits members acl
  have accepted : ofRows launch users roles = .ok acl := by rfl
  obtain ⟨before, _, _⟩ := owners_exact accepted [] members
  obtain ⟨after, _, kept⟩ := owners_exact accepted edits members
  have bobOwns := (after bob).1.2 (by decide +kernel)
  have eveOwns := (after eve).1.2 (by decide +kernel)
  have raised : ¬ some Level.write < (acl.edited edits).direct? bob := by
    rw [Level.lt_iff]
    decide +kernel
  refine ⟨accepted, ⟨(before ada).1.2 (by decide +kernel), fun still => ?_⟩, ⟨bobOwns, eveOwns⟩,
    (kept eve eveOwns).1 bob .write raised, (kept bob bobOwns).2.2 ada leads (by decide +kernel)⟩
  exact absurd ((after ada).1.1 still) (by decide +kernel)

end Acl

end TenantAccess
