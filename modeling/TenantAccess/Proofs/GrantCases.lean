import TenantAccess.Proofs.Drawing
import TenantAccess.Proofs.OwnerSet
import TenantAccess.Scenario.GrantCase

/-!
# Levels in cases made to order

An access list that is made around one principal and one role grants what it was told to grant, each grant
once, and the principal has the level on it that was expected. The grants to others, those that the list was
made with and those made later, do not reach it.
-/

namespace TenantAccess

open Table

namespace Scenario

/-! ## Identifiers that are drawn -/

section Drawn

variable {noun : Noun} {α : Type} {l : List α} {ids later : Supply} {pairs : List (Id noun × α)}

theorem drawEach_drawn (drawn : drawEach l ids = (pairs, later)) (more : Nat) :
    ids.upcoming (l.length + more) = pairs.map (fun pair => pair.1.value) ++ later.upcoming more ∧
      pairs.map Prod.snd = l := by
  induction l generalizing ids pairs with
  | nil =>
    obtain ⟨rfl, rfl⟩ := Prod.mk.inj drawn
    exact ⟨by rw [List.length_nil, Nat.zero_add]; rfl, rfl⟩
  | cons a rest ih =>
    rcases first : (ids.draw : Id noun × Supply) with ⟨id, ids₁⟩
    rcases others : (drawEach rest ids₁ : List (Id noun × α) × Supply) with ⟨pairs', ids₂⟩
    simp only [drawEach, first, others] at drawn
    obtain ⟨rfl, rfl⟩ := Prod.mk.inj drawn
    obtain ⟨numbers, same⟩ := ih others
    rw [List.length_cons, Nat.add_right_comm, Supply.upcoming_draw first, numbers, List.map_cons,
      List.map_cons, same]
    exact ⟨rfl, rfl⟩

end Drawn

/-! ## Grants to others -/

section Granted

/-- A grant of its own, if it is to have one, and the grants to others. -/
def granted {noun : Noun} (id : Id noun) (own : Option Level) (others : List (Id noun × Level)) :
    List (Id noun × Level) :=
  own.toList.map (fun level => (id, level)) ++ others

variable {noun : Noun} {id : Id noun} {own : Option Level} {others : List (Id noun × Level)}

theorem granted_levels : (granted id own others).map Prod.snd = own.toList ++ others.map Prod.snd := by
  cases own <;> rfl

variable (apart : (id.value :: others.map fun g => g.1.value).Nodup)

include apart

theorem distinct_granted : Distinct (granted id own others) := by
  obtain ⟨other, apart⟩ := List.nodup_cons.1 apart
  have distinct : Distinct others :=
    (List.pairwise_map.1 apart).imp fun differ e => differ (congrArg Id.value e)
  cases own with
  | none => exact distinct
  | some level =>
    exact List.pairwise_cons.2 ⟨fun g hg e =>
      other (List.mem_map.2 ⟨g, hg, (congrArg Id.value e).symm⟩), distinct⟩

theorem perm_granted : ((ofList (granted id own others)).rows.map Prod.snd).Perm
    (own.toList ++ others.map Prod.snd) :=
  ((perm_ofList (distinct_granted apart)).symm.map Prod.snd).trans (.of_eq granted_levels)

/-- The grants to others do not show. -/
theorem level_granted : ((ofList (granted id own others)).find? id).map Prod.snd = own := by
  have distinct : Distinct (granted id own others) := distinct_granted apart
  cases own with
  | some level =>
    have found : (ofList (granted id (some level) others)).find? id = some (id, level) :=
      find?_eq_some_iff.2 ⟨(mem_ofList distinct).2 List.mem_cons_self, rfl⟩
    rw [found]
    rfl
  | none =>
    rw [find?_eq_none_iff.2 fun g hg e => ?_]
    · rfl
    · exact (List.nodup_cons.1 apart).1
        (List.mem_map.2 ⟨g, (mem_ofList distinct).1 hg, congrArg Id.value e⟩)

end Granted

theorem edited_aside {acl : Acl} {edits : List Acl.Edit} (read : Acl → Option Level)
    {said? : Acl.Edit → Option (Option Level)}
    (one : ∀ {acl edit}, read (Acl.Edit.apply acl edit) = (said? edit).getD (read acl))
    (aside : ∀ edit ∈ edits, said? edit = none) : read (acl.edited edits) = read acl := by
  have silent : edits.reverse.findSome? said? = none :=
    List.findSome?_eq_none_iff.2 fun edit listed => aside edit (List.mem_reverse.1 listed)
  rw [Acl.edited_reads read one, silent]
  rfl

/-! ## Cases -/

namespace GrantMix

/-- What is drawn for a case, and the access list that is made of it. -/
theorem build_made (mix : GrantMix) (ids : Supply) :
    ∃ (tenant : TenantId) (initiative : InitiativeId) (resource : ResourceId)
      (users : List (PrincipalId × Level)) (roles : List (RoleId × Level)),
      let made := mix.build ids
      ids.upcoming (5 + mix.otherUsers.length + mix.otherRoles.length) =
          [tenant.value, initiative.value, resource.value, made.principal.value, made.role.value] ++
            users.map (fun g => g.1.value) ++ roles.map (fun g => g.1.value) ∧
        users.map Prod.snd = mix.otherUsers ∧ roles.map Prod.snd = mix.otherRoles ∧
        made.acl = ⟨⟨resource, .project, initiative, tenant, "generated"⟩,
          .ofList (granted made.principal mix.direct users),
          .ofList (granted made.role mix.viaRole roles)⟩ := by
  rcases h₁ : (ids.draw : TenantId × Supply) with ⟨tenant, ids₁⟩
  rcases h₂ : (ids₁.draw : InitiativeId × Supply) with ⟨initiative, ids₂⟩
  rcases h₃ : (ids₂.draw : ResourceId × Supply) with ⟨resource, ids₃⟩
  rcases h₄ : (ids₃.draw : PrincipalId × Supply) with ⟨principal, ids₄⟩
  rcases h₅ : (ids₄.draw : RoleId × Supply) with ⟨role, ids₅⟩
  rcases h₆ : (drawEach mix.otherUsers ids₅ : List (PrincipalId × Level) × Supply) with ⟨users, ids₆⟩
  rcases h₇ : (drawEach mix.otherRoles ids₆ : List (RoleId × Level) × Supply) with ⟨roles, ids₇⟩
  obtain ⟨userIds, userLevels⟩ := drawEach_drawn h₆ mix.otherRoles.length
  obtain ⟨roleIds, roleLevels⟩ := drawEach_drawn h₇ 0
  have numbers : ids.upcoming (mix.otherUsers.length + mix.otherRoles.length + 5) =
      [tenant.value, initiative.value, resource.value, principal.value, role.value] ++
        ids₅.upcoming (mix.otherUsers.length + mix.otherRoles.length) := by
    rw [Supply.upcoming_draw h₁, Supply.upcoming_draw h₂, Supply.upcoming_draw h₃,
      Supply.upcoming_draw h₄, Supply.upcoming_draw h₅]
    rfl
  refine ⟨tenant, initiative, resource, users, roles, ?_⟩
  simp only [build, h₁, h₂, h₃, h₄, h₅, h₆, h₇, Acl.foldl_setUser, Acl.foldl_setRole]
  refine ⟨?_, userLevels, roleLevels, ?_⟩
  · rw [Nat.add_assoc, Nat.add_comm, numbers, userIds, ← List.append_assoc]
    rw [Nat.add_zero, Supply.upcoming, List.append_nil] at roleIds
    rw [roleIds]
  · cases mix.direct <;> cases mix.viaRole <;> rfl

/-- A list with the grants that the case is about gives the expected level, whatever else it grants. -/
theorem effective_expected (mix : GrantMix) (ids : Supply) {acl : Acl}
    (direct : acl.direct? (mix.build ids).principal = mix.direct)
    (derived : acl.levelOfRole? (mix.build ids).role = mix.viaRole) :
    acl.effective (mix.build ids).principal (mix.build ids).heldRole = mix.expected := by
  have held : (mix.build ids).heldRole = if mix.holdsRole then some (mix.build ids).role else none := rfl
  rw [Acl.effective, direct, held, expected]
  cases mix.holdsRole with
  | true => rw [if_pos rfl, if_pos rfl, Option.bind_some, derived]
  | false => rw [if_neg Bool.false_ne_true, if_neg Bool.false_ne_true, Option.bind_none]

/-- With identifiers that differ, the case is what it was made to be: the level is the expected one and is
granted just for the minimums up to it, the list has one grant for each level that it was made with, and no
change to the grants of other principals and of other roles is noticed. -/
theorem build_expected (mix : GrantMix) {ids : Supply}
    (apart : (ids.upcoming (5 + mix.otherUsers.length + mix.otherRoles.length)).Nodup) :
    let made := mix.build ids
    made.acl.effective made.principal made.heldRole = mix.expected ∧
      (∀ minimum level, made.acl.demand made.principal made.heldRole minimum = .ok level ↔
        mix.expected = some level ∧ minimum ≤ level) ∧
      ((made.acl.users.rows.map Prod.snd).Perm (mix.direct.toList ++ mix.otherUsers) ∧
        made.acl.direct? made.principal = mix.direct) ∧
      ((made.acl.roles.rows.map Prod.snd).Perm (mix.viaRole.toList ++ mix.otherRoles) ∧
        made.acl.levelOfRole? made.role = mix.viaRole) ∧
      ∀ edits : List Acl.Edit,
        (∀ edit ∈ edits, edit.onUser? made.principal = none ∧ edit.onRole? made.role = none) →
          (made.acl.edited edits).effective made.principal made.heldRole = mix.expected := by
  intro made
  obtain ⟨_, _, _, users, roles, numbers, userLevels, roleLevels, acl⟩ := mix.build_made ids
  rw [numbers] at apart
  obtain ⟨earlier, roleIds, otherRoles⟩ := List.nodup_append.1 apart
  obtain ⟨_, userIds, otherUsers⟩ := List.nodup_append.1 earlier
  have userIds : (made.principal.value :: users.map fun g => g.1.value).Nodup :=
    List.nodup_cons.2 ⟨fun listed => otherUsers _ (by simp [made]) _ listed rfl, userIds⟩
  have roleIds : (made.role.value :: roles.map fun g => g.1.value).Nodup :=
    List.nodup_cons.2 ⟨fun listed => otherRoles _ (by simp [made]) _ listed rfl, roleIds⟩
  have direct : made.acl.direct? made.principal = mix.direct := by
    rw [Acl.direct?, acl]
    exact level_granted userIds
  have derived : made.acl.levelOfRole? made.role = mix.viaRole := by
    rw [Acl.levelOfRole?, acl]
    exact level_granted roleIds
  have kept (edits : List Acl.Edit) (aside : ∀ edit ∈ edits,
      edit.onUser? made.principal = none ∧ edit.onRole? made.role = none) :
      (made.acl.edited edits).effective made.principal made.heldRole = mix.expected :=
    mix.effective_expected ids
      ((edited_aside (·.direct? made.principal) Acl.direct?_apply
        fun e he => (aside e he).1).trans direct)
      ((edited_aside (·.levelOfRole? made.role) Acl.levelOfRole?_apply
        fun e he => (aside e he).2).trans derived)
  have effective : made.acl.effective made.principal made.heldRole = mix.expected :=
    mix.effective_expected ids direct derived
  refine ⟨effective, fun minimum level => ?_, ⟨?_, direct⟩, ⟨?_, derived⟩, kept⟩
  · rw [Acl.demand_eq_ok, effective]
  · rw [acl, ← userLevels]
    exact perm_granted userIds
  · rw [acl, ← roleLevels]
    exact perm_granted roleIds

/-- A principal that owns through its role what it may write itself, among three others. -/
theorem build_expected_overlap :
    let mix : GrantMix := ⟨some .write, some .owner, true, [.owner, .read], [.read]⟩
    let made := mix.build .empty
    let edits : List Acl.Edit := [.setUser (Supply.numberedId 5) .read, .removeUser (Supply.numberedId 6),
      .setRole (Supply.numberedId 7) .write]
    (Supply.empty.upcoming 8).Nodup ∧
      made.acl.effective made.principal made.heldRole = some .owner ∧
      made.acl.demand made.principal made.heldRole .write = .ok .owner ∧
      (made.acl.users.rows.map Prod.snd).Perm [.write, .owner, .read] ∧
      (made.acl.roles.rows.map Prod.snd).Perm [.owner, .read] ∧
      (made.acl.edited edits).effective made.principal made.heldRole = some .owner := by
  intro mix made edits
  have apart : (Supply.empty.upcoming 8).Nodup := by decide +kernel
  obtain ⟨effective, demanded, ⟨users, _⟩, ⟨roles, _⟩, kept⟩ := mix.build_expected apart
  exact ⟨apart, effective, (demanded .write .owner).2 (by decide), users, roles,
    kept edits (by decide +kernel)⟩

end GrantMix

end Scenario

end TenantAccess
