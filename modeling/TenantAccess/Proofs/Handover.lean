import TenantAccess.Handover
import TenantAccess.Proofs.Rows

/-!
# What is in a plan

Which grants a plan revokes, which it sets to `owner` and which resources it lists as without an
owner, in terms of the access lists that it is made from.
-/

namespace TenantAccess.Handover

variable {acls : List Acl} {members : RoleMap} {roles : IdSet .role} {removed : PrincipalId}
  {change : ResourceId × PrincipalId} {w : Ownerless}

theorem flatMap_eq_map_filter {α β : Type} {l : List α} {g : α → List β} {p : α → Bool} {f : α → β}
    (h : ∀ a, g a = if p a then [f a] else []) : l.flatMap g = (l.filter p).map f := by
  induction l with
  | nil => rfl
  | cons a rest ih =>
    rw [List.flatMap_cons, ih, h]
    by_cases picked : p a = true
    · rw [if_pos picked, List.filter_cons_of_pos picked, List.map_cons, List.singleton_append]
    · rw [if_neg picked, List.filter_cons_of_neg picked, List.nil_append]

/-! ## Plans one after the other -/

namespace Plan

variable {α : Type} {l : List α} {g : α → Plan}

theorem concat_revoke : (concat (l.map g)).revoke = l.flatMap fun a => (g a).revoke := by
  induction l with
  | nil => rfl
  | cons a rest ih =>
    rw [List.flatMap_cons, ← ih]
    rfl

theorem concat_grantOwner : (concat (l.map g)).grantOwner = l.flatMap fun a => (g a).grantOwner := by
  induction l with
  | nil => rfl
  | cons a rest ih =>
    rw [List.flatMap_cons, ← ih]
    rfl

theorem concat_ownerless : (concat (l.map g)).ownerless = l.flatMap fun a => (g a).ownerless := by
  induction l with
  | nil => rfl
  | cons a rest ih =>
    rw [List.flatMap_cons, ← ih]
    rfl

end Plan

/-! ## One resource -/

/-- The report that a resource has no owner. -/
def ownerlessOf (r : Resource) : Ownerless := ⟨r.id, r.initiative, r.tenant⟩

section Absorb

variable {acl : Acl} {managers : IdSet .principal}

theorem mem_absorb_grantOwner : change ∈ (absorb acl managers members).grantOwner ↔
    ∃ m ∈ managers, acl.direct? m ≠ some .owner ∧ change = (acl.resource.id, m) := by
  simp only [absorb, List.mem_map, List.mem_filter, decide_eq_true_eq, ← Table.mem_iff]
  constructor
  · rintro ⟨m, ⟨hm, hne⟩, rfl⟩
    exact ⟨m, hm, hne, rfl⟩
  · rintro ⟨m, hm, hne, rfl⟩
    exact ⟨m, ⟨hm, hne⟩, rfl⟩

theorem absorb_ownerless : (absorb acl managers members).ownerless =
    if managers.isEmpty && (acl.owners members).isEmpty then [ownerlessOf acl.resource] else [] :=
  rfl

theorem mem_absorb_ownerless : w ∈ (absorb acl managers members).ownerless ↔
    managers.isEmpty = true ∧ (acl.owners members).isEmpty = true ∧ w = ownerlessOf acl.resource := by
  rw [absorb_ownerless]
  by_cases listed : (managers.isEmpty && (acl.owners members).isEmpty) = true
  · rw [if_pos listed, List.mem_singleton, ← and_assoc, ← Bool.and_eq_true]
    exact (and_iff_right listed).symm
  · rw [if_neg listed, ← and_assoc, ← Bool.and_eq_true]
    exact iff_of_false List.not_mem_nil fun h => listed h.1

end Absorb

section Departure

variable {acl : Acl} {holders : IdSet .principal}

/-- Where the principal was no owner the plan of its departure is empty. -/
theorem departure_revoke : (departure removed holders members acl).revoke =
    if acl.direct? removed = some .owner then [(acl.resource.id, removed)] else [] := by
  rw [departure]
  split <;> rfl

theorem departure_grantOwner : (departure removed holders members acl).grantOwner =
    if acl.direct? removed = some .owner then
      (absorb (acl.removeUser removed) holders members).grantOwner
    else [] := by
  rw [departure]
  split <;> rfl

theorem departure_ownerless : (departure removed holders members acl).ownerless =
    if acl.direct? removed = some .owner then
      (absorb (acl.removeUser removed) holders members).ownerless
    else [] := by
  rw [departure]
  split <;> rfl

end Departure

/-! ## The plan of a departure -/

/-- The plan of a departure revokes the `owner` grants of the principal that left. -/
theorem mem_departurePlan_revoke : change ∈ (departurePlan removed acls members roles).revoke ↔
    ∃ acl ∈ acls, acl.direct? removed = some .owner ∧ change = (acl.resource.id, removed) := by
  simp only [departurePlan, Plan.concat_revoke, List.mem_flatMap, departure_revoke]
  refine exists_congr fun acl => and_congr_right fun _ => ?_
  split <;> simp_all

theorem eq_of_mem_departurePlan_revoke
    (h : change ∈ (departurePlan removed acls members roles).revoke) : change.2 = removed := by
  obtain ⟨_, _, _, rfl⟩ := mem_departurePlan_revoke.1 h
  rfl

/-- It makes the managers owners of the resources concerned. -/
theorem mem_departurePlan_grantOwner :
    change ∈ (departurePlan removed acls members roles).grantOwner ↔
      ∃ acl ∈ acls, acl.direct? removed = some .owner ∧
        ∃ m ∈ (managers members roles).erase removed,
          (acl.removeUser removed).direct? m ≠ some .owner ∧ change = (acl.resource.id, m) := by
  simp only [departurePlan, Plan.concat_grantOwner, List.mem_flatMap, departure_grantOwner]
  refine exists_congr fun acl => and_congr_right fun _ => ?_
  split
  · rename_i held
    exact mem_absorb_grantOwner.trans (and_iff_right held).symm
  · rename_i free
    exact iff_of_false List.not_mem_nil fun h => free h.1

/-- It lists the resources concerned that nobody can be made owner of, in the order of the access
lists. -/
theorem departurePlan_ownerless : (departurePlan removed acls members roles).ownerless =
    (acls.filter fun acl => decide (acl.direct? removed = some .owner) &&
      (((managers members roles).erase removed).isEmpty &&
        ((acl.removeUser removed).owners members).isEmpty)).map fun acl =>
      ownerlessOf acl.resource := by
  rw [departurePlan, Plan.concat_ownerless]
  refine flatMap_eq_map_filter fun acl => ?_
  rw [departure_ownerless]
  by_cases held : acl.direct? removed = some .owner
  · rw [if_pos held, absorb_ownerless, decide_eq_true held, Bool.true_and]
    rfl
  · rw [if_neg held, decide_eq_false held, Bool.false_and]
    rfl

theorem mem_departurePlan_ownerless :
    w ∈ (departurePlan removed acls members roles).ownerless ↔
      ∃ acl ∈ acls, acl.direct? removed = some .owner ∧
        ((managers members roles).erase removed).isEmpty = true ∧
        ((acl.removeUser removed).owners members).isEmpty = true ∧
        w = ownerlessOf acl.resource := by
  simp only [departurePlan_ownerless, List.mem_map, List.mem_filter, Bool.and_eq_true,
    decide_eq_true_eq, and_assoc, @eq_comm _ w]

/-! ## The plan for vacancies -/

/-- The plan for resources without an owner revokes nothing. -/
theorem vacancyPlan_revoke : (vacancyPlan acls members roles).revoke = [] := by
  rw [vacancyPlan, Plan.concat_revoke]
  exact List.flatMap_eq_nil_iff.2 fun _ _ => rfl

theorem mem_vacancyPlan_grantOwner : change ∈ (vacancyPlan acls members roles).grantOwner ↔
    ∃ acl ∈ acls, (acl.owners members).isEmpty = true ∧ ∃ m ∈ managers members roles,
      acl.direct? m ≠ some .owner ∧ change = (acl.resource.id, m) := by
  simp only [vacancyPlan, Plan.concat_grantOwner, List.mem_flatMap, List.mem_filter,
    mem_absorb_grantOwner, and_assoc]

theorem vacancyPlan_ownerless : (vacancyPlan acls members roles).ownerless =
    (acls.filter fun acl => (managers members roles).isEmpty &&
      (acl.owners members).isEmpty).map fun acl => ownerlessOf acl.resource := by
  have same (acl : Acl) : ((managers members roles).isEmpty && (acl.owners members).isEmpty &&
      (acl.owners members).isEmpty) =
      ((managers members roles).isEmpty && (acl.owners members).isEmpty) := by
    rw [Bool.and_assoc, Bool.and_self]
  rw [vacancyPlan, Plan.concat_ownerless, flatMap_eq_map_filter fun acl => absorb_ownerless,
    List.filter_filter]
  simp only [same]

theorem mem_vacancyPlan_ownerless : w ∈ (vacancyPlan acls members roles).ownerless ↔
    ∃ acl ∈ acls, (acl.owners members).isEmpty = true ∧
      (managers members roles).isEmpty = true ∧ w = ownerlessOf acl.resource := by
  simp only [vacancyPlan_ownerless, List.mem_map, List.mem_filter, Bool.and_eq_true, and_assoc,
    @eq_comm _ w]
  exact exists_congr fun acl => and_congr_right fun _ => and_left_comm

/-! ## What a plan leaves alone -/

theorem departurePlan_held
    (h : change ∈ (departurePlan removed acls members roles).revoke ++
      (departurePlan removed acls members roles).grantOwner) :
    ∃ acl ∈ acls, acl.direct? removed = some .owner ∧ change.1 = acl.resource.id := by
  rcases List.mem_append.1 h with h | h
  · obtain ⟨acl, hacl, held, rfl⟩ := mem_departurePlan_revoke.1 h
    exact ⟨acl, hacl, held, rfl⟩
  · obtain ⟨acl, hacl, held, _, _, _, rfl⟩ := mem_departurePlan_grantOwner.1 h
    exact ⟨acl, hacl, held, rfl⟩

/-- A plan changes grants on resources that it is made for only. -/
theorem departurePlan_resource
    (h : change ∈ (departurePlan removed acls members roles).revoke ++
      (departurePlan removed acls members roles).grantOwner) :
    ∃ acl ∈ acls, change.1 = acl.resource.id := by
  obtain ⟨acl, hacl, _, e⟩ := departurePlan_held h
  exact ⟨acl, hacl, e⟩

theorem vacancyPlan_resource
    (h : change ∈ (vacancyPlan acls members roles).revoke ++
      (vacancyPlan acls members roles).grantOwner) :
    ∃ acl ∈ acls, change.1 = acl.resource.id := by
  rw [vacancyPlan_revoke, List.nil_append] at h
  obtain ⟨acl, hacl, _, _, _, _, rfl⟩ := mem_vacancyPlan_grantOwner.1 h
  exact ⟨acl, hacl, rfl⟩

namespace Plan

variable {plan : Plan} {acl : Acl} {p : PrincipalId}

/-- Applying a plan keeps what single changes to the grants of users keep. -/
theorem applyTo_keeps {β : Type} (f : Acl → β) (remove : ∀ a p, f (a.removeUser p) = f a)
    (set : ∀ a p level, f (a.setUser p level) = f a) : f (plan.applyTo acl) = f acl := by
  have removed : ∀ (l : List (ResourceId × PrincipalId)) (acl : Acl),
      f (l.foldl (fun a c => a.removeUser c.2) acl) = f acl := fun l => by
    induction l with
    | nil => exact fun _ => rfl
    | cons c rest ih => exact fun acl => (ih _).trans (remove acl c.2)
  have raised : ∀ (l : List (ResourceId × PrincipalId)) (acl : Acl),
      f (l.foldl (fun a c => a.setUser c.2 .owner) acl) = f acl := fun l => by
    induction l with
    | nil => exact fun _ => rfl
    | cons c rest ih => exact fun acl => (ih _).trans (set acl c.2 .owner)
  simp only [applyTo, raised, removed]

@[simp] theorem applyTo_resource : (plan.applyTo acl).resource = acl.resource :=
  applyTo_keeps Acl.resource (fun _ _ => rfl) fun _ _ _ => rfl

@[simp] theorem applyTo_roles : (plan.applyTo acl).roles = acl.roles :=
  applyTo_keeps Acl.roles (fun _ _ => rfl) fun _ _ _ => rfl

end Plan

end TenantAccess.Handover
