import TenantAccess.Proofs.Levels

/-!
# No resource is overlooked

What the plans of a handover do to one access list. A resource that had an owner has one afterwards,
or is listed as without an owner for want of a manager, whether the first plan touches it or not.
-/

namespace TenantAccess.Handover

open Table

variable {acls : List Acl} {acl : Acl} {members : RoleMap} {roles : IdSet .role}
  {removed p : PrincipalId}

/-! ## One access list -/

namespace Plan

variable {plan : Plan}

private theorem direct?_updateAll (update : Acl → PrincipalId → Acl) {level : Option Level}
    (h : ∀ a q, (update a q).direct? p = if p = q then level else a.direct? p)
    {l : List (ResourceId × PrincipalId)} : (l.foldl (fun a c => update a c.2) acl).direct? p =
      if p ∈ l.map Prod.snd then level else acl.direct? p := by
  induction l generalizing acl with
  | nil => simp
  | cons c rest ih =>
    rw [List.foldl_cons, ih, h]
    simp only [List.map_cons, List.mem_cons]
    -- what comes later decides, so the first entry counts only if the rest has none
    by_cases later : p ∈ rest.map Prod.snd
    · rw [if_pos later, if_pos (Or.inr later)]
    · rw [if_neg later]
      by_cases e : p = c.2
      · rw [if_pos e, if_pos (Or.inl e)]
      · rw [if_neg e, if_neg fun h' => h'.elim e later]

/-- The grant of a principal after a plan: what the plan sets counts, then what it revokes. -/
theorem direct?_applyTo : (plan.applyTo acl).direct? p =
    if (acl.resource.id, p) ∈ plan.grantOwner then some .owner
    else if (acl.resource.id, p) ∈ plan.revoke then none
    else acl.direct? p := by
  have mine {l : List (ResourceId × PrincipalId)} :
      p ∈ (l.filter fun c => c.1 = acl.resource.id).map Prod.snd ↔ (acl.resource.id, p) ∈ l := by
    simp
  simp only [applyTo, direct?_updateAll (fun a q => a.setUser q .owner) fun _ _ =>
    Acl.direct?_setUser, direct?_updateAll Acl.removeUser fun _ _ => Acl.direct?_removeUser, mine]

theorem owned_of_granted (h : (acl.resource.id, p) ∈ plan.grantOwner) :
    (plan.applyTo acl).Owned members := by
  refine Acl.owned_iff.2 (Or.inl ⟨p, ?_⟩)
  rw [direct?_applyTo, if_pos h]

theorem owned_of_spared (h : (∃ p, acl.direct? p = some .owner ∧
    (acl.resource.id, p) ∉ plan.revoke) ∨ ∃ m ∈ members, acl.levelOfRole? m.2 = some .owner) :
    (plan.applyTo acl).Owned members := by
  rcases h with ⟨p, hp, spared⟩ | ⟨m, hm, hr⟩
  · refine Acl.owned_iff.2 (Or.inl ⟨p, ?_⟩)
    rw [direct?_applyTo, if_neg spared, hp]
    split <;> rfl
  · refine Acl.owned_iff.2 (Or.inr ⟨m, hm, ?_⟩)
    rw [Acl.levelOfRole?, applyTo_roles]
    exact hr

theorem applyTo_of_untouched (h : ∀ c ∈ plan.revoke ++ plan.grantOwner, c.1 ≠ acl.resource.id) :
    plan.applyTo acl = acl := by
  have none {l : List (ResourceId × PrincipalId)} (hl : ∀ c ∈ l, c.1 ≠ acl.resource.id) :
      (l.filter fun c => c.1 = acl.resource.id) = [] :=
    List.filter_eq_nil_iff.2 fun c hc => by simpa using hl c hc
  rw [applyTo, none fun c hc => h c (List.mem_append_left _ hc),
    none fun c hc => h c (List.mem_append_right _ hc)]
  rfl

/-- The access lists, after a plan, of the resources on which it revokes nothing. -/
def untouched (plan : Plan) (acls : List Acl) : List Acl :=
  (plan.apply acls).filter fun acl => !plan.revoke.any fun c => c.1 = acl.resource.id

theorem mem_untouched {a : Acl} : a ∈ plan.untouched acls ↔
    ∃ acl ∈ acls, plan.applyTo acl = a ∧ ∀ c ∈ plan.revoke, c.1 ≠ acl.resource.id := by
  simp only [untouched, apply, List.mem_filter, List.mem_map, Bool.not_eq_true', List.any_eq_false,
    decide_eq_true_eq]
  constructor
  · rintro ⟨⟨acl, hacl, rfl⟩, spared⟩
    exact ⟨acl, hacl, rfl, fun c hc => by simpa using spared c hc⟩
  · rintro ⟨acl, hacl, rfl, spared⟩
    exact ⟨⟨acl, hacl, rfl⟩, fun c hc => by simpa using spared c hc⟩

end Plan

/-! ## Each plan by itself -/

theorem vacancyPlan_owned {there : RoleMap} (h : acl.Owned there) :
    ((vacancyPlan acls members roles).applyTo acl).Owned there := by
  refine Plan.owned_of_spared ((Acl.owned_iff.1 h).imp_left fun ⟨p, hp⟩ => ⟨p, hp, ?_⟩)
  rw [vacancyPlan_revoke]
  exact List.not_mem_nil

theorem vacancyPlan_covers (members : RoleMap) (roles : IdSet .role) (hacl : acl ∈ acls) :
    ((vacancyPlan acls members roles).applyTo acl).Owned members ∨
      (managers members roles).isEmpty = true ∧
        ownerlessOf acl.resource ∈ (vacancyPlan acls members roles).ownerless := by
  by_cases owned : acl.Owned members
  · exact Or.inl (vacancyPlan_owned owned)
  have unowned := Acl.owners_isEmpty.2 owned
  by_cases none : (managers members roles).isEmpty = true
  · exact Or.inr ⟨none, mem_vacancyPlan_ownerless.2 ⟨acl, hacl, unowned, none, rfl⟩⟩
  · obtain ⟨m, hm⟩ := exists_mem none
    refine Or.inl (Plan.owned_of_granted (p := m) (mem_vacancyPlan_grantOwner.2 ?_))
    exact ⟨acl, hacl, unowned, m, hm,
      fun direct => owned (Acl.owned_iff.2 (Or.inl ⟨m, direct⟩)), rfl⟩

/-- The plan of a departure for a resource that the principal owned. -/
theorem departurePlan_covers (members : RoleMap) (roles : IdSet .role) (hacl : acl ∈ acls)
    (held : acl.direct? removed = some .owner) :
    ((departurePlan removed acls members roles).applyTo acl).Owned members ∨
      ((managers members roles).erase removed).isEmpty = true ∧
        ownerlessOf acl.resource ∈ (departurePlan removed acls members roles).ownerless := by
  have spared {p : PrincipalId} (hp : p ≠ removed) :
      (acl.resource.id, p) ∉ (departurePlan removed acls members roles).revoke :=
    fun h => hp (eq_of_mem_departurePlan_revoke h)
  have direct {p : PrincipalId} (h : (acl.removeUser removed).direct? p = some .owner) :
      p ≠ removed ∧ acl.direct? p = some .owner := by
    rw [Acl.direct?_removeUser] at h
    split at h
    · cases h
    · exact ⟨‹_›, h⟩
  by_cases none : ((managers members roles).erase removed).isEmpty = true
  · -- nobody is there to be raised, but somebody else may own the resource already
    by_cases owned : (acl.removeUser removed).Owned members
    · refine Or.inl (Plan.owned_of_spared ((Acl.owned_iff.1 owned).imp_left fun ⟨p, hp⟩ => ?_))
      exact ⟨p, (direct hp).2, spared (direct hp).1⟩
    · exact Or.inr ⟨none, mem_departurePlan_ownerless.2
        ⟨acl, hacl, held, none, Acl.owners_isEmpty.2 owned, rfl⟩⟩
  · obtain ⟨m, hm⟩ := exists_mem none
    left
    -- a manager that is an owner already is not granted anything, nor does it lose its grant
    by_cases h : (acl.removeUser removed).direct? m = some .owner
    · exact Plan.owned_of_spared (Or.inl ⟨m, (direct h).2, spared (direct h).1⟩)
    · exact Plan.owned_of_granted
        (mem_departurePlan_grantOwner.2 ⟨acl, hacl, held, m, hm, h, rfl⟩)

/-- It leaves alone the resources that the principal did not own. -/
theorem departurePlan_untouched (members : RoleMap) (roles : IdSet .role)
    (apart : ∀ a ∈ acls, ∀ b ∈ acls, a.resource.id = b.resource.id → a = b)
    (hacl : acl ∈ acls) (free : acl.direct? removed ≠ some .owner) :
    ∀ c ∈ (departurePlan removed acls members roles).revoke ++
      (departurePlan removed acls members roles).grantOwner, c.1 ≠ acl.resource.id := by
  intro c hc e
  obtain ⟨a, ha, held, e'⟩ := departurePlan_held hc
  rw [apart a ha acl hacl (e'.symm.trans e)] at held
  exact free held

/-- So the sweep looks at just these, as they were. -/
theorem untouched_eq (members : RoleMap) (roles : IdSet .role)
    (apart : ∀ a ∈ acls, ∀ b ∈ acls, a.resource.id = b.resource.id → a = b) :
    (departurePlan removed acls members roles).untouched acls =
      acls.filter fun acl => acl.direct? removed ≠ some .owner := by
  have spared : ∀ acl ∈ acls,
      (!(departurePlan removed acls members roles).revoke.any fun c => c.1 = acl.resource.id) =
        decide (acl.direct? removed ≠ some .owner) := by
    intro acl hacl
    rw [Bool.eq_iff_iff, Bool.not_eq_true', List.any_eq_false, decide_eq_true_eq]
    simp only [decide_eq_true_eq]
    constructor
    · intro spared held
      exact spared _ (mem_departurePlan_revoke.2 ⟨acl, hacl, held, rfl⟩) rfl
    · intro free c hc
      exact departurePlan_untouched members roles apart hacl free c (List.mem_append_left _ hc)
  have same : ∀ acl ∈ acls.filter fun acl => acl.direct? removed ≠ some .owner,
      (departurePlan removed acls members roles).applyTo acl = acl := by
    intro acl h
    obtain ⟨hacl, free⟩ := List.mem_filter.1 h
    exact Plan.applyTo_of_untouched
      (departurePlan_untouched members roles apart hacl (of_decide_eq_true free))
  rw [Plan.untouched, Plan.apply, List.filter_map]
  simp only [Function.comp_def, Plan.applyTo_resource]
  rw [List.filter_congr spared, List.map_congr_left same, List.map_id']

theorem departing_not_granted {r : ResourceId} :
    (r, removed) ∉ (departurePlan removed acls members roles).grantOwner := by
  intro h
  obtain ⟨_, _, _, m, hm, _, e⟩ := mem_departurePlan_grantOwner.1 h
  exact (mem_erase.1 hm).2 (Prod.mk.inj e).2.symm

theorem departurePlan_direct? (hacl : acl ∈ acls) :
    ((departurePlan removed acls members roles).applyTo acl).direct? removed ≠ some .owner := by
  intro h
  rw [Plan.direct?_applyTo, if_neg departing_not_granted] at h
  split at h
  · cases h
  · exact absurd (mem_departurePlan_revoke.2 ⟨acl, hacl, h, rfl⟩) ‹_›

/-- The sweep that follows hands on resources only that had no owner before either plan. -/
theorem mem_sweep_grantOwner {c : ResourceId × PrincipalId}
    (apart : ∀ a ∈ acls, ∀ b ∈ acls, a.resource.id = b.resource.id → a = b)
    (h : c ∈ (vacancyPlan ((departurePlan removed acls members roles).untouched acls) members
      roles).grantOwner) :
    ∃ acl ∈ acls, acl.direct? removed ≠ some .owner ∧ (acl.owners members).isEmpty = true ∧
      ∃ m ∈ managers members roles, c = (acl.resource.id, m) := by
  rw [untouched_eq members roles apart] at h
  obtain ⟨acl, listed, unowned, m, hm, _, rfl⟩ := mem_vacancyPlan_grantOwner.1 h
  obtain ⟨hacl, free⟩ := List.mem_filter.1 listed
  exact ⟨acl, hacl, of_decide_eq_true free, unowned, m, hm, rfl⟩

/-! ## Both plans -/

section Departure

/-- The access list of a resource after both plans of a departure. -/
def afterBoth (removed : PrincipalId) (acls : List Acl) (members : RoleMap) (roles : IdSet .role)
    (acl : Acl) : Acl :=
  let plan := departurePlan removed acls members roles
  (vacancyPlan (plan.untouched acls) members roles).applyTo (plan.applyTo acl)

/-- Every resource is covered by one of the two plans. -/
theorem afterBoth_covers (removed : PrincipalId) (members : RoleMap) (roles : IdSet .role)
    (apart : ∀ a ∈ acls, ∀ b ∈ acls, a.resource.id = b.resource.id → a = b) (hacl : acl ∈ acls) :
    (afterBoth removed acls members roles acl).Owned members ∨
      ((managers members roles).erase removed).isEmpty = true ∧
        ownerlessOf acl.resource ∈ (departurePlan removed acls members roles).ownerless ++
          (vacancyPlan ((departurePlan removed acls members roles).untouched acls) members
            roles).ownerless := by
  by_cases held : acl.direct? removed = some .owner
  · rcases departurePlan_covers members roles hacl held with
      owned | ⟨none, listed⟩
    · exact Or.inl (vacancyPlan_owned owned)
    · exact Or.inr ⟨none, List.mem_append_left _ listed⟩
  · -- the first plan passes the resource by, so the second one looks at it as it was
    have spared := departurePlan_untouched members roles apart hacl held
    have same := Plan.applyTo_of_untouched spared
    have rest : acl ∈ (departurePlan removed acls members roles).untouched acls :=
      Plan.mem_untouched.2 ⟨acl, hacl, same, fun c hc => spared c (List.mem_append_left _ hc)⟩
    rw [afterBoth, same]
    rcases vacancyPlan_covers members roles rest with owned | ⟨none, listed⟩
    · exact Or.inl owned
    · refine Or.inr ⟨?_, List.mem_append_right _ listed⟩
      exact isEmpty_iff_forall.2 fun m hm => isEmpty_iff_forall.1 none m (mem_erase.1 hm).1

/-- The principal that left owns nothing afterwards, unless it is a manager still. -/
theorem afterBoth_direct? (hacl : acl ∈ acls) (left : ¬ removed ∈ managers members roles) :
    (afterBoth removed acls members roles acl).direct? removed ≠ some .owner := by
  intro h
  have unraised : (((departurePlan removed acls members roles).applyTo acl).resource.id, removed) ∉
      (vacancyPlan ((departurePlan removed acls members roles).untouched acls) members
        roles).grantOwner := fun h => by
    obtain ⟨_, _, _, m, hm, _, e⟩ := mem_vacancyPlan_grantOwner.1 h
    exact left ((Prod.mk.inj e).2 ▸ hm)
  rw [afterBoth, Plan.direct?_applyTo, if_neg unraised, vacancyPlan_revoke,
    if_neg List.not_mem_nil] at h
  exact departurePlan_direct? hacl h

end Departure

end TenantAccess.Handover
