import Mathlib.Data.List.Nodup
import TenantAccess.Proofs.CarriedOut
import TenantAccess.Proofs.Losses

/-!
# Planning again

The plan for a departure and the plan for vacancies are made once. When either has been applied to the
access lists that it was made for, another one has nothing to change, although the same resource may
be listed several times with different grants. What a plan reports as without an owner is what has none
when the plan has been applied.
-/

namespace TenantAccess.Handover

open Table

variable {acls : List Acl} {acl : Acl} {members : RoleMap} {roles : IdSet .role}
  {removed : PrincipalId} {change : ResourceId × PrincipalId}

/-! ## Plans that are applied -/

namespace Plan

variable {plan : Plan}

theorem isIdle_iff : plan.isIdle = true ↔ ∀ c, c ∉ plan.revoke ++ plan.grantOwner := by
  rw [isIdle, Bool.and_eq_true, List.isEmpty_iff, List.isEmpty_iff, ← List.append_eq_nil_iff,
    List.eq_nil_iff_forall_not_mem]

theorem applyTo_of_idle (idle : plan.isIdle = true) : plan.applyTo acl = acl :=
  applyTo_of_untouched fun c hc => absurd hc (isIdle_iff.1 idle c)

/-- What is picked among the access lists that a plan leaves can be picked before it. -/
theorem ownerless_apply {picks before : Acl → Bool}
    (same : ∀ acl ∈ acls, picks (plan.applyTo acl) = before acl) :
    ((plan.apply acls).filter picks).map (fun acl => ownerlessOf acl.resource) =
      (acls.filter before).map fun acl => ownerlessOf acl.resource := by
  rw [apply, List.filter_map, List.map_map, ← List.filter_congr same]
  simp only [Function.comp_def, applyTo_resource]

end Plan

/-! ## Departures -/

section Departure

theorem departurePlan_idle (free : ∀ acl ∈ acls, acl.direct? removed ≠ some .owner) :
    (departurePlan removed acls members roles).isIdle = true := by
  refine Plan.isIdle_iff.2 fun c planned => ?_
  obtain ⟨acl, hacl, held, _⟩ := departurePlan_held planned
  exact free acl hacl held

theorem departurePlan_granted
    (h : change ∈ (departurePlan removed acls members roles).grantOwner) :
    change.2 ≠ removed ∧ change.2 ∈ managers members roles := by
  obtain ⟨acl, _, _, m, hm, _, rfl⟩ := mem_departurePlan_grantOwner.1 h
  exact (mem_erase.1 hm).symm

/-- Where nobody is there to take a resource over the principal is removed from its access list, and
that is all. -/
theorem departurePlan_removes (hacl : acl ∈ acls) (held : acl.direct? removed = some .owner)
    (none : ((managers members roles).erase removed).isEmpty = true) :
    (departurePlan removed acls members roles).applyTo acl = acl.removeUser removed := by
  apply Acl.ext_direct?
  · exact Plan.applyTo_resource
  · intro p
    have unraised : (acl.resource.id, p) ∉ (departurePlan removed acls members roles).grantOwner := by
      intro raised
      obtain ⟨_, _, _, m, hm, _⟩ := mem_departurePlan_grantOwner.1 raised
      exact isEmpty_iff_forall.1 none m hm
    rw [Plan.direct?_applyTo, if_neg unraised, Acl.direct?_removeUser]
    -- what is revoked may be listed for another access list of the resource, but for no other principal
    by_cases own : p = removed
    · rw [if_pos own, if_pos (mem_departurePlan_revoke.2 ⟨acl, hacl, held, own ▸ rfl⟩)]
    · rw [if_neg own, if_neg fun revoked => own (eq_of_mem_departurePlan_revoke revoked)]
  · exact Plan.applyTo_roles

/-- So a resource that the principal owned has no owner then just if the plan says so. -/
theorem departurePlan_leaves (hacl : acl ∈ acls) (held : acl.direct? removed = some .owner) :
    (((departurePlan removed acls members roles).applyTo acl).owners members).isEmpty =
      (((managers members roles).erase removed).isEmpty &&
        ((acl.removeUser removed).owners members).isEmpty) := by
  by_cases none : ((managers members roles).erase removed).isEmpty = true
  · rw [departurePlan_removes hacl held none, none, Bool.true_and]
  · have owned := (departurePlan_covers members roles hacl held).resolve_right fun h => none h.1
    rw [owned.isEmpty_owners, Bool.eq_false_iff.2 none, Bool.false_and]

/-- The report of a departure, from the access lists that the plan leaves. -/
theorem departurePlan_reports (ids : (acls.map fun acl => acl.resource.id).Nodup) :
    let plan := departurePlan removed acls members roles
    plan.ownerless = ((plan.apply acls).filter fun acl =>
      decide (acl.resource.id ∈ plan.revoke.map Prod.fst) &&
        (acl.owners members).isEmpty).map fun acl => ownerlessOf acl.resource := by
  intro plan
  have listed : ∀ acl ∈ acls, acl.resource.id ∈ plan.revoke.map Prod.fst ↔
      acl.direct? removed = some .owner := by
    intro acl hacl
    rw [List.mem_map]
    constructor
    -- no other access list is for the same resource
    · rintro ⟨_, revoked, e⟩
      obtain ⟨other, hother, held, rfl⟩ := mem_departurePlan_revoke.1 revoked
      rwa [List.inj_on_of_nodup_map ids hother hacl e] at held
    · exact fun held => ⟨_, mem_departurePlan_revoke.2 ⟨acl, hacl, held, rfl⟩, rfl⟩
  rw [departurePlan_ownerless]
  refine (Plan.ownerless_apply fun acl hacl => ?_).symm
  rw [Plan.applyTo_resource]
  by_cases held : acl.direct? removed = some .owner
  · rw [decide_eq_true held, decide_eq_true ((listed acl hacl).2 held), departurePlan_leaves hacl held]
  · rw [decide_eq_false held, decide_eq_false (mt (listed acl hacl).1 held), Bool.false_and,
      Bool.false_and]

end Departure

/-! ## Vacancies -/

section Vacancies

theorem vacancyPlan_idle
    (settled : ∀ acl ∈ acls, acl.Owned members ∨ (managers members roles).isEmpty = true) :
    (vacancyPlan acls members roles).isIdle = true := by
  refine Plan.isIdle_iff.2 fun c planned => ?_
  rw [vacancyPlan_revoke, List.nil_append] at planned
  obtain ⟨acl, hacl, unowned, m, hm, _⟩ := mem_vacancyPlan_grantOwner.1 planned
  rcases settled acl hacl with owned | none
  · exact Acl.owners_isEmpty.1 unowned owned
  · exact isEmpty_iff_forall.1 none m hm

theorem vacancyPlan_granted (h : change ∈ (vacancyPlan acls members roles).grantOwner) :
    change.2 ∈ managers members roles := by
  obtain ⟨acl, _, _, m, hm, _, rfl⟩ := mem_vacancyPlan_grantOwner.1 h
  exact hm

theorem vacancyPlan_leaves (hacl : acl ∈ acls) :
    (((vacancyPlan acls members roles).applyTo acl).owners members).isEmpty =
      ((managers members roles).isEmpty && (acl.owners members).isEmpty) := by
  by_cases none : (managers members roles).isEmpty = true
  · have idle : (vacancyPlan acls members roles).isIdle = true :=
      vacancyPlan_idle fun _ _ => Or.inr none
    rw [Plan.applyTo_of_idle idle, none, Bool.true_and]
  · have owned := (vacancyPlan_covers members roles hacl).resolve_right fun h => none h.1
    rw [owned.isEmpty_owners, Bool.eq_false_iff.2 none, Bool.false_and]

theorem vacancyPlan_reports :
    let plan := vacancyPlan acls members roles
    plan.ownerless = ((plan.apply acls).filter fun acl =>
      (acl.owners members).isEmpty).map fun acl => ownerlessOf acl.resource := by
  intro plan
  rw [vacancyPlan_ownerless]
  exact (Plan.ownerless_apply fun acl hacl => vacancyPlan_leaves hacl).symm

end Vacancies

/-! ## Planning again -/

/-- What the plan for a departure comes to when it is applied to the access lists that it was made
for. -/
structure DepartedOnce (removed : PrincipalId) (acls : List Acl) (members : RoleMap)
    (roles : IdSet .role) (plan : Plan) : Prop where
  idle : (departurePlan removed (plan.apply acls) members roles).isIdle = true
  lowers : ∀ acl ∈ acls, ∀ p role,
    (plan.applyTo acl).effective p role < acl.effective p role → p = removed
  granted : ∀ c ∈ plan.grantOwner,
    c.2 ≠ removed ∧ ∃ m ∈ members, m.1 = c.2 ∧ roles.contains m.2 = true
  left : ∀ acl ∈ plan.apply acls, acl.direct? removed ≠ some .owner
  /-- Of a resource that is listed twice only the lists that the principal owned are reported. -/
  ownerless : (acls.map fun acl => acl.resource.id).Nodup →
    plan.ownerless = ((plan.apply acls).filter fun acl =>
      decide (acl.resource.id ∈ plan.revoke.map Prod.fst) &&
        (acl.owners members).isEmpty).map fun acl => ownerlessOf acl.resource

/-- What the plan for vacancies comes to. -/
structure FilledOnce (acls : List Acl) (members : RoleMap) (roles : IdSet .role) (plan : Plan) :
    Prop where
  idle : (vacancyPlan (plan.apply acls) members roles).isIdle = true
  lowers : ∀ acl ∈ acls, ∀ p role, ¬ (plan.applyTo acl).effective p role < acl.effective p role
  granted : ∀ c ∈ plan.grantOwner, ∃ m ∈ members, m.1 = c.2 ∧ roles.contains m.2 = true
  ownerless : plan.ownerless = ((plan.apply acls).filter fun acl =>
    (acl.owners members).isEmpty).map fun acl => ownerlessOf acl.resource

theorem departurePlan_left :
    ∀ acl ∈ (departurePlan removed acls members roles).apply acls, acl.direct? removed ≠ some .owner := by
  intro a ha
  obtain ⟨acl, hacl, rfl⟩ := List.mem_map.1 ha
  exact departurePlan_direct? hacl

theorem departurePlan_once : DepartedOnce removed acls members roles
    (departurePlan removed acls members roles) where
  idle := departurePlan_idle departurePlan_left
  lowers _ _ _ _ loss := eq_of_mem_departurePlan_revoke (Plan.mem_revoke_of_loss loss)
  granted _ hc := (departurePlan_granted hc).imp_right mem_managers.1
  left := departurePlan_left
  ownerless := departurePlan_reports

theorem vacancyPlan_once : FilledOnce acls members roles (vacancyPlan acls members roles) where
  idle := by
    refine vacancyPlan_idle fun a ha => ?_
    obtain ⟨acl, hacl, rfl⟩ := List.mem_map.1 ha
    exact (vacancyPlan_covers members roles hacl).imp_right And.left
  lowers := by
    intro acl _ p role loss
    have revoked := Plan.mem_revoke_of_loss loss
    rw [vacancyPlan_revoke] at revoked
    cases revoked
  granted _ hc := mem_managers.1 (vacancyPlan_granted hc)
  ownerless := vacancyPlan_reports

/-- Both plans are made once, for all access lists and members: also when a resource is listed several
times and when the principal that left is still a member. -/
theorem planned_once (removed : PrincipalId) (acls : List Acl) (members : RoleMap)
    (roles : IdSet .role) :
    DepartedOnce removed acls members roles (departurePlan removed acls members roles) ∧
      FilledOnce acls members roles (vacancyPlan acls members roles) :=
  ⟨departurePlan_once, vacancyPlan_once⟩

/-- A manager that is still a member leaves two resources, one of which is listed twice. Its fellow
manager takes them over; without one both are left without an owner. -/
theorem planned_once_launch :
    let ada : PrincipalId := Supply.numberedId 0
    let bob : PrincipalId := Supply.numberedId 1
    let leads : RoleId := Supply.numberedId 2
    let resource (n : Nat) : Resource := ⟨Supply.numberedId n, .project, Supply.numberedId 3,
      Supply.numberedId 4, "launch"⟩
    let owned (n : Nat) : Acl := (Acl.bare (resource n)).setUser ada .owner
    let shared : Acl := ((Acl.bare (resource 5)).setUser ada .write).setUser bob .read
    let both : RoleMap := .ofList [(ada, leads), (bob, leads)]
    let alone : RoleMap := .ofList [(ada, leads)]
    let plan := departurePlan ada [owned 5, shared, owned 6] both (.ofList [leads])
    let rest := departurePlan ada [owned 5, owned 6] alone (.ofList [leads])
    plan.grantOwner = [((resource 5).id, bob), ((resource 6).id, bob)] ∧
      (departurePlan ada (plan.apply [owned 5, shared, owned 6]) both (.ofList [leads])).isIdle = true ∧
      rest.ownerless = [ownerlessOf (resource 5), ownerlessOf (resource 6)] ∧
      rest.ownerless = ((rest.apply [owned 5, owned 6]).filter fun acl =>
        decide (acl.resource.id ∈ rest.revoke.map Prod.fst) &&
          (acl.owners alone).isEmpty).map fun acl => ownerlessOf acl.resource := by
  intro ada bob leads resource owned shared both alone plan rest
  obtain ⟨twice, _⟩ := planned_once ada [owned 5, shared, owned 6] both (.ofList [leads])
  obtain ⟨apart, _⟩ := planned_once ada [owned 5, owned 6] alone (.ofList [leads])
  exact ⟨by decide +kernel, twice.idle, by decide +kernel, apart.ownerless (by decide +kernel)⟩

end TenantAccess.Handover
