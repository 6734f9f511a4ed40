import TenantAccess.Proofs.Coverage

/-!
# The whole plan of a departure

A departure makes two plans, the second for the resources that the first passes by. Together they are
one plan: it takes what the principal owned and what nobody owns for the managers. It has an entry for
a resource and a principal once at most.
-/

namespace TenantAccess

open Table

namespace Handover

variable {acls : List Acl} {acl : Acl} {members : RoleMap} {roles : IdSet .role}
  {removed p : PrincipalId} {holders : IdSet .principal}

/-- Both plans of a departure as one: the second is for the resources that the first passes by. -/
def wholePlan (removed : PrincipalId) (acls : List Acl) (members : RoleMap) (roles : IdSet .role) :
    Plan :=
  departurePlan removed acls members roles ++
    vacancyPlan ((departurePlan removed acls members roles).untouched acls) members roles

/-! ## Entries -/

section Entries

variable {c : ResourceId × PrincipalId} {w : Ownerless}

theorem mem_wholePlan_revoke : c ∈ (wholePlan removed acls members roles).revoke ↔
    ∃ acl ∈ acls, acl.direct? removed = some .owner ∧ c = (acl.resource.id, removed) := by
  have e : (wholePlan removed acls members roles).revoke =
      (departurePlan removed acls members roles).revoke ++ (vacancyPlan
        ((departurePlan removed acls members roles).untouched acls) members roles).revoke := rfl
  rw [e, vacancyPlan_revoke, List.append_nil]
  exact mem_departurePlan_revoke

/-- It makes the managers owners of the resources that the principal owned and of those without an
owner. -/
theorem mem_wholePlan_grantOwner
    (apart : ∀ a ∈ acls, ∀ b ∈ acls, a.resource.id = b.resource.id → a = b)
    (left : ¬ removed ∈ managers members roles) :
    c ∈ (wholePlan removed acls members roles).grantOwner ↔
      ∃ acl ∈ acls, (acl.direct? removed = some .owner ∨ ¬ acl.Owned members) ∧
        ∃ m ∈ managers members roles, acl.direct? m ≠ some .owner ∧ c = (acl.resource.id, m) := by
  have others : ∀ m ∈ managers members roles, m ≠ removed := fun m hm e => left (e ▸ hm)
  have e : (wholePlan removed acls members roles).grantOwner =
      (departurePlan removed acls members roles).grantOwner ++ (vacancyPlan
        ((departurePlan removed acls members roles).untouched acls) members roles).grantOwner := rfl
  rw [e, List.mem_append, mem_departurePlan_grantOwner, mem_vacancyPlan_grantOwner,
    untouched_eq members roles apart, erase_eq_self (not_contains_iff.2 others)]
  simp only [List.mem_filter, decide_eq_true_eq, Acl.owners_isEmpty]
  constructor
  · rintro (⟨acl, hacl, held, m, hm, free, rfl⟩ | ⟨acl, ⟨hacl, _⟩, unowned, m, hm, free, rfl⟩)
    · rw [Acl.direct?_removeUser, if_neg (others m hm)] at free
      exact ⟨acl, hacl, Or.inl held, m, hm, free, rfl⟩
    · exact ⟨acl, hacl, Or.inr unowned, m, hm, free, rfl⟩
  · rintro ⟨acl, hacl, falls, m, hm, free, rfl⟩
    by_cases held : acl.direct? removed = some .owner
    · refine Or.inl ⟨acl, hacl, held, m, hm, ?_, rfl⟩
      rw [Acl.direct?_removeUser, if_neg (others m hm)]
      exact free
    · exact Or.inr ⟨acl, ⟨hacl, held⟩, falls.resolve_left held, m, hm, free, rfl⟩

/-- It lists the resources that are left without an owner, for want of a manager. -/
theorem mem_wholePlan_ownerless
    (apart : ∀ a ∈ acls, ∀ b ∈ acls, a.resource.id = b.resource.id → a = b)
    (left : ¬ removed ∈ managers members roles) :
    w ∈ (wholePlan removed acls members roles).ownerless ↔
      ∃ acl ∈ acls, (managers members roles).isEmpty = true ∧
        ¬ (acl.removeUser removed).Owned members ∧ w = ownerlessOf acl.resource := by
  have others : ∀ m ∈ managers members roles, m ≠ removed := fun m hm e => left (e ▸ hm)
  have e : (wholePlan removed acls members roles).ownerless =
      (departurePlan removed acls members roles).ownerless ++ (vacancyPlan
        ((departurePlan removed acls members roles).untouched acls) members roles).ownerless := rfl
  rw [e, List.mem_append, mem_departurePlan_ownerless, mem_vacancyPlan_ownerless,
    untouched_eq members roles apart, erase_eq_self (not_contains_iff.2 others)]
  simp only [List.mem_filter, decide_eq_true_eq, Acl.owners_isEmpty]
  constructor
  · rintro (⟨acl, hacl, _, none, unowned, rfl⟩ | ⟨acl, ⟨hacl, _⟩, unowned, none, rfl⟩)
    · exact ⟨acl, hacl, none, unowned, rfl⟩
    · exact ⟨acl, hacl, none, fun owned => unowned owned.of_removeUser, rfl⟩
  · rintro ⟨acl, hacl, none, unowned, rfl⟩
    by_cases held : acl.direct? removed = some .owner
    · exact Or.inl ⟨acl, hacl, held, none, unowned, rfl⟩
    · exact Or.inr ⟨acl, ⟨hacl, held⟩, fun owned => unowned (owned.removeUser held), none, rfl⟩

end Entries

/-! ## No entry twice -/

section Distinct

namespace Plan

/-- No entry of the plan occurs twice. -/
structure Distinct (plan : Plan) : Prop where
  revoke : plan.revoke.Nodup
  grantOwner : plan.grantOwner.Nodup
  ownerless : plan.ownerless.Nodup

/-- The plan is for resources of a certain kind only. -/
structure On (P : ResourceId → Prop) (plan : Plan) : Prop where
  revoke : ∀ c ∈ plan.revoke, P c.1
  grantOwner : ∀ c ∈ plan.grantOwner, P c.1
  ownerless : ∀ w ∈ plan.ownerless, P w.resource

variable {P Q : ResourceId → Prop} {plan plan' : Plan}

theorem On.empty : Plan.empty.On P :=
  ⟨fun _ h => absurd h List.not_mem_nil, fun _ h => absurd h List.not_mem_nil,
    fun _ h => absurd h List.not_mem_nil⟩

theorem On.append (h : plan.On P) (h' : plan'.On P) : (plan ++ plan').On P where
  revoke c hc := (List.mem_append.1 hc).elim (h.revoke c) (h'.revoke c)
  grantOwner c hc := (List.mem_append.1 hc).elim (h.grantOwner c) (h'.grantOwner c)
  ownerless w hw := (List.mem_append.1 hw).elim (h.ownerless w) (h'.ownerless w)

theorem Distinct.append (h : plan.Distinct) (h' : plan'.Distinct) (on : plan.On P)
    (on' : plan'.On Q) (apart : ∀ r, P r → ¬ Q r) : (plan ++ plan').Distinct where
  revoke := List.nodup_append.2 ⟨h.revoke, h'.revoke, fun c hc c' hc' e =>
    apart c.1 (on.revoke c hc) (e ▸ on'.revoke c' hc')⟩
  grantOwner := List.nodup_append.2 ⟨h.grantOwner, h'.grantOwner, fun c hc c' hc' e =>
    apart c.1 (on.grantOwner c hc) (e ▸ on'.grantOwner c' hc')⟩
  ownerless := List.nodup_append.2 ⟨h.ownerless, h'.ownerless, fun w hw w' hw' e =>
    apart w.resource (on.ownerless w hw) (e ▸ on'.ownerless w' hw')⟩

theorem distinct_concat {g : Acl → Plan} (apart : (acls.map fun acl => acl.resource.id).Nodup)
    (each : ∀ acl, (g acl).Distinct) (own : ∀ acl, (g acl).On (· = acl.resource.id)) :
    (concat (acls.map g)).Distinct ∧
      (concat (acls.map g)).On (· ∈ acls.map fun acl => acl.resource.id) := by
  induction acls with
  | nil => exact ⟨⟨.nil, .nil, .nil⟩, .empty⟩
  | cons acl rest ih =>
    obtain ⟨hne, apart⟩ := List.nodup_cons.1 apart
    obtain ⟨distinct, on⟩ := ih apart
    refine ⟨(each acl).append distinct (own acl) on ?_, ?_⟩
    · rintro _ rfl listed
      exact hne listed
    have first : (g acl).On (· ∈ (acl :: rest).map fun acl => acl.resource.id) :=
      ⟨fun c hc => (own acl).revoke c hc ▸ List.mem_cons_self,
        fun c hc => (own acl).grantOwner c hc ▸ List.mem_cons_self,
        fun w hw => (own acl).ownerless w hw ▸ List.mem_cons_self⟩
    exact first.append ⟨fun c hc => List.mem_cons_of_mem _ (on.revoke c hc),
      fun c hc => List.mem_cons_of_mem _ (on.grantOwner c hc),
      fun w hw => List.mem_cons_of_mem _ (on.ownerless w hw)⟩

end Plan

theorem absorb_distinct : (absorb acl holders members).Distinct where
  revoke := .nil
  grantOwner := by
    refine List.pairwise_map.2 (List.Pairwise.imp (fun {p q} hne e => hne ?_)
      ((distinct_rows holders).filter _))
    exact (Prod.mk.inj e).2
  ownerless := by
    simp only [absorb]
    split
    · exact List.pairwise_singleton _ _
    · exact .nil

theorem absorb_on : (absorb acl holders members).On (· = acl.resource.id) where
  revoke _ hc := absurd hc List.not_mem_nil
  grantOwner c hc := by
    obtain ⟨_, _, _, rfl⟩ := mem_absorb_grantOwner.1 hc
    rfl
  ownerless w hw := by
    obtain ⟨_, _, rfl⟩ := mem_absorb_ownerless.1 hw
    rfl

theorem departure_distinct : (departure removed holders members acl).Distinct := by
  constructor
  · rw [departure_revoke]
    split
    · exact List.pairwise_singleton _ _
    · exact .nil
  · rw [departure_grantOwner]
    split
    · exact absorb_distinct.grantOwner
    · exact .nil
  · rw [departure_ownerless]
    split
    · exact absorb_distinct.ownerless
    · exact .nil

theorem departure_on : (departure removed holders members acl).On (· = acl.resource.id) := by
  rw [departure]
  split
  · refine .append ⟨fun c hc => ?_, fun _ h => absurd h List.not_mem_nil,
      fun _ h => absurd h List.not_mem_nil⟩ (@absorb_on (acl.removeUser removed) members holders)
    rw [List.mem_singleton.1 hc]
  · exact .empty

/-- No entry of the plan of a departure occurs twice. -/
theorem wholePlan_distinct (removed : PrincipalId) (members : RoleMap) (roles : IdSet .role)
    (apart : ∀ a ∈ acls, ∀ b ∈ acls, a.resource.id = b.resource.id → a = b)
    (ids : (acls.map fun acl => acl.resource.id).Nodup) :
    (wholePlan removed acls members roles).Distinct := by
  have first := Plan.distinct_concat ids
    (g := departure removed ((managers members roles).erase removed) members)
    (fun _ => departure_distinct) fun _ => departure_on
  have second := Plan.distinct_concat (g := fun acl => absorb acl (managers members roles) members)
    (ids.sublist (((List.filter_sublist (p := fun acl => (acl.owners members).isEmpty)).trans
      (List.filter_sublist (p := fun acl => acl.direct? removed ≠ some .owner))).map _))
    (fun _ => absorb_distinct) fun _ => absorb_on
  rw [wholePlan, untouched_eq members roles apart]
  -- the first plan is for resources that the principal owned, the second for others
  refine first.1.append (P := fun r => ∃ acl ∈ acls, acl.direct? removed = some .owner ∧
    r = acl.resource.id) second.1 ?_ second.2 ?_
  · constructor
    · exact fun c hc => departurePlan_held (List.mem_append_left _ hc)
    · exact fun c hc => departurePlan_held (List.mem_append_right _ hc)
    · intro w hw
      obtain ⟨acl, hacl, held, _, _, rfl⟩ := mem_departurePlan_ownerless.1 hw
      exact ⟨acl, hacl, held, rfl⟩
  · rintro _ ⟨a, ha, held, rfl⟩ listed
    obtain ⟨b, hb, e⟩ := List.mem_map.1 listed
    obtain ⟨hb, free⟩ := List.mem_filter.1 (List.mem_filter.1 hb).1
    rw [← apart b hb a ha e] at held
    exact of_decide_eq_true free held

end Distinct

end Handover

end TenantAccess
