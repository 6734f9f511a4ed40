import TenantAccess.Proofs.Authority

/-!
# When a level rises

Few changes can give anyone another level, and only a new membership or a grant, to the principal or to a
role, makes one higher. What is handed over raises managers only, where a resource has no owner or has
lost one that left.
-/

namespace TenantAccess

open Store (Tables Change)
open Transaction Table

/-! ## The order of levels -/

namespace Level

/-- How high a level is; no access is below all levels. -/
def standing : Option Level → Nat
  | none => 0
  | some level => level.height + 1

theorem lt_iff {a b : Option Level} : a < b ↔ standing a < standing b := by
  cases a with
  | none => cases b <;> simp [standing]
  | some a =>
    cases b with
    | none => simp [standing]
    | some b =>
      have e : a < b ↔ a.height < b.height := Iff.rfl
      simp [standing, e]

theorem standing_greater {a b : Option Level} :
    standing (greater a b) = max (standing a) (standing b) := by
  cases a with
  | none => simp [greater, standing]
  | some a =>
    cases b with
    | none => simp [greater, standing]
    | some b => cases a <;> cases b <;> decide

theorem standing_le_owner (a : Option Level) : standing a ≤ standing (some owner) := by
  cases a with
  | none => decide
  | some a => cases a <;> decide

theorem standing_injective {a b : Option Level} (h : standing a = standing b) : a = b := by
  cases a with
  | none => cases b with
    | none => rfl
    | some b => exact absurd h (Nat.succ_ne_zero _).symm
  | some a => cases b with
    | none => exact absurd h (Nat.succ_ne_zero _)
    | some b => cases a <;> cases b <;> first | rfl | cases h

end Level

/-! ## What a level depends on -/

theorem Table.find?_of_subset {R K : Type} [Ranked K] [Keyed R K] {t t' : Table R} {k : K}
    (h : ∀ r ∈ t', Keyed.key r = k → r ∈ t) : t'.find? k = none ∨ t'.find? k = t.find? k := by
  cases found : t'.find? k with
  | none => exact Or.inl rfl
  | some r =>
    obtain ⟨hr, e⟩ := find?_eq_some_iff.1 found
    exact Or.inr (find?_eq_some_iff.2 ⟨h r hr e, e⟩).symm

theorem Table.find?_congr {R K : Type} [Ranked K] [Keyed R K] {t t' : Table R} {k : K}
    (h : ∀ r, Keyed.key r = k → (r ∈ t' ↔ r ∈ t)) : t'.find? k = t.find? k := by
  rcases find?_of_subset fun r hr e => (h r e).1 hr with none | same
  · rcases find?_of_subset fun r hr e => (h r e).2 hr with none' | same
    · exact none.trans none'.symm
    · exact same.symm
  · exact same

namespace Store.Tables

variable {t t' t'' : Tables} {x : Resource} {p q : PrincipalId} {c : Change} {hit : Bool}

/-- The level that a principal is granted itself. -/
def directOn (t : Tables) (x : Resource) (q : PrincipalId) : Option Level :=
  (t.userGrants.find? (x.id, q)).map UserGrant.level

theorem direct?_acl_eq : (t.acl x).direct? q = t.directOn x q := direct?_acl

/-- Without a new grant or membership that concerns a principal its level is not higher. -/
theorem levelOn_not_lt
    (users : ∀ g ∈ t'.userGrants, g.resource = x.id → g.principal = q → g ∈ t.userGrants)
    (members : ∀ m ∈ t'.memberships, m.initiative = x.initiative → m.principal = q →
      m ∈ t.memberships)
    (roles : ∀ g ∈ t'.roleGrants, g.resource = x.id → g ∈ t.roleGrants) :
    ¬ t.levelOn x q < t'.levelOn x q := by
  have user := find?_of_subset (k := (x.id, q)) fun g hg e =>
    users g hg (Prod.mk.inj e).1 (Prod.mk.inj e).2
  have member := find?_of_subset (k := (x.initiative, q)) fun m hm e =>
    members m hm (Prod.mk.inj e).1 (Prod.mk.inj e).2
  have role (r : RoleId) := find?_of_subset (k := (x.id, r)) fun g hg e =>
    roles g hg (Prod.mk.inj e).1
  rw [Level.lt_iff, levelOn, levelOn, Level.standing_greater, Level.standing_greater]
  have direct : Level.standing ((t'.userGrants.find? (x.id, q)).map UserGrant.level) ≤
      Level.standing ((t.userGrants.find? (x.id, q)).map UserGrant.level) := by
    rcases user with e | e
    · rw [e]
      exact Nat.zero_le _
    · exact Nat.le_of_eq (by rw [e])
  have held : Level.standing ((t'.memberships.find? (x.initiative, q)).bind fun m =>
        (t'.roleGrants.find? (x.id, m.role)).map RoleGrant.level) ≤
      Level.standing ((t.memberships.find? (x.initiative, q)).bind fun m =>
        (t.roleGrants.find? (x.id, m.role)).map RoleGrant.level) := by
    rcases member with e | e
    · rw [e]
      exact Nat.zero_le _
    · rw [e]
      cases t.memberships.find? (x.initiative, q) with
      | none => exact Nat.le_of_eq rfl
      | some m =>
        rw [Option.bind_some, Option.bind_some]
        rcases role m.role with e | e
        · rw [e]
          exact Nat.zero_le _
        · exact Nat.le_of_eq (by rw [e])
  omega

/-- What is higher in the end has risen in one of two parts. -/
theorem levelOn_lt_or (t' : Tables) (rise : t.levelOn x q < t''.levelOn x q) :
    t.levelOn x q < t'.levelOn x q ∨ t'.levelOn x q < t''.levelOn x q := by
  rw [Level.lt_iff] at rise ⊢
  rw [Level.lt_iff]
  omega

/-- Who rises was no owner, by a grant of its own or at all. -/
theorem not_owner_of_rise (rise : t.levelOn x q < t'.levelOn x q) :
    t.levelOn x q ≠ some .owner ∧ t.directOn x q ≠ some .owner := by
  have top := Level.standing_le_owner (t'.levelOn x q)
  rw [Level.lt_iff] at rise
  have below : t.levelOn x q ≠ some .owner := fun e => by
    rw [e] at rise
    omega
  exact ⟨below, fun e => below (Level.greater_eq_owner.2 (Or.inl e))⟩

end Store.Tables

/-! ## Single changes -/

/-- The changes after which a principal may have another level on a resource. -/
def Store.Change.Touches (x : Resource) (q : PrincipalId) : Change → Prop
  | .putMembership row => row.initiative = x.initiative ∧ row.principal = q
  | .removeMembership i p => i = x.initiative ∧ p = q
  | .removeResource r => r = x.id
  | .putUserGrant row => row.resource = x.id ∧ row.principal = q
  | .removeUserGrant r p => r = x.id ∧ p = q
  | .putRoleGrant row => row.resource = x.id
  | .removeRoleGrant r _ => r = x.id
  | _ => False

/-- The changes after which a principal may have a higher level on a resource. -/
def Store.Change.MayRaise (x : Resource) (q : PrincipalId) : Change → Prop
  | .putMembership row => row.initiative = x.initiative ∧ row.principal = q
  | .putUserGrant row => row.resource = x.id ∧ row.principal = q
  | .putRoleGrant row => row.resource = x.id
  | _ => False

namespace Store.Tables

variable {t t' t'' : Tables} {x : Resource} {p q : PrincipalId} {c : Change} {hit : Bool}

theorem levelOn_congr (users : t'.userGrants.find? (x.id, q) = t.userGrants.find? (x.id, q))
    (members : t'.memberships.find? (x.initiative, q) = t.memberships.find? (x.initiative, q))
    (roles : ∀ m ∈ t.memberships,
      t'.roleGrants.find? (x.id, m.role) = t.roleGrants.find? (x.id, m.role)) :
    t'.levelOn x q = t.levelOn x q := by
  rw [levelOn, levelOn, users, members]
  cases found : t.memberships.find? (x.initiative, q) with
  | none => rfl
  | some m => rw [Option.bind_some, Option.bind_some, roles m (find?_eq_some_iff.1 found).1]

/-- No other change gives anyone another level. -/
theorem touches_of_step (step : Tables.step c t = .ok (hit, t'))
    (moved : t'.levelOn x q ≠ t.levelOn x q) : c.Touches x q := by
  refine Classical.byContradiction fun untouched => moved ?_
  cases c with
  | addTenant row =>
    obtain ⟨_, _, rfl⟩ := step_addTenant.1 step
    rfl
  | putPrincipal row =>
    obtain ⟨_, rfl⟩ := step_putPrincipal.1 step
    rfl
  | putTenantMembership row =>
    obtain ⟨_, _, _, rfl⟩ := step_putTenantMembership.1 step
    rfl
  | removeTenantMembership tenant p =>
    obtain ⟨_, rfl⟩ := step_removeTenantMembership.1 step
    rfl
  | addInitiative row =>
    obtain ⟨_, _, _, rfl⟩ := step_addInitiative.1 step
    rfl
  | putRole row =>
    obtain ⟨_, _, _, rfl⟩ := step_putRole.1 step
    rfl
  | putToggle row =>
    obtain ⟨_, _, _, rfl⟩ := step_putToggle.1 step
    rfl
  | addResource row =>
    obtain ⟨_, _, _, _, rfl⟩ := step_addResource.1 step
    rfl
  | removeRole r =>
    obtain ⟨unheld, _, e⟩ := step_removeRole.1 step
    split at e <;> subst e
    · -- the grants that go are to a role that gives nobody a level
      refine levelOn_congr rfl rfl fun m hm => find?_filter_of fun g _ e => bne_iff_ne.2 ?_
      exact (Prod.mk.inj e).2 ▸ unheld m hm
    · rfl
  | removeResource r =>
    obtain ⟨_, e⟩ := step_removeResource.1 step
    split at e <;> subst e
    · have other {r' : ResourceId} (e : r' = x.id) : (r' != r) = true :=
        bne_iff_ne.2 fun e' => untouched (e'.symm.trans e)
      exact levelOn_congr (find?_filter_of fun g _ e => other (Prod.mk.inj e).1) rfl
        fun m _ => find?_filter_of fun g _ e => other (Prod.mk.inj e).1
    · rfl
  | putMembership row =>
    obtain ⟨_, _, _, _, rfl⟩ := step_putMembership.1 step
    refine levelOn_congr rfl ?_ fun _ _ => rfl
    exact find?_insert.trans (if_neg fun e => untouched (Prod.mk.inj e.symm))
  | removeMembership i p =>
    obtain ⟨_, rfl⟩ := step_removeMembership.1 step
    refine levelOn_congr rfl ?_ fun _ _ => rfl
    exact find?_erase.trans (if_neg fun e => untouched (Prod.mk.inj e.symm))
  | putUserGrant row =>
    obtain ⟨_, _, _, rfl⟩ := step_putUserGrant.1 step
    refine levelOn_congr ?_ rfl fun _ _ => rfl
    exact find?_insert.trans (if_neg fun e => untouched (Prod.mk.inj e.symm))
  | removeUserGrant r p =>
    obtain ⟨_, rfl⟩ := step_removeUserGrant.1 step
    refine levelOn_congr ?_ rfl fun _ _ => rfl
    exact find?_erase.trans (if_neg fun e => untouched (Prod.mk.inj e.symm))
  | putRoleGrant row =>
    obtain ⟨_, _, _, rfl⟩ := step_putRoleGrant.1 step
    refine levelOn_congr rfl rfl fun m _ => ?_
    exact find?_insert.trans (if_neg fun e => untouched (Prod.mk.inj e).1.symm)
  | removeRoleGrant r role =>
    obtain ⟨_, rfl⟩ := step_removeRoleGrant.1 step
    refine levelOn_congr rfl rfl fun m _ => ?_
    exact find?_erase.trans (if_neg fun e => untouched (Prod.mk.inj e).1.symm)

theorem ne_of_rise (rise : t.levelOn x q < t'.levelOn x q) : t'.levelOn x q ≠ t.levelOn x q := by
  intro same
  rw [same, Level.lt_iff] at rise
  exact Nat.lt_irrefl _ rise

/-- A deletion raises nobody, nor does a change that moves no level. -/
theorem mayRaise_of_step (step : Tables.step c t = .ok (hit, t'))
    (rise : t.levelOn x q < t'.levelOn x q) : c.MayRaise x q := by
  have touches := touches_of_step step (ne_of_rise rise)
  cases c with
  | addTenant | putPrincipal | putTenantMembership | removeTenantMembership | addInitiative | putRole
  | putToggle | addResource | removeRole => exact touches.elim
  | putMembership | putUserGrant | putRoleGrant => exact touches
  | removeMembership i p =>
    obtain ⟨_, rfl⟩ := step_removeMembership.1 step
    exact absurd rise (levelOn_not_lt (fun _ hg _ _ => hg)
      (fun _ hm _ _ => (mem_erase.1 hm).1) fun _ hg _ => hg)
  | removeResource r =>
    obtain ⟨_, e⟩ := step_removeResource.1 step
    split at e <;> subst e
    · exact absurd rise (levelOn_not_lt (fun _ hg _ _ => (mem_filter.1 hg).1) (fun _ hm _ _ => hm)
        fun _ hg _ => (mem_filter.1 hg).1)
    · exact absurd rfl (ne_of_rise rise)
  | removeUserGrant r p =>
    obtain ⟨_, rfl⟩ := step_removeUserGrant.1 step
    exact absurd rise (levelOn_not_lt (fun _ hg _ _ => (mem_erase.1 hg).1)
      (fun _ hm _ _ => hm) fun _ hg _ => hg)
  | removeRoleGrant r role =>
    obtain ⟨_, rfl⟩ := step_removeRoleGrant.1 step
    exact absurd rise (levelOn_not_lt (fun _ hg _ _ => hg) (fun _ hm _ _ => hm)
      fun _ hg _ => (mem_erase.1 hg).1)

end Store.Tables

/-! ## Resources that are handed over -/

theorem Handover.Plan.mem_grantOwner_of_rise {plan : Plan} {acl : Acl} {q : PrincipalId}
    {role : Option RoleId}
    (rise : acl.effective q role < (plan.applyTo acl).effective q role) :
    (acl.resource.id, q) ∈ plan.grantOwner := by
  refine Classical.byContradiction fun ungranted => ?_
  have same : (plan.applyTo acl).levelOfRole? = acl.levelOfRole? := by
    funext r
    rw [Acl.levelOfRole?, applyTo_roles]
    rfl
  rw [Level.lt_iff, Acl.effective, Acl.effective, Level.standing_greater, Level.standing_greater,
    same, direct?_applyTo, if_neg ungranted] at rise
  have none_low : Level.standing none = 0 := rfl
  split at rise <;> omega

namespace Store.Tables

/-- From the rows `t` on a resource was handed to a principal: it holds a manager role, is an owner by
a grant of its own, and the resource had no owner or has lost the one that departed. -/
structure HandedTo (t t' : Tables) (x : Resource) (q : PrincipalId)
    (departed : Option PrincipalId) : Prop where
  manages : t'.Manages x.initiative q
  granted : t'.directOn x q = some .owner
  cause : ¬ t.Owned x ∨
    ∃ p, departed = some p ∧ t.directOn x p = some .owner ∧ t'.directOn x p = none

/-- Rows that agree on all that concerns one resource. -/
structure AgreeOn (x : Resource) (t t' : Tables) : Prop where
  acl : t'.acl x = t.acl x
  members : ∀ m, m.initiative = x.initiative → (m ∈ t'.memberships ↔ m ∈ t.memberships)
  roles : t'.roles = t.roles

variable {t t' t'' : Tables} {x : Resource} {p q : PrincipalId} {i : InitiativeId}
  {departed : Option PrincipalId}

namespace AgreeOn

theorem refl (t : Tables) : t.AgreeOn x t := ⟨rfl, fun _ _ => Iff.rfl, rfl⟩

theorem of_grants (users : t'.userGrants = t.userGrants) (roleGrants : t'.roleGrants = t.roleGrants)
    (members : ∀ m, m.initiative = x.initiative → (m ∈ t'.memberships ↔ m ∈ t.memberships))
    (roles : t'.roles = t.roles) : t.AgreeOn x t' :=
  ⟨by simp only [Tables.acl, users, roleGrants], members, roles⟩

theorem symm (h : t.AgreeOn x t') : t'.AgreeOn x t :=
  ⟨h.acl.symm, fun m hm => (h.members m hm).symm, h.roles.symm⟩

theorem trans (h : t.AgreeOn x t') (h' : t'.AgreeOn x t'') : t.AgreeOn x t'' :=
  ⟨h'.acl.trans h.acl, fun m hm => (h'.members m hm).trans (h.members m hm), h'.roles.trans h.roles⟩

theorem levelOn (h : t.AgreeOn x t') (q : PrincipalId) : t'.levelOn x q = t.levelOn x q := by
  rw [levelOn_eq, levelOn_eq, h.acl, find?_roleMap, find?_roleMap,
    find?_congr fun m e => h.members m (Prod.mk.inj e).1]

theorem directOn (h : t.AgreeOn x t') (q : PrincipalId) : t'.directOn x q = t.directOn x q := by
  rw [← direct?_acl_eq, ← direct?_acl_eq, h.acl]

theorem manages (h : t.AgreeOn x t') (q : PrincipalId) :
    t.Manages x.initiative q → t'.Manages x.initiative q := by
  rintro ⟨m, hm, hi, held⟩
  exact ⟨m, (h.members m hi).2 hm, hi, h.roles ▸ held⟩

theorem unenrol (h : t.AgreeOn x t') : (t.unenrol i p).AgreeOn x (t'.unenrol i p) :=
  ⟨h.acl, fun m hm => mem_erase.trans ((and_congr_left fun _ => h.members m hm).trans
    mem_erase.symm), h.roles⟩

end AgreeOn

theorem HandedTo.congr {o o' : Tables} (h : o.HandedTo t x q departed) (before : o.AgreeOn x o')
    (after : t.AgreeOn x t') : o'.HandedTo t' x q departed where
  manages := after.manages q h.manages
  granted := (after.directOn q).trans h.granted
  cause := by
    refine h.cause.imp (fun unowned => ?_) ?_
    · rwa [owned_congr before.acl before.members]
    · rintro ⟨p, e, had, lost⟩
      exact ⟨p, e, (before.directOn p).trans had, (after.directOn p).trans lost⟩

theorem manages_of_mem_managers
    (h : q ∈ Handover.managers (roleMap t i) (managingRoles t i)) : t.Manages i q := by
  obtain ⟨entry, listed, rfl, manages⟩ := Handover.mem_managers.1 h
  obtain ⟨m, hm, hi, rfl⟩ := mem_roleMap.1 listed
  obtain ⟨role, hr, _, manages, e⟩ := contains_managingRoles.1 manages
  exact ⟨m, hm, hi, rfl, role, hr, e, manages⟩

end Store.Tables

/-! ## Handovers -/

namespace Succession

variable {f f' : Frame Tables} {i : InitiativeId} {p q : PrincipalId} {result : HandoverReport}
  {x : Resource} {acls : List Acl}

theorem carryOut_directOn {tenant : TenantId} {plan : Handover.Plan}
    (h : carryOut tenant plan f = (.ok result, f')) : f'.store.directOn x q =
      if (x.id, q) ∈ plan.grantOwner then some .owner
      else if (x.id, q) ∈ plan.revoke then none
      else f.store.directOn x q := by
  rw [← Tables.direct?_acl_eq, ← Tables.direct?_acl_eq, carryOut_acl h]
  exact Handover.Plan.direct?_applyTo

theorem carryOut_rise {tenant : TenantId} {plan : Handover.Plan}
    (h : carryOut tenant plan f = (.ok result, f'))
    (rise : f.store.levelOn x q < f'.store.levelOn x q) : (x.id, q) ∈ plan.grantOwner := by
  have acl := carryOut_acl (x := x) h
  rw [(carryOut_ok h).2] at acl rise
  rw [Tables.levelOn_eq, Tables.levelOn_eq, acl, Tables.roleMap_regrant] at rise
  exact Handover.Plan.mem_grantOwner_of_rise rise

theorem fillVacancies_rise (h : fillVacancies i f = (.ok result, f')) (hx : x ∈ f.store.resources)
    (rise : f.store.levelOn x q < f'.store.levelOn x q) :
    x.initiative = i ∧ f.store.HandedTo f'.store x q none := by
  rcases fillVacancies_ok h with ⟨_, _, rfl⟩ | ⟨initiative, acls, _, listed, carried⟩
  · rw [Level.lt_iff] at rise
    omega
  · have granted := carryOut_rise carried rise
    obtain ⟨acl, hacl, unowned, m, hm, _, e⟩ := Handover.mem_vacancyPlan_grantOwner.1 granted
    obtain ⟨r, hr, rfl, rfl⟩ := mem_accessLists listed hacl
    obtain ⟨ex, rfl⟩ := Prod.mk.inj e
    obtain rfl := eq_of_key hx hr ex
    obtain ⟨grants, same⟩ := fillVacancies_regrant h
    refine ⟨rfl, ?_, ?_, Or.inl fun owned => ?_⟩
    · rw [same]
      exact Tables.manages_of_mem_managers hm
    · rw [carryOut_directOn carried, if_pos granted]
    · exact Acl.owners_isEmpty.1 unowned (Tables.owned_iff.1 owned)

/-- What is handed on after a departure raises managers, on resources that the principal owned or that
have no owner. -/
theorem afterDeparture_rise (h : afterDeparture i p f = (.ok result, f'))
    (hx : x ∈ f.store.resources) (rise : f.store.levelOn x q < f'.store.levelOn x q) :
    x.initiative = i ∧ f.store.HandedTo f'.store x q (some p) := by
  rcases afterDeparture_ok h with ⟨_, _, rfl⟩ |
    ⟨initiative, acls, plan, sweep, f₁, f₂, _, _, _, listed, hplan, hsweep, h₁, h₂, _, e⟩
  · rw [Level.lt_iff] at rise
    omega
  obtain ⟨grants, same⟩ := afterDeparture_regrant h
  have manages (hm : q ∈ Handover.managers (Store.roleMap f.store i)
      (Store.managingRoles f.store i)) : f'.store.Manages i q := by
    rw [same]
    exact Tables.manages_of_mem_managers hm
  have swept : ∀ c, c ∉ sweep.revoke := fun c => by
    rw [hsweep, Handover.vacancyPlan_revoke]
    exact List.not_mem_nil
  have apart := accessLists_apart listed
  rw [e] at rise manages ⊢
  rcases Tables.levelOn_lt_or f₁.store rise with first | second
  · -- the plan for the departure hands on what the principal owned
    have granted := carryOut_rise h₁ first
    have planned := granted
    rw [hplan] at planned
    obtain ⟨acl, hacl, held, m, hm, _, e'⟩ := Handover.mem_departurePlan_grantOwner.1 planned
    have unswept : (x.id, p) ∉ sweep.grantOwner := fun h => by
      rw [hsweep, hplan] at h
      obtain ⟨a, ha, free, _, _, _, e⟩ := Handover.mem_sweep_grantOwner apart h
      rw [apart a ha acl hacl ((Prod.mk.inj e).1.symm.trans (Prod.mk.inj e').1)] at free
      exact free held
    obtain ⟨r, hr, rfl, rfl⟩ := mem_accessLists listed hacl
    obtain ⟨ex, rfl⟩ := Prod.mk.inj e'
    obtain rfl := eq_of_key hx hr ex
    have revoked : (x.id, p) ∈ plan.revoke := by
      rw [hplan]
      exact Handover.mem_departurePlan_revoke.2 ⟨_, hacl, held, rfl⟩
    have unplanned : (x.id, p) ∉ plan.grantOwner := hplan ▸ Handover.departing_not_granted
    refine ⟨rfl, manages (mem_erase.1 hm).1, ?_, Or.inr ⟨p, rfl, ?_, ?_⟩⟩
    · rw [carryOut_directOn h₂, if_neg (swept _), carryOut_directOn h₁, if_pos granted, ite_self]
    · rw [← Tables.direct?_acl_eq]
      exact held
    · rw [carryOut_directOn h₂, if_neg unswept, if_neg (swept _), carryOut_directOn h₁,
        if_neg unplanned, if_pos revoked]
  · -- the sweep looks at resources that this plan has left as they were
    have granted := carryOut_rise h₂ second
    have planned := granted
    rw [hsweep, hplan] at planned
    obtain ⟨acl, hacl, _, unowned, m, hm, e'⟩ := Handover.mem_sweep_grantOwner apart planned
    obtain ⟨r, hr, rfl, rfl⟩ := mem_accessLists listed hacl
    obtain ⟨ex, rfl⟩ := Prod.mk.inj e'
    obtain rfl := eq_of_key hx hr ex
    refine ⟨rfl, manages hm, ?_, Or.inl fun owned => ?_⟩
    · rw [carryOut_directOn h₂, if_pos granted]
    · exact Acl.owners_isEmpty.1 unowned (Tables.owned_iff.1 owned)

theorem find?_drop {l : List ResourceId} {grants : Table UserGrant} {r : ResourceId} :
    (l.foldl (fun g r => g.erase (r, p)) grants).find? (r, q) =
      if q = p ∧ r ∈ l then none else grants.find? (r, q) := by
  induction l generalizing grants with
  | nil => simp
  | cons y rest ih =>
    rw [List.foldl_cons, ih, find?_erase]
    by_cases hq : q = p
    · by_cases hr : r ∈ rest
      · simp [hq, hr]
      · by_cases hy : r = y <;> simp [hq, hr, hy]
    · simp [hq]

/-- Who leaves an initiative raises nobody but its managers there. -/
theorem leaveInitiative_rise (h : leaveInitiative p i f = (.ok result, f'))
    (hx : x ∈ f.store.resources)
    (rise : (f.store.unenrol i p).levelOn x q < f'.store.levelOn x q) :
    x.initiative = i ∧ (f.store.unenrol i p).HandedTo f'.store x q (some p) := by
  obtain ⟨wasMember, t, acls, step, _, h⟩ := leaveInitiative_ok h
  obtain ⟨_, rfl⟩ := Tables.step_removeMembership.1 step
  rcases h with ⟨_, _, _, e⟩ | ⟨f₁, left, e⟩
  · rw [e, Level.lt_iff] at rise
    exact absurd rise (Nat.lt_irrefl _)
  · have dropped (y : PrincipalId) : f'.store.directOn x y =
        if y = p ∧ x.id ∈ heldBy p acls then none else f₁.store.directOn x y := by
      rw [e, Tables.directOn, Tables.regrant, find?_drop]
      split <;> rfl
    have lowered : ¬ f₁.store.levelOn x q < f'.store.levelOn x q := by
      rw [e]
      refine Tables.levelOn_not_lt (fun g hg _ _ => ?_) (fun _ hm _ _ => hm) fun _ hg _ => hg
      have found : (f₁.store.regrant _).userGrants.find? (g.resource, g.principal) = some g :=
        find?_eq_some_iff.2 ⟨hg, rfl⟩
      rw [Tables.regrant, find?_drop] at found
      split at found
      · cases found
      · exact (find?_eq_some_iff.1 found).1
    have first := (Tables.levelOn_lt_or f₁.store rise).resolve_right lowered
    obtain ⟨rfl, manages, granted, cause⟩ := afterDeparture_rise left hx first
    obtain ⟨grants, same⟩ := afterDeparture_regrant left
    -- the one that left holds no role any more, so what is dropped is not what was handed over
    have hq : q ≠ p := by
      rintro rfl
      obtain ⟨m, hm, hi, hq, _⟩ := manages
      rw [same] at hm
      exact (mem_erase.1 hm).2 (Prod.ext hi hq)
    refine ⟨rfl, ?_, ?_, cause.imp_right ?_⟩
    · rw [e]
      exact manages
    · rw [dropped, if_neg fun h => hq h.1, granted]
    · rintro ⟨y, hy, had, lost⟩
      refine ⟨y, hy, had, ?_⟩
      rw [dropped, lost]
      exact ite_self _

theorem leaveInitiative_agree (h : leaveInitiative p i f = (.ok result, f'))
    (hx : x ∈ f.store.resources) (hi : x.initiative ≠ i) : f.store.AgreeOn x f'.store := by
  obtain ⟨grants, e⟩ := leaveInitiative_store h
  refine ⟨leaveInitiative_acl h hx hi, fun m hm => ?_, by rw [e]; rfl⟩
  rw [e]
  exact mem_unenrol fun hmi => hi (hm.symm.trans hmi)

theorem leaveEach_agree {l : List Initiative} {reports : List HandoverReport}
    (hx : x ∈ f.store.resources) (others : ∀ i ∈ l, x.initiative ≠ i.id)
    (h : l.mapM (fun i => leaveInitiative p i.id) f = (.ok reports, f')) :
    f.store.AgreeOn x f'.store := by
  induction l generalizing f reports with
  | nil =>
    simp only [List.mapM_nil, pure_ok] at h
    rw [← h.2]
    exact .refl _
  | cons i rest ih =>
    obtain ⟨_, f₁, reports, h₁, hrest, _⟩ := mapM_cons_ok.1 h
    have agree := leaveInitiative_agree h₁ hx (others i List.mem_cons_self)
    obtain ⟨grants, e⟩ := leaveInitiative_store h₁
    exact agree.trans (ih (by rw [e]; exact hx)
      (fun j hj => others j (List.mem_cons_of_mem i hj)) hrest)

/-- Of several initiatives that are left, one is that of the resource. -/
theorem leaveEach_rise {l : List Initiative} {reports : List HandoverReport}
    (hx : x ∈ f.store.resources) (apart : (l.map Initiative.id).Nodup)
    (among : x.initiative ∈ l.map Initiative.id)
    (h : l.mapM (fun i => leaveInitiative p i.id) f = (.ok reports, f'))
    (rise : (f.store.unenrol x.initiative p).levelOn x q < f'.store.levelOn x q) :
    (f.store.unenrol x.initiative p).HandedTo f'.store x q (some p) := by
  induction l generalizing f reports with
  | nil => cases among
  | cons i rest ih =>
    obtain ⟨_, f₁, reports, h₁, hrest, _⟩ := mapM_cons_ok.1 h
    obtain ⟨hne, apart⟩ := List.nodup_cons.1 apart
    have hx₁ : x ∈ f₁.store.resources := by
      obtain ⟨grants, e⟩ := leaveInitiative_store h₁
      rw [e]
      exact hx
    by_cases here : x.initiative = i.id
    · have others : ∀ j ∈ rest, x.initiative ≠ j.id := fun j hj e =>
        hne (here.symm.trans e ▸ List.mem_map_of_mem hj)
      have agree := leaveEach_agree hx₁ others hrest
      rw [← here] at h₁
      rw [agree.levelOn] at rise
      exact (leaveInitiative_rise h₁ hx rise).2.congr (.refl _) agree
    · have agree := leaveInitiative_agree h₁ hx here
      rw [← agree.unenrol.levelOn] at rise
      have among := (List.mem_cons.1 among).resolve_left here
      exact (ih hx₁ apart among hrest rise).congr agree.unenrol.symm (.refl _)

end Succession

end TenantAccess
