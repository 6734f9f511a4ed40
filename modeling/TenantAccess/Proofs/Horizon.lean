import TenantAccess.Proofs.Reading

/-!
# The horizon of a scope

What a scope sees is told in three ways: by the tenants that a listing draws from, by a check of one tenant
and by what is done with rows in hand. They agree in every scope, and which tenants they let through is
settled by the memberships of the principal itself.
-/

namespace TenantAccess.Scope

open Table

variable {scope : Scope} {principal : Principal} {tenant u : TenantId} {rows rows' : List TenantMembership}
  {reach : Reach}

/-- A principal may enter a tenant of its own, and an administrator of the platform may enter all. -/
theorem enter_iff : (∃ scope, enter principal tenant rows reach = .ok scope) ↔
    principal.isPlatformAdmin = true ∨ ∃ m ∈ rows, m.principal = principal.id ∧ m.tenant = tenant := by
  refine ⟨fun ⟨scope, entered⟩ => ?_, enter_opens reach⟩
  cases admin : principal.isPlatformAdmin with
  | true => exact Or.inl rfl
  | false => exact Or.inr ((enter_eq_ok (u := tenant) entered).2.2.2.2 admin)

/-- Rows of other principals play no part, wherever they stand. -/
theorem enter_congr (own : (rows.filter fun m => m.principal = principal.id) =
      rows'.filter fun m => m.principal = principal.id) :
    enter principal tenant rows reach = enter principal tenant rows' reach := by
  simp only [enter, own]

theorem sees_entered (entered : enter principal tenant rows reach = .ok scope) :
    scope.sees u = true ↔ principal.isPlatformAdmin = true ∨ u = tenant ∨
      reach = .global ∧ ∃ m ∈ rows, m.principal = principal.id ∧ m.tenant = u := by
  obtain ⟨rfl, rfl, rfl, own, _⟩ := enter_eq_ok (u := u) entered
  rw [sees, ← own, isPlatformAdmin]
  simp only [Bool.or_eq_true, Bool.and_eq_true, decide_eq_true_eq]
  rw [or_assoc, or_left_comm]

/-- All that is done with rows in hand goes by the tenants that a listing draws from. -/
structure OneSight (scope : Scope) : Prop where
  horizon : ∀ u, scope.horizon.contains u = true ↔ scope.sees u = true
  /-- What is kept stays in its order. -/
  visible : ∀ {α : Type} [InTenant α] (items : List α), scope.visiblePart items =
    items.filter fun x => scope.horizon.contains (InTenant.tenant x)
  disclosed : ∀ {α : Type} [InTenant α] (x y : α) (what id : String),
    scope.disclose (some x) what id = .ok y ↔
      x = y ∧ scope.horizon.contains (InTenant.tenant x) = true
  changeable : ∀ {α : Type} [InTenant α] (items : List α), ∀ x ∈ items, scope.mayChange x = true →
    x ∈ scope.visiblePart items

theorem oneSight (scope : Scope) : scope.OneSight where
  horizon u := by rw [contains_horizon]
  visible items := by
    simp only [contains_horizon]
    rfl
  disclosed x y what id := by
    rw [disclose_eq_ok, contains_horizon, Option.some.injEq]
    exact and_congr_right fun same => same ▸ Iff.rfl
  changeable items x hx may := List.mem_filter.2 ⟨hx, reaches_own (of_decide_eq_true may)⟩

/-- Who may enter a tenant, what its scope there takes from the membership rows, and that all ways to ask
what is in sight agree. -/
theorem sights_agree (principal : Principal) (tenant : TenantId) (rows : List TenantMembership)
    (reach : Reach) :
    ((∃ scope, enter principal tenant rows reach = .ok scope) ↔ principal.isPlatformAdmin = true ∨
      ∃ m ∈ rows, m.principal = principal.id ∧ m.tenant = tenant) ∧
    (∀ rows' : List TenantMembership, (rows.filter fun m => m.principal = principal.id) =
      (rows'.filter fun m => m.principal = principal.id) →
        enter principal tenant rows reach = enter principal tenant rows' reach) ∧
    ∀ scope, enter principal tenant rows reach = .ok scope → scope.OneSight ∧
      ∀ u, scope.sees u = true ↔ principal.isPlatformAdmin = true ∨ u = tenant ∨
        reach = .global ∧ ∃ m ∈ rows, m.principal = principal.id ∧ m.tenant = u :=
  ⟨enter_iff, fun _ => enter_congr, fun scope entered => ⟨scope.oneSight, fun _ => sees_entered entered⟩⟩

/-- One that reads globally, whose rows come twice and between those of another. -/
theorem sights_agree_mixed :
    let ada : Principal := ⟨Supply.numberedId 0, "ada", .member⟩
    let bob : PrincipalId := Supply.numberedId 1
    let acme : TenantId := Supply.numberedId 2
    let globex : TenantId := Supply.numberedId 3
    let initech : TenantId := Supply.numberedId 4
    let rows : List TenantMembership := [⟨initech, bob, .admin⟩, ⟨globex, ada.id, .member⟩,
      ⟨acme, ada.id, .admin⟩, ⟨globex, bob, .admin⟩, ⟨globex, ada.id, .admin⟩]
    ∃ scope, enter ada acme rows .global = .ok scope ∧ scope.OneSight ∧
      scope.sees globex = true ∧ scope.sees initech = false ∧
      enter ada acme (rows.filter fun m => m.principal = ada.id) .global = .ok scope ∧
      ¬ ∃ scope, enter ada initech rows .global = .ok scope := by
  intro ada bob acme globex initech rows
  obtain ⟨enters, alone, seen⟩ := sights_agree ada acme rows .global
  obtain ⟨barred, _, _⟩ := sights_agree ada initech rows .global
  obtain ⟨scope, entered⟩ := enters.2 (by decide +kernel)
  obtain ⟨agree, sees⟩ := seen scope entered
  refine ⟨scope, entered, agree, (sees globex).2 (by decide +kernel), ?_, ?_, ?_⟩
  · exact Bool.eq_false_iff.2 fun seen => absurd ((sees initech).1 seen) (by decide +kernel)
  · rw [← alone _ (by decide +kernel)]
    exact entered
  · exact fun entered => absurd (barred.1 entered) (by decide +kernel)

end TenantAccess.Scope
