import TenantAccess.Proofs.Authority

/-!
# What a caller reads about access

All questions about access have one answer behind them: the level that the stored grants and memberships
give to the caller, on each resource that it sees. A listing leaves none of these out and a minimum is
measured against nothing else.
-/

namespace TenantAccess

open Store (Faithful Tables)
open Store.Backend (ask)
open Store.Faithful (tables)
open Table

/-- The tenants whose rows a caller sees: all for an administrator of the platform, for others those that
they observe. -/
def Caller.Sees (settings : Settings) (caller : Caller) (t : Tables) (u : TenantId) : Prop :=
  t.PlatformAdmin caller.principal ∨ caller.Observes settings t u

/-- The failure is that something was not found. -/
def NotFound {α : Type} (r : Except Failure α) : Prop := ∃ target, r = .error (.notFound target)

/-- The answers to a caller's questions about access agree with the rows and with each other. -/
structure Caller.ReadsAgree (settings : Settings) (caller : Caller) (t : Tables)
    (asked : Question → Except Failure Answer) : Prop where
  /-- On a resource in sight the level is the greater of the caller's own grant and of the grant to the
  role that it holds in the initiative. -/
  level : ∀ x ∈ t.resources, caller.Sees settings t x.tenant →
    asked (.level x.id) = .ok (.level (t.levelOn x caller.principal))
  /-- Others are not found, whether they are there or not. -/
  missing : ∀ id, NotFound (asked (.level id)) ↔
    ¬ ∃ x ∈ t.resources, x.id = id ∧ caller.Sees settings t x.tenant
  visible : ∃ ids : IdSet .resource, asked .visible = .ok (.resourceIds ids) ∧
    ∀ id, id ∈ ids ↔ ∃ level, asked (.level id) = .ok (.level level)
  /-- The usable resources come in the order of their identifiers, each one once. -/
  usable : ∀ minimum, ∃ entries, asked (.usable minimum) = .ok (.levels entries) ∧
    (entries.Pairwise fun a b => place a.1 < place b.1) ∧
    ∀ x held, (x, held) ∈ entries ↔
      x ∈ t.resources ∧ asked (.level x.id) = .ok (.level (some held)) ∧ minimum ≤ held
  granted : ∀ id minimum held, asked (.levelAtLeast id minimum) = .ok (.granted held) ↔
    asked (.level id) = .ok (.level (some held)) ∧ minimum ≤ held ∧
      (minimum = .read ∨ ∃ x ∈ t.resources, x.id = id ∧ x.tenant = caller.tenant)
  notGranted : ∀ id minimum, NotFound (asked (.levelAtLeast id minimum)) ↔
    NotFound (asked (.level id))
  denied : ∀ id minimum level, asked (.level id) = .ok (.level level) →
    (¬ ∃ held, asked (.levelAtLeast id minimum) = .ok (.granted held)) →
      asked (.levelAtLeast id minimum) = .error (.accessDenied minimum level)

theorem notFound_map {α β : Type} {r : Except Failure α} {g : α → β} :
    NotFound (do return g (← r)) ↔ NotFound r := by
  cases r with
  | error e => exact ⟨fun ⟨target, h⟩ => ⟨target, congrArg _ (Except.error.inj h)⟩, fun ⟨target, h⟩ =>
      ⟨target, congrArg _ (Except.error.inj h)⟩⟩
  | ok a => exact iff_of_false nofun nofun

/-! ## Demands -/

section Demands

variable {acl : Acl} {p : PrincipalId} {role : Option RoleId} {minimum held : Level}

theorem Acl.demand_eq_ok : acl.demand p role minimum = .ok held ↔
    acl.effective p role = some held ∧ minimum ≤ held := by
  rw [demand]
  cases acl.effective p role with
  | none => simp
  | some level =>
    simp only [Level.meets, decide_eq_true_eq, Option.some.injEq]
    split
    · rename_i meets
      exact ⟨fun e => ⟨Except.ok.inj e, Except.ok.inj e ▸ meets⟩, fun h => congrArg _ h.1⟩
    · rename_i below
      exact iff_of_false (by simp) fun h => below (h.1 ▸ h.2)

theorem Acl.demand_denied (below : ∀ held, acl.demand p role minimum ≠ .ok held) :
    acl.demand p role minimum = .error (.accessDenied minimum (acl.effective p role)) := by
  unfold demand at below ⊢
  cases e : acl.effective p role with
  | none => rfl
  | some level =>
    rw [e] at below
    dsimp only at below ⊢
    split
    · rename_i meets
      exact absurd (if_pos meets) (below level)
    · rfl

theorem Level.isChanging_iff : minimum.isChanging = true ↔ minimum ≠ .read := by
  cases minimum <;> decide

end Demands

/-! ## Levels and listings -/

namespace Scope

variable {t : Tables} {scope : Scope} {id : ResourceId} {x : Resource} {minimum held : Level}
  {p : PrincipalId}

theorem level_found (ht : t.Consistent) (found : scope.findResource t id = .ok x) :
    scope.level t id = .ok (t.levelOn x scope.principal.id) := by
  obtain ⟨row, _⟩ := findResource_eq_ok.1 found
  simp only [level, found, bind, Except.bind, effective_eq ht (find?_eq_some_iff.1 row).1]
  rfl

theorem levelAtLeast_found (ht : t.Consistent) (found : scope.findResource t id = .ok x) :
    scope.levelAtLeast t id minimum =
      if minimum.isChanging && !scope.mayChange x then
        .error (.accessDenied minimum (t.levelOn x scope.principal.id))
      else liftM ((t.acl x).demand scope.principal.id (scope.roleThere t x.initiative) minimum) >>=
        fun held => .ok (t.acl x, held) := by
  obtain ⟨row, _⟩ := findResource_eq_ok.1 found
  simp only [levelAtLeast, found, bind, Except.bind, effective_eq ht (find?_eq_some_iff.1 row).1]
  split <;> rfl

theorem effective_acl : (t.acl x).effective scope.principal.id (scope.roleThere t x.initiative) =
    t.levelOn x scope.principal.id := by
  rw [roleThere_eq, Tables.levelOn_eq]

theorem levelAtLeast_eq_ok (ht : t.Consistent) (found : scope.findResource t id = .ok x) {acl : Acl} :
    scope.levelAtLeast t id minimum = .ok (acl, held) ↔ t.acl x = acl ∧
      t.levelOn x scope.principal.id = some held ∧ minimum ≤ held ∧
      (minimum = .read ∨ x.tenant = scope.tenant) := by
  have elsewhere : (minimum.isChanging && !scope.mayChange x) = true ↔
      ¬ (minimum = .read ∨ x.tenant = scope.tenant) := by
    rw [Bool.and_eq_true, Level.isChanging_iff, not_or, mayChange, Bool.not_eq_true',
      decide_eq_false_iff_not]
    rfl
  rw [levelAtLeast_found ht found]
  split
  · rename_i barred
    exact iff_of_false (by simp) fun h => elsewhere.1 barred h.2.2.2
  · rename_i free
    simp only [bind_eq_ok, lift_refusal_eq_ok, Acl.demand_eq_ok, effective_acl, Except.ok.injEq,
      Prod.mk.injEq, Decidable.not_not.1 (mt elsewhere.2 free), and_true]
    constructor
    · rintro ⟨_, demanded, rfl, rfl⟩
      exact ⟨rfl, demanded⟩
    · rintro ⟨rfl, demanded⟩
      exact ⟨held, demanded, rfl, rfl⟩

theorem levelAtLeast_denied (ht : t.Consistent) (found : scope.findResource t id = .ok x)
    (below : ∀ held, scope.levelAtLeast t id minimum ≠ .ok (t.acl x, held)) :
    scope.levelAtLeast t id minimum =
      .error (.accessDenied minimum (t.levelOn x scope.principal.id)) := by
  rw [levelAtLeast_found ht found] at below ⊢
  split
  · rfl
  · rename_i free
    simp only [if_neg free] at below
    have denied : (t.acl x).demand scope.principal.id (scope.roleThere t x.initiative) minimum = _ :=
      Acl.demand_denied fun held demanded => below held (by rw [demanded]; rfl)
    rw [denied, effective_acl]
    rfl

/-- A listing draws from the tenants in sight and from no other. -/
theorem contains_horizon (scope : Scope) (u : TenantId) : scope.horizon.contains u = scope.sees u := by
  rw [horizon, sees]
  cases scope.isPlatformAdmin with
  | true => simp [Horizon.contains]
  | false =>
    rw [if_neg Bool.false_ne_true, Bool.or_false, Bool.eq_iff_iff]
    split
    · rename_i far
      simp only [Horizon.contains, far, contains_iff, mem_insert, key_id, decide_true, Bool.true_and,
        Bool.or_eq_true, decide_eq_true_eq]
      constructor
      · rintro ⟨v, rfl | ⟨own, _⟩, rfl⟩
        · exact Or.inl rfl
        · exact Or.inr ⟨v, own, rfl⟩
      · rintro (rfl | ⟨v, own, rfl⟩)
        · exact ⟨_, Or.inl rfl, rfl⟩
        · by_cases here : v = scope.tenant
          · exact ⟨v, Or.inl here, rfl⟩
          · exact ⟨v, Or.inr ⟨own, here⟩, rfl⟩
    · rename_i near
      simp only [Horizon.contains, near, contains_iff, mem_ofList_of_injective fun (_ _ : TenantId) e => e,
        List.mem_singleton, key_id, decide_false, Bool.false_and, Bool.or_false, decide_eq_true_eq]
      exact ⟨fun ⟨_, here, e⟩ => e.symm.trans here, fun here => ⟨u, here, rfl⟩⟩

/-- It leaves out no resource in sight. -/
theorem visible_eq : scope.visible t = t.resources.rows.filter scope.reaches := by
  simp only [visible, visiblePart]
  cases drawn : scope.horizon with
  | all => rfl
  | tenants ids =>
    have within : ask (.resourcesWithin ids.rows) t =
        t.resources.rows.filter fun x => ids.rows.contains x.tenant := rfl
    simp only [within, List.filter_filter]
    refine List.filter_congr fun x _ => ?_
    cases sees : scope.reaches x with
    | false => rfl
    | true =>
      have near : ids.contains x.tenant = true := by
        have same := scope.contains_horizon x.tenant
        rw [drawn] at same
        exact same.trans sees
      obtain ⟨_, listed, rfl⟩ := contains_iff.1 near
      exact List.contains_iff_mem.2 listed

/-- What is usable is what is visible with a level that is high enough. -/
theorem usable_eq (ht : t.Consistent) : scope.usable t minimum =
    .ok ((t.resources.rows.filter scope.reaches).filterMap fun x =>
      ((t.levelOn x scope.principal.id).filter (·.meets minimum)).map (x, ·)) := by
  have levels : ∀ x ∈ scope.visible t, scope.levelWith t (.ofList
      ((ask (.membershipsBy scope.principal.id) t).map fun m => (m.initiative, m.role))) x =
        .ok (t.levelOn x scope.principal.id) := by
    intro x hx
    simp only [levelWith, ht.aclOf_eq (mem_visible hx).1, Tables.find?_membershipsBy, Tables.levelOn_eq,
      Store.find?_roleMap, Option.map_map]
    rfl
  have listed := mapM_eq_ok_map (l := scope.visible t)
    (f := fun x => do
      return (x, ← scope.levelWith t (.ofList
        ((ask (.membershipsBy scope.principal.id) t).map fun m => (m.initiative, m.role))) x))
    (g := fun x => (x, t.levelOn x scope.principal.id))
    fun x hx => by rw [levels x hx]; rfl
  rw [usable, listed, ← visible_eq]
  simp only [bind, Except.bind, List.filterMap_map]
  rfl

theorem found_or_missed (t : Tables) (scope : Scope) (id : ResourceId) :
    (∃ x, scope.findResource t id = .ok x) ∨
      NotFound (scope.level t id) ∧ ∀ minimum, NotFound (scope.levelAtLeast t id minimum) := by
  by_cases found : ∃ x, t.resources.find? id = some x ∧ scope.reaches x = true
  · exact Or.inl (found.imp fun _ => findResource_eq_ok.2)
  · have hidden : ∀ x, t.resources.find? id = some x → scope.reaches x = false :=
      fun x row => Bool.eq_false_iff.2 fun sees => found ⟨x, row, sees⟩
    simp only [level, levelAtLeast, findResource_missed hidden]
    exact Or.inr ⟨⟨_, rfl⟩, fun _ => ⟨_, rfl⟩⟩

theorem level_notFound (ht : t.Consistent) : NotFound (scope.level t id) ↔
    ¬ ∃ x, scope.findResource t id = .ok x := by
  constructor
  · rintro ⟨target, unseen⟩ ⟨x, found⟩
    cases unseen.symm.trans (level_found ht found)
  · exact fun h => ((found_or_missed t scope id).resolve_left h).1

theorem levelAtLeast_notFound (ht : t.Consistent) : NotFound (scope.levelAtLeast t id minimum) ↔
    ¬ ∃ x, scope.findResource t id = .ok x := by
  refine ⟨?_, fun h => ((found_or_missed t scope id).resolve_left h).2 minimum⟩
  rintro ⟨target, unseen⟩ ⟨x, found⟩
  by_cases granted : ∃ held, scope.levelAtLeast t id minimum = .ok (t.acl x, held)
  · obtain ⟨held, granted⟩ := granted
    cases unseen.symm.trans granted
  · cases unseen.symm.trans (levelAtLeast_denied ht found (not_exists.1 granted))

theorem mem_visibleIds : id ∈ scope.visibleIds t ↔ ∃ x, scope.findResource t id = .ok x := by
  rw [visibleIds, visible_eq, mem_ofList_of_injective fun (_ _ : ResourceId) e => e]
  simp only [List.mem_map, List.mem_filter, findResource_eq_ok, find?_eq_some_iff, mem_iff]
  exact ⟨fun ⟨x, ⟨hx, sees⟩, e⟩ => ⟨x, ⟨hx, e⟩, sees⟩, fun ⟨x, ⟨hx, e⟩, sees⟩ => ⟨x, ⟨hx, sees⟩, e⟩⟩

/-- What is usable is listed in the order of the rows, and none of it is left out. -/
theorem usable_listing (ht : t.Consistent) (minimum : Level) : ∃ entries,
    scope.usable t minimum = .ok entries ∧
      (entries.Pairwise fun a b => place a.1 < place b.1) ∧
      ∀ x held, (x, held) ∈ entries ↔ scope.findResource t x.id = .ok x ∧
        t.levelOn x scope.principal.id = some held ∧ minimum ≤ held := by
  refine ⟨_, usable_eq ht, (t.resources.ordered.filter _).filterMap _ ?_, fun x held => ?_⟩
  · rintro a b before c hc d hd
    obtain ⟨_, _, rfl⟩ := Option.map_eq_some_iff.1 hc
    obtain ⟨_, _, rfl⟩ := Option.map_eq_some_iff.1 hd
    exact before
  · simp only [List.mem_filterMap, List.mem_filter, Option.map_eq_some_iff, Option.filter_eq_some_iff,
      Prod.mk.injEq, findResource_eq_ok, find?_eq_some_iff, mem_iff, Level.meets, decide_eq_true_eq]
    constructor
    · rintro ⟨_, ⟨hx, sees⟩, _, ⟨level, meets⟩, rfl, rfl⟩
      exact ⟨⟨⟨hx, rfl⟩, sees⟩, level, meets⟩
    · rintro ⟨⟨⟨hx, _⟩, sees⟩, level, meets⟩
      exact ⟨x, ⟨hx, sees⟩, held, ⟨level, meets⟩, rfl, rfl⟩

theorem answer_level_eq_ok (ht : t.Consistent) {level : Option Level} :
    (Question.level id).answer scope t = .ok (.level level) ↔
      ∃ x, scope.findResource t id = .ok x ∧ t.levelOn x scope.principal.id = level := by
  rw [Question.answer]
  constructor
  · intro h
    rcases scope.found_or_missed t id with ⟨x, found⟩ | ⟨⟨target, e⟩, _⟩
    · rw [level_found ht found] at h
      exact ⟨x, found, Answer.level.inj (Except.ok.inj h)⟩
    · rw [e] at h
      cases h
  · rintro ⟨x, found, rfl⟩
    rw [level_found ht found]
    rfl

theorem answer_levelAtLeast_eq_ok :
    (Question.levelAtLeast id minimum).answer scope t = .ok (.granted held) ↔
      ∃ acl, scope.levelAtLeast t id minimum = .ok (acl, held) := by
  simp only [Question.answer, bind_eq_ok, pure_eq_ok, Answer.granted.injEq, Prod.exists]
  constructor
  · rintro ⟨acl, _, h, rfl⟩
    exact ⟨acl, h⟩
  · rintro ⟨acl, h⟩
    exact ⟨acl, held, h, rfl⟩

end Scope

/-! ## The scope of a caller -/

namespace Caller

variable {settings : Settings} {caller : Caller} {t : Tables} {scope : Scope} {u : TenantId}

/-- The scope of a caller sees what the rows let the caller see. -/
theorem sees_iff (h : caller.scope settings t = .ok scope) :
    scope.sees u = true ↔ caller.Sees settings t u := by
  obtain ⟨principal, found, same, tenant, reach, own, _⟩ := scope_eq_ok h
  obtain ⟨row, e⟩ := find?_eq_some_iff.1 found
  by_cases admin : principal.isPlatformAdmin = true
  · refine iff_of_true ?_ (Or.inl ⟨principal, row, e, admin⟩)
    simp [Scope.sees, Scope.isPlatformAdmin, same, admin]
  · have ordinary : ∀ p, t.principals.find? caller.principal = some p → p.isPlatformAdmin = false := by
      intro p hp
      rw [Option.some.inj (hp.symm.trans found)]
      exact Bool.not_eq_true _ ▸ admin
    refine ⟨fun sees => Or.inr (sees_observed ordinary h sees), ?_⟩
    rintro (⟨p, hp, e', platform⟩ | ⟨belongs, rfl | ⟨global, allowed⟩⟩)
    · exact absurd platform (eq_of_key hp row (e'.trans e.symm) ▸ admin)
    · simp [Scope.sees, tenant]
    · have far : scope.reach = .global := by simp [reach, overreaches, global, allowed]
      simp [Scope.sees, far, (own u).2 belongs]

theorem findResource_eq_ok (opened : caller.scope settings t = .ok scope) {id : ResourceId}
    {x : Resource} : scope.findResource t id = .ok x ↔
      x ∈ t.resources ∧ x.id = id ∧ caller.Sees settings t x.tenant := by
  rw [Scope.findResource_eq_ok, find?_eq_some_iff, and_assoc]
  exact and_congr_right' (and_congr_right' (sees_iff opened))

theorem readsAgree (ht : t.Consistent) (opened : caller.scope settings t = .ok scope) :
    caller.ReadsAgree settings t fun q => q.answer scope t := by
  obtain ⟨_, _, _, tenant, _⟩ := scope_eq_ok opened
  have own := scope_principal opened
  have level {id : ResourceId} {level : Option Level} :
      (Question.level id).answer scope t = .ok (.level level) ↔
        ∃ x, scope.findResource t id = .ok x ∧ t.levelOn x caller.principal = level :=
    own ▸ Scope.answer_level_eq_ok ht
  constructor
  case level =>
    exact fun x hx sees => level.2 ⟨x, (findResource_eq_ok opened).2 ⟨hx, rfl, sees⟩, rfl⟩
  case missing =>
    intro id
    simp only [Question.answer, notFound_map, Scope.level_notFound ht, findResource_eq_ok opened]
  case visible =>
    refine ⟨_, rfl, fun id => Scope.mem_visibleIds.trans ?_⟩
    simp only [level]
    constructor
    · rintro ⟨x, found⟩
      exact ⟨_, x, found, rfl⟩
    · rintro ⟨_, x, found, _⟩
      exact ⟨x, found⟩
  case usable =>
    intro minimum
    obtain ⟨entries, listed, ordered, exact⟩ := scope.usable_listing ht minimum
    refine ⟨entries, by rw [Question.answer, listed]; rfl, ordered, fun x held => ?_⟩
    rw [exact, level, own]
    constructor
    · rintro ⟨found, effective, meets⟩
      exact ⟨((findResource_eq_ok opened).1 found).1, ⟨x, found, effective⟩, meets⟩
    · rintro ⟨hx, ⟨y, found, effective⟩, meets⟩
      obtain ⟨hy, e, _⟩ := (findResource_eq_ok opened).1 found
      obtain rfl := eq_of_key hy hx e
      exact ⟨found, effective, meets⟩
  case granted =>
    intro id minimum held
    rw [Scope.answer_levelAtLeast_eq_ok, level]
    constructor
    · rintro ⟨acl, h⟩
      rcases scope.found_or_missed t id with ⟨x, found⟩ | ⟨_, unseen⟩
      · obtain ⟨_, effective, meets, here⟩ := (Scope.levelAtLeast_eq_ok ht found).1 h
        obtain ⟨hx, e, _⟩ := (findResource_eq_ok opened).1 found
        exact ⟨⟨x, found, own ▸ effective⟩, meets, here.imp_right fun u => ⟨x, hx, e, u.trans tenant⟩⟩
      · obtain ⟨target, e⟩ := unseen minimum
        cases h.symm.trans e
    · rintro ⟨⟨x, found, effective⟩, meets, here⟩
      refine ⟨_, (Scope.levelAtLeast_eq_ok ht found).2 ⟨rfl, own ▸ effective, meets, ?_⟩⟩
      obtain ⟨hx, e, _⟩ := (findResource_eq_ok opened).1 found
      refine here.imp_right ?_
      rintro ⟨y, hy, e', u⟩
      obtain rfl := eq_of_key hy hx (e'.trans e.symm)
      exact u.trans tenant.symm
  case notGranted =>
    intro id minimum
    simp only [Question.answer, notFound_map, Scope.levelAtLeast_notFound ht, Scope.level_notFound ht]
  case denied =>
    intro id minimum l found low
    obtain ⟨x, seen, rfl⟩ := level.1 found
    have below : ∀ held, scope.levelAtLeast t id minimum ≠ .ok (t.acl x, held) :=
      fun held h => low ⟨held, Scope.answer_levelAtLeast_eq_ok.2 ⟨_, h⟩⟩
    rw [Question.answer, Scope.levelAtLeast_denied ht seen below, own]
    rfl

end Caller

namespace Reachable

variable {σ : Type} [Store.Backend σ] [Faithful σ] {s : σ} {settings : Settings} {caller : Caller}
  {scope : Scope}

/-- Whoever has a scope is told about access what the rows say, and the same on all ways to ask. -/
theorem reads_agree (h : Reachable s) (opened : caller.scope settings s = .ok scope) (ids : Supply) :
    caller.ReadsAgree settings (tables s) fun q =>
      ((Call.request caller (.ask q)).run settings s ids).result := by
  simp only [Call.ask_result, opened, Except.bind, Question.answer_tables h.sound]
  rw [caller.scope_tables h.sound] at opened
  exact caller.readsAgree h.consistent opened

/-- Such as a founder that asks globally where there is a second tenant. -/
theorem reads_agree_founding :
    let both : Store.Database := (Call.runAll default Call.foundingTwo Store.Backend.empty .empty).1
    let ada : Caller := ⟨Supply.numberedId 0, .member, Supply.numberedId 1, .global⟩
    ada.ReadsAgree default (tables both) fun q =>
      ((Call.request ada (.ask q)).run default both .empty).result := by
  intro both ada
  have reachable : Reachable both := of_runAll (by decide +kernel)
  obtain ⟨scope, opened⟩ := exists_of_isOk
    (show (ada.scope default both).isOk = true by decide +kernel)
  exact reachable.reads_agree opened .empty

end Reachable

end TenantAccess
