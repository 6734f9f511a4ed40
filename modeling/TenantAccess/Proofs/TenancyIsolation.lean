import TenantAccess.Proofs.GlobalReads
import TenantAccess.Proofs.ManyTenancies

/-!
# Tenancies in one store are isolated

Whatever projects are created in several tenancies of one store, each administrator governs its own tenancy
alone, and what belongs to another is not there for it.
-/

namespace TenantAccess

open Store (Tables)
open Store.Backend (ask)
open Transaction Table

theorem Caller.scope_refused {σ : Type} [Store.Backend σ] {settings : Settings} {caller : Caller} {s : σ}
    {e : Failure} (h : caller.scope settings s = .error e) : ∃ target, e = .notFound target := by
  rw [scope] at h
  cases known : ask (.principal caller.principal) s with
  | none =>
    rw [known] at h
    exact ⟨_, (Except.error.inj h).symm⟩
  | some principal =>
    rw [known] at h
    cases there : ask (.tenant caller.tenant) s with
    | none =>
      rw [there] at h
      exact ⟨_, (Except.error.inj h).symm⟩
    | some tenant =>
      rw [there] at h
      simp only [found, bind, Except.bind, Scope.enter] at h
      split at h
      · exact ⟨_, (Except.error.inj h).symm⟩
      · cases h

/-! ## Isolation -/

namespace Scenario

/-- No two tenancies share a tenant, an administrator, an initiative or a role. -/
structure Separate (homes : List Tenancy) : Prop where
  tenants : (homes.map fun home => home.tenant.id).Nodup
  admins : (homes.map fun home => home.admin.id).Nodup
  initiatives : (homes.map fun home => home.initiative.id).Nodup
  roles : (homes.flatMap fun home => [home.managerRole.id, home.memberRole.id]).Nodup

/-- Each administrator governs its own tenancy alone, and the resources of another are out of its sight,
wherever it says that it acts and however far it asks to read. -/
structure Isolated (homes : List Tenancy) (t : Tables) : Prop where
  adminOfOwn : ∀ home ∈ homes, ¬ t.PlatformAdmin home.admin.id ∧
    ask (.tenantMembershipsBy home.admin.id) t = [⟨home.tenant.id, home.admin.id, .admin⟩]
  soleManager : ∀ home ∈ homes,
    ask (.membershipsIn home.initiative.id) t = [⟨home.initiative.id, home.admin.id, home.managerRole.id⟩] ∧
    ask (.rolesIn home.initiative.id) t = [home.managerRole, home.memberRole] ∧
    home.managerRole.name = Role.managerName
  unseen : ∀ home ∈ homes, ∀ other ∈ homes, home ≠ other →
    ∀ x ∈ t.resources, x.initiative = other.initiative.id →
      ∀ (settings : Settings) (caller : Caller) (ids : Supply), caller.principal = home.admin.id →
        NotFound ((Call.request caller (.ask (.level x.id))).run settings t ids).result ∧
        ∀ listed, ((Call.request caller (.ask .visible)).run settings t ids).result =
          .ok (.resourceIds listed) → x.id ∉ listed
  /-- The listing is there, and holds all that is its own. -/
  listed : ∀ home ∈ homes, ∀ (settings : Settings) (ids : Supply), ∃ listed,
    ((Call.request home.adminCaller (.ask .visible)).run settings t ids).result = .ok (.resourceIds listed) ∧
    ∀ id, id ∈ listed ↔ ∃ x ∈ t.resources, x.id = id ∧ x.initiative = home.initiative.id

/-! ## Tenancies as they are set up -/

namespace LaidOut

variable {homes : List Tenancy} {home other : Tenancy} {t : Tables} {x : Resource}

theorem nodup_ids (laid : LaidOut homes t) {noun : Noun} {ids : Tenancy → List (Id noun)}
    (own : ∀ home, ((ids home).map Id.value).Sublist home.numbers) : (homes.flatMap ids).Nodup := by
  obtain ⟨each, apart⟩ := List.nodup_flatMap.1 laid.apart
  refine List.nodup_flatMap.2 ⟨fun h hh => ((each h hh).sublist (own h)).of_map, ?_⟩
  refine apart.imp fun {h k} disjoint id hid hid' => ?_
  exact disjoint ((own h).subset (List.mem_map_of_mem hid)) ((own k).subset (List.mem_map_of_mem hid'))

theorem separate (laid : LaidOut homes t) : Separate homes where
  tenants := by
    rw [List.map_eq_flatMap]
    exact laid.nodup_ids fun h => by simp [Tenancy.numbers]
  admins := by
    rw [List.map_eq_flatMap]
    exact laid.nodup_ids fun h => by simp [Tenancy.numbers]
  initiatives := by
    rw [List.map_eq_flatMap]
    exact laid.nodup_ids fun h => by simp [Tenancy.numbers]
  roles := laid.nodup_ids fun h =>
    List.sublist_append_right [h.admin.id.value, h.tenant.id.value, h.initiative.id.value] _

theorem eq_of_tenant (laid : LaidOut homes t) (hh : home ∈ homes) (ho : other ∈ homes)
    (e : home.tenant.id = other.tenant.id) : home = other :=
  List.inj_on_of_nodup_map laid.separate.tenants hh ho e

theorem eq_of_admin (laid : LaidOut homes t) (hh : home ∈ homes) (ho : other ∈ homes)
    (e : home.admin.id = other.admin.id) : home = other :=
  List.inj_on_of_nodup_map laid.separate.admins hh ho e

theorem eq_of_initiative (laid : LaidOut homes t) (hh : home ∈ homes) (ho : other ∈ homes)
    (e : home.initiative.id = other.initiative.id) : home = other :=
  List.inj_on_of_nodup_map laid.separate.initiatives hh ho e

variable (laid : LaidOut homes t) (hh : home ∈ homes)

include laid hh

theorem ordinary : ¬ t.PlatformAdmin home.admin.id := by
  rintro ⟨row, hrow, e, platform⟩
  obtain ⟨other, ho, rfl⟩ := (laid.principals row).1 hrow
  obtain rfl := laid.eq_of_admin ho hh e
  rw [(laid.formed other hh).ordinary] at platform
  cases platform

theorem mem_adminships {m : TenantMembership} :
    m ∈ t.tenantMemberships ∧ m.principal = home.admin.id ↔ m = home.adminship := by
  rw [laid.tenantMemberships]
  constructor
  · rintro ⟨⟨other, ho, rfl⟩, e⟩
    rw [laid.eq_of_admin ho hh e]
  · rintro rfl
    exact ⟨⟨home, hh, rfl⟩, rfl⟩

theorem tenantMembershipsBy : ask (.tenantMembershipsBy home.admin.id) t = [home.adminship] :=
  filter_eq_singleton fun m => by rw [decide_eq_true_eq, laid.mem_adminships hh]

theorem membershipsIn : ask (.membershipsIn home.initiative.id) t = [home.managership] := by
  have scanned : ask (.membershipsIn home.initiative.id) t =
      t.memberships.rows.filter fun m => m.initiative = home.initiative.id := Tables.ask_membershipsIn
  refine scanned.trans (filter_eq_singleton fun m => ?_)
  rw [decide_eq_true_eq, laid.memberships]
  constructor
  · rintro ⟨⟨other, ho, rfl⟩, e⟩
    rw [laid.eq_of_initiative ho hh e]
  · rintro rfl
    exact ⟨⟨home, hh, rfl⟩, rfl⟩

theorem rolesIn : ask (.rolesIn home.initiative.id) t = [home.managerRole, home.memberRole] := by
  have apart : home.managerRole.id ≠ home.memberRole.id := by
    have own := (List.nodup_flatMap.1 laid.separate.roles).1 home hh
    exact List.pairwise_pair.1 own
  have manager := (laid.formed home hh).manager
  have member := (laid.formed home hh).member
  rw [manager, member]
  refine Tables.rolesIn_seeded apart fun r => ?_
  rw [← manager, ← member, laid.roles]
  constructor
  · rintro ⟨⟨other, ho, named⟩, e⟩
    obtain rfl : other = home := by
      refine laid.eq_of_initiative ho hh (Eq.trans ?_ e)
      rcases named with rfl | rfl
      · rw [(laid.formed other ho).manager]
        rfl
      · rw [(laid.formed other ho).member]
        rfl
    exact named
  · intro named
    refine ⟨⟨home, hh, named⟩, ?_⟩
    rcases named with rfl | rfl
    · rw [manager]
      rfl
    · rw [member]
      rfl

theorem tenant_iff (hx : x ∈ t.resources) :
    x.tenant = home.tenant.id ↔ x.initiative = home.initiative.id := by
  obtain ⟨i, hi, e⟩ := contains_iff.1 (laid.consistent.stored.resource x hx).1
  have tenant := laid.consistent.aligned.resource x hx i hi e
  obtain ⟨other, ho, rfl⟩ := (laid.initiatives i).1 hi
  rw [(laid.formed other ho).initiative] at tenant
  constructor
  · intro here
    rw [← laid.eq_of_tenant ho hh (tenant.trans here)]
    exact e.symm
  · intro here
    rw [← laid.eq_of_initiative ho hh (e.trans here)]
    exact tenant.symm

theorem belongs : home.adminCaller.BelongsTo t home.tenant.id :=
  ⟨_, ((laid.mem_adminships hh).2 rfl).1, rfl, rfl⟩

/-- The administrator of a tenancy sees no tenant but that. -/
theorem sees_own {settings : Settings} {caller : Caller} {u : TenantId}
    (own : caller.principal = home.admin.id) (sees : caller.Sees settings t u) : u = home.tenant.id := by
  rcases sees with platform | ⟨⟨m, hm, hp, rfl⟩, _⟩
  · exact absurd (own ▸ platform) (laid.ordinary hh)
  · rw [(laid.mem_adminships hh).1 ⟨hm, hp.trans own⟩]
    rfl

/-- What belongs to another tenancy is not there for it. -/
theorem unseen (ho : other ∈ homes) (differ : home ≠ other) (hx : x ∈ t.resources)
    (there : x.initiative = other.initiative.id) (settings : Settings) {caller : Caller} (ids : Supply)
    (own : caller.principal = home.admin.id) :
    NotFound ((Call.request caller (.ask (.level x.id))).run settings t ids).result ∧
      ∀ listed, ((Call.request caller (.ask .visible)).run settings t ids).result =
        .ok (.resourceIds listed) → x.id ∉ listed := by
  have unseen : ¬ caller.Sees settings t x.tenant := fun sees => by
    have tenant := (laid.tenant_iff ho hx).2 there
    exact differ (laid.eq_of_tenant hh ho ((laid.sees_own hh own sees).symm.trans tenant))
  rw [Call.ask_result, Call.ask_result]
  cases opened : caller.scope settings t with
  | error e =>
    obtain ⟨target, rfl⟩ := Caller.scope_refused opened
    exact ⟨⟨target, rfl⟩, fun _ told => by cases told⟩
  | ok scope =>
    have reads := caller.readsAgree laid.consistent opened
    have missing : NotFound ((Question.level x.id).answer scope t) := by
      refine (reads.missing x.id).2 ?_
      rintro ⟨y, hy, e, sees⟩
      obtain rfl := eq_of_key hy hx e
      exact unseen sees
    refine ⟨missing, fun listed told hid => ?_⟩
    obtain ⟨_, answered, levels⟩ := reads.visible
    obtain rfl := Answer.resourceIds.inj (Except.ok.inj (answered.symm.trans told))
    obtain ⟨_, level⟩ := (levels x.id).1 hid
    obtain ⟨_, missing⟩ := missing
    cases level.symm.trans missing

/-- It sees all that belongs to its own. -/
theorem listed (settings : Settings) (ids : Supply) : ∃ listed,
    ((Call.request home.adminCaller (.ask .visible)).run settings t ids).result =
        .ok (.resourceIds listed) ∧
      ∀ id, id ∈ listed ↔ ∃ x ∈ t.resources, x.id = id ∧ x.initiative = home.initiative.id := by
  obtain ⟨scope, opened⟩ :=
    Caller.scope_opens_of_member laid.consistent (laid.belongs hh) settings
  have reads := Caller.readsAgree laid.consistent opened
  obtain ⟨listed, answered, levels⟩ := reads.visible
  refine ⟨listed, by rw [Call.ask_result, opened]; exact answered, fun id => (levels id).trans ?_⟩
  constructor
  · rintro ⟨level, told⟩
    obtain ⟨x, hx, e, sees, _⟩ := reads.level_eq_ok.1 told
    exact ⟨x, hx, e, (laid.tenant_iff hh hx).1 (laid.sees_own hh rfl sees)⟩
  · rintro ⟨x, hx, rfl, here⟩
    have tenant := (laid.tenant_iff hh hx).2 here
    exact ⟨_, reads.level x hx (Or.inr ⟨tenant ▸ laid.belongs hh, Or.inl tenant⟩)⟩

omit hh

theorem isolated : Isolated homes t where
  adminOfOwn _ hh := ⟨laid.ordinary hh, laid.tenantMembershipsBy hh⟩
  soleManager home hh := by
    refine ⟨laid.membershipsIn hh, laid.rolesIn hh, ?_⟩
    rw [(laid.formed home hh).manager]
    rfl
  unseen _ hh _ ho differ _ hx there settings _ ids own :=
    laid.unseen hh ho differ hx there settings ids own
  listed _ hh := laid.listed hh

end LaidOut

/-! ## Projects -/

section Projects

variable {homes : List Tenancy} {home : Tenancy} {t : Tables} {ids : Supply} {settings : Settings}
  {name : String} {more : Nat}

namespace LaidOut

variable (laid : LaidOut homes t) (hh : home ∈ homes)

include laid hh

/-- The administrator of a tenancy manages its initiative, so it may create what it likes there. -/
theorem creates {scope : Scope} (own : scope.principal.id = home.admin.id) (kind : ResourceKind) :
    Administration.mayCreate scope t home.initiative kind = true := by
  have membership : ask (.membership home.initiative.id home.admin.id) t = some home.managership :=
    find?_eq_some_iff.2 ⟨(laid.memberships _).2 ⟨home, hh, rfl⟩, rfl⟩
  have role : ask (.role home.managerRole.id) t = some home.managerRole :=
    find?_eq_some_iff.2 ⟨(laid.roles _).2 ⟨home, hh, Or.inl rfl⟩, rfl⟩
  have held : Store.heldRole t home.initiative.id home.admin.id = some home.managerRole := by
    rw [Store.heldRole, membership]
    exact role
  have manages : home.managerRole.permits (.toCreate kind) = true := by
    rw [(laid.formed home hh).manager]
    rfl
  rw [Administration.mayCreate, own, held, Principal.may, Option.any_some, manages, Bool.or_true]

/-- It has a scope in its tenant, which finds the initiative. -/
theorem opens (settings : Settings) : ∃ scope, home.adminCaller.scope settings t = .ok scope ∧
    scope.principal.id = home.admin.id ∧ home.initiative.tenant = scope.tenant ∧
    scope.findInitiative t home.initiative.id = .ok home.initiative := by
  obtain ⟨scope, opened⟩ :=
    Caller.scope_opens_of_member laid.consistent (laid.belongs hh) settings
  obtain ⟨own, tenant, _⟩ := Caller.scope_backed opened
  have here : home.initiative.tenant = scope.tenant := (laid.formed home hh).initiative.trans tenant.symm
  have there : t.initiatives.find? home.initiative.id = some home.initiative :=
    find?_eq_some_iff.2 ⟨(laid.initiatives _).2 ⟨home, hh, rfl⟩, rfl⟩
  exact ⟨scope, opened, own, here, Scope.findInitiative_eq_ok.2 ⟨there, Scope.reaches_own here⟩⟩

theorem addProject_done (settings : Settings) (fresh : ids.FreshFor (1 + more) t)
    (form : Naming.checkDisplayName "project" name = .ok ()) :
    let x : Resource := ⟨ids.draw.1, .project, home.initiative.id, home.initiative.tenant, name⟩
    let t' := t.withOwned x home.admin.id
    (home.addProject name : Play Tables Resource) ⟨settings, t, ids⟩ =
        (.ok x, ⟨settings, t', ids.after 1⟩) ∧
      LaidOut homes t' ∧ (ids.after 1).FreshFor more t' := by
  intro x t'
  obtain ⟨scope, opened, own, here, found⟩ := laid.opens hh settings
  have stored := Caller.scope_stored opened
  have added (events : List Event) : ∃ events',
      Administration.addResource scope home.initiative.id .project name ⟨t, ids, events⟩ =
        (.ok x, ⟨t', ids.after 1, events'⟩) := by
    obtain ⟨⟨_, _, events'⟩, done, rfl, rfl⟩ := Administration.enterResource_done
      (f := ⟨t, ids, events⟩) .project name laid.consistent stored
      ((laid.initiatives _).2 ⟨home, hh, rfl⟩) fresh.first
    have form : Naming.checkDisplayName ResourceKind.project.word name = .ok () := form
    rw [Administration.addResource_gated (f := ⟨t, ids, events⟩) found here form,
      if_pos (laid.creates hh own .project), done, Supply.draw_after, own]
    exact ⟨events', rfl⟩
  refine ⟨actAs_done opened added, ?_, fresh.rest ?_⟩
  · obtain ⟨_, done⟩ := added []
    have changes : Changes (fun t c => c.Fits t) t t' :=
      (Administration.addResource_within done).mono fun _ _ within => within.fits
    exact { laid with consistent := changes.consistent laid.consistent }
  · exact { Tables.Adds.none with
      resources := forall_mem_insert (Or.inr (Supply.mem_upcoming_after (i := 0) _ Nat.one_pos))
        fun _ => Or.inl }

theorem addProject_refused (settings : Settings) (ids : Supply) {refusal : Refusal}
    (fault : Naming.checkDisplayName "project" name = .error refusal) :
    ∃ e, (home.addProject name : Play Tables Resource) ⟨settings, t, ids⟩ =
      (.error e, ⟨settings, t, ids⟩) := by
  obtain ⟨scope, opened, _, here, found⟩ := laid.opens hh settings
  have own : scope.needActiveTenant home.initiative = .ok () := if_pos (decide_eq_true here)
  refine ⟨.ofRefusal refusal, actAs_failed opened fun events => ⟨t, events, ?_⟩⟩
  simp only [Administration.addResource, bind_eq, current, check, liftM, monadLift, MonadLift.monadLift,
    found, own, ResourceKind.word, fault, Except.mapError]

end LaidOut

/-- Projects are created one after the other up to the first that has no good name. What is there stays, and
the tenancies stay as they were set up. -/
theorem LaidOut.addProjects (laid : LaidOut homes t) {projects : List (Tenancy × String)}
    (own : ∀ p ∈ projects, p.1 ∈ homes) (fresh : ids.FreshFor (projects.length + more) t) :
    ∃ made t' ids', (projects.mapM fun p => p.1.addProject p.2 : Play Tables (List Resource))
        ⟨settings, t, ids⟩ = (made, ⟨settings, t', ids'⟩) ∧
      LaidOut homes t' ∧ (∀ x ∈ t.resources, x ∈ t'.resources) ∧
      ((∀ p ∈ projects, Naming.WellFormed Naming.displayNameLimit p.2) → ∃ rows, made = .ok rows ∧
        List.Forall₂ (fun p x => x ∈ t'.resources ∧ x.kind = .project ∧
          x.initiative = p.1.initiative.id ∧ x.name = p.2) projects rows) := by
  induction projects generalizing t ids with
  | nil => exact ⟨.ok [], t, ids, rfl, laid, fun _ => id, fun _ => ⟨[], rfl, .nil⟩⟩
  | cons p rest ih =>
    have hp := own p List.mem_cons_self
    rw [List.mapM_cons]
    cases form : Naming.checkDisplayName "project" p.2 with
    | error refusal =>
      obtain ⟨e, refused⟩ := laid.addProject_refused hp settings ids form
      refine ⟨_, t, ids, bind_failed refused, laid, fun _ => id, fun good => ?_⟩
      have form' : Naming.checkDisplayName "project" p.2 = .ok () :=
        Naming.check_eq_ok.2 (good p List.mem_cons_self)
      cases form.symm.trans form'
    | ok _ =>
      rw [List.length_cons, Nat.add_comm _ 1, Nat.add_assoc] at fresh
      have new := fresh.first.resource_free
      obtain ⟨done, laid', fresh⟩ := laid.addProject_done hp settings fresh form
      obtain ⟨made, t', ids', done', laid', kept, all⟩ :=
        ih laid' (fun q hq => own q (List.mem_cons_of_mem p hq)) fresh
      have kept' : ∀ x ∈ t.resources, x ∈ t'.resources := fun x hx =>
        kept x ((mem_insert_free new).2 (Or.inl hx))
      cases made with
      | error e =>
        refine ⟨_, t', ids', (bind_done done).trans (bind_failed done'), laid', kept', fun good => ?_⟩
        obtain ⟨_, absurd, _⟩ := all fun q hq => good q (List.mem_cons_of_mem p hq)
        cases absurd
      | ok rows =>
        refine ⟨_, t', ids', (bind_done done).trans (bind_done done'), laid', kept', fun good => ?_⟩
        obtain ⟨_, same, all⟩ := all fun q hq => good q (List.mem_cons_of_mem p hq)
        cases same
        exact ⟨_, rfl, .cons ⟨kept _ mem_insert_self, rfl, rfl, rfl⟩ all⟩

end Projects

theorem Isolated.mono {homes homes' : List Tenancy} {t : Tables} (h : Isolated homes t)
    (sub : ∀ home ∈ homes', home ∈ homes) : Isolated homes' t where
  adminOfOwn home hh := h.adminOfOwn home (sub home hh)
  soleManager home hh := h.soleManager home (sub home hh)
  unseen home hh other ho := h.unseen home (sub home hh) other (sub other ho)
  listed home hh := h.listed home (sub home hh)

/-- As many tenancies as are asked for are set up in one store, the first of them like a single one. They share
nothing, and whatever projects are then created in them, none is seen from another. -/
theorem manyTenancies_isolated (count later : Nat) {ids : Supply}
    (fresh : ids.FreshFor (5 * max 1 count + later) .empty) : ∃ first start homes site,
      (Tenancy.setUp "ada" "acme" : Play Tables Tenancy) (Site.fresh default ids) = (.ok first, start) ∧
      (manyTenancies count : Play Tables (List Tenancy)) (Site.fresh default ids) = (.ok homes, site) ∧
      homes.length = count ∧ (0 < count → homes.head? = some first) ∧ Separate homes ∧
      ∀ projects : List (Tenancy × String), projects.length ≤ later → (∀ p ∈ projects, p.1 ∈ homes) →
        ∃ made built, (projects.mapM fun p => p.1.addProject p.2 : Play Tables (List Resource)) site =
            (made, built) ∧
          Isolated homes built.store ∧
          ((∀ p ∈ projects, Naming.WellFormed Naming.displayNameLimit p.2) → ∃ rows, made = .ok rows ∧
            List.Forall₂ (fun p x => x ∈ built.store.resources ∧ x.kind = .project ∧
              x.initiative = p.1.initiative.id ∧ x.name = p.2) projects rows) := by
  obtain ⟨first, others, start, t, ids', single, done, length, laid, left⟩ := manyTenancies_done fresh
  have total : (first :: others).length = max 1 count := by
    rw [List.length_cons, length]
    omega
  have whole (pos : 0 < count) : (first :: others).take count = first :: others :=
    List.take_of_length_le (by omega)
  refine ⟨first, start, _, _, single, done, ?_, fun pos => by rw [whole pos]; rfl, ?_, ?_⟩
  · rw [List.length_take, total]
    omega
  · rcases Nat.eq_zero_or_pos count with rfl | pos
    · exact ⟨.nil, .nil, .nil, .nil⟩
    · rw [whole pos]
      exact laid.separate
  · intro projects short own
    obtain ⟨more, rfl⟩ := Nat.exists_eq_add_of_le short
    have own' : ∀ p ∈ projects, p.1 ∈ first :: others := fun p hp => List.mem_of_mem_take (own p hp)
    obtain ⟨made, t', ids'', added, laid, _, all⟩ := laid.addProjects own' left
    exact ⟨made, _, added, laid.isolated.mono fun _ => List.mem_of_mem_take, all⟩

/-- Such as two tenancies, where the second does not see the project of the first. -/
theorem manyTenancies_isolated_two : ∃ (home other : Tenancy) (site built : Site Tables) (plan : Resource),
    (manyTenancies 2 : Play Tables (List Tenancy)) (Site.fresh default .empty) = (.ok [home, other], site) ∧
    ([(home, "plan")].mapM fun p => p.1.addProject p.2 : Play Tables (List Resource)) site =
      (.ok [plan], built) ∧
    plan ∈ built.store.resources ∧
    NotFound ((Call.request other.adminCaller (.ask (.level plan.id))).run default built.store .empty).result := by
  have fresh : Supply.empty.FreshFor (5 * max 1 2 + 1) .empty := by decide +kernel
  obtain ⟨_, _, homes, site, _, done, length, _, separate, isolated⟩ := manyTenancies_isolated 2 1 fresh
  obtain ⟨home, other, rfl⟩ := List.length_eq_two.1 length
  have apart : other ≠ home := by
    rintro rfl
    exact (List.nodup_cons.1 separate.tenants).1 List.mem_cons_self
  have good : Naming.WellFormed Naming.displayNameLimit "plan" := Naming.fault?_eq_none.1 (by decide)
  obtain ⟨_, built, added, isolated, made⟩ := isolated [(home, "plan")] (Nat.le_refl 1) (by simp)
  obtain ⟨_, rfl, rows⟩ := made (by simpa using good)
  obtain ⟨plan, rest, ⟨stored, _, there, _⟩, none, rfl⟩ := List.forall₂_cons_left_iff.1 rows
  obtain rfl := List.forall₂_nil_left_iff.1 none
  have unseen := isolated.unseen other (by simp) home (by simp) apart plan stored there default
    other.adminCaller .empty rfl
  exact ⟨home, other, site, built, plan, done, added, stored, unseen.1⟩

end Scenario

end TenantAccess
