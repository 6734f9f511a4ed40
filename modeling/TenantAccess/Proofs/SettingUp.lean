import TenantAccess.Proofs.CreateGate
import TenantAccess.Proofs.Drawing
import TenantAccess.Scenario.Tenancy

/-!
# Setting up a tenancy

What the transactions that set up a tenancy do to ordered tables, where the identifiers are fresh: they
succeed, and the rows that are new are those of the tenancy. Each of them leaves the tables ready for the
next one.
-/

namespace TenantAccess

open Store (Tables)
open Store.Backend (ask)
open Transaction Table

/-! ## Calls that succeed -/

/-- The rows fit together, and so many of the next identifiers are fresh. -/
structure Ready (count : Nat) (t : Tables) (ids : Supply) : Prop where
  consistent : t.Consistent
  fresh : ids.FreshFor count t

namespace Administration

variable {f : Frame Tables} {scope : Scope} {settings : Settings} {name : String} {more : Nat}

theorem register_done (role : PlatformRole) (ready : Ready (1 + more) f.store f.ids)
    (form : Naming.checkDisplayName "principal" name = .ok ()) :
    let p : Principal := ⟨f.ids.draw.1, name, role⟩
    let t : Tables := { f.store with principals := f.store.principals.insert p }
    (∃ events, register name role f = (.ok p, ⟨t, f.ids.after 1, events⟩)) ∧
      Ready more t (f.ids.after 1) := by
  intro p t
  have put : Tables.step (.putPrincipal p) f.store = .ok (true, t) := Tables.step_putPrincipal.2 ⟨rfl, rfl⟩
  have done : register name role f =
      (.ok p, ⟨t, f.ids.after 1, f.events ++ [.principalRegistered p.id role]⟩) := by
    simp only [register, bind_ok, lift_refusal_ok, fresh_ok, change_ok, report_ok, pure_ok,
      Supply.draw_after]
    exact ⟨(), _, ⟨form, rfl⟩, _, _, ⟨rfl, rfl⟩, true, _, ⟨_, put, rfl⟩, (), _, rfl, rfl, rfl⟩
  have adds : f.store.Adds (f.ids.upcoming 1) t := { Tables.Adds.none with
    principals := forall_mem_insert (Or.inr (Supply.mem_upcoming_after (i := 0) _ Nat.one_pos))
      fun _ => Or.inl }
  exact ⟨⟨_, done⟩, ready.consistent.step (c := .putPrincipal p) trivial put, ready.fresh.rest adds⟩

theorem foundTenant_done {creator : PrincipalId} (ready : Ready (1 + more) f.store f.ids)
    (form : Naming.checkDisplayName "tenant" name = .ok ())
    (known : f.store.principals.contains creator = true) :
    let tenant : Tenant := ⟨f.ids.draw.1, name⟩
    let t : Tables := { f.store with
      tenants := f.store.tenants.insert tenant
      tenantMemberships := f.store.tenantMemberships.insert ⟨tenant.id, creator, .admin⟩ }
    (∃ events, foundTenant creator name f = (.ok tenant, ⟨t, f.ids.after 1, events⟩)) ∧
      Ready more t (f.ids.after 1) := by
  intro tenant t
  obtain ⟨row, stored⟩ := Option.isSome_iff_exists.1 known
  have there : (f.store.tenants.insert tenant).contains tenant.id = true :=
    contains_iff.2 ⟨tenant, mem_insert_self, rfl⟩
  have added : Tables.step (.addTenant tenant) f.store = .ok (true, _) :=
    Tables.step_addTenant.2 ⟨ready.fresh.first.tenant_free, rfl, rfl⟩
  have joined : Tables.step (.putTenantMembership ⟨tenant.id, creator, .admin⟩)
      { f.store with tenants := f.store.tenants.insert tenant } = .ok (true, t) :=
    Tables.step_putTenantMembership.2 ⟨there, known, rfl, rfl⟩
  have done : foundTenant creator name f =
      (.ok tenant, ⟨t, f.ids.after 1, f.events ++ [.tenantCreated tenant.id creator]⟩) := by
    simp only [foundTenant, knownPrincipal, bind_ok, lift_refusal_ok, lift_ok, found_eq_ok, current_ok,
      fresh_ok, change_ok, report_ok, pure_ok, Supply.draw_after]
    exact ⟨(), _, ⟨form, rfl⟩, _, _, ⟨rfl, rfl⟩, row, _, ⟨stored, rfl⟩, _, _, ⟨rfl, rfl⟩,
      true, _, ⟨_, added, rfl⟩, true, _, ⟨_, joined, rfl⟩, (), _, rfl, rfl, rfl⟩
  have adds : f.store.Adds (f.ids.upcoming 1) t := { Tables.Adds.none with
    tenants := forall_mem_insert (Or.inr (Supply.mem_upcoming_after (i := 0) _ Nat.one_pos))
      fun _ => Or.inl }
  refine ⟨⟨_, done⟩, ?_, ready.fresh.rest adds⟩
  exact (ready.consistent.step (c := .addTenant tenant) trivial added).step
    (c := .putTenantMembership _) trivial joined

theorem startInitiative_done (ready : Ready (3 + more) f.store f.ids) (stored : scope.Stored f.store)
    (may : scope.mayManage = true) (form : Naming.checkDisplayName "initiative" name = .ok ())
    (seeds : settings.seedsRoles = true) (joins : settings.creatorJoins = true) :
    let i : Initiative := ⟨f.ids.draw.1, scope.tenant, name⟩
    let manager : Role := .seededManager (f.ids.after 1).draw.1 i.id
    let member : Role := .seededMember (f.ids.after 2).draw.1 i.id
    let t : Tables := { f.store with
      initiatives := f.store.initiatives.insert i
      roles := (f.store.roles.insert manager).insert member
      memberships := f.store.memberships.insert ⟨i.id, scope.principal.id, manager.id⟩ }
    (∃ events, startInitiative settings scope name f = (.ok i, ⟨t, f.ids.after 3, events⟩)) ∧
      Ready more t (f.ids.after 3) := by
  intro i manager member t
  have fresh : f.ids.FreshFor 3 f.store := ready.fresh.first
  have admits : scope.needTenantAdmin = .ok () := if_pos may
  have there : (f.store.initiatives.insert i).contains i.id = true :=
    contains_iff.2 ⟨i, mem_insert_self, rfl⟩
  -- the two roles are the first of the initiative, and their names differ
  have unnamed := newRole_free ready.consistent.stored fresh.initiative_free
  have free : f.store.roleNameTaken manager = false :=
    Tables.roleNameTaken_eq_false.2 fun r hr hi => absurd hi (unnamed r hr)
  have free' : Tables.roleNameTaken { f.store with roles := f.store.roles.insert manager } member = false := by
    refine Tables.roleNameTaken_eq_false.2 fun r hr hi hn => ?_
    rcases mem_insert.1 hr with rfl | ⟨hr, _⟩
    · have apart : Role.managerName ≠ Role.memberName := by decide
      exact absurd hn apart
    · exact absurd hi (unnamed r hr)
  have held : ((f.store.roles.insert manager).insert member).contains manager.id = true :=
    contains_insert_of (contains_iff.2 ⟨manager, mem_insert_self, rfl⟩)
  have done : startInitiative settings scope name f =
      (.ok i, ⟨t, f.ids.after 3, f.events ++ [.initiativeCreated i.id i.tenant]⟩) := by
    simp only [startInitiative, seeds, joins, if_true, bind_ok, lift_refusal_ok, lift_ok, fresh_ok,
      change_ok, report_ok, pure_ok, Supply.draw_after]
    exact ⟨(), _, ⟨admits, rfl⟩, (), _, ⟨form, rfl⟩, _, _, ⟨rfl, rfl⟩,
      true, _, ⟨_, Tables.step_addInitiative.2 ⟨stored.tenant, fresh.initiative_free, rfl, rfl⟩, rfl⟩,
      _, _, ⟨rfl, rfl⟩, _, _, ⟨rfl, rfl⟩,
      true, _, ⟨_, Tables.step_putRole.2 ⟨there, free, rfl, rfl⟩, rfl⟩,
      true, _, ⟨_, Tables.step_putRole.2 ⟨there, free', rfl, rfl⟩, rfl⟩,
      true, _, ⟨_, Tables.step_putMembership.2 ⟨there, stored.principal, held, rfl, rfl⟩, rfl⟩,
      (), _, rfl, rfl, rfl⟩
  have adds : f.store.Adds (f.ids.upcoming 3) t := { Tables.Adds.none with
    initiatives := forall_mem_insert (Or.inr (Supply.mem_upcoming_after (i := 0) _ (by decide)))
      fun _ => Or.inl
    roles := forall_mem_insert (Or.inr (Supply.mem_upcoming_after _ (by decide))) <|
      forall_mem_insert (Or.inr (Supply.mem_upcoming_after _ (by decide))) fun _ => Or.inl }
  have drawn : f.ids.FreshFor (if settings.seedsRoles then 3 else 1) f.store := by
    rw [if_pos seeds]
    exact fresh
  have changes : Changes (fun t c => c.Fits t) f.store t :=
    (startInitiative_within drawn done).mono fun _ _ within => within.fits
  exact ⟨⟨_, done⟩, changes.consistent ready.consistent, ready.fresh.rest adds⟩

end Administration

theorem Caller.scope_manages {settings : Settings} {caller : Caller} {t : Tables} {scope : Scope}
    (h : caller.scope settings t = .ok scope) (admin : t.TenantAdmin caller.tenant caller.principal) :
    scope.mayManage = true := by
  obtain ⟨row, hrow, hu, hp, isAdmin⟩ := admin
  simp only [Caller.scope, bind_eq_ok, found_eq_ok, ask_principal, ask_tenant,
    ask_tenantMembershipsBy, lift_refusal_eq_ok] at h
  obtain ⟨principal, known, _, _, entered⟩ := h
  have e : principal.id = caller.principal := (find?_eq_some_iff.1 known).2
  simp only [Scope.enter, List.filter_filter, Bool.and_self] at entered
  cases first : (t.tenantMemberships.rows.filter fun m => m.principal = principal.id).find?
      fun m => m.tenant = caller.tenant with
  | none =>
    have own : row ∈ t.tenantMemberships.rows.filter fun m => m.principal = principal.id :=
      List.mem_filter.2 ⟨hrow, decide_eq_true (hp.trans e.symm)⟩
    exact absurd (decide_eq_true hu) (List.find?_eq_none.1 first row own)
  | some m =>
    have here := List.find?_some first
    have here : m.tenant = caller.tenant := of_decide_eq_true here
    obtain ⟨hm, own⟩ := List.mem_filter.1 (List.mem_of_find?_eq_some first)
    have own : m.principal = caller.principal := (of_decide_eq_true own).trans e
    obtain rfl : m = row := eq_of_key hm hrow (Prod.ext (here.trans hu.symm) (own.trans hp.symm))
    rw [first] at entered
    obtain rfl := Except.ok.inj entered
    simp only [Scope.mayManage, Scope.administers, Option.map_some, Option.any_some, isAdmin, Bool.true_or]

/-! ## The first roles -/

section Roles

variable {t : Tables} {i : InitiativeId} {manager member : RoleId}

/-- The roles of an initiative that has just the two that it started with, by position. -/
theorem Store.Tables.rolesIn_seeded (apart : manager ≠ member)
    (rows : ∀ r, r ∈ t.roles ∧ r.initiative = i ↔
      r = .seededManager manager i ∨ r = .seededMember member i) :
    Backend.ask (.rolesIn i) t = [.seededManager manager i, .seededMember member i] := by
  have mem (r : Role) : r ∈ Backend.ask (.rolesIn i) t ↔
      r ∈ [Role.seededManager manager i, Role.seededMember member i] := by
    rw [Tables.mem_rolesIn, rows, List.mem_cons, List.mem_singleton]
  have both : Distinct [Role.seededManager manager i, Role.seededMember member i] :=
    List.pairwise_pair.2 apart
  have perm := (List.perm_ext_iff_of_nodup (t.distinct_rolesIn i).nodup both.nodup).2 mem
  have sorted : (Backend.ask (.rolesIn i) t).Pairwise fun a b => a.position.toNat ≤ b.position.toNat :=
    sortOn_pairwise _ _
  refine perm.eq_of_pairwise ?_ sorted (List.pairwise_pair.2 (Nat.zero_le _))
  intro a b ha hb hab hba
  have hpos : a.position.toNat = b.position.toNat := Nat.le_antisymm hab hba
  have ha := (mem a).1 ha
  simp only [List.mem_cons, List.not_mem_nil, or_false] at ha hb
  rcases ha with rfl | rfl <;> rcases hb with rfl | rfl
  · rfl
  · cases hpos
  · cases hpos
  · rfl

end Roles

theorem Administration.rolesIn_started {t : Tables} {ids : Supply} {more : Nat}
    (ready : Ready (3 + more) t ids) :
    let i : InitiativeId := ids.draw.1
    let manager : Role := .seededManager (ids.after 1).draw.1 i
    let member : Role := .seededMember (ids.after 2).draw.1 i
    ask (.rolesIn i) { t with roles := (t.roles.insert manager).insert member } = [manager, member] := by
  intro i manager member
  have three : ids.FreshFor (1 + 2) t := ready.fresh.first
  have two : (ids.after 1).FreshFor 2 t := three.rest .none
  have unnamed := newRole_free ready.consistent.stored three.initiative_free
  have apart := two.draw_ne .role
  have roles := mem_seeded_insert two i
  rw [Supply.draw_after] at apart roles
  refine Tables.rolesIn_seeded apart fun r => (and_congr_left' (roles r)).trans ?_
  simp only [List.mem_cons, List.not_mem_nil, or_false]
  constructor
  · rintro ⟨old | new, hi⟩
    · exact absurd hi (unnamed r old)
    · exact new
  · rintro (rfl | rfl)
    · exact ⟨Or.inr (Or.inl rfl), rfl⟩
    · exact ⟨Or.inr (Or.inr rfl), rfl⟩

/-- The rows of a tenancy come to those that are there. -/
def Store.Tables.withTenancy (t : Tables) (home : Scenario.Tenancy) : Tables :=
  { t with
    tenants := t.tenants.insert home.tenant
    principals := t.principals.insert home.admin
    tenantMemberships := t.tenantMemberships.insert ⟨home.tenant.id, home.admin.id, .admin⟩
    initiatives := t.initiatives.insert home.initiative
    roles := (t.roles.insert home.managerRole).insert home.memberRole
    memberships := t.memberships.insert ⟨home.initiative.id, home.admin.id, home.managerRole.id⟩ }

/-! ## Plays -/

namespace Scenario

section Plays

variable {σ α β : Type} {site site' : Site σ} {a : α}

theorem play_bind (x : Play σ α) (g : α → Play σ β) (site : Site σ) :
    (x >>= g) site = match x site with
      | (.ok a, site') => g a site'
      | (.error e, site') => (.error e, site') := by
  show (ExceptT.bindCont g (x site).1 : StateM (Site σ) _) (x site).2 = _
  rcases x site with ⟨_ | _, _⟩ <;> rfl

theorem bind_done {x : Play σ α} {g : α → Play σ β} (h : x site = (.ok a, site')) :
    (x >>= g) site = g a site' := by
  rw [play_bind, h]

theorem bind_failed {x : Play σ α} {g : α → Play σ β} {e : Failure} (h : x site = (.error e, site')) :
    (x >>= g) site = (.error e, site') := by
  rw [play_bind, h]

theorem lift_done {r : Except Failure α} (h : r = .ok a) : (liftM r : Play σ α) site = (.ok a, site) := by
  rw [h]
  rfl

theorem act_done {t : Transaction σ α} {s : σ} {ids : Supply} {events : List Event}
    (h : t ⟨site.store, site.ids, []⟩ = (.ok a, ⟨s, ids, events⟩)) :
    act t site = (.ok a, ⟨site.settings, s, ids⟩) := by
  simp only [act, commit, h]

/-- Opening the scope may have reported something, so what is done there is done whatever was reported
before. -/
theorem actAs_done [Store.Backend σ] {caller : Caller} {t : Settings → Scope → Transaction σ α}
    {scope : Scope} {s : σ} {ids : Supply} (opened : caller.scope site.settings site.store = .ok scope)
    (done : ∀ events, ∃ events',
      t site.settings scope ⟨site.store, site.ids, events⟩ = (.ok a, ⟨s, ids, events'⟩)) :
    actAs caller t site = (.ok a, ⟨site.settings, s, ids⟩) := by
  obtain ⟨events, opens⟩ := caller.openScope_eq site.settings ⟨site.store, site.ids, []⟩
  obtain ⟨events', done⟩ := done events
  have acted : (do t site.settings (← caller.openScope site.settings)) ⟨site.store, site.ids, []⟩ =
      (.ok a, ⟨s, ids, events'⟩) := by
    rw [bind_eq, opens, opened]
    exact done
  exact act_done acted

/-- What fails there has changed nothing. -/
theorem actAs_failed [Store.Backend σ] {caller : Caller} {t : Settings → Scope → Transaction σ α}
    {scope : Scope} {e : Failure} (opened : caller.scope site.settings site.store = .ok scope)
    (failed : ∀ events, ∃ s events',
      t site.settings scope ⟨site.store, site.ids, events⟩ = (.error e, ⟨s, site.ids, events'⟩)) :
    actAs caller t site = (.error e, site) := by
  obtain ⟨events, opens⟩ := caller.openScope_eq site.settings ⟨site.store, site.ids, []⟩
  obtain ⟨s, events', failed⟩ := failed events
  have acted : (do t site.settings (← caller.openScope site.settings)) ⟨site.store, site.ids, []⟩ =
      (.error e, ⟨s, site.ids, events'⟩) := by
    rw [bind_eq, opens, opened]
    exact failed
  show act (do t site.settings (← caller.openScope site.settings)) site = _
  simp only [act, commit, acted]

end Plays

/-- An administrator of a tenant starts an initiative there, and finds the roles that it starts with. -/
theorem start_done (caller : Caller) {settings : Settings} {t : Tables} {ids : Supply} {name : String}
    {more : Nat} (ready : Ready (3 + more) t ids) (admin : t.TenantAdmin caller.tenant caller.principal)
    (form : Naming.checkDisplayName "initiative" name = .ok ()) (seeds : settings.seedsRoles = true)
    (joins : settings.creatorJoins = true) :
    let i : Initiative := ⟨ids.draw.1, caller.tenant, name⟩
    let manager : Role := .seededManager (ids.after 1).draw.1 i.id
    let member : Role := .seededMember (ids.after 2).draw.1 i.id
    let t' : Tables := { t with
      initiatives := t.initiatives.insert i
      roles := (t.roles.insert manager).insert member
      memberships := t.memberships.insert ⟨i.id, caller.principal, manager.id⟩ }
    let site : Site Tables := ⟨settings, t', ids.after 3⟩
    actAs caller (fun settings scope => Administration.startInitiative settings scope name)
        ⟨settings, t, ids⟩ = (.ok i, site) ∧
      actAs caller (fun _ scope => do scope.roles (← Transaction.current) i.id) site =
        (.ok [manager, member], site) ∧
      Ready more t' (ids.after 3) := by
  intro i manager member t' site
  have belongs : caller.BelongsTo t caller.tenant :=
    admin.imp fun _ ⟨row, here, own, _⟩ => ⟨row, own, here⟩
  obtain ⟨scope, opened⟩ := Caller.scope_opens_of_member ready.consistent belongs settings
  -- what is added is not what the scope is made from
  have opened' : caller.scope settings t' = .ok scope := opened
  obtain ⟨own, tenant, _⟩ := Caller.scope_backed opened
  have started (events : List Event) := Administration.startInitiative_done (f := ⟨t, ids, events⟩)
    ready (Caller.scope_stored opened) (Caller.scope_manages opened admin) form seeds joins
  rw [own, tenant] at started
  have sighted : scope.findInitiative t' i.id = .ok i :=
    Scope.findInitiative_eq_ok.2
      ⟨find?_eq_some_iff.2 ⟨mem_insert_self, rfl⟩, Scope.reaches_own tenant.symm⟩
  have listed : scope.roles t' i.id = .ok [manager, member] := by
    rw [Scope.roles, sighted]
    exact congrArg Except.ok (Administration.rolesIn_started ready)
  refine ⟨actAs_done opened fun events => (started events).1, ?_, (started []).2⟩
  refine actAs_done opened' fun events => ⟨events, ?_⟩
  rw [bind_eq, current]
  exact lift_ok.2 ⟨listed, rfl⟩

namespace Tenancy

/-- The tenancy that is set up with the next five identifiers. -/
def next (ids : Supply) (adminName tenantName : String) : Tenancy :=
  let tenant : Tenant := ⟨(ids.after 1).draw.1, tenantName⟩
  let initiative : Initiative := ⟨(ids.after 2).draw.1, tenant.id, "launch"⟩
  { admin := ⟨ids.draw.1, adminName, .member⟩
    tenant
    initiative
    managerRole := .seededManager (ids.after 3).draw.1 initiative.id
    memberRole := .seededMember (ids.after 4).draw.1 initiative.id }

variable {t : Tables} {ids : Supply} {settings : Settings} {adminName tenantName : String} {more : Nat}

/-- A tenancy is set up with five identifiers, and nothing but its rows is added. -/
theorem setUp_done (ready : Ready (5 + more) t ids) (seeds : settings.seedsRoles = true)
    (joins : settings.creatorJoins = true)
    (adminForm : Naming.checkDisplayName "principal" adminName = .ok ())
    (tenantForm : Naming.checkDisplayName "tenant" tenantName = .ok ()) :
    let home := next ids adminName tenantName
    (setUp adminName tenantName : Play Tables Tenancy) ⟨settings, t, ids⟩ =
      (.ok home, ⟨settings, t.withTenancy home, ids.after 5⟩) ∧
        Ready more (t.withTenancy home) (ids.after 5) := by
  intro home
  rw [show 5 + more = 1 + (1 + (3 + more)) by omega] at ready
  let known : Tables := { t with principals := t.principals.insert home.admin }
  let rows : Tables := { known with
    tenants := t.tenants.insert home.tenant
    tenantMemberships := t.tenantMemberships.insert ⟨home.tenant.id, home.admin.id, .admin⟩ }
  obtain ⟨⟨_, registered⟩, ready⟩ :=
    Administration.register_done (f := ⟨t, ids, []⟩) .member ready adminForm
  have admin : known.principals.contains home.admin.id = true :=
    contains_iff.2 ⟨home.admin, mem_insert_self, rfl⟩
  obtain ⟨⟨_, founded⟩, ready⟩ := Administration.foundTenant_done (f := ⟨known, ids.after 1, []⟩)
    ready tenantForm admin
  have founder : rows.TenantAdmin home.tenant.id home.admin.id := ⟨_, mem_insert_self, rfl, rfl, rfl⟩
  have launch : Naming.checkDisplayName "initiative" "launch" = .ok () := by decide
  obtain ⟨starts, lists, ready⟩ :=
    start_done home.adminCaller ready founder launch seeds joins
  have registers : act (Administration.register adminName .member) (⟨settings, t, ids⟩ : Site Tables) =
      (.ok home.admin, ⟨settings, known, ids.after 1⟩) := act_done registered
  have founds : act (Administration.foundTenant home.admin.id tenantName)
      (⟨settings, known, ids.after 1⟩ : Site Tables) =
        (.ok home.tenant, ⟨settings, rows, ids.after 2⟩) := act_done founded
  have manager : found ([home.managerRole, home.memberRole].find? fun r => r.name = Role.managerName)
      s!"role {Role.managerName}" = .ok home.managerRole := rfl
  have member : found ([home.managerRole, home.memberRole].find? fun r => r.name = Role.memberName)
      s!"role {Role.memberName}" = .ok home.memberRole := rfl
  refine ⟨?_, ready⟩
  rw [setUp, bind_done registers, bind_done founds]
  refine (bind_done starts).trans ((bind_done lists).trans ?_)
  exact (bind_done (lift_done manager)).trans ((bind_done (lift_done member)).trans rfl)

end Tenancy

end Scenario

end TenantAccess
