import TenantAccess.Proofs.Acceptance
import TenantAccess.Proofs.Authority
import TenantAccess.Proofs.Log
import TenantAccess.Proofs.Naming

/-!
# Role names

The two roles that an initiative starts with keep their identifiers, names, rights and positions, whatever
is called afterwards. No other role takes one of their names, and the names that callers choose are well
formed and differ within an initiative.
-/

namespace TenantAccess

open Store (Faithful Tables)
open Store.Faithful (tables)
open Transaction Table

/-! ## Built-in roles -/

/-- The roles that an initiative starts with, under identifiers that are drawn after its own. -/
def Role.seeded (i : InitiativeId) (ids : Supply) : List Role :=
  let ids := (@Supply.draw .initiative ids).2
  [seededManager (@Supply.draw .role ids).1 i,
    seededMember (@Supply.draw .role (@Supply.draw .role ids).2).1 i]

theorem Role.isSeeded_of_mem_seeded {i : InitiativeId} {ids : Supply} {role : Role}
    (h : role ∈ seeded i ids) : role.isSeeded = true := by
  simp only [seeded, List.mem_cons, List.not_mem_nil, or_false] at h
  rcases h with rfl | rfl <;> rfl

/-- Whatever its toggles, the role is the only one of its initiative under its name. -/
def Store.Tables.Sole (t : Tables) (role : Role) : Prop :=
  ∃ toggles, ∀ r, r ∈ t.roles ∧ r.initiative = role.initiative ∧ r.name = role.name ↔
    r = { role with toggles }

theorem Store.Tables.NamesApart.sole {t : Tables} (names : t.NamesApart) {role : Role}
    {toggles : List Toggle} (stored : { role with toggles } ∈ t.roles) : t.Sole role := by
  refine ⟨toggles, fun r => ⟨fun ⟨hr, hi, hn⟩ => names r hr _ stored hi hn, ?_⟩⟩
  rintro rfl
  exact ⟨stored, rfl, rfl⟩

/-- What a call does to initiatives and roles, when it starts the initiative `new` or none. -/
inductive RoleStep (settings : Settings) (ids : Supply) (t t' : Tables) : (new : Option Initiative) → Prop
  | idle (initiatives : t'.initiatives = t.initiatives) (roles : t'.roles = t.roles) :
      RoleStep settings ids t t' none
  | written {role : Role} (custom : role.isSeeded = false)
      (named : Naming.WellFormed Naming.roleNameLimit role.name ∨ ∃ r ∈ t.roles, r.name = role.name)
      (replaced : ∀ r ∈ t.roles, r.id = role.id → r.isSeeded = false)
      (initiatives : t'.initiatives = t.initiatives) (roles : t'.roles = t.roles.insert role) :
      RoleStep settings ids t t' none
  | switched {role : Role} {toggles : List Toggle} (stored : role ∈ t.roles)
      (initiatives : t'.initiatives = t.initiatives)
      (roles : t'.roles = t.roles.insert { role with toggles }) : RoleStep settings ids t t' none
  | deleted {role : Role} (stored : role ∈ t.roles) (custom : role.isSeeded = false)
      (initiatives : t'.initiatives = t.initiatives) (roles : t'.roles = t.roles.erase role.id) :
      RoleStep settings ids t t' none
  | started {i : Initiative} (initiatives : t'.initiatives = t.initiatives.insert i)
      (roles : ∀ r, r ∈ t'.roles ↔
        r ∈ t.roles ∨ settings.seedsRoles = true ∧ r ∈ Role.seeded i.id ids) :
      RoleStep settings ids t t' (some i)

namespace RoleStep

variable {settings : Settings} {ids : Supply} {t t' : Tables} {new : Option Initiative} {r : Role}

/-- Built-in roles are there afterwards, perhaps with other toggles. -/
theorem seeded (h : RoleStep settings ids t t' new) (hr : r ∈ t.roles) (seeded : r.isSeeded = true) :
    ∃ toggles, { r with toggles } ∈ t'.roles := by
  cases h with
  | idle _ roles => exact ⟨r.toggles, roles ▸ hr⟩
  | written _ _ replaced _ roles =>
    refine ⟨r.toggles, roles ▸ mem_insert.2 (Or.inr ⟨hr, fun e => ?_⟩)⟩
    exact Bool.false_ne_true ((replaced r hr e).symm.trans seeded)
  | @switched role toggles stored _ roles =>
    rw [roles]
    by_cases e : r.id = role.id
    · obtain rfl := eq_of_key hr stored e
      exact ⟨toggles, mem_insert_self⟩
    · exact ⟨r.toggles, mem_insert.2 (Or.inr ⟨hr, e⟩)⟩
  | deleted stored custom _ roles =>
    refine ⟨r.toggles, roles ▸ mem_erase.2 ⟨hr, fun e => ?_⟩⟩
    rw [eq_of_key hr stored e, custom] at seeded
    exact Bool.false_ne_true seeded
  | started _ roles => exact ⟨r.toggles, (roles r).2 (Or.inl hr)⟩

/-- A name is well formed or built in, or there was a role with it before. -/
theorem named (h : RoleStep settings ids t t' new) (hr : r ∈ t'.roles) :
    (∃ old ∈ t.roles, old.name = r.name) ∨
      (r.isSeeded = false ∧ Naming.WellFormed Naming.roleNameLimit r.name ∨
        r.isSeeded = true ∧ settings.seedsRoles = true) := by
  cases h with
  | idle _ roles => exact Or.inl ⟨r, roles ▸ hr, rfl⟩
  | written custom named _ _ roles =>
    rcases mem_insert.1 (roles ▸ hr) with rfl | ⟨hr, _⟩
    · exact named.symm.imp_right fun form => Or.inl ⟨custom, form⟩
    · exact Or.inl ⟨r, hr, rfl⟩
  | switched stored _ roles =>
    rcases mem_insert.1 (roles ▸ hr) with rfl | ⟨hr, _⟩
    · exact Or.inl ⟨_, stored, rfl⟩
    · exact Or.inl ⟨r, hr, rfl⟩
  | deleted _ _ _ roles => exact Or.inl ⟨r, (mem_erase.1 (roles ▸ hr)).1, rfl⟩
  | started _ roles =>
    rcases (roles r).1 hr with hr | ⟨seeds, new⟩
    · exact Or.inl ⟨r, hr, rfl⟩
    · exact Or.inr (Or.inr ⟨Role.isSeeded_of_mem_seeded new, seeds⟩)

theorem initiatives (h : RoleStep settings ids t t' new) {i : Initiative} (hi : i ∈ t'.initiatives) :
    i ∈ t.initiatives ∨ new = some i := by
  cases h with
  | idle same | written _ _ _ same | switched _ same | deleted _ _ same => exact Or.inl (same ▸ hi)
  | started added =>
    rcases mem_insert.1 (added ▸ hi) with rfl | ⟨hi, _⟩
    · exact Or.inr rfl
    · exact Or.inl hi

end RoleStep

/-! ## Commands -/

namespace Administration

theorem mem_seeded_insert {t : Tables} {ids : Supply} (fresh : ids.FreshFor 2 t) (i : InitiativeId)
    (r : Role) :
    r ∈ (t.roles.insert (Role.seededManager (@Supply.draw .role ids).1 i)).insert
        (Role.seededMember (@Supply.draw .role (@Supply.draw .role ids).2).1 i) ↔
      r ∈ t.roles ∨ r ∈ [Role.seededManager (@Supply.draw .role ids).1 i,
        Role.seededMember (@Supply.draw .role (@Supply.draw .role ids).2).1 i] := by
  have first := not_contains_iff.1 fresh.role_free
  have second := not_contains_iff.1 (fresh.next .role).role_free
  have apart := fresh.draw_ne .role
  simp only [mem_insert, List.mem_cons, List.not_mem_nil, or_false]
  constructor
  · rintro (member | ⟨manager | ⟨old, _⟩, _⟩)
    · exact Or.inr (Or.inr member)
    · exact Or.inr (Or.inl manager)
    · exact Or.inl old
  · rintro (old | rfl | member)
    · exact Or.inr ⟨Or.inr ⟨old, first r old⟩, second r old⟩
    · exact Or.inr ⟨Or.inl rfl, apart⟩
    · exact Or.inl member

variable {f f' : Frame Tables} {scope : Scope} {settings : Settings}

theorem startInitiative_roles {name : String} {i : Initiative}
    (fresh : f.ids.FreshFor (if settings.seedsRoles then 3 else 1) f.store)
    (h : startInitiative settings scope name f = (.ok i, f')) :
    RoleStep settings f.ids f.store f'.store (some i) := by
  obtain ⟨_, _, _, t, step, h⟩ := startInitiative_ok h
  obtain ⟨_, _, _, rfl⟩ := Tables.step_addInitiative.1 step
  by_cases seeds : settings.seedsRoles = true
  · rw [if_pos seeds] at h fresh
    obtain ⟨_, _, t₁, t₂, step₁, step₂, h⟩ := h
    obtain ⟨_, _, _, rfl⟩ := Tables.step_putRole.1 step₁
    obtain ⟨_, _, _, rfl⟩ := Tables.step_putRole.1 step₂
    have roles := mem_seeded_insert (fresh.next .initiative) i.id
    split at h
    · obtain ⟨_, step₃⟩ := h
      obtain ⟨_, _, _, _, e⟩ := Tables.step_putMembership.1 step₃
      rw [← e]
      exact .started rfl fun r => (roles r).trans (or_congr_right (and_iff_right seeds).symm)
    · rw [h]
      exact .started rfl fun r => (roles r).trans (or_congr_right (and_iff_right seeds).symm)
  · rw [if_neg seeds] at h
    rw [h]
    exact .started rfl fun r => (or_iff_left fun new => seeds new.1).symm

theorem defineRole_roles {i : InitiativeId} {name : String} {isManager : Bool} {role : Role}
    (fresh : f.ids.FreshFor 1 f.store) (h : defineRole scope i name isManager f = (.ok role, f')) :
    RoleStep settings f.ids f.store f'.store none := by
  obtain ⟨_, _, _, _, form, custom, new, step⟩ := defineRole_ok h
  obtain ⟨_, _, _, e⟩ := Tables.step_putRole.1 step
  have plain : role.isSeeded = false := by rw [new]; exact custom
  have named : Naming.WellFormed Naming.roleNameLimit role.name := by
    rw [new]
    exact Naming.check_eq_ok.1 form
  have free : ∀ r ∈ f.store.roles, r.id ≠ role.id := by
    rw [new]
    exact not_contains_iff.1 fresh.role_free
  rw [← e]
  exact .written plain (Or.inl named) (fun r hr same => absurd same (free r hr)) rfl rfl

theorem rewrite_roles {t : Tables} {ids : Supply} {id : RoleId} {stored role : Role} {i : Initiative}
    (managed : scope.managedRole t id = .ok (stored, i)) (custom : stored.isSeeded = false)
    (same : role.id = stored.id) (plain : role.isSeeded = false)
    (named : Naming.WellFormed Naming.roleNameLimit role.name ∨ role.name = stored.name) :
    RoleStep settings ids t { t with roles := t.roles.insert role } none := by
  obtain ⟨hr, _⟩ := managedRole_tenant managed
  refine .written plain (named.imp_right fun e => ⟨stored, hr, e.symm⟩) (fun r hr' e => ?_) rfl rfl
  rw [eq_of_key hr' hr (e.trans same), custom]

theorem relabelRole_roles {id : RoleId} {name : String} {role : Role}
    (h : relabelRole scope id name f = (.ok role, f')) :
    RoleStep settings f.ids f.store f'.store none := by
  obtain ⟨stored, i, managed, custom, ⟨_, e⟩ | ⟨form, plain, rfl, _, step⟩⟩ := relabelRole_ok h
  · rw [e]
    exact .idle rfl rfl
  · obtain ⟨_, _, _, e⟩ := Tables.step_putRole.1 step
    rw [← e]
    exact rewrite_roles managed custom rfl plain (Or.inl (Naming.check_eq_ok.1 form))

theorem empowerRole_roles {id : RoleId} {isManager : Bool} {role : Role}
    (h : empowerRole scope id isManager f = (.ok role, f')) :
    RoleStep settings f.ids f.store f'.store none := by
  obtain ⟨stored, i, _, managed, custom, rfl, step⟩ := empowerRole_ok h
  obtain ⟨_, _, _, e⟩ := Tables.step_putRole.1 step
  rw [← e]
  exact rewrite_roles managed custom rfl custom (Or.inr rfl)

/-- The role that is deleted was custom, and all other roles stay. -/
theorem retireRole_erased (ht : f.store.Consistent) {id : RoleId} {report : HandoverReport}
    (h : retireRole scope id f = (.ok report, f')) :
    ∃ stored ∈ f.store.roles, stored.id = id ∧ stored.isSeeded = false ∧
      f'.store.initiatives = f.store.initiatives ∧ f'.store.roles = f.store.roles.erase id := by
  obtain ⟨stored, i, _, t, f₁, managed, custom, step, filled, e⟩ := retireRole_ok h
  obtain ⟨hstored, rfl⟩ := find?_eq_some_iff.1 (Scope.managedRole_eq_ok.1 managed).1
  obtain ⟨_, _, rfl⟩ := Tables.step_removeRole.1 step
  rw [ht.stored.removeRole] at filled
  obtain ⟨grants, same⟩ := Succession.fillVacancies_regrant filled
  rw [e, same]
  exact ⟨stored, hstored, rfl, custom, rfl, rfl⟩

theorem retireRole_roles (ht : f.store.Consistent) {id : RoleId} {report : HandoverReport}
    (h : retireRole scope id f = (.ok report, f')) :
    RoleStep settings f.ids f.store f'.store none := by
  obtain ⟨stored, hstored, rfl, custom, initiatives, roles⟩ := retireRole_erased ht h
  exact .deleted hstored custom initiatives roles

theorem switchFeature_roles {id : RoleId} {c : Feature} {enabled : Bool} {role : Role}
    (h : switchFeature scope id c enabled f = (.ok role, f')) :
    RoleStep settings f.ids f.store f'.store none := by
  obtain ⟨stored, i, _, managed, _, step⟩ := switchFeature_ok h
  obtain ⟨_, old, found, e⟩ := Tables.step_putToggle.1 step
  rw [← e]
  exact .switched (find?_eq_some_iff.1 found).1 rfl rfl

end Administration

/-- The command is about roles, or brings an initiative with its roles. -/
def Command.shapesRoles : Command → Bool
  | startInitiative _ | defineRole .. | relabelRole .. | empowerRole .. | retireRole _
  | switchFeature .. => true
  | _ => false

/-- Other commands leave initiatives and roles alone. -/
theorem Command.perform_aside {f f' : Frame Tables} {scope : Scope} {settings : Settings}
    {command : Command} {answer : Answer} (ht : f.store.Consistent)
    (aside : command.shapesRoles = false)
    (h : command.perform settings scope f = (.ok answer, f')) :
    f'.store.initiatives = f.store.initiatives ∧ f'.store.roles = f.store.roles ∧
      answer.started = none := by
  open Administration in
  cases command with
  | startInitiative | defineRole | relabelRole | empowerRole | retireRole | switchFeature => cases aside
  | bringIn p role =>
    obtain ⟨_, done, rfl⟩ := return_ok.1 h
    obtain ⟨_, _, _, step⟩ := bringIn_ok done
    obtain ⟨_, _, _, e⟩ := Tables.step_putTenantMembership.1 step
    exact e ▸ ⟨rfl, rfl, rfl⟩
  | expel p =>
    obtain ⟨_, done, rfl⟩ := return_ok.1 h
    obtain ⟨_, t, f₁, step, left, e⟩ := expel_ok done
    obtain ⟨reports, leaves, _⟩ := Succession.leaveTenant_ok left
    obtain ⟨memberships, userGrants, e'⟩ := Succession.leaveEach_store leaves
    obtain ⟨_, rfl⟩ := Tables.step_removeTenantMembership.1 step
    rw [e, e']
    exact ⟨rfl, rfl, rfl⟩
  | enrol i p r =>
    obtain ⟨_, done, rfl⟩ := return_ok.1 h
    obtain ⟨_, _, _, _, _, _, _, _, step⟩ := enrol_ok done
    obtain ⟨_, _, _, _, e⟩ := Tables.step_putMembership.1 step
    exact e ▸ ⟨rfl, rfl, rfl⟩
  | reassign i p r =>
    obtain ⟨_, done, rfl⟩ := return_ok.1 h
    obtain ⟨_, _, _, _, t, _, _, _, step, filled⟩ := reassign_ok done
    obtain ⟨_, _, _, _, rfl⟩ := Tables.step_putMembership.1 step
    obtain ⟨grants, same⟩ := Succession.fillVacancies_regrant filled
    exact same ▸ ⟨rfl, rfl, rfl⟩
  | dismiss i p =>
    obtain ⟨_, done, rfl⟩ := return_ok.1 h
    obtain ⟨_, t, _, _, _, step, left⟩ := dismiss_ok done
    obtain ⟨_, rfl⟩ := Tables.step_removeMembership.1 step
    obtain ⟨grants, same⟩ := Succession.afterDeparture_regrant left
    exact same ▸ ⟨rfl, rfl, rfl⟩
  | restoreOwners i =>
    obtain ⟨_, done, rfl⟩ := return_ok.1 h
    obtain ⟨_, _, filled⟩ := restoreOwners_ok done
    obtain ⟨grants, same⟩ := Succession.fillVacancies_regrant filled
    exact same ▸ ⟨rfl, rfl, rfl⟩
  | addResource i kind name =>
    obtain ⟨_, done, rfl⟩ := return_ok.1 h
    obtain ⟨_, _, _, t, _, _, _, step, step'⟩ := addResource_ok done
    obtain ⟨_, _, _, _, rfl⟩ := Tables.step_addResource.1 step
    obtain ⟨_, _, _, e⟩ := Tables.step_putUserGrant.1 step'
    exact e ▸ ⟨rfl, rfl, rfl⟩
  | dropResource r =>
    simp only [perform, bind_ok, pure_ok] at h
    obtain ⟨_, _, done, rfl, rfl⟩ := h
    obtain ⟨_, _, _, step⟩ := dropResource_ok done
    obtain ⟨_, e⟩ := Tables.step_removeResource.1 step
    rw [← e, ht.stored.removeResource]
    exact ⟨rfl, rfl, rfl⟩
  | share r p level =>
    obtain ⟨_, done, rfl⟩ := return_ok.1 h
    obtain ⟨_, _, _, _, _, _, _, step⟩ := share_ok done
    obtain ⟨_, _, _, e⟩ := Tables.step_putUserGrant.1 step
    exact e ▸ ⟨rfl, rfl, rfl⟩
  | unshare r p =>
    obtain ⟨_, done, rfl⟩ := return_ok.1 h
    obtain ⟨_, _, _, _, ⟨_, e⟩ | ⟨_, _, _, step⟩⟩ := unshare_ok done
    · exact e ▸ ⟨rfl, rfl, rfl⟩
    · obtain ⟨_, e⟩ := Tables.step_removeUserGrant.1 step
      exact e ▸ ⟨rfl, rfl, rfl⟩
  | shareWithRole r role level =>
    obtain ⟨_, done, rfl⟩ := return_ok.1 h
    obtain ⟨_, _, _, _, _, _, _, _, _, step⟩ := shareWithRole_ok done
    obtain ⟨_, _, _, e⟩ := Tables.step_putRoleGrant.1 step
    exact e ▸ ⟨rfl, rfl, rfl⟩
  | unshareWithRole r role =>
    obtain ⟨_, done, rfl⟩ := return_ok.1 h
    obtain ⟨_, _, _, _, ⟨_, e⟩ | ⟨_, _, _, step⟩⟩ := unshareWithRole_ok done
    · exact e ▸ ⟨rfl, rfl, rfl⟩
    · obtain ⟨_, e⟩ := Tables.step_removeRoleGrant.1 step
      exact e ▸ ⟨rfl, rfl, rfl⟩

/-- Only commands about roles touch roles, and only a new initiative brings roles with built-in names. -/
theorem Command.perform_roles {f f' : Frame Tables} {scope : Scope} {settings : Settings}
    {command : Command} {answer : Answer} (ht : f.store.Consistent)
    (fresh : f.ids.FreshFor (command.draws settings) f.store)
    (h : command.perform settings scope f = (.ok answer, f')) :
    RoleStep settings f.ids f.store f'.store answer.started := by
  open Administration in
  cases command with
  | startInitiative name =>
    obtain ⟨_, done, rfl⟩ := return_ok.1 h
    exact startInitiative_roles fresh done
  | defineRole i name isManager =>
    obtain ⟨_, done, rfl⟩ := return_ok.1 h
    exact defineRole_roles fresh done
  | relabelRole r name =>
    obtain ⟨_, done, rfl⟩ := return_ok.1 h
    exact relabelRole_roles done
  | empowerRole r isManager =>
    obtain ⟨_, done, rfl⟩ := return_ok.1 h
    exact empowerRole_roles done
  | retireRole r =>
    obtain ⟨_, done, rfl⟩ := return_ok.1 h
    exact retireRole_roles ht done
  | switchFeature r c enabled =>
    obtain ⟨_, done, rfl⟩ := return_ok.1 h
    exact switchFeature_roles done
  | _ =>
    obtain ⟨initiatives, roles, none⟩ := perform_aside ht rfl h
    rw [none]
    exact .idle initiatives roles

theorem Call.perform_roles {f f' : Frame Tables} {settings : Settings} {call : Call} {answer : Answer}
    (ht : f.store.Consistent) (fresh : f.ids.FreshFor (call.draws settings) f.store)
    (h : call.perform settings f = (.ok answer, f')) :
    RoleStep settings f.ids f.store f'.store answer.started := by
  obtain ⟨_, _, _, events, rfl, _, performed⟩ | ⟨_, none, _, _, _, e⟩ := perform_cases h
  · exact Command.perform_roles (f := { f with events }) ht fresh performed
  · rw [none, e]
    exact .idle rfl rfl

/-! ## Logs -/

/-- The call has started the initiative. -/
def Call.Entry.Starts (entry : Entry) (i : Initiative) : Prop := entry.result = .ok (.initiative i)

/-- Which roles and role names there are after the calls of a log. -/
structure RolesInOrder (log : List Call.Entry) (t : Tables) : Prop where
  started : ∀ i ∈ t.initiatives, ∃ entry ∈ log, entry.Starts i
  /-- Where roles are seeded the built-in ones are those that the initiative was started with. -/
  builtIn : ∀ entry ∈ log, entry.settings.seedsRoles = true → ∀ i, entry.Starts i →
    ∀ role ∈ Role.seeded i.id entry.ids, t.Sole role
  noBuiltIn : (∀ entry ∈ log, entry.settings.seedsRoles = false) → ∀ r ∈ t.roles,
    r.name ≠ Role.managerName ∧ r.name ≠ Role.memberName
  apart : t.NamesApart
  custom : ∀ r ∈ t.roles, r.isSeeded = false →
    Naming.WellFormed Naming.roleNameLimit r.name

theorem Role.isSeeded_eq_false {r : Role} :
    r.isSeeded = false ↔ r.name ≠ managerName ∧ r.name ≠ memberName := by
  simp [isSeeded, isReserved]

namespace RolesInOrder

variable {log : List Call.Entry} {t t' : Tables}

theorem empty : RolesInOrder [] .empty where
  started _ hi := absurd hi not_mem_empty
  builtIn _ listed := absurd listed List.not_mem_nil
  noBuiltIn _ _ hr := absurd hr not_mem_empty
  apart := .empty
  custom _ hr := absurd hr not_mem_empty

theorem failed (h : RolesInOrder log t) {entry : Call.Entry} {e : Failure}
    (result : entry.result = .error e) : RolesInOrder (entry :: log) t where
  started i hi := by
    obtain ⟨earlier, listed, starts⟩ := h.started i hi
    exact ⟨earlier, List.mem_cons_of_mem _ listed, starts⟩
  builtIn earlier listed seeds i starts := by
    rcases List.mem_cons.1 listed with rfl | listed
    · cases result.symm.trans starts
    · exact h.builtIn earlier listed seeds i starts
  noBuiltIn none := h.noBuiltIn (List.forall_mem_cons.1 none).2
  apart := h.apart
  custom := h.custom

theorem step (h : RolesInOrder log t) {entry : Call.Entry} {answer : Answer}
    (result : entry.result = .ok answer) (apart : t'.NamesApart)
    (step : RoleStep entry.settings entry.ids t t' answer.started) :
    RolesInOrder (entry :: log) t' where
  started i hi := by
    rcases step.initiatives hi with hi | new
    · obtain ⟨earlier, listed, starts⟩ := h.started i hi
      exact ⟨earlier, List.mem_cons_of_mem _ listed, starts⟩
    · refine ⟨entry, List.mem_cons_self, result.trans ?_⟩
      cases answer <;> cases new
      rfl
  builtIn earlier listed seeds i starts role hrole := by
    rcases List.mem_cons.1 listed with rfl | listed
    · obtain rfl := Except.ok.inj (result.symm.trans starts)
      cases step with
      | started _ roles =>
        have stored : { role with toggles := role.toggles } ∈ t'.roles :=
          (roles role).2 (Or.inr ⟨seeds, hrole⟩)
        exact apart.sole stored
    · obtain ⟨toggles, only⟩ := h.builtIn earlier listed seeds i starts role hrole
      obtain ⟨stored, _⟩ := (only _).2 rfl
      have seeded : role.isSeeded = true := Role.isSeeded_of_mem_seeded hrole
      obtain ⟨toggles', kept⟩ := step.seeded stored seeded
      exact apart.sole kept
  noBuiltIn none r hr := by
    obtain ⟨last, none⟩ := List.forall_mem_cons.1 none
    rcases step.named hr with ⟨old, hold, e⟩ | ⟨custom, _⟩ | ⟨_, seeds⟩
    · exact e ▸ h.noBuiltIn none old hold
    · exact Role.isSeeded_eq_false.1 custom
    · exact absurd (last.symm.trans seeds) Bool.false_ne_true
  apart := apart
  custom r hr custom := by
    rcases step.named hr with ⟨old, hold, e⟩ | ⟨_, form⟩ | ⟨builtIn, _⟩
    · refine e ▸ h.custom old hold ?_
      rw [Role.isSeeded, e]
      exact custom
    · exact form
    · exact absurd (custom.symm.trans builtIn) Bool.false_ne_true

end RolesInOrder

namespace Logged

variable {σ : Type} [Store.Backend σ] [Faithful σ] {log : List Call.Entry} {s : σ}

/-- In every store that calls lead to, each initiative still has the two roles that it was started with,
if the settings asked for them, and if they never do no role bears one of their names. Callers' names for
roles are well formed, and no name is used twice in an initiative. -/
theorem roles_in_order (h : Logged log s) : RolesInOrder log (tables s) := by
  refine h.invariant .empty (fun _ _ _ _ ordered => ordered.failed) ?_
  intro log entry answer f f' ht ordered drawn fresh result performed
  have step := Call.perform_roles ht fresh performed
  rw [drawn] at step
  exact ordered.step result ((Call.perform_fits ht fresh performed).namesApart ordered.apart) step

/-- Such as a database where an initiative was started and its manager role was to be renamed. -/
theorem roles_in_order_founding :
    let ada : Caller := ⟨Supply.numberedId 0, .member, Supply.numberedId 1, .activeTenant⟩
    let calls : List Call := [.register "ada" .member, .foundTenant ada.principal "acme",
      .request ada (.order (.startInitiative "launch")),
      .request ada (.order (.relabelRole (Supply.numberedId 3) "boss"))]
    RolesInOrder (Call.logAll default calls [] (Store.Backend.empty : Store.Database) .empty)
      (tables (Call.runAll default calls (Store.Backend.empty : Store.Database) .empty).1) := by
  intro ada calls
  exact (of_runAll (by decide +kernel)).roles_in_order

end Logged

end TenantAccess
