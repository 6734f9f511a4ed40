import TenantAccess.Proofs.Ownership
import TenantAccess.Proofs.Reachable

/-!
# No resource is stranded in silence

Whatever is called, a resource that had an owner has one afterwards, unless a membership has ended or
changed in an initiative without managers; then the report lists it.
-/

namespace TenantAccess

open Store (Faithful Tables Change)
open Store.Faithful (tables)
open Store.Tables (KeepsOwners SettlesOwners)
open Transaction Table

namespace Store.Tables

variable {t t' : Tables}

/-- Owners depend on resources, memberships and grants only. -/
theorem KeepsOwners.of_same (resources : t'.resources = t.resources)
    (members : t'.memberships = t.memberships) (users : t'.userGrants = t.userGrants)
    (roles : t'.roleGrants = t.roleGrants) : t.KeepsOwners t' :=
  .of_resources resources fun x _ owned => by
    simp only [Owned, levelOn, members, users, roles] at owned ⊢
    exact owned

theorem KeepsOwners.of_putRole {row : Role} {hit : Bool}
    (step : Tables.step (.putRole row) t = .ok (hit, t')) : t.KeepsOwners t' := by
  obtain ⟨_, _, _, rfl⟩ := step_putRole.1 step
  exact .of_same rfl rfl rfl rfl

end Store.Tables

/-! ## Commands that keep owners -/

namespace Administration

variable {f f' : Frame Tables} {scope : Scope} {settings : Settings}

@[simp] theorem needOwner_eq_ok {t : Tables} {before after : Acl} {u : Unit} :
    needOwner t before after = .ok u ↔
      (before.Owned (Store.roleMap t before.resource.initiative) →
        after.Owned (Store.roleMap t before.resource.initiative)) := by
  have lost {acl : Acl} {members : RoleMap} : (acl.owners members).isEmpty = false ↔
      acl.Owned members := by
    rw [Bool.eq_false_iff, ne_eq, Acl.owners_isEmpty, Classical.not_not]
  simp only [needOwner]
  split
  · rename_i h
    simp only [Bool.and_eq_true, Bool.not_eq_true', lost, Acl.owners_isEmpty] at h
    exact iff_of_false (by simp) fun keeps => h.2 (keeps h.1)
  · rename_i h
    simp only [Bool.and_eq_true, Bool.not_eq_true', lost, Acl.owners_isEmpty, not_and,
      Classical.not_not] at h
    exact iff_of_true rfl h

/-- A change of grants on one resource behind the guard for the last owner. -/
theorem keepsOwners_of_guard {t t' : Tables} {acl : Acl} (edit : Acl → Acl)
    (hr : acl.resource ∈ t.resources) (hacl : acl = t.acl acl.resource)
    (guard : needOwner t acl (edit acl) = .ok ()) (resources : t'.resources = t.resources)
    (members : t'.memberships = t.memberships) (lists : ∀ x : Resource, t'.acl x =
      if acl.resource.id = x.id then edit (t.acl x) else t.acl x) : t.KeepsOwners t' := by
  refine .of_resources resources fun x hx owned => ?_
  by_cases e : acl.resource.id = x.id
  · -- the guard looks at the very list that the change leaves
    obtain rfl := eq_of_key hr hx e
    rw [Tables.owned_iff] at owned ⊢
    have same : Store.roleMap t' acl.resource.initiative =
        Store.roleMap t acl.resource.initiative := by
      simp only [Store.roleMap, ask_membershipsIn, members]
    rw [lists, if_pos rfl, ← hacl, same]
    rw [← hacl] at owned
    exact needOwner_eq_ok.1 guard owned
  · exact owned.mono ((lists x).trans (if_neg e)) fun m hm _ => members ▸ hm

theorem bringIn_keeps {p : PrincipalId} {role : TenantRole} {m : TenantMembership}
    (h : bringIn scope p role f = (.ok m, f')) : f.store.KeepsOwners f'.store := by
  obtain ⟨_, _, hit, step⟩ := bringIn_ok h
  obtain ⟨_, _, _, e⟩ := Tables.step_putTenantMembership.1 step
  rw [← e]
  exact .of_same rfl rfl rfl rfl

theorem startInitiative_keeps (ht : f.store.Consistent) {name : String} {i : Initiative}
    (h : startInitiative settings scope name f = (.ok i, f')) : f.store.KeepsOwners f'.store := by
  obtain ⟨_, _, hit, t, step, h⟩ := startInitiative_ok h
  obtain ⟨_, free, _, rfl⟩ := Tables.step_addInitiative.1 step
  by_cases seeds : settings.seedsRoles = true
  · rw [if_pos seeds] at h
    obtain ⟨_, _, t₁, t₂, step₁, step₂, h⟩ := h
    obtain ⟨_, _, _, rfl⟩ := Tables.step_putRole.1 step₁
    obtain ⟨_, _, _, rfl⟩ := Tables.step_putRole.1 step₂
    by_cases joins : settings.creatorJoins = true
    · rw [if_pos joins] at h
      obtain ⟨_, step₃⟩ := h
      obtain ⟨_, _, _, _, e⟩ := Tables.step_putMembership.1 step₃
      rw [← e]
      refine .of_resources rfl fun x hx owned => owned.mono rfl fun m hm _ => ?_
      -- nobody was a member of the new initiative before
      refine mem_insert.2 (Or.inr ⟨hm, fun e => ?_⟩)
      exact ne_of_contains free (ht.stored.membership m hm).1 (Prod.mk.inj e).1
    · rw [if_neg joins] at h
      rw [h]
      exact .of_same rfl rfl rfl rfl
  · rw [if_neg seeds] at h
    rw [h]
    exact .of_same rfl rfl rfl rfl

theorem defineRole_keeps {i : InitiativeId} {name : String} {isManager : Bool} {role : Role}
    (h : defineRole scope i name isManager f = (.ok role, f')) : f.store.KeepsOwners f'.store := by
  obtain ⟨_, _, _, _, _, _, _, step⟩ := defineRole_ok h
  exact .of_putRole step

theorem relabelRole_keeps {id : RoleId} {name : String} {role : Role}
    (h : relabelRole scope id name f = (.ok role, f')) : f.store.KeepsOwners f'.store := by
  obtain ⟨_, _, _, _, ⟨_, e⟩ | ⟨_, _, _, _, step⟩⟩ := relabelRole_ok h
  · rw [e]
    exact .of_same rfl rfl rfl rfl
  · exact .of_putRole step

theorem empowerRole_keeps {id : RoleId} {isManager : Bool} {role : Role}
    (h : empowerRole scope id isManager f = (.ok role, f')) : f.store.KeepsOwners f'.store := by
  obtain ⟨_, _, _, _, _, _, step⟩ := empowerRole_ok h
  exact .of_putRole step

theorem switchFeature_keeps {id : RoleId} {c : Feature} {enabled : Bool} {role : Role}
    (h : switchFeature scope id c enabled f = (.ok role, f')) :
    f.store.KeepsOwners f'.store := by
  obtain ⟨_, _, _, _, _, step⟩ := switchFeature_ok h
  obtain ⟨_, _, _, e⟩ := Tables.step_putToggle.1 step
  rw [← e]
  exact .of_same rfl rfl rfl rfl

/-- Nobody holds a role that is deleted, so nobody has a level through it. -/
theorem retireRole_keeps (ht : f.store.Consistent) {id : RoleId} {report : HandoverReport}
    (h : retireRole scope id f = (.ok report, f')) : f.store.KeepsOwners f'.store := by
  obtain ⟨stored, _, _, t, f₁, _, _, step, filled, e⟩ := retireRole_ok h
  obtain ⟨unheld, _, rfl⟩ := Tables.step_removeRole.1 step
  rw [ht.stored.removeRole] at filled
  obtain ⟨grants, same⟩ := Succession.fillVacancies_regrant filled
  rw [e]
  refine .of_resources (by rw [same]; rfl) fun x hx owned => ?_
  refine Succession.fillVacancies_owned filled ?_
  obtain ⟨p, hp⟩ := owned
  refine ⟨p, Eq.trans ?_ hp⟩
  simp only [Tables.levelOn]
  -- the grants that go with the role are those of a role that no member holds
  cases found : f.store.memberships.find? (x.initiative, p) with
  | none => rfl
  | some m =>
    rw [Option.bind_some, Option.bind_some, find?_filter_of fun g _ hg => ?_]
    rw [bne_iff_ne, (Prod.mk.inj hg).2]
    exact unheld m (find?_eq_some_iff.1 found).1

theorem enrol_keeps {i : InitiativeId} {p : PrincipalId} {r : RoleId} {m : Membership}
    (h : enrol scope i p r f = (.ok m, f')) : f.store.KeepsOwners f'.store := by
  obtain ⟨_, _, _, _, _, _, rfl, unknown, step⟩ := enrol_ok h
  obtain ⟨_, _, _, _, e⟩ := Tables.step_putMembership.1 step
  rw [← e]
  refine .of_resources rfl fun x hx owned => owned.mono rfl fun m hm _ => ?_
  exact mem_insert.2 (Or.inr ⟨hm, find?_eq_none_iff.1 unknown m hm⟩)

theorem restoreOwners_keeps {i : InitiativeId} {report : HandoverReport}
    (h : restoreOwners scope i f = (.ok report, f')) : f.store.KeepsOwners f'.store := by
  obtain ⟨_, _, filled⟩ := restoreOwners_ok h
  obtain ⟨grants, e⟩ := Succession.fillVacancies_regrant filled
  exact .of_resources (by rw [e]; rfl) fun x _ owned => Succession.fillVacancies_owned filled owned

theorem addResource_keeps {i : InitiativeId} {kind : ResourceKind} {name : String} {r : Resource}
    (h : addResource scope i kind name f = (.ok r, f')) : f.store.KeepsOwners f'.store := by
  obtain ⟨_, _, _, t, _, _, _, step, step'⟩ := addResource_ok h
  obtain ⟨_, _, free, _, rfl⟩ := Tables.step_addResource.1 step
  obtain ⟨_, _, _, e⟩ := Tables.step_putUserGrant.1 step'
  rw [← e]
  intro x hx x' hx' same owned
  have hne : r.id ≠ x.id := fun e => not_contains_iff.1 free x hx e.symm
  rcases mem_insert.1 hx' with rfl | ⟨hx', _⟩
  · exact absurd same hne
  · obtain rfl := eq_of_key hx' hx same
    refine owned.mono ?_ fun m hm _ => hm
    exact Tables.acl_insert.trans (if_neg hne)

theorem dropResource_keeps (ht : f.store.Consistent) {r : ResourceId} {u : Unit}
    (h : dropResource scope r f = (.ok u, f')) : f.store.KeepsOwners f'.store := by
  obtain ⟨_, _, _, step⟩ := dropResource_ok h
  obtain ⟨_, e⟩ := Tables.step_removeResource.1 step
  rw [← e, ht.stored.removeResource]
  intro x hx x' hx' same owned
  obtain ⟨hx', left⟩ := mem_erase.1 hx'
  obtain rfl := eq_of_key hx' hx same
  refine owned.mono (Tables.acl_eq rfl (fun p => ?_) fun role => ?_) fun m hm _ => hm
  · rw [Tables.find?_acl_users, find?_filter_of fun g _ e => ?_]
    rw [bne_iff_ne, (Prod.mk.inj e).1]
    exact left
  · rw [Tables.find?_acl_roles, find?_filter_of fun g _ e => ?_]
    rw [bne_iff_ne, (Prod.mk.inj e).1]
    exact left

theorem share_keeps {r : ResourceId} {p : PrincipalId} {level : Level} {g : UserGrant}
    (h : share scope r p level f = (.ok g, f')) : f.store.KeepsOwners f'.store := by
  obtain ⟨acl, _, _, owned, _, guard, rfl, step⟩ := share_ok h
  obtain ⟨hr, rfl, _, hacl⟩ := owned_resource owned
  obtain ⟨_, _, _, e⟩ := Tables.step_putUserGrant.1 step
  rw [← e]
  exact keepsOwners_of_guard (·.setUser p level) hr hacl guard rfl rfl fun _ => Tables.acl_insert

theorem withdraw_keeps {r : ResourceId} {held : Acl → Option Level} {without : Acl → Acl}
    {removal : Store.Change} {event : Event} {found : Bool}
    (removes : ∀ {hit t}, Tables.step removal f.store = .ok (hit, t) →
      t.resources = f.store.resources ∧ t.memberships = f.store.memberships ∧
        ∀ x, t.acl x = if r = x.id then without (f.store.acl x) else f.store.acl x)
    (h : withdraw scope r held without removal event f = (.ok found, f')) :
    f.store.KeepsOwners f'.store := by
  obtain ⟨acl, _, owned, _, ⟨_, e⟩ | ⟨_, guard, _, step⟩⟩ := withdraw_ok h
  · rw [e]
    exact .of_same rfl rfl rfl rfl
  · obtain ⟨hr, rfl, _, hacl⟩ := owned_resource owned
    obtain ⟨resources, members, lists⟩ := removes step
    exact keepsOwners_of_guard without hr hacl guard resources members lists

theorem unshare_keeps {r : ResourceId} {p : PrincipalId} {found : Bool}
    (h : unshare scope r p f = (.ok found, f')) : f.store.KeepsOwners f'.store := by
  refine withdraw_keeps (fun step => ?_) h
  obtain ⟨_, rfl⟩ := Tables.step_removeUserGrant.1 step
  exact ⟨rfl, rfl, fun _ => Tables.acl_erase⟩

theorem shareWithRole_keeps {r : ResourceId} {id : RoleId} {level : Level} {g : RoleGrant}
    (h : shareWithRole scope r id level f = (.ok g, f')) : f.store.KeepsOwners f'.store := by
  obtain ⟨acl, _, _, _, owned, _, _, guard, rfl, step⟩ := shareWithRole_ok h
  obtain ⟨hr, rfl, _, hacl⟩ := owned_resource owned
  obtain ⟨_, _, _, e⟩ := Tables.step_putRoleGrant.1 step
  rw [← e]
  exact keepsOwners_of_guard (·.setRole _ level) hr hacl guard rfl rfl fun _ => Tables.acl_insertRole

theorem unshareWithRole_keeps {r : ResourceId} {role : RoleId} {found : Bool}
    (h : unshareWithRole scope r role f = (.ok found, f')) : f.store.KeepsOwners f'.store := by
  refine withdraw_keeps (fun step => ?_) h
  obtain ⟨_, rfl⟩ := Tables.step_removeRoleGrant.1 step
  exact ⟨rfl, rfl, fun _ => Tables.acl_eraseRole⟩

/-! ## Commands that move members -/

theorem reassign_settles (ht : f.store.Consistent) {i : InitiativeId} {p : PrincipalId} {r : RoleId}
    {report : HandoverReport} (h : reassign scope i p r f = (.ok report, f')) :
    f.store.SettlesOwners f'.store report := by
  obtain ⟨initiative, m, role, hit, t, managed, hm, hrole, step, filled⟩ := reassign_ok h
  obtain ⟨_, e⟩ := find?_eq_some_iff.1 hm
  obtain ⟨mi, mp, mr⟩ := m
  obtain ⟨rfl, rfl⟩ := Prod.mk.inj e
  have ht' : t.Consistent := ht.step (putMembership_within managed hrole).fits step
  obtain ⟨_, _, _, _, rfl⟩ := Tables.step_putMembership.1 step
  obtain ⟨grants, same⟩ := Succession.fillVacancies_regrant filled
  refine .of_resources (by rw [same]; rfl) fun x hx owned => ?_
  by_cases hi : x.initiative = initiative.id
  · exact Succession.fillVacancies_settled ht' filled hx hi
  · refine Or.inl (Succession.fillVacancies_owned filled (owned.mono rfl fun m hm hmi => ?_))
    exact mem_insert.2 (Or.inr ⟨hm, fun e => hi (hmi.symm.trans (Prod.mk.inj e).1)⟩)

theorem dismiss_settles (ht : f.store.Consistent) {i : InitiativeId} {p : PrincipalId}
    {report : HandoverReport} (h : dismiss scope i p f = (.ok report, f')) :
    f.store.SettlesOwners f'.store report := by
  obtain ⟨initiative, t, _, _, _, step, left⟩ := dismiss_ok h
  have ht' : t.Consistent := ht.step (c := .removeMembership initiative.id p) trivial step
  obtain ⟨grants, same⟩ := Succession.afterDeparture_regrant left
  have here : ∀ x ∈ t.resources, x.initiative = initiative.id →
      (∀ m ∈ t.memberships, m.initiative = initiative.id → m.principal ≠ p) →
      f'.store.Settled x report :=
    fun x hx hi gone => (Succession.afterDeparture_settled ht' left hx hi gone).1
  have elsewhere : ∀ x ∈ t.resources, x.initiative ≠ initiative.id →
      f'.store.acl x = t.acl x := fun x hx hi => Succession.afterDeparture_acl left hx hi
  obtain ⟨_, rfl⟩ := Tables.step_removeMembership.1 step
  refine .of_resources (by rw [same]; rfl) fun x hx owned => ?_
  by_cases hi : x.initiative = initiative.id
  · exact here x hx hi fun m hm hmi e => (mem_erase.1 hm).2 (Prod.ext hmi e)
  · refine Or.inl (owned.mono (elsewhere x hx hi) fun m hm hmi => ?_)
    rw [same]
    exact (Succession.mem_unenrol (t := f.store) fun e => hi (hmi.symm.trans e)).2 hm

theorem expel_settles (ht : f.store.Consistent) {p : PrincipalId} {report : HandoverReport}
    (h : expel scope p f = (.ok report, f')) : f.store.SettlesOwners f'.store report := by
  obtain ⟨_, t, f₁, step, left, e⟩ := expel_ok h
  have ht' : t.Consistent := ht.step (c := .removeTenantMembership scope.tenant p) trivial step
  have resources : f₁.store.resources = t.resources := by
    obtain ⟨_, leaves, _⟩ := Succession.leaveTenant_ok left
    exact Succession.leaveEach_resources leaves
  have settled : ∀ x ∈ t.resources, t.Owned x → f₁.store.Settled x report :=
    fun x hx owned => Succession.leaveTenant_settled ht' hx left owned
  obtain ⟨_, rfl⟩ := Tables.step_removeTenantMembership.1 step
  rw [e]
  exact .of_resources resources settled

end Administration

/-- The commands that end or change memberships of initiatives. -/
def Command.movesMembers : Command → Bool
  | reassign .. | dismiss .. | expel _ => true
  | _ => false

/-- Every command either keeps owners, or moves members and settles with a report. -/
theorem Command.perform_settles {f f' : Frame Tables} {scope : Scope} {settings : Settings}
    {command : Command} {answer : Answer} (ht : f.store.Consistent)
    (h : command.perform settings scope f = (.ok answer, f')) :
    f.store.KeepsOwners f'.store ∨ command.movesMembers = true ∧
      ∃ report, answer = .handover report ∧ f.store.SettlesOwners f'.store report := by
  open Administration in
  cases command with
  | bringIn p role =>
    obtain ⟨_, h, _⟩ := return_ok.1 h
    exact Or.inl (bringIn_keeps h)
  | expel p =>
    obtain ⟨report, done, rfl⟩ := return_ok.1 h
    exact Or.inr ⟨rfl, report, rfl, expel_settles ht done⟩
  | startInitiative name =>
    obtain ⟨_, h, _⟩ := return_ok.1 h
    exact Or.inl (startInitiative_keeps ht h)
  | defineRole i name isManager =>
    obtain ⟨_, h, _⟩ := return_ok.1 h
    exact Or.inl (defineRole_keeps h)
  | relabelRole r name =>
    obtain ⟨_, h, _⟩ := return_ok.1 h
    exact Or.inl (relabelRole_keeps h)
  | empowerRole r isManager =>
    obtain ⟨_, h, _⟩ := return_ok.1 h
    exact Or.inl (empowerRole_keeps h)
  | retireRole r =>
    obtain ⟨_, h, _⟩ := return_ok.1 h
    exact Or.inl (retireRole_keeps ht h)
  | switchFeature r c enabled =>
    obtain ⟨_, h, _⟩ := return_ok.1 h
    exact Or.inl (switchFeature_keeps h)
  | enrol i p r =>
    obtain ⟨_, h, _⟩ := return_ok.1 h
    exact Or.inl (enrol_keeps h)
  | reassign i p r =>
    obtain ⟨report, done, rfl⟩ := return_ok.1 h
    exact Or.inr ⟨rfl, report, rfl, reassign_settles ht done⟩
  | dismiss i p =>
    obtain ⟨report, done, rfl⟩ := return_ok.1 h
    exact Or.inr ⟨rfl, report, rfl, dismiss_settles ht done⟩
  | restoreOwners i =>
    obtain ⟨_, h, _⟩ := return_ok.1 h
    exact Or.inl (restoreOwners_keeps h)
  | addResource i kind name =>
    obtain ⟨_, h, _⟩ := return_ok.1 h
    exact Or.inl (addResource_keeps h)
  | dropResource r =>
    simp only [perform, bind_ok, pure_ok] at h
    obtain ⟨_, _, h, _, rfl⟩ := h
    exact Or.inl (dropResource_keeps ht h)
  | share r p level =>
    obtain ⟨_, h, _⟩ := return_ok.1 h
    exact Or.inl (share_keeps h)
  | unshare r p =>
    obtain ⟨_, h, _⟩ := return_ok.1 h
    exact Or.inl (unshare_keeps h)
  | shareWithRole r role level =>
    obtain ⟨_, h, _⟩ := return_ok.1 h
    exact Or.inl (shareWithRole_keeps h)
  | unshareWithRole r role =>
    obtain ⟨_, h, _⟩ := return_ok.1 h
    exact Or.inl (unshareWithRole_keeps h)

theorem Call.perform_settles {f f' : Frame Tables} {settings : Settings} {call : Call}
    {answer : Answer} (ht : f.store.Consistent)
    (h : call.perform settings f = (.ok answer, f')) :
    f.store.KeepsOwners f'.store ∨
      ∃ caller command, call = .request caller (.order command) ∧ command.movesMembers = true ∧
        ∃ report, answer = .handover report ∧ f.store.SettlesOwners f'.store report := by
  obtain ⟨caller, command, scope, events, rfl, _, performed⟩ | ⟨_, _, _, _, _, e⟩ := perform_cases h
  · exact (Command.perform_settles (f := { f with events }) ht performed).imp_right
      fun ⟨moves, settles⟩ => ⟨caller, command, rfl, moves, settles⟩
  · rw [e]
    exact Or.inl (.of_same rfl rfl rfl rfl)

/-! ## Reachable stores -/

namespace Reachable

variable {σ : Type} [Store.Backend σ] [Faithful σ] {s : σ} {settings : Settings} {call : Call}
  {ids : Supply} {answer : Answer}

/-- No call that succeeds strands a resource in silence: one that had an owner and has none afterwards
is in the report of a call that moved members, and no member of its initiative holds a manager role. -/
theorem stranded_reported (h : Reachable s)
    (fresh : ids.FreshFor (call.draws settings) (tables s))
    (done : (call.run settings s ids).result = .ok answer) {x x' : Resource}
    (hx : x ∈ (tables s).resources) (hx' : x' ∈ (tables (call.run settings s ids).store).resources)
    (same : x'.id = x.id) {p : PrincipalId} (owner : (tables s).levelOn x p = some .owner)
    (lost : ∀ q, (tables (call.run settings s ids).store).levelOn x' q ≠ some .owner) :
    (∀ m ∈ (tables (call.run settings s ids).store).memberships, m.initiative = x'.initiative →
      ∀ r ∈ (tables (call.run settings s ids).store).roles, r.id = m.role → r.isManager = false) ∧
    ∃ caller command, call = .request caller (.order command) ∧ command.movesMembers = true ∧
      ∃ report, answer = .handover report ∧ Handover.ownerlessOf x' ∈ report.ownerless := by
  have mirrors := h.run_mirrors fresh
  rw [mirrors.store] at hx' lost ⊢
  rw [mirrors.result.ok_iff] at done
  obtain ⟨f, performed, store⟩ := commit_ok done
  have store : (call.run settings (tables s) ids).store = f.store := store
  rw [store] at hx' lost ⊢
  have unowned : ¬ f.store.Owned x' := fun ⟨q, hq⟩ => lost q hq
  rcases Call.perform_settles (f := ⟨tables s, ids, []⟩) h.consistent performed with
    keeps | ⟨caller, command, rfl, moves, report, rfl, settles⟩
  · exact absurd (keeps x hx x' hx' same ⟨p, owner⟩) unowned
  · obtain ⟨unmanaged, listed⟩ := (settles x hx x' hx' same ⟨p, owner⟩).resolve_left unowned
    refine ⟨fun m hm hi r hr e => ?_, caller, command, rfl, moves, report, rfl, listed⟩
    exact Bool.eq_false_iff.2 fun manages => unmanaged ⟨m, hm, hi, r, hr, e, manages⟩

/-- The founder of a tenant leaves its initiative, and nobody is there to take its project over. -/
theorem stranded_reported_founding :
    let founded : Tables := (Call.runAll default (Call.founding 0 "ada" "acme") .empty .empty).1
    let leave : Call := .request ⟨Supply.numberedId 0, .member, Supply.numberedId 1, .activeTenant⟩
      (.order (.dismiss (Supply.numberedId 2) (Supply.numberedId 0)))
    ∃ caller command, leave = .request caller (.order command) ∧ command.movesMembers = true ∧
      ∃ report, (leave.run default founded .empty).result = .ok (.handover report) ∧
        ⟨Supply.numberedId 5, Supply.numberedId 2, Supply.numberedId 1⟩ ∈ report.ownerless := by
  intro founded leave
  let project : Resource :=
    ⟨Supply.numberedId 5, .project, Supply.numberedId 2, Supply.numberedId 1, "plan"⟩
  have reachable : Reachable founded := of_runAll (by decide +kernel)
  have fresh : Supply.empty.FreshFor (leave.draws default) (tables founded) := by decide +kernel
  have before : project ∈ (tables founded).resources := mem_iff.2 (by decide +kernel)
  have after : project ∈ (tables (leave.run default founded .empty).store).resources :=
    mem_iff.2 (by decide +kernel)
  have owner : (tables founded).levelOn project (Supply.numberedId 0) = some .owner := by
    decide +kernel
  have unowned : ¬ (tables (leave.run default founded .empty).store).Owned project := by
    rw [Tables.owned_iff, ← Acl.owners_isEmpty]
    decide +kernel
  have succeeds : (leave.run default founded .empty).result.isOk = true := by decide +kernel
  obtain ⟨answer, done⟩ : ∃ answer, (leave.run default founded .empty).result = .ok answer := by
    revert succeeds
    cases (leave.run default founded .empty).result with
    | error => exact nofun
    | ok answer => exact fun _ => ⟨answer, rfl⟩
  obtain ⟨_, caller, command, e, moves, report, answered, listed⟩ := reachable.stranded_reported
    fresh done before after rfl owner fun q hq => unowned ⟨q, hq⟩
  exact ⟨caller, command, e, moves, report, answered ▸ done, listed⟩

end Reachable

end TenantAccess
