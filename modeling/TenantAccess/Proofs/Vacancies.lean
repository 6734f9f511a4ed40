import TenantAccess.Proofs.Inheritance

/-!
# What a sweep fills

The sweep of an initiative gives what nobody owns there to the managers and leaves all else alone. Its
report lists just the grants that it made and the resources that still have no owner, so a second
sweep has nothing to do and reports the same resources.
-/

namespace TenantAccess

open Store (Faithful Tables)
open Store.Backend (ask)
open Store.Faithful (tables Sound)
open Transaction Table

/-! ## Vacancies that are filled -/

namespace Handover

variable {acls : List Acl} {members : RoleMap} {roles : IdSet .role}

theorem vacancyPlan_ownerless_sublist : (vacancyPlan acls members roles).ownerless.Sublist
    (acls.map fun acl => ownerlessOf acl.resource) := by
  rw [vacancyPlan_ownerless]
  exact List.filter_sublist.map _

theorem vacancyPlan_distinct (ids : (acls.map fun acl => acl.resource.id).Nodup) :
    (vacancyPlan acls members roles).Distinct :=
  (Plan.distinct_concat (ids.sublist (List.filter_sublist.map _)) (fun _ => absorb_distinct)
    fun _ => absorb_on).1

end Handover

namespace Store.Tables

variable {t t' t'' : Tables} {x : Resource} {i : InitiativeId} {p : PrincipalId}
  {report report' : HandoverReport}

/-- From the rows `t` on, what nobody owns in an initiative has been given to the managers, and the
report says so. -/
structure Refilled (i : InitiativeId) (report : HandoverReport) (t t' : Tables) : Prop where
  /-- Only grants of users differ. -/
  others : ∃ grants, t' = t.regrant grants
  filled : ∀ x ∈ t.resources, x.initiative = i → ¬ t.Owned x → ∀ p, t.Manages i p →
    t'.userGrants.find? (x.id, p) = some ⟨x.id, p, .owner, x.tenant⟩
  kept : ∀ r p, (∀ x ∈ t.resources, x.initiative = i → x.id = r → t.Owned x ∨ ¬ t.Manages i p) →
    t'.userGrants.find? (r, p) = t.userGrants.find? (r, p)
  revoked : report.revoked = []
  granted : ∀ c, c ∈ report.granted ↔
    (t'.userGrants.find? c).map UserGrant.level = some .owner ∧
      (t.userGrants.find? c).map UserGrant.level ≠ some .owner
  granted_nodup : report.granted.Nodup
  ownerless : ∀ w, w ∈ report.ownerless ↔
    ∃ x ∈ t.resources, x.initiative = i ∧ ¬ t'.Owned x ∧ w = Handover.ownerlessOf x
  ownerless_ordered : report.ownerless.Pairwise fun v w => v.resource.value < w.resource.value
  unmanaged : report.ownerless ≠ [] → ∀ p, ¬ t.Manages i p

theorem Owned.regrant {grants : Table UserGrant} (owned : t.Owned x)
    (same : ∀ p, grants.find? (x.id, p) = t.userGrants.find? (x.id, p)) :
    (t.regrant grants).Owned x := by
  obtain ⟨p, level⟩ := owned
  refine ⟨p, ?_⟩
  rw [levelOn] at level ⊢
  rw [← same p] at level
  exact level

namespace Refilled

theorem manages (h : t.Refilled i report t') : t'.Manages i p ↔ t.Manages i p := by
  obtain ⟨grants, rfl⟩ := h.others
  exact Iff.rfl

theorem mem_resources (h : t.Refilled i report t') : x ∈ t'.resources ↔ x ∈ t.resources := by
  obtain ⟨grants, rfl⟩ := h.others
  exact Iff.rfl

/-- Afterwards what has no owner has no manager either. -/
theorem settled (h : t.Refilled i report t') (hx : x ∈ t.resources) (hi : x.initiative = i) :
    t'.Owned x ∨ ∀ p, ¬ t.Manages i p := by
  by_cases owned : t.Owned x
  · refine Or.inl ?_
    obtain ⟨grants, rfl⟩ := h.others
    refine owned.regrant fun p => h.kept x.id p fun y hy _ e => ?_
    rw [eq_of_key hy hx e]
    exact Or.inl owned
  · by_cases managed : ∃ p, t.Manages i p
    · obtain ⟨p, manages⟩ := managed
      refine Or.inl (owned_of_directOn (p := p) ?_)
      rw [Tables.directOn, h.filled x hx hi owned p manages]
      rfl
    · exact Or.inr fun p manages => managed ⟨p, manages⟩

/-- There is nothing to fill a second time, and the same resources have no owner. -/
theorem again (h : t.Refilled i report t') (h' : t'.Refilled i report' t'') :
    t'' = t' ∧ report' = ⟨[], [], report.ownerless⟩ := by
  have same : ∀ c, t''.userGrants.find? c = t'.userGrants.find? c := fun c =>
    h'.kept c.1 c.2 fun x hx hi _ => (h.settled (h.mem_resources.1 hx) hi).imp_right fun none manages =>
      none c.2 (h.manages.1 manages)
  have unchanged : t'' = t' := by
    obtain ⟨grants, rfl⟩ := h'.others
    have e : grants = t'.userGrants := ext_find? same
    rw [e]
    rfl
  have granted : report'.granted = [] := List.eq_nil_iff_forall_not_mem.2 fun c hc => by
    obtain ⟨now, before⟩ := (h'.granted c).1 hc
    rw [same] at now
    exact before now
  have ownerless : report'.ownerless = report.ownerless := by
    refine eq_of_strictly_sorted (fun w => w.resource.value) h'.ownerless_ordered
      h.ownerless_ordered fun w => ?_
    rw [h'.ownerless, h.ownerless, unchanged]
    simp only [h.mem_resources]
  obtain ⟨revoked, _, _⟩ := report'
  obtain rfl : revoked = [] := h'.revoked
  obtain rfl := granted
  obtain rfl := ownerless
  exact ⟨unchanged, rfl⟩

end Refilled

end Store.Tables

/-! ## The plan of a sweep -/

namespace Succession

variable {f f' : Frame Tables} {t : Tables} {i : InitiativeId} {p : PrincipalId}
  {result : HandoverReport} {c : ResourceId × PrincipalId}

/-- The plan that fills the vacancies of an initiative, as it is made from the rows. -/
def vacancies (t : Tables) (i : InitiativeId) : Handover.Plan :=
  Handover.vacancyPlan ((t.resources.rows.filter fun r => r.initiative = i).map t.acl)
    (Store.roleMap t i) (Store.managingRoles t i)

section Rows

variable (ht : t.Consistent)

include ht

theorem mem_vacancies_grantOwner : c ∈ (vacancies t i).grantOwner ↔
    ∃ x ∈ t.resources, x.initiative = i ∧ ¬ t.Owned x ∧ ∃ q, t.Manages i q ∧
      t.directOn x q ≠ some .owner ∧ c = (x.id, q) := by
  rw [vacancies, Handover.mem_vacancyPlan_grantOwner, exists_acl]
  refine exists_congr fun x => and_congr_right fun _ => and_congr_right fun hi => ?_
  simp only [Acl.owners_isEmpty, Tables.direct?_acl_eq, ht.mem_managers, Tables.owned_iff, hi]
  exact Iff.rfl

theorem mem_vacancies_ownerless {w : Ownerless} : w ∈ (vacancies t i).ownerless ↔
    ∃ x ∈ t.resources, x.initiative = i ∧ ¬ t.Owned x ∧ (∀ q, ¬ t.Manages i q) ∧
      w = Handover.ownerlessOf x := by
  rw [vacancies, Handover.mem_vacancyPlan_ownerless, exists_acl]
  refine exists_congr fun x => and_congr_right fun _ => and_congr_right fun hi => ?_
  rw [Acl.owners_isEmpty, isEmpty_iff_forall, Tables.owned_iff, hi]
  simp only [ht.mem_managers]
  exact Iff.rfl

theorem vacancies_filled {x : Resource} (hx : x ∈ t.resources) (hi : x.initiative = i)
    (unowned : ¬ t.Owned x) (manages : t.Manages i p) :
    (granted x.tenant (vacancies t i) t.userGrants).find? (x.id, p) =
      some ⟨x.id, p, .owner, x.tenant⟩ := by
  have free : t.directOn x p ≠ some .owner := fun owner => unowned (Tables.owned_of_directOn owner)
  rw [find?_granted, if_pos
    ((mem_vacancies_grantOwner ht).2 ⟨x, hx, hi, unowned, p, manages, free, rfl⟩)]

theorem vacancies_kept {tenant : TenantId} {r : ResourceId}
    (settled : ∀ x ∈ t.resources, x.initiative = i → x.id = r → t.Owned x ∨ ¬ t.Manages i p) :
    (granted tenant (vacancies t i) t.userGrants).find? (r, p) = t.userGrants.find? (r, p) := by
  have unraised : ¬ (r, p) ∈ (vacancies t i).grantOwner := by
    intro raised
    obtain ⟨x, hx, hi, unowned, q, manages, _, e⟩ := (mem_vacancies_grantOwner ht).1 raised
    obtain ⟨rfl, rfl⟩ := Prod.mk.inj e
    exact (settled x hx hi rfl).elim unowned fun none => none manages
  have spared : ¬ (r, p) ∈ (vacancies t i).revoke := by
    rw [vacancies, Handover.vacancyPlan_revoke]
    exact List.not_mem_nil
  rw [find?_granted, if_neg unraised, if_neg spared]

end Rows

theorem vacancies_ordered (t : Tables) (i : InitiativeId) :
    (vacancies t i).ownerless.Pairwise fun v w => v.resource.value < w.resource.value := by
  refine List.Pairwise.sublist Handover.vacancyPlan_ownerless_sublist ?_
  rw [List.map_map]
  exact List.pairwise_map.2 (t.resources.ordered.filter _)

theorem vacancies_distinct (t : Tables) (i : InitiativeId) : (vacancies t i).Distinct := by
  refine Handover.vacancyPlan_distinct ?_
  rw [List.map_map]
  exact (nodup_keys (t := t.resources)).sublist (List.filter_sublist.map _)

/-- Filling the vacancies of an initiative carries this plan out in the tenant of its resources. -/
theorem fillVacancies_vacancies (ht : f.store.Consistent)
    (h : fillVacancies i f = (.ok result, f')) :
    result = ⟨(vacancies f.store i).revoke, (vacancies f.store i).grantOwner,
        (vacancies f.store i).ownerless⟩ ∧
      ∃ tenant, (∀ x ∈ f.store.resources, x.initiative = i → x.tenant = tenant) ∧
        f'.store = f.store.regrant (granted tenant (vacancies f.store i) f.store.userGrants) := by
  rcases fillVacancies_ok h with ⟨missing, rfl, rfl⟩ | ⟨initiative, acls, found, listed, carried⟩
  · have outside : ∀ x ∈ f'.store.resources, x.initiative ≠ i := fun x hx hi =>
      initiative_found ht hx hi missing
    have idle : vacancies f'.store i = .empty := by
      rw [vacancies, List.filter_eq_nil_iff.2 fun x hx => by simpa using outside x hx]
      rfl
    rw [idle]
    exact ⟨rfl, Id.least, fun x hx hi => absurd hi (outside x hx), rfl⟩
  · obtain rfl := accessLists_eq_ok listed
    obtain ⟨reported, stored⟩ := carryOut_ok carried
    obtain ⟨hinitiative, hid⟩ := find?_eq_some_iff.1 found
    refine ⟨reported, initiative.tenant, fun x hx hi => ?_, stored⟩
    exact (ht.aligned.resource x hx initiative hinitiative (hid.trans hi.symm)).symm

/-- It gives what nobody owns to the managers. -/
theorem fillVacancies_refilled (ht : f.store.Consistent)
    (h : fillVacancies i f = (.ok result, f')) : f.store.Refilled i result f'.store := by
  obtain ⟨rfl, tenant, here, stored⟩ := fillVacancies_vacancies ht h
  refine
    { others := ⟨_, stored⟩
      filled := fun x hx hi unowned p manages => ?_
      kept := fun r p settled => ?_
      revoked := Handover.vacancyPlan_revoke
      granted := fun c => ?_
      granted_nodup := (vacancies_distinct f.store i).grantOwner
      ownerless := fun w => ?_
      ownerless_ordered := vacancies_ordered f.store i
      unmanaged := fun listed p manages => ?_ }
  · rw [stored, ← here x hx hi]
    exact vacancies_filled ht hx hi unowned manages
  · rw [stored]
    exact vacancies_kept ht settled
  · rw [stored]
    refine mem_grantOwner_iff fun c raised => ?_
    obtain ⟨x, _, _, _, q, _, free, rfl⟩ := (mem_vacancies_grantOwner ht).1 raised
    exact free
  · constructor
    · intro listed
      obtain ⟨x, hx, hi, unowned, none, rfl⟩ := (mem_vacancies_ownerless ht).1 listed
      refine ⟨x, hx, hi, fun owned => unowned ?_, rfl⟩
      -- nobody is there to be made an owner
      have same : granted tenant (vacancies f.store i) f.store.userGrants = f.store.userGrants :=
        ext_find? fun c => vacancies_kept ht fun _ _ _ _ => Or.inr (none c.2)
      rw [stored, same] at owned
      exact owned
    · rintro ⟨x, hx, hi, unowned, rfl⟩
      exact ((fillVacancies_settled ht h hx hi).resolve_left unowned).2
  · obtain ⟨w, listed⟩ := List.exists_mem_of_ne_nil _ listed
    obtain ⟨_, _, _, _, none, _⟩ := (mem_vacancies_ownerless ht).1 listed
    exact none p manages

theorem fillVacancies_consistent (ht : f.store.Consistent)
    (h : fillVacancies i f = (.ok result, f')) : f'.store.Consistent := by
  rcases fillVacancies_ok h with ⟨_, _, rfl⟩ | ⟨initiative, _, found, _, _⟩
  · exact ht
  · have within := fillVacancies_within ht (Tables.tenantOf_found found) h
    exact (within.mono fun _ _ h => h.fits).consistent ht

theorem fillVacancies_unchecked (i : InitiativeId) :
    Unchecked (fillVacancies i : Transaction Tables HandoverReport) := by
  refine .bind .current fun s => ?_
  cases ask (.initiative i) s with
  | none => exact .pure _
  | some initiative => exact .bind (.storeError _) fun acls => carryOut_unchecked _ _

/-! ## Faithful stores -/

section Faithful

variable {σ : Type} [Store.Backend σ] {f f' : Frame σ}

/-- A sweep that reports no grants has changed none. -/
theorem fillVacancies_idle (h : fillVacancies i f = (.ok result, f')) (revoked : result.revoked = [])
    (granted : result.granted = []) : f'.store = f.store := by
  simp only [fillVacancies, bind_ok, current_ok] at h
  obtain ⟨_, _, ⟨rfl, rfl⟩, h⟩ := h
  cases found : ask (.initiative i) f.store with
  | none =>
    simp only [found, pure_ok] at h
    rw [h.2]
  | some initiative =>
    simp only [found, bind_ok, lift_storeError_ok] at h
    obtain ⟨acls, _, ⟨_, rfl⟩, h⟩ := h
    exact carryOut_idle h revoked granted

variable [Faithful σ]

/-- On a faithful store with rows that fit together it succeeds and gives what nobody owns to the
managers. -/
theorem fillVacancies_run (sound : Sound f.store) (ht : (tables f.store).Consistent)
    (i : InitiativeId) :
    ∃ report f', fillVacancies i f = (.ok report, f') ∧ Sound f'.store ∧
      (tables f'.store).Consistent ∧ (tables f.store).Refilled i report (tables f'.store) := by
  obtain ⟨report, f', succeeded, sound', done⟩ := (fillVacancies_mirrors i).done sound
    (fillVacancies_accepted (f := f.view) ht) (fillVacancies_unchecked i)
  exact ⟨report, f', succeeded, sound', fillVacancies_consistent (f := f.view) ht done,
    fillVacancies_refilled (f := f.view) ht done⟩

/-- From the store `s` on, an initiative has been swept, and to sweep it again changes nothing. -/
structure Swept (i : InitiativeId) (report : HandoverReport) (s s' : σ) : Prop where
  refilled : (tables s).Refilled i report (tables s')
  idle : ∀ ids events, ∃ f, fillVacancies i ⟨s', ids, events⟩ =
    (.ok ⟨[], [], report.ownerless⟩, f) ∧ f.store = s'

theorem swept_of_refilled {s s' : σ} {report : HandoverReport} (sound : Sound s')
    (ht : (tables s').Consistent) (h : (tables s).Refilled i report (tables s')) :
    Swept i report s s' := by
  refine ⟨h, fun ids events => ?_⟩
  obtain ⟨_, f, done, _, _, later⟩ := fillVacancies_run (f := ⟨s', ids, events⟩) sound ht i
  obtain ⟨_, rfl⟩ := h.again later
  exact ⟨f, done, fillVacancies_idle done rfl rfl⟩

end Faithful

end Succession

/-! ## Calls that sweep -/

/-- The changes after which a call sweeps an initiative: a member gets another of its roles, or a role
is deleted. -/
inductive Store.Change.Unsettles (i : InitiativeId) (t : Tables) : Store.Change → Prop
  | reassigned {p : PrincipalId} {r : RoleId} {role : Role} (stored : t.roles.find? r = some role)
    (here : role.initiative = i) : Unsettles i t (.putMembership ⟨i, p, r⟩)
  | retired (r : RoleId) : Unsettles i t (.removeRole r)

theorem Store.Change.Unsettles.fits {c : Store.Change} {i : InitiativeId} {t : Tables}
    (h : c.Unsettles i t) : c.Fits t := by
  cases h with
  | reassigned stored here =>
    intro role hr e
    obtain ⟨hrole, key⟩ := find?_eq_some_iff.1 stored
    rw [eq_of_key hr hrole (e.trans key.symm)]
    exact here
  | retired => trivial

/-- The store in which a call may come to sweep an initiative: the one that it has found, or what a
change that unsettles the initiative has made of that. -/
def Unsettled {σ : Type} [Store.Backend σ] [Faithful σ] (i : InitiativeId) (s s' : σ) : Prop :=
  s' = s ∨ ∃ c : Store.Change, c.Unsettles i (tables s) ∧ s' = (Store.Backend.change c s).2

/-- The initiative that a command sweeps. -/
def Command.sweeps (t : Tables) : Command → Option InitiativeId
  | restoreOwners i | reassign i _ _ => some i
  | retireRole r => (t.roles.find? r).map Role.initiative
  | _ => none

theorem Command.sweeps_draws {t : Tables} {i : InitiativeId} {command : Command}
    (h : command.sweeps t = some i) (settings : Settings) : command.draws settings = 0 := by
  cases command with
  | startInitiative name => cases h
  | defineRole i name isManager => cases h
  | addResource i kind name => cases h
  | _ => rfl

section Sweeps

variable {f f' : Frame Tables} {settings : Settings} {i : InitiativeId} {answer : Answer}

theorem Unsettled.of_step {t t' : Tables} {c : Store.Change} {hit : Bool} (h : c.Unsettles i t)
    (step : Tables.step c t = .ok (hit, t')) : Unsettled i t t' := by
  have e : Store.Backend.change c t = (Tables.step c).run t := rfl
  refine Or.inr ⟨c, h, ?_⟩
  rw [e, Store.Step.run, step]

/-- A command that sweeps an initiative does so last, after one change at most. -/
theorem Command.perform_sweeps {scope : Scope} {command : Command}
    (sweeps : command.sweeps f.store = some i)
    (h : command.perform settings scope f = (.ok answer, f')) :
    ∃ report t f₁, answer = .handover report ∧ Unsettled i f.store t ∧
      Succession.fillVacancies i { f with store := t } = (.ok report, f₁) ∧
      f'.store = f₁.store := by
  open Administration in
  cases command with
  | restoreOwners j =>
    obtain rfl : j = i := Option.some.inj sweeps
    obtain ⟨report, restored, rfl⟩ := return_ok.1 h
    obtain ⟨initiative, managed, filled⟩ := restoreOwners_ok restored
    obtain ⟨_, rfl⟩ := find?_eq_some_iff.1 (Scope.managedInitiative_eq_ok.1 managed).1
    exact ⟨report, f.store, f', rfl, Or.inl rfl, filled, rfl⟩
  | reassign j p r =>
    obtain rfl : j = i := Option.some.inj sweeps
    obtain ⟨report, reassigned, rfl⟩ := return_ok.1 h
    obtain ⟨initiative, ⟨mi, mp, mr⟩, role, hit, t, managed, hm, hrole, step, filled⟩ :=
      reassign_ok reassigned
    obtain ⟨_, rfl⟩ := find?_eq_some_iff.1 (Scope.managedInitiative_eq_ok.1 managed).1
    obtain ⟨_, e⟩ := find?_eq_some_iff.1 hm
    obtain ⟨rfl, rfl⟩ := Prod.mk.inj e
    obtain ⟨stored, here⟩ := roleIn_eq_ok.1 hrole
    obtain ⟨_, rfl⟩ := find?_eq_some_iff.1 stored
    exact ⟨report, t, f', rfl, .of_step (.reassigned stored here) step, filled, rfl⟩
  | retireRole r =>
    obtain ⟨report, retired, rfl⟩ := return_ok.1 h
    obtain ⟨role, initiative, hit, t, f₁, managed, _, step, filled, e⟩ := retireRole_ok retired
    obtain ⟨stored, found, _⟩ := Scope.managedRole_eq_ok.1 managed
    obtain ⟨_, here⟩ := find?_eq_some_iff.1 found
    rw [Command.sweeps, stored] at sweeps
    obtain rfl : role.initiative = i := Option.some.inj sweeps
    rw [show initiative.id = role.initiative from here] at filled
    exact ⟨report, t, f₁, rfl, .of_step (.retired role.id) step, filled, e⟩
  | _ => cases sweeps

theorem Call.perform_sweeps {caller : Caller} {command : Command}
    (sweeps : command.sweeps f.store = some i)
    (h : (Call.request caller (.order command)).perform settings f = (.ok answer, f')) :
    ∃ report t, answer = .handover report ∧ Unsettled i f.store t ∧
      (t.Consistent → t.Refilled i report f'.store) := by
  obtain ⟨_, events, _, performed⟩ := perform_order h
  obtain ⟨report, t, f₂, answered, before, filled, e⟩ :=
    Command.perform_sweeps (f := { f with events }) sweeps performed
  rw [e]
  exact ⟨report, t, answered, before, fun ht => Succession.fillVacancies_refilled ht filled⟩

end Sweeps

namespace Reachable

variable {σ : Type} [Store.Backend σ] [Faithful σ] {s : σ}

theorem unsettled (h : Reachable s) {i : InitiativeId} {s₁ : σ} (unsettled : Unsettled i s s₁) :
    Sound s₁ ∧ (tables s₁).Consistent := by
  rcases unsettled with rfl | ⟨c, unsettles, rfl⟩
  · exact ⟨h.sound, h.consistent⟩
  · obtain ⟨sound, consistent, _⟩ := h.changed unsettles.fits
    exact ⟨sound, consistent⟩

theorem unsettled_of_tables (h : Reachable s) {i : InitiativeId} {t : Tables}
    (unsettled : Unsettled i (tables s) t) : ∃ s₁, Unsettled i s s₁ ∧ tables s₁ = t := by
  rcases unsettled with rfl | ⟨c, unsettles, rfl⟩
  · exact ⟨s, Or.inl rfl, rfl⟩
  · obtain ⟨_, _, rows⟩ := h.changed unsettles.fits
    exact ⟨_, Or.inr ⟨c, unsettles, rfl⟩, rows⟩

/-- The sweep of an initiative always succeeds, gives just what nobody owns there to the managers,
reports just that, and has nothing to do when it is made again. A call that sweeps the initiative
leaves and answers just that. -/
theorem vacancies_swept (h : Reachable s) (i : InitiativeId) :
    (∀ s₁, Unsettled i s s₁ → ∀ ids events, ∃ report f,
      Succession.fillVacancies i ⟨s₁, ids, events⟩ = (.ok report, f) ∧
        Succession.Swept i report s₁ f.store) ∧
    ∀ (settings : Settings) (caller : Caller) (command : Command) (ids : Supply) (answer : Answer),
      command.sweeps (tables s) = some i →
      let out := (Call.request caller (.order command)).run settings s ids
      out.result = .ok answer → ∃ s₁ report, Unsettled i s s₁ ∧ answer = .handover report ∧
        Succession.Swept i report s₁ out.store := by
  constructor
  · intro s₁ unsettled ids events
    obtain ⟨sound, consistent⟩ := h.unsettled unsettled
    obtain ⟨report, f, done, sound', consistent', refilled⟩ :=
      Succession.fillVacancies_run (f := ⟨s₁, ids, events⟩) sound consistent i
    exact ⟨report, f, done, Succession.swept_of_refilled sound' consistent' refilled⟩
  · intro settings caller command ids answer sweeps out done
    have fresh : ids.FreshFor ((Call.request caller (.order command)).draws settings) (tables s) := by
      rw [Call.draws, command.sweeps_draws sweeps]
      exact .zero
    have after : Reachable out.store := h.call settings _ fresh
    obtain ⟨f, performed, store⟩ := h.performed fresh done
    obtain ⟨report, t, answered, unsettled, refilled⟩ :=
      Call.perform_sweeps (f := ⟨tables s, ids, []⟩) sweeps performed
    obtain ⟨s₁, before, rfl⟩ := h.unsettled_of_tables unsettled
    have refilled := refilled (h.unsettled before).2
    rw [← store] at refilled
    exact ⟨s₁, report, before, answered,
      Succession.swept_of_refilled after.sound after.consistent refilled⟩

/-- A founder that has left its initiative and come back as a manager is given the project that nobody
owns. -/
theorem vacancies_swept_founding :
    let founder : Caller := ⟨Supply.numberedId 0, .member, Supply.numberedId 1, .activeTenant⟩
    let vacant : Tables := (Call.runAll default (Call.founding 0 "ada" "acme" ++
      [.request founder (.order (.dismiss (Supply.numberedId 2) (Supply.numberedId 0))),
        .request founder (.order (.enrol (Supply.numberedId 2) (Supply.numberedId 0)
          (Supply.numberedId 3)))]) .empty .empty).1
    let swept := (Call.request founder (.order (.restoreOwners (Supply.numberedId 2)))).run default
      vacant .empty
    swept.result.toOption.map (fun
      | .handover report => report.granted
      | _ => []) = some [(Supply.numberedId 5, Supply.numberedId 0)] ∧
    ∃ s₁ report, Unsettled (Supply.numberedId 2) vacant s₁ ∧
      swept.result = .ok (.handover report) ∧
      Succession.Swept (Supply.numberedId 2) report s₁ swept.store := by
  intro founder vacant swept
  have reachable : Reachable vacant := of_runAll (by decide +kernel)
  have granted : swept.result.toOption.map (fun
      | .handover report => report.granted
      | _ => []) = some [(Supply.numberedId 5, Supply.numberedId 0)] := by decide +kernel
  obtain ⟨answer, done, _⟩ := exists_of_toOption_map granted
  obtain ⟨s₁, report, unsettled, rfl, refilled⟩ := (reachable.vacancies_swept _).2 default founder
    (.restoreOwners (Supply.numberedId 2)) .empty answer rfl done
  exact ⟨granted, s₁, report, unsettled, done, refilled⟩

end Reachable

end TenantAccess
