import TenantAccess.Proofs.RoleNames

/-!
# What features were last switched to

A role says about a feature what it was last switched to, and nothing as long as it has not been
switched, whatever else was called in between. This, the right to manage and the default of the
feature decide whether a member has it.
-/

namespace TenantAccess

open Store (Faithful Tables)
open Store.Backend (ask)
open Store.Faithful (tables)
open Transaction Table

/-! ## Settings of a role -/

namespace Role

variable {role : Role} {c d : Feature} {new : Toggle} {l : List Toggle} {enabled : Bool}

theorem find?_putToggle : ((putToggle new l).find? fun t => t.feature = d).map Toggle.enabled =
    if new.feature = d then some new.enabled
    else (l.find? fun t => t.feature = d).map Toggle.enabled := by
  induction l with
  | nil => by_cases e : new.feature = d <;> simp [putToggle, e]
  | cons t rest ih =>
    unfold putToggle
    split
    · rename_i same
      by_cases e : new.feature = d
      · simp [e, ← same]
      · simp [e, ← same]
    · rename_i other
      split
      · by_cases e : new.feature = d <;> simp [e]
      · by_cases e : t.feature = d
        · have hne : ¬ new.feature = d := fun h => other (h.trans e.symm)
          simp [e, hne]
        · simp [e, ih]

theorem setting?_withToggle :
    (role.withToggle c enabled).setting? d = if c = d then some enabled else role.setting? d :=
  find?_putToggle

theorem setting?_congr {other : Role} (h : role.toggles = other.toggles) :
    role.setting? c = other.setting? c := by
  rw [setting?, setting?, h]

end Role

/-! ## Switches -/

/-- What the command is to switch a feature of a role to, if it is about this. -/
def Command.switches : Command → RoleId → Feature → Option Bool
  | switchFeature r c enabled, id, d => if r = id ∧ c = d then some enabled else none
  | _, _, _ => none

namespace Call

def switches (call : Call) (id : RoleId) (c : Feature) : Option Bool :=
  call.command?.bind fun command => command.switches id c

namespace Entry

/-- The numbers of the identifiers that a call used, if it succeeded. -/
def drawn (entry : Entry) : List Nat :=
  match entry.result with
  | .ok _ => entry.ids.upcoming (entry.call.draws entry.settings)
  | .error _ => []

/-- What the call has switched a feature of a role to. -/
def switches (entry : Entry) (id : RoleId) (c : Feature) : Option Bool :=
  match entry.result with
  | .ok _ => entry.call.switches id c
  | .error _ => none

end Entry

/-- No identifier is drawn twice, even if the row that it was drawn for is gone. -/
def DrawnOnce (log : List Entry) : Prop := (log.flatMap Entry.drawn).Nodup

instance (log : List Entry) : Decidable (DrawnOnce log) :=
  inferInstanceAs (Decidable (List.Nodup _))

/-- What a feature of a role was last switched to by calls, the latest of which comes first. -/
def lastSwitch (log : List Entry) (id : RoleId) (c : Feature) : Option Bool :=
  log.findSome? fun entry => entry.switches id c

theorem lastSwitch_cons {entry : Entry} {log : List Entry} {id : RoleId} {c : Feature} :
    lastSwitch (entry :: log) id c = (entry.switches id c).or (lastSwitch log id c) := by
  rw [lastSwitch, List.findSome?_cons]
  cases entry.switches id c <;> rfl

end Call

/-! ## Calls -/

/-- The roles `t'` are those of `t`, with the features switched, or new and without toggles. -/
structure Store.Tables.Switched (switches : RoleId → Feature → Option Bool) (drawn : List Nat)
    (t t' : Tables) : Prop where
  stored : ∀ id c enabled, switches id c = some enabled → ∃ r ∈ t.roles, r.id = id
  roles : ∀ r ∈ t'.roles,
    (∃ old ∈ t.roles, old.id = r.id ∧ ∀ c, r.setting? c = (switches r.id c).or (old.setting? c)) ∨
      r.id.value ∈ drawn ∧ r.toggles = []

namespace Store.Tables.Switched

variable {switches : RoleId → Feature → Option Bool} {drawn : List Nat} {t t' : Tables}

/-- Where nothing is switched each role that was there keeps its toggles. -/
theorem of_none (h : ∀ id c, switches id c = none)
    (roles : ∀ r ∈ t'.roles, (∃ old ∈ t.roles, old.id = r.id ∧ old.toggles = r.toggles) ∨
      r.id.value ∈ drawn ∧ r.toggles = []) : t.Switched switches drawn t' where
  stored id c enabled switched := by
    rw [h] at switched
    cases switched
  roles r hr := by
    refine (roles r hr).imp_left ?_
    rintro ⟨old, hold, e, same⟩
    refine ⟨old, hold, e, fun c => ?_⟩
    rw [h, Option.none_or]
    exact Role.setting?_congr same.symm

theorem of_same (h : ∀ id c, switches id c = none) (same : t'.roles = t.roles) :
    t.Switched switches drawn t' :=
  .of_none h fun r hr => Or.inl ⟨r, same ▸ hr, rfl, rfl⟩

/-- Writing a role anew with its toggles switches nothing. -/
theorem of_rewritten (h : ∀ id c, switches id c = none) {stored role : Role}
    (hstored : stored ∈ t.roles) (hid : stored.id = role.id) (same : stored.toggles = role.toggles) :
    t.Switched switches drawn { t with roles := t.roles.insert role } := by
  refine .of_none h fun r hr => Or.inl ?_
  rcases mem_insert.1 hr with rfl | ⟨hr, _⟩
  · exact ⟨stored, hstored, hid, same⟩
  · exact ⟨r, hr, rfl, rfl⟩

end Store.Tables.Switched

namespace Supply

variable {ids : Supply} {count n : Nat}

theorem draw_mem_upcoming (noun : Noun) : (@draw noun ids).1.value ∈ ids.upcoming (count + 1) := by
  rw [(draw_eq ids noun .tenant).1]
  exact List.mem_cons_self

theorem mem_upcoming_of_next (noun : Noun) (h : n ∈ (@draw noun ids).2.upcoming count) :
    n ∈ ids.upcoming (count + 1) := by
  rw [(draw_eq ids noun .tenant).2] at h
  exact List.mem_cons_of_mem _ h

end Supply

/-- The roles of a new initiative have identifiers that were drawn, and no toggles. -/
theorem Role.drawn_of_mem_seeded {i : InitiativeId} {ids : Supply} {role : Role}
    (h : role ∈ seeded i ids) : role.id.value ∈ ids.upcoming 3 ∧ role.toggles = [] := by
  simp only [seeded, List.mem_cons, List.not_mem_nil, or_false] at h
  rcases h with rfl | rfl
  · exact ⟨Supply.mem_upcoming_of_next .initiative (Supply.draw_mem_upcoming .role), rfl⟩
  · exact ⟨Supply.mem_upcoming_of_next .initiative
      (Supply.mem_upcoming_of_next .role (Supply.draw_mem_upcoming .role)), rfl⟩

theorem Administration.switchFeature_switched {f f' : Frame Tables} {scope : Scope} {id : RoleId}
    {c : Feature} {enabled : Bool} {role : Role} {drawn : List Nat}
    (h : switchFeature scope id c enabled f = (.ok role, f')) :
    f.store.Switched (Command.switchFeature id c enabled).switches drawn f'.store := by
  obtain ⟨stored, _, _, managed, _, step⟩ := switchFeature_ok h
  obtain ⟨hstored, hid⟩ := find?_eq_some_iff.1 (Scope.managedRole_eq_ok.1 managed).1
  obtain ⟨_, old, found, e⟩ := Tables.step_putToggle.1 step
  obtain ⟨hold, same⟩ := find?_eq_some_iff.1 found
  obtain rfl := eq_of_key hold hstored same
  obtain rfl : old.id = id := hid
  constructor
  · intro id' c' enabled' switched
    simp only [Command.switches, Option.ite_none_right_eq_some] at switched
    exact ⟨old, hold, switched.1.1⟩
  · intro r hr
    rw [← e] at hr
    rcases mem_insert.1 hr with rfl | ⟨hr, other⟩
    · refine Or.inl ⟨old, hold, rfl, fun d => ?_⟩
      rw [Role.setting?_withToggle]
      by_cases e : c = d
      · simp [Command.switches, Role.withToggle, e]
      · simp [Command.switches, e]
    · have other : ¬ old.id = r.id := fun e => other e.symm
      exact Or.inl ⟨r, hr, rfl, fun d => by simp [Command.switches, other]⟩

/-- Only the command that switches a feature changes what a role says about it. -/
theorem Command.perform_switched {f f' : Frame Tables} {scope : Scope} {settings : Settings}
    {command : Command} {answer : Answer} (ht : f.store.Consistent)
    (fresh : f.ids.FreshFor (command.draws settings) f.store)
    (h : command.perform settings scope f = (.ok answer, f')) :
    f.store.Switched command.switches (f.ids.upcoming (command.draws settings)) f'.store := by
  open Administration in
  cases command with
  | startInitiative name =>
    obtain ⟨_, done, rfl⟩ := return_ok.1 h
    refine .of_none (fun _ _ => rfl) fun r hr => ?_
    cases startInitiative_roles fresh done with
    | started _ roles =>
      rcases (roles r).1 hr with hr | ⟨seeds, new⟩
      · exact Or.inl ⟨r, hr, rfl, rfl⟩
      · rw [draws, if_pos seeds]
        exact Or.inr (Role.drawn_of_mem_seeded new)
  | defineRole i name isManager =>
    obtain ⟨_, done, rfl⟩ := return_ok.1 h
    obtain ⟨_, _, _, _, _, _, rfl, step⟩ := defineRole_ok done
    obtain ⟨_, _, _, e⟩ := Tables.step_putRole.1 step
    refine .of_none (fun _ _ => rfl) fun r hr => ?_
    rw [← e] at hr
    rcases mem_insert.1 hr with rfl | ⟨hr, _⟩
    · exact Or.inr ⟨Supply.draw_mem_upcoming .role, rfl⟩
    · exact Or.inl ⟨r, hr, rfl, rfl⟩
  | relabelRole id name =>
    obtain ⟨_, done, rfl⟩ := return_ok.1 h
    obtain ⟨stored, _, managed, _, ⟨_, same⟩ | ⟨_, _, rfl, _, step⟩⟩ := relabelRole_ok done
    · exact .of_same (fun _ _ => rfl) (congrArg Tables.roles same)
    · obtain ⟨_, _, _, e⟩ := Tables.step_putRole.1 step
      exact e ▸ .of_rewritten (fun _ _ => rfl) (managedRole_tenant managed).1 rfl rfl
  | empowerRole id isManager =>
    obtain ⟨_, done, rfl⟩ := return_ok.1 h
    obtain ⟨stored, _, _, managed, _, rfl, step⟩ := empowerRole_ok done
    obtain ⟨_, _, _, e⟩ := Tables.step_putRole.1 step
    exact e ▸ .of_rewritten (fun _ _ => rfl) (managedRole_tenant managed).1 rfl rfl
  | retireRole id =>
    obtain ⟨_, done, rfl⟩ := return_ok.1 h
    obtain ⟨_, _, _, _, _, roles⟩ := retireRole_erased ht done
    refine .of_none (fun _ _ => rfl) fun r hr => Or.inl ⟨r, ?_, rfl, rfl⟩
    rw [roles] at hr
    exact (mem_erase.1 hr).1
  | switchFeature id c enabled =>
    obtain ⟨_, done, rfl⟩ := return_ok.1 h
    exact switchFeature_switched done
  | _ => exact .of_same (fun _ _ => rfl) (perform_aside ht rfl h).2.1

theorem Call.perform_switched {f f' : Frame Tables} {settings : Settings} {call : Call}
    {answer : Answer} (ht : f.store.Consistent)
    (fresh : f.ids.FreshFor (call.draws settings) f.store)
    (h : call.perform settings f = (.ok answer, f')) :
    f.store.Switched call.switches (f.ids.upcoming (call.draws settings)) f'.store := by
  obtain ⟨_, _, _, events, rfl, _, performed⟩ | ⟨none, _, _, _, _, e⟩ := perform_cases h
  · exact Command.perform_switched (f := { f with events }) ht fresh performed
  · rw [e]
    exact .of_same (fun _ _ => by rw [switches, none, Option.bind_none]) rfl

namespace Call

/-! ## The last switch -/

/-- The roles are as they were last switched, and the identifiers in use have been drawn. -/
structure SwitchedLast (log : List Entry) (t : Tables) : Prop where
  drawn : ∀ r ∈ t.roles, r.id.value ∈ log.flatMap Entry.drawn
  known : ∀ entry ∈ log, ∀ id c enabled, entry.switches id c = some enabled →
    id.value ∈ log.flatMap Entry.drawn
  settings : ∀ r ∈ t.roles, ∀ c, r.setting? c = lastSwitch log r.id c

namespace SwitchedLast

variable {log : List Entry} {entry : Entry} {t t' : Tables}

theorem empty : SwitchedLast [] .empty :=
  ⟨fun _ hr => absurd hr not_mem_empty, fun _ h => absurd h List.not_mem_nil,
    fun _ hr => absurd hr not_mem_empty⟩

theorem lastSwitch_eq_none (h : SwitchedLast log t) {id : RoleId}
    (new : id.value ∉ log.flatMap Entry.drawn) (c : Feature) : lastSwitch log id c = none := by
  refine List.findSome?_eq_none_iff.2 fun entry listed => ?_
  refine Option.eq_none_iff_forall_ne_some.2 fun enabled switched => ?_
  exact new (h.known entry listed id c enabled switched)

theorem failed (h : SwitchedLast log t) {e : Failure} (result : entry.result = .error e) :
    SwitchedLast (entry :: log) t := by
  have none : ∀ id c, entry.switches id c = none := fun id c => by
    rw [Entry.switches, result]
  constructor
  · intro r hr
    exact List.mem_append_right _ (h.drawn r hr)
  · intro earlier listed id c enabled switched
    rcases List.mem_cons.1 listed with rfl | listed
    · rw [none] at switched
      cases switched
    · exact List.mem_append_right _ (h.known earlier listed id c enabled switched)
  · intro r hr c
    rw [lastSwitch_cons, none, Option.none_or]
    exact h.settings r hr c

theorem step (h : SwitchedLast log t) {answer : Answer} (result : entry.result = .ok answer)
    (once : DrawnOnce (entry :: log))
    (step : t.Switched entry.call.switches entry.drawn t') : SwitchedLast (entry :: log) t' := by
  have switches : ∀ id c, entry.switches id c = entry.call.switches id c := fun id c => by
    rw [Entry.switches, result]
  have new : ∀ n ∈ entry.drawn, n ∉ log.flatMap Entry.drawn := fun n drawn earlier =>
    List.disjoint_of_nodup_append once drawn earlier
  constructor
  · intro r hr
    rcases step.roles r hr with ⟨old, hold, e, _⟩ | ⟨drawn, _⟩
    · exact List.mem_append_right _ (e ▸ h.drawn old hold)
    · exact List.mem_append_left _ drawn
  · intro earlier listed id c enabled switched
    rcases List.mem_cons.1 listed with rfl | listed
    · rw [switches] at switched
      obtain ⟨r, hr, rfl⟩ := step.stored id c enabled switched
      exact List.mem_append_right _ (h.drawn r hr)
    · exact List.mem_append_right _ (h.known earlier listed id c enabled switched)
  · intro r hr c
    rw [lastSwitch_cons, switches]
    rcases step.roles r hr with ⟨old, hold, e, same⟩ | ⟨drawn, plain⟩
    · rw [same, h.settings old hold, e]
    · -- a new role was not there to be switched
      have unswitched : entry.call.switches r.id c = none := by
        refine Option.eq_none_iff_forall_ne_some.2 fun enabled switched => ?_
        obtain ⟨old, hold, e⟩ := step.stored r.id c enabled switched
        exact new _ drawn (e ▸ h.drawn old hold)
      rw [unswitched, Option.none_or, h.lastSwitch_eq_none (new _ drawn), Role.setting?, plain]
      rfl

end SwitchedLast

end Call

theorem Role.permits_iff {role : Role} {c : Feature} : role.permits c = true ↔
    role.isManager = true ∨ role.setting? c = some true ∨
      role.setting? c = none ∧ c.isDefault = true := by
  rw [permits, Bool.or_eq_true]
  cases role.setting? c with
  | none => simp
  | some enabled => simp

/-! ## Features -/

section Features

variable {σ : Type} [Store.Backend σ] {s : σ} {scope : Scope} {initiative : Initiative} {c : Feature}

/-- In an initiative in sight a feature is there just if the role held there lets the principal have it. -/
theorem Scope.hasFeature_found (found : scope.findInitiative s initiative.id = .ok initiative) :
    scope.hasFeature s initiative.id c =
      .ok (scope.principal.may (Store.heldRole s initiative.id scope.principal.id) c) := by
  rw [hasFeature, found]
  split
  · rename_i admin
    have platform : scope.principal.isPlatformAdmin = true := admin
    rw [Principal.may, platform, Bool.true_or]
  · rfl

theorem Scope.hasFeature_eq (ordinary : scope.isPlatformAdmin = false)
    (there : ask (.initiative initiative.id) s = some initiative)
    (sees : scope.reaches initiative = true) : scope.hasFeature s initiative.id c =
      .ok ((Store.heldRole s initiative.id scope.principal.id).any fun r => r.permits c) := by
  have found : scope.findInitiative s initiative.id = .ok initiative :=
    lift_refusal_eq_ok.2 (disclose_eq_ok.2 ⟨there, sees⟩)
  have plain : scope.principal.isPlatformAdmin = false := ordinary
  rw [hasFeature_found found, Principal.may, plain, Bool.false_or]

theorem Store.heldRole_permits {i : InitiativeId} {p : PrincipalId} :
    ((heldRole s i p).any fun r => r.permits c) = true ↔
      ∃ m role, ask (.membership i p) s = some m ∧ ask (.role m.role) s = some role ∧
        role.permits c = true := by
  rw [heldRole]
  cases held : ask (.membership i p) s with
  | none => simp
  | some m =>
    simp only [Option.any_eq_true, Option.some.injEq, exists_and_left, exists_eq_left']

end Features

namespace Logged

variable {σ : Type} [Store.Backend σ] [Faithful σ] {log : List Call.Entry} {s : σ}

theorem switchedLast (h : Logged log s) :
    Call.DrawnOnce log → Call.SwitchedLast log (tables s) := by
  refine h.invariant (P := fun log t => Call.DrawnOnce log → Call.SwitchedLast log t)
    (fun _ => .empty) ?_ ?_
  · intro log t entry e switched result once
    exact (switched (List.Nodup.of_append_right once)).failed result
  · intro log entry answer f f' ht switched drawn fresh result performed once
    have step := Call.perform_switched ht fresh performed
    have used : entry.drawn = f.ids.upcoming (entry.call.draws entry.settings) := by
      rw [Call.Entry.drawn, result, drawn]
    rw [← used] at step
    exact (switched (List.Nodup.of_append_right once)).step result once step

/-- Every stored role says about a feature what it was last switched to, and nothing if it never was. So
a caller that is no administrator of the platform has a feature in an initiative in sight just if it
is a member there whose role manages, was last switched to have the feature, or was never switched where
the feature is on by default. -/
theorem last_switch_counts (h : Logged log s) (once : Call.DrawnOnce log) :
    (∀ id role, ask (.role id) s = some role → ∀ c, role.setting? c = Call.lastSwitch log id c) ∧
      ∀ (settings : Settings) (caller : Caller) (ids : Supply) (scope : Scope) (i : InitiativeId)
        (initiative : Initiative) (c : Feature), caller.scope settings s = .ok scope →
        scope.isPlatformAdmin = false → ask (.initiative i) s = some initiative →
        scope.sees initiative.tenant = true →
        ∃ b, ((Call.request caller (.ask (.feature i c))).run settings s ids).result = .ok (.flag b) ∧
          (b = true ↔ ∃ m role, ask (.membership i caller.principal) s = some m ∧
            ask (.role m.role) s = some role ∧
            (role.isManager = true ∨ Call.lastSwitch log m.role c = some true ∨
              Call.lastSwitch log m.role c = none ∧ c.isDefault = true)) := by
  have sound := h.reachable.sound
  have said : ∀ id role, ask (.role id) s = some role →
      ∀ c, role.setting? c = Call.lastSwitch log id c := by
    intro id role found c
    rw [Faithful.ask_eq sound] at found
    obtain ⟨hr, rfl⟩ := find?_eq_some_iff.1 found
    exact (h.switchedLast once).settings role hr c
  refine ⟨said, ?_⟩
  intro settings caller ids scope i initiative c opened ordinary there sees
  have hid : initiative.id = i := by
    rw [Faithful.ask_eq sound] at there
    exact (find?_eq_some_iff.1 there).2
  subst hid
  have own : scope.principal.id = caller.principal := by
    rw [Caller.scope_tables sound] at opened
    exact (Caller.scope_backed opened).1
  refine ⟨(Store.heldRole s initiative.id scope.principal.id).any fun r => r.permits c, ?_, ?_⟩
  · rw [Call.ask_result, opened]
    simp only [Except.bind, Question.answer, Scope.hasFeature_eq ordinary there sees]
    rfl
  · rw [Store.heldRole_permits, own]
    refine exists_congr fun m => exists_congr fun role => and_congr_right fun _ =>
      and_congr_right fun found => ?_
    rw [Role.permits_iff, said m.role role found]

/-- Such as a role whose feature was switched on and, after a new role and a new member, off again, so
that the member does not have it. -/
theorem last_switch_counts_founding :
    let ada : Caller := ⟨Supply.numberedId 0, .member, Supply.numberedId 1, .activeTenant⟩
    let bob : Caller := ⟨Supply.numberedId 6, .member, Supply.numberedId 1, .activeTenant⟩
    let order (command : Command) : Call := .request ada (.order command)
    let switch (enabled : Bool) : Call :=
      order (.switchFeature (Supply.numberedId 4) .createDocs enabled)
    let s₁ : Store.Database :=
      ((Call.register "ada" .member).run default Store.Backend.empty ⟨[], 0⟩).store
    let s₂ := ((Call.foundTenant ada.principal "acme").run default s₁ ⟨[], 1⟩).store
    let s₃ := ((order (.startInitiative "launch")).run default s₂ ⟨[], 2⟩).store
    let s₄ := ((switch true).run default s₃ ⟨[], 5⟩).store
    let s₅ := ((order (.defineRole (Supply.numberedId 2) "guests" false)).run default s₄ ⟨[], 5⟩).store
    let s₆ := ((Call.register "bob" .member).run default s₅ ⟨[], 6⟩).store
    let s₇ := ((order (.bringIn bob.principal .member)).run default s₆ ⟨[], 7⟩).store
    let s₈ := ((order (.enrol (Supply.numberedId 2) bob.principal (Supply.numberedId 4))).run default
      s₇ ⟨[], 7⟩).store
    let s₉ := ((switch false).run default s₈ ⟨[], 7⟩).store
    (∃ role, ask (.role (Supply.numberedId 4)) s₉ = some role ∧
      role.setting? .createDocs = some false) ∧
      ((Call.request bob (.ask (.feature (Supply.numberedId 2) .createDocs))).run default s₉
        ⟨[], 7⟩).result = .ok (.flag false) := by
  intro ada bob order switch s₁ s₂ s₃ s₄ s₅ s₆ s₇ s₈ s₉
  have founded : Logged _ s₃ := ((Logged.start.call default (.register "ada" .member)
    (by decide +kernel)).call default (.foundTenant ada.principal "acme")
    (by decide +kernel)).call default (order (.startInitiative "launch")) (by decide +kernel)
  have switched : Logged _ s₆ := ((founded.call default (switch true) (by decide +kernel)).call default
    (order (.defineRole (Supply.numberedId 2) "guests" false)) (by decide +kernel)).call default
    (.register "bob" .member) (by decide +kernel)
  have logged : Logged _ s₉ := ((switched.call default (order (.bringIn bob.principal .member))
    (by decide +kernel)).call default
    (order (.enrol (Supply.numberedId 2) bob.principal (Supply.numberedId 4)))
    (by decide +kernel)).call default (switch false) (by decide +kernel)
  obtain ⟨said, counts⟩ := logged.last_switch_counts (by decide +kernel)
  obtain ⟨role, stored⟩ := Option.isSome_iff_exists.1
    (show (ask (.role (Supply.numberedId 4)) s₉).isSome = true by decide +kernel)
  have last := said _ role stored .createDocs
  have off : role.setting? .createDocs = some false := last.trans (by decide +kernel)
  have there : ask (.initiative (Supply.numberedId 2)) s₉ =
      some ⟨Supply.numberedId 2, Supply.numberedId 1, "launch"⟩ := by decide +kernel
  have held : ask (.membership (Supply.numberedId 2) bob.principal) s₉ =
      some ⟨Supply.numberedId 2, bob.principal, Supply.numberedId 4⟩ := by decide +kernel
  have plain : (ask (.role (Supply.numberedId 4)) s₉).map Role.isManager = some false := by
    decide +kernel
  obtain ⟨scope, opened, seen⟩ := exists_of_toOption_map (x := bob.scope default s₉)
    (g := fun scope => (scope.isPlatformAdmin, scope.sees (Supply.numberedId 1)))
    (b := (false, true)) (by decide +kernel)
  obtain ⟨ordinary, sees⟩ := Prod.mk.inj seen
  obtain ⟨b, answered, has⟩ := counts default bob ⟨[], 7⟩ scope _ _ .createDocs opened ordinary there sees
  refine ⟨⟨role, stored, off⟩, ?_⟩
  suffices denied : b = false by rw [answered, denied]
  rw [Bool.eq_false_iff, ne_eq, has]
  rintro ⟨m, role', member, found, allowed⟩
  obtain rfl : _ = m := Option.some.inj (held.symm.trans member)
  rw [found] at plain
  rcases allowed with manages | on | ⟨none, _⟩
  · rw [Option.map_some, manages] at plain
    cases plain
  · cases off.symm.trans (last.trans on)
  · cases off.symm.trans (last.trans none)

end Logged

end TenantAccess
