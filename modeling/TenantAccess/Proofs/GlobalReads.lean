import TenantAccess.Proofs.Reading

/-!
# Reads across tenants

A caller that reads globally gets what it would get in each of the tenants that it belongs to, put
together, wherever it acts. Where the settings do not allow global reads it is served like one that reads
in the tenant that it acts in.
-/

namespace TenantAccess

open Store (Faithful Tables)
open Store.Faithful (tables)
open Transaction Table

/-- The caller, acting in a tenant and reading that far. -/
def Caller.reading (caller : Caller) (reach : Reach) (u : TenantId) : Caller :=
  { caller with tenant := u, reach }

/-- Questions about what is in sight, and not about the tenant that the caller acts in. -/
def Question.OnSight : Question → Prop
  | scope => False
  | levelAtLeast _ minimum => minimum = .read
  | level _ | feature .. | roles _ | visible | usable _ => True

/-- What is read afar is the union of what is read near by, in each of the tenants that the caller
belongs to. -/
structure Caller.ReadsUnion (caller : Caller) (t : Tables)
    (near : TenantId → Question → Except Failure Answer) (far : Question → Except Failure Answer) :
    Prop where
  /-- A listing in a tenant of the caller never fails. -/
  answered : ∀ u, caller.BelongsTo t u → (∃ ids, near u .visible = .ok (.resourceIds ids)) ∧
    ∀ minimum, ∃ entries, near u (.usable minimum) = .ok (.levels entries)
  visible : ∃ all : IdSet .resource, far .visible = .ok (.resourceIds all) ∧
    ∀ id, id ∈ all ↔ ∃ u ids, caller.BelongsTo t u ∧ near u .visible = .ok (.resourceIds ids) ∧
      id ∈ ids
  /-- The usable resources are merged by their identifiers, each one once. -/
  usable : ∀ minimum, ∃ all, far (.usable minimum) = .ok (.levels all) ∧
    (all.Pairwise fun a b => place a.1 < place b.1) ∧
    ∀ entry, entry ∈ all ↔ ∃ u entries, caller.BelongsTo t u ∧
      near u (.usable minimum) = .ok (.levels entries) ∧ entry ∈ entries
  level : ∀ x ∈ t.resources, caller.BelongsTo t x.tenant → ∃ held,
    near x.tenant (.level x.id) = .ok (.level held) ∧ far (.level x.id) = .ok (.level held)
  missing : ∀ id, (∀ x ∈ t.resources, x.id = id → ¬ caller.BelongsTo t x.tenant) →
    NotFound (far (.level id))

/-- The outcomes are the same, but for a report that global reads are switched off. -/
structure Outcome.SameButWarned {σ α : Type} (p : PrincipalId) (o o' : Outcome σ α) : Prop where
  result : o.result = o'.result
  store : o.store = o'.store
  ids : o.ids = o'.ids
  events : ∃ said later, o'.events = said ++ later ∧
    (o.events = said ++ later ∨ o.events = said ++ .globalReadsDisabled p :: later)

/-! ## One principal in several scopes -/

namespace Scope

variable {scope scope' : Scope} {t : Tables} {q : Question}

/-- What is in sight is the same for one principal in scopes that see the same tenants. -/
theorem answer_congr (ht : t.Consistent) (same : scope.principal = scope'.principal)
    (sees : scope.sees = scope'.sees) (hq : q.OnSight) :
    q.answer scope t = q.answer scope' t := by
  have reaches {R : Type} [InTenant R] : scope.reaches (α := R) = scope'.reaches :=
    funext fun x => congrFun sees (InTenant.tenant x)
  have resource (id : ResourceId) : scope.findResource t id = scope'.findResource t id := by
    simp only [findResource, disclose, reaches]
  have initiative (i : InitiativeId) : scope.findInitiative t i = scope'.findInitiative t i := by
    simp only [findInitiative, disclose, reaches]
  have effective (x : Resource) : scope.effective t x = scope'.effective t x := by
    simp only [effective, roleThere, same]
  have admin : scope.isPlatformAdmin = scope'.isPlatformAdmin := congrArg Principal.isPlatformAdmin same
  have reading : Level.read.isChanging = false := rfl
  cases q with
  | scope => exact hq.elim
  | level id => simp only [Question.answer, level, resource, effective]
  | levelAtLeast id minimum =>
    obtain rfl : minimum = .read := hq
    simp only [Question.answer, levelAtLeast, resource, effective, roleThere, same, reading,
      Bool.false_and]
  | feature i f => simp only [Question.answer, hasFeature, admin, initiative, same]
  | roles i => simp only [Question.answer, roles, initiative]
  | visible => simp only [Question.answer, visibleIds, visible_eq, reaches]
  | usable minimum => simp only [Question.answer, usable_eq ht, reaches, same]

end Scope

/-! ## The tenants of a caller -/

namespace Caller

variable {settings : Settings} {caller : Caller} {t : Tables} {u v : TenantId}

/-- An ordinary caller that reads in one of its tenants sees that one. -/
theorem sees_near (ordinary : ¬ t.PlatformAdmin caller.principal) (belongs : caller.BelongsTo t u) :
    (caller.reading .activeTenant u).Sees settings t v ↔ v = u := by
  constructor
  · rintro (admin | ⟨_, rfl | ⟨far, _⟩⟩)
    · exact absurd admin ordinary
    · rfl
    · cases far
  · rintro rfl
    exact Or.inr ⟨belongs, Or.inl rfl⟩

/-- One that reads globally sees all tenants that it belongs to. -/
theorem sees_far (on : settings.globalReads = true) (ordinary : ¬ t.PlatformAdmin caller.principal) :
    (caller.reading .global u).Sees settings t v ↔ caller.BelongsTo t v := by
  constructor
  · rintro (admin | ⟨belongs, _⟩)
    · exact absurd admin ordinary
    · exact belongs
  · exact fun belongs => Or.inr ⟨belongs, Or.inr ⟨rfl, on⟩⟩

namespace ReadsAgree

variable {asked : Question → Except Failure Answer} (h : caller.ReadsAgree settings t asked)

include h

theorem level_eq_ok {id : ResourceId} {level : Option Level} : asked (.level id) = .ok (.level level) ↔
    ∃ x ∈ t.resources, x.id = id ∧ caller.Sees settings t x.tenant ∧
      t.levelOn x caller.principal = level := by
  constructor
  · intro told
    by_cases there : ∃ x ∈ t.resources, x.id = id ∧ caller.Sees settings t x.tenant
    · obtain ⟨x, hx, rfl, sees⟩ := there
      exact ⟨x, hx, rfl, sees, Answer.level.inj (Except.ok.inj ((h.level x hx sees).symm.trans told))⟩
    · obtain ⟨target, e⟩ := (h.missing id).2 there
      cases told.symm.trans e
  · rintro ⟨x, hx, rfl, sees, rfl⟩
    exact h.level x hx sees

theorem mem_visible {ids : IdSet .resource} (listed : asked .visible = .ok (.resourceIds ids))
    {id : ResourceId} : id ∈ ids ↔ ∃ x ∈ t.resources, x.id = id ∧ caller.Sees settings t x.tenant := by
  obtain ⟨_, e, exact⟩ := h.visible
  obtain rfl := Answer.resourceIds.inj (Except.ok.inj (listed.symm.trans e))
  simp only [exact, h.level_eq_ok]
  constructor
  · rintro ⟨_, x, hx, e, sees, _⟩
    exact ⟨x, hx, e, sees⟩
  · rintro ⟨x, hx, e, sees⟩
    exact ⟨_, x, hx, e, sees, rfl⟩

theorem mem_usable {minimum : Level} {entries : List (Resource × Level)}
    (listed : asked (.usable minimum) = .ok (.levels entries)) {x : Resource} {held : Level} :
    (x, held) ∈ entries ↔ x ∈ t.resources ∧ caller.Sees settings t x.tenant ∧
      t.levelOn x caller.principal = some held ∧ minimum ≤ held := by
  obtain ⟨_, e, _, exact⟩ := h.usable minimum
  obtain rfl := Answer.levels.inj (Except.ok.inj (listed.symm.trans e))
  simp only [exact, h.level_eq_ok]
  constructor
  · rintro ⟨hx, ⟨y, hy, e, sees, level⟩, meets⟩
    obtain rfl := eq_of_key hy hx e
    exact ⟨hx, sees, level, meets⟩
  · rintro ⟨hx, sees, level, meets⟩
    exact ⟨hx, ⟨x, hx, rfl, sees, level⟩, meets⟩

end ReadsAgree

theorem readsUnion (on : settings.globalReads = true)
    (ordinary : ¬ t.PlatformAdmin caller.principal)
    {near : TenantId → Question → Except Failure Answer} {far : Question → Except Failure Answer}
    (nearby : ∀ u, caller.BelongsTo t u →
      (caller.reading .activeTenant u).ReadsAgree settings t (near u))
    (afar : (caller.reading .global v).ReadsAgree settings t far) :
    caller.ReadsUnion t near far := by
  have here {u w : TenantId} (belongs : caller.BelongsTo t u) :
      (caller.reading .activeTenant u).Sees settings t w ↔ w = u := sees_near ordinary belongs
  have there {w : TenantId} : (caller.reading .global v).Sees settings t w ↔ caller.BelongsTo t w :=
    sees_far on ordinary
  have listed {u : TenantId} (belongs : caller.BelongsTo t u) :
      ∃ ids, near u .visible = .ok (.resourceIds ids) := (nearby u belongs).visible.imp fun _ => And.left
  have used {u : TenantId} (belongs : caller.BelongsTo t u) (minimum : Level) :
      ∃ entries, near u (.usable minimum) = .ok (.levels entries) :=
    ((nearby u belongs).usable minimum).imp fun _ => And.left
  constructor
  case answered => exact fun u belongs => ⟨listed belongs, used belongs⟩
  case visible =>
    obtain ⟨all, told, _⟩ := afar.visible
    refine ⟨all, told, fun id => ?_⟩
    simp only [afar.mem_visible told, there]
    constructor
    · rintro ⟨x, hx, e, belongs⟩
      obtain ⟨ids, told⟩ := listed belongs
      exact ⟨x.tenant, ids, belongs, told,
        ((nearby _ belongs).mem_visible told).2 ⟨x, hx, e, (here belongs).2 rfl⟩⟩
    · rintro ⟨u, ids, belongs, told, member⟩
      obtain ⟨x, hx, e, sees⟩ := ((nearby u belongs).mem_visible told).1 member
      exact ⟨x, hx, e, (here belongs).1 sees ▸ belongs⟩
  case usable =>
    intro minimum
    obtain ⟨all, told, ordered, _⟩ := afar.usable minimum
    refine ⟨all, told, ordered, fun ⟨x, held⟩ => ?_⟩
    simp only [afar.mem_usable told, there]
    constructor
    · rintro ⟨hx, belongs, level⟩
      obtain ⟨entries, told⟩ := used belongs minimum
      exact ⟨x.tenant, entries, belongs, told,
        ((nearby _ belongs).mem_usable told).2 ⟨hx, (here belongs).2 rfl, level⟩⟩
    · rintro ⟨u, entries, belongs, told, member⟩
      obtain ⟨hx, sees, level⟩ := ((nearby u belongs).mem_usable told).1 member
      exact ⟨hx, (here belongs).1 sees ▸ belongs, level⟩
  case level =>
    exact fun x hx belongs => ⟨_, (nearby _ belongs).level x hx ((here belongs).2 rfl),
      afar.level x hx (there.2 belongs)⟩
  case missing =>
    intro id none
    refine (afar.missing id).2 ?_
    rintro ⟨x, hx, e, sees⟩
    exact none x hx e (there.1 sees)

/-- From whichever of its tenants the caller reads globally, the same is in sight. -/
theorem answer_far (ht : t.Consistent) (on : settings.globalReads = true)
    (ordinary : ¬ t.PlatformAdmin caller.principal) {scope scope' : Scope}
    (opened : (caller.reading .global u).scope settings t = .ok scope)
    (opened' : (caller.reading .global v).scope settings t = .ok scope') {q : Question}
    (hq : q.OnSight) : q.answer scope t = q.answer scope' t := by
  obtain ⟨principal, found, same, _⟩ := scope_eq_ok opened
  obtain ⟨principal', found', same', _⟩ := scope_eq_ok opened'
  obtain rfl : principal = principal' := Option.some.inj (found.symm.trans found')
  refine Scope.answer_congr ht (same.trans same'.symm) (funext fun w => ?_) hq
  rw [Bool.eq_iff_iff, sees_iff opened, sees_iff opened', sees_far on ordinary, sees_far on ordinary]

theorem overreaches_far (off : settings.globalReads = false) :
    (caller.reading .global u).overreaches settings = true := by
  simp [overreaches, reading, off]

theorem overreaches_near : (caller.reading .activeTenant u).overreaches settings = false := rfl

/-- Where global reads are switched off, who asks for them gets the scope of the tenant. -/
theorem scope_far {σ : Type} [Store.Backend σ] (off : settings.globalReads = false) (s : σ) :
    (caller.reading .global u).scope settings s =
      (caller.reading .activeTenant u).scope settings s := by
  simp only [scope, overreaches_far off, overreaches_near]
  rfl

/-- And it is reported that they are. -/
theorem warnings_far (off : settings.globalReads = false) (t : Tables) : ∃ more,
    (more = [] ∨ more = [.globalReadsDisabled caller.principal]) ∧
      (caller.reading .global u).warnings settings t =
        (caller.reading .activeTenant u).warnings settings t ++ more := by
  simp only [warnings, overreaches_far off, overreaches_near, Bool.and_true, Bool.and_false, ask_principal]
  cases found : t.principals.find? caller.principal with
  | none => exact ⟨[], Or.inl rfl, by simp only [reading, found]; rfl⟩
  | some principal =>
    have e : principal.id = caller.principal := (find?_eq_some_iff.1 found).2
    refine ⟨if (Store.Backend.ask (.tenant u) t).isSome then [.globalReadsDisabled principal.id] else [],
      ?_, ?_⟩
    · rw [e]
      split
      · exact Or.inr rfl
      · exact Or.inl rfl
    · simp only [reading, found, Bool.false_eq_true, if_false, List.append_nil]
      rfl

end Caller

/-! ## Requests -/

namespace Reachable

variable {σ : Type} [Store.Backend σ] [Faithful σ] {s : σ} {settings on off : Settings}
  {caller : Caller} {u : TenantId}

/-- Where a request says that it reads globally and may not, it is told so and served in the tenant. -/
theorem request_sameButWarned (h : Reachable s) (disallowed : off.globalReads = false)
    (caller : Caller) (u : TenantId) (r : Request) (ids : Supply) :
    ((Call.request (caller.reading .global u) r).run off s ids).SameButWarned caller.principal
      ((Call.request (caller.reading .activeTenant u) r).run off s ids) := by
  obtain ⟨more, said, warned⟩ := caller.warnings_far (u := u) disallowed (tables s)
  rw [Call.request_run, Call.request_run, Caller.scope_far disallowed, Caller.warnings_tables h.sound,
    Caller.warnings_tables h.sound, warned]
  refine ⟨rfl, rfl, rfl, _, _, rfl, ?_⟩
  rcases said with rfl | rfl
  · exact Or.inl (by rw [List.append_nil]; rfl)
  · exact Or.inr (List.append_assoc ..)

theorem ask_answered (h : Reachable s) (caller : Caller)
    (belongs : caller.BelongsTo (tables s) caller.tenant) (settings : Settings) (ids : Supply) :
    ∃ scope, caller.scope settings (tables s) = .ok scope ∧
      ∀ q, ((Call.request caller (.ask q)).run settings s ids).result = q.answer scope (tables s) := by
  obtain ⟨scope, opened⟩ := caller.scope_opens_of_member h.consistent belongs settings
  refine ⟨scope, opened, fun q => ?_⟩
  rw [Call.ask_result, caller.scope_tables h.sound, opened]
  exact Question.answer_tables h.sound scope q

/-- Global reads of an ordinary caller give the union of its reads in each of its tenants, and the same
from all of them. Where they are switched off, requests that ask for them are served in the tenant. -/
theorem global_reads (h : Reachable s) (allowed : on.globalReads = true)
    (disallowed : off.globalReads = false) (caller : Caller) (ids : Supply) :
    (¬ (tables s).PlatformAdmin caller.principal → ∀ u, caller.BelongsTo (tables s) u →
      (caller.ReadsUnion (tables s)
        (fun v q => ((Call.request (caller.reading .activeTenant v) (.ask q)).run on s ids).result)
        fun q => ((Call.request (caller.reading .global u) (.ask q)).run on s ids).result) ∧
      ∀ v, caller.BelongsTo (tables s) v → ∀ q : Question, q.OnSight →
        ((Call.request (caller.reading .global u) (.ask q)).run on s ids).result =
          ((Call.request (caller.reading .global v) (.ask q)).run on s ids).result) ∧
    ∀ u r, ((Call.request (caller.reading .global u) r).run off s ids).SameButWarned caller.principal
      ((Call.request (caller.reading .activeTenant u) r).run off s ids) := by
  refine ⟨fun ordinary u belongs => ⟨?_, fun v belongs' q hq => ?_⟩, fun u r =>
    h.request_sameButWarned disallowed caller u r ids⟩
  · have agree (reach : Reach) {u : TenantId} (belongs : caller.BelongsTo (tables s) u) :
        (caller.reading reach u).ReadsAgree on (tables s) fun q =>
          ((Call.request (caller.reading reach u) (.ask q)).run on s ids).result := by
      obtain ⟨scope, opened, answered⟩ := h.ask_answered (caller.reading reach u) belongs on ids
      simp only [answered]
      exact Caller.readsAgree h.consistent opened
    exact Caller.readsUnion allowed ordinary (fun u belongs => agree .activeTenant belongs)
      (agree .global belongs)
  · obtain ⟨scope, opened, answered⟩ :=
      h.ask_answered (caller.reading .global u) belongs on ids
    obtain ⟨scope', opened', answered'⟩ :=
      h.ask_answered (caller.reading .global v) belongs' on ids
    rw [answered, answered']
    exact Caller.answer_far h.consistent allowed ordinary opened opened' hq

/-- Such as those of a founder that a second one brings into its tenant. -/
theorem global_reads_shared :
    let acme : TenantId := Supply.numberedId 1
    let globex : TenantId := Supply.numberedId 7
    let invite : Call := .request ⟨Supply.numberedId 6, .member, globex, .activeTenant⟩
      (.order (.bringIn (Supply.numberedId 0) .member))
    let shared : Store.Database :=
      (Call.runAll default (Call.foundingTwo ++ [invite]) Store.Backend.empty .empty).1
    let ada : Caller := ⟨Supply.numberedId 0, .member, acme, .global⟩
    let on : Settings := ⟨true, true, true⟩
    ada.ReadsUnion (tables shared)
        (fun v q => ((Call.request (ada.reading .activeTenant v) (.ask q)).run on shared .empty).result)
        (fun q => ((Call.request (ada.reading .global globex) (.ask q)).run on shared .empty).result) ∧
      ((Call.request (ada.reading .global globex) (.ask .visible)).run on shared .empty).result =
        ((Call.request (ada.reading .global acme) (.ask .visible)).run on shared .empty).result ∧
      ((Call.request (ada.reading .global acme) (.ask .visible)).run default shared
        .empty).SameButWarned ada.principal
          ((Call.request (ada.reading .activeTenant acme) (.ask .visible)).run default shared .empty) := by
  intro acme globex invite shared ada on
  have reachable : Reachable shared := of_runAll (by decide +kernel)
  have member (u : TenantId) (h : ∃ m ∈ (tables shared).tenantMemberships.rows,
      m.principal = ada.principal ∧ m.tenant = u) : ada.BelongsTo (tables shared) u := h
  have first : ada.BelongsTo (tables shared) acme := member acme (by decide +kernel)
  have second : ada.BelongsTo (tables shared) globex := member globex (by decide +kernel)
  obtain ⟨read, warned⟩ := @global_reads _ _ _ _ on default reachable rfl rfl ada .empty
  obtain ⟨union, same⟩ := read (by decide +kernel) globex second
  exact ⟨union, same acme first .visible trivial, warned acme (.ask .visible)⟩

end Reachable

end TenantAccess
