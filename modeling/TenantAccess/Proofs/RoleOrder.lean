import TenantAccess.Proofs.LastSwitch
import TenantAccess.Proofs.Store.RolePositions

/-!
# The order of roles

The roles of an initiative are listed in the order in which they were created, whatever has become of
them or of others since. A new role gets a position behind those that are left, which are far from the
end of the numbers as long as roles have not been created over and over.
-/

namespace TenantAccess

open Store (Faithful Tables)
open Store.Backend (ask)
open Store.Faithful (tables)
open Transaction Table

/-! ## Grades -/

theorem Role.grade_le (role : Role) : role.grade ≤ 2 := by
  unfold grade
  split
  · omega
  · split <;> omega

theorem Role.grade_of_custom {role : Role} (custom : role.isSeeded = false) : role.grade = 2 := by
  obtain ⟨notManager, notMember⟩ := isSeeded_eq_false.1 custom
  rw [grade, if_neg notManager, if_neg notMember]

theorem Role.seeded_graded {i : InitiativeId} {ids : Supply} {a : Role} (ha : a ∈ seeded i ids) :
    ∀ b ∈ seeded i ids, a.grade < b.grade → a.position < b.position := by
  intro b hb hlt
  simp only [seeded, List.mem_cons, List.not_mem_nil, or_false] at ha hb
  rcases ha with rfl | rfl <;> rcases hb with rfl | rfl
  · exact absurd hlt (Nat.lt_irrefl _)
  · exact (by decide : (0 : UInt32) < 1)
  · exact absurd hlt (by decide : ¬ 1 < 0)
  · exact absurd hlt (Nat.lt_irrefl _)

/-! ## Commands -/

namespace Administration

private theorem foldl_position {roles : List Role} {bound : Nat} {p : UInt32}
    (below : ∀ r ∈ roles, r.position.toNat < bound) (room : bound < UInt32.size)
    (hp : p.toNat ≤ bound) :
    let next := roles.foldl (fun position r => max position (r.position + 1)) p
    p.toNat ≤ next.toNat ∧ (∀ r ∈ roles, r.position.toNat < next.toNat) ∧ next.toNat ≤ bound := by
  induction roles generalizing p with
  | nil => exact ⟨Nat.le_refl _, fun r hr => absurd hr List.not_mem_nil, hp⟩
  | cons a rest ih =>
    have ha := below a List.mem_cons_self
    have behind : (max p (a.position + 1)).toNat = max p.toNat (a.position.toNat + 1) := by
      have small : a.position.toNat + 1 < UInt32.size := by omega
      rw [UInt32.toNat_max, UInt32.toNat_add, UInt32.toNat_one, Nat.mod_eq_of_lt small]
    have rest_below : ∀ r ∈ rest, r.position.toNat < bound :=
      fun r hr => below r (List.mem_cons_of_mem _ hr)
    obtain ⟨first, others, top⟩ := ih (p := max p (a.position + 1)) rest_below (by omega)
    rw [List.foldl_cons]
    refine ⟨by omega, fun r hr => ?_, top⟩
    cases hr with
    | head => omega
    | tail _ hr => exact others r hr

/-- The next position is behind the others, and not further behind than it has to be. -/
theorem nextPosition_bounds {roles : List Role} {bound : Nat}
    (below : ∀ r ∈ roles, r.position.toNat < bound) (room : bound < UInt32.size) :
    (∀ r ∈ roles, r.position < nextPosition roles) ∧ (nextPosition roles).toNat ≤ bound := by
  obtain ⟨_, behind, top⟩ := foldl_position below room (p := 0) (Nat.zero_le _)
  exact ⟨fun r hr => UInt32.lt_iff_toNat_lt.2 (behind r hr), top⟩

variable {f f' : Frame Tables} {scope : Scope} {settings : Settings} {bound : Nat}

theorem defineRole_position {i : InitiativeId} {name : String} {isManager : Bool} {role : Role}
    (h : defineRole scope i name isManager f = (.ok role, f')) :
    role.initiative = i ∧ role.position = nextPosition (Store.Backend.ask (.rolesIn i) f.store) := by
  simp only [defineRole, bind_ok, current_ok, lift_ok, lift_refusal_ok, fresh_ok, change_ok, report_ok,
    pure_ok] at h
  obtain ⟨_, _, ⟨rfl, rfl⟩, initiative, _, ⟨managed, rfl⟩, _, _, _, _, _, _, _, _, ⟨rfl, _⟩, _, _, _, _, _,
    _, rfl, _⟩ := h
  obtain rfl : initiative.id = i :=
    (find?_eq_some_iff.1 (Scope.managedInitiative_eq_ok.1 managed).1).2
  exact ⟨rfl, rfl⟩

theorem defineRole_last {i : InitiativeId} {name : String} {isManager : Bool} {role : Role}
    (placed : f.store.Placed bound) (room : bound < UInt32.size)
    (h : defineRole scope i name isManager f = (.ok role, f')) :
    role.initiative = i ∧ (∀ r ∈ Store.Backend.ask (.rolesIn i) f.store, r.position < role.position) ∧
      role.position.toNat ≤ bound := by
  obtain ⟨here, position⟩ := defineRole_position h
  have below : ∀ r ∈ Store.Backend.ask (.rolesIn i) f.store, r.position.toNat < bound :=
    fun r hr => placed.below r (Tables.mem_rolesIn.1 hr).1
  obtain ⟨behind, top⟩ := nextPosition_bounds below room
  rw [← position] at behind top
  exact ⟨here, behind, top⟩

theorem defineRole_edited {i : InitiativeId} {name : String} {isManager : Bool} {role : Role}
    (fresh : f.ids.FreshFor 1 f.store) (placed : f.store.Placed bound) (room : bound < UInt32.size)
    (h : defineRole scope i name isManager f = (.ok role, f')) :
    f.store.Edited (bound + 1) (fun j listed => if i = j then listed ++ [role.id] else listed)
      f'.store := by
  obtain ⟨here, behind, top⟩ := defineRole_last placed room h
  obtain ⟨_, _, _, _, _, plain, new, step⟩ := defineRole_ok h
  obtain ⟨_, _, _, e⟩ := Tables.step_putRole.1 step
  have free : f.store.roles.contains role.id = false := by
    rw [new]
    exact fresh.role_free
  have custom : role.isSeeded = false := by
    rw [new]
    exact plain
  have mem (r : Role) : r ∈ f'.store.roles ↔ r ∈ f.store.roles ∨ r ∈ [role] := by
    rw [← e, mem_insert_free free, List.mem_singleton]
  have appended : Tables.Appended i [role] f.store f'.store := by
    refine ⟨mem, ?_, List.pairwise_singleton _ _, ?_, ?_⟩ <;> simp only [List.forall_mem_singleton]
    · exact here
    · exact fun hlt => absurd hlt (Nat.lt_irrefl _)
    · rw [Role.grade_of_custom custom]
      exact fun r hr hi => ⟨behind r (Tables.mem_rolesIn.2 ⟨hr, hi⟩), r.grade_le⟩
  refine appended.edited placed (Nat.le_succ _) ?_
  rw [List.forall_mem_singleton]
  omega

theorem startInitiative_edited {name : String} {i : Initiative} (ht : f.store.Consistent)
    (fresh : f.ids.FreshFor (if settings.seedsRoles then 3 else 1) f.store)
    (placed : f.store.Placed bound) (room : 2 ≤ bound)
    (h : startInitiative settings scope name f = (.ok i, f')) :
    f.store.Edited bound (fun j listed => if i.id = j ∧ settings.seedsRoles = true then
      listed ++ (Role.seeded i.id f.ids).map Role.id else listed) f'.store := by
  obtain ⟨new, _⟩ := startInitiative_ok h
  have free : f.store.initiatives.contains i.id = false := by
    rw [new]
    split at fresh <;> exact fresh.initiative_free
  have unnamed := newRole_free ht.stored free
  cases startInitiative_roles fresh h with
  | started _ roles =>
    by_cases seeds : settings.seedsRoles = true
    · simp only [seeds, and_true, true_and] at roles ⊢
      have appended : Tables.Appended i.id (Role.seeded i.id f.ids) f.store f'.store := by
        refine ⟨roles, ?_, ?_, fun a => Role.seeded_graded, fun r hr hi => absurd hi (unnamed r hr)⟩
        · simp [Role.seeded, Role.seededManager, Role.seededMember, Role.plain]
        · simp [Role.seeded, Role.seededManager, Role.seededMember, Role.plain]
      refine appended.edited placed (Nat.le_refl _) ?_
      simp [Role.seeded, Role.seededManager, Role.seededMember, Role.plain]
      omega
    · have same : f'.store.roles = f.store.roles := ext_mem fun r => by simp [roles, seeds]
      simp only [seeds, Bool.false_eq_true, and_false, if_false]
      exact .of_same placed same

end Administration

/-- How a command that gives an answer edits the list of the roles of an initiative. -/
def Command.lists (settings : Settings) (ids : Supply) (i : InitiativeId) (listed : List RoleId) :
    Command → Answer → List RoleId
  | startInitiative _, .initiative new =>
    if new.id = i ∧ settings.seedsRoles = true then listed ++ (Role.seeded new.id ids).map Role.id
    else listed
  | defineRole j .., .role role => if j = i then listed ++ [role.id] else listed
  | retireRole id, _ => listed.filter (· ≠ id)
  | _, _ => listed

def Command.definesRole : Command → Bool
  | defineRole .. => true
  | _ => false

theorem Command.perform_edited {f f' : Frame Tables} {scope : Scope} {settings : Settings}
    {command : Command} {answer : Answer} {bound : Nat} (ht : f.store.Consistent)
    (fresh : f.ids.FreshFor (command.draws settings) f.store) (placed : f.store.Placed bound)
    (two : 2 ≤ bound) (room : bound < UInt32.size)
    (h : command.perform settings scope f = (.ok answer, f')) :
    f.store.Edited (bound + command.definesRole.toNat)
      (fun i listed => command.lists settings f.ids i listed answer) f'.store := by
  open Administration in
  cases command with
  | startInitiative name =>
    obtain ⟨_, done, rfl⟩ := return_ok.1 h
    exact startInitiative_edited ht fresh placed two done
  | defineRole i name isManager =>
    obtain ⟨_, done, rfl⟩ := return_ok.1 h
    exact defineRole_edited fresh placed room done
  | relabelRole id name =>
    obtain ⟨_, done, rfl⟩ := return_ok.1 h
    obtain ⟨stored, _, managed, custom, ⟨_, same⟩ | ⟨_, plain, rfl, _, step⟩⟩ := relabelRole_ok done
    · exact .of_same placed (congrArg Tables.roles same)
    · obtain ⟨_, _, _, e⟩ := Tables.step_putRole.1 step
      have custom' : Role.isSeeded { stored with name } = false := plain
      have grade := (Role.grade_of_custom custom').trans (Role.grade_of_custom custom).symm
      exact .of_rewritten placed (congrArg Tables.roles e).symm (managedRole_tenant managed).1 rfl rfl rfl
        grade
  | empowerRole id isManager =>
    obtain ⟨_, done, rfl⟩ := return_ok.1 h
    obtain ⟨stored, _, _, managed, _, rfl, step⟩ := empowerRole_ok done
    obtain ⟨_, _, _, e⟩ := Tables.step_putRole.1 step
    exact .of_rewritten placed (congrArg Tables.roles e).symm (managedRole_tenant managed).1 rfl rfl rfl
      rfl
  | retireRole id =>
    obtain ⟨_, done, rfl⟩ := return_ok.1 h
    obtain ⟨_, _, _, _, _, roles⟩ := retireRole_erased ht done
    exact .of_erased placed roles
  | switchFeature id c enabled =>
    obtain ⟨_, done, rfl⟩ := return_ok.1 h
    obtain ⟨_, _, _, _, _, step⟩ := switchFeature_ok done
    obtain ⟨_, old, found, e⟩ := Tables.step_putToggle.1 step
    exact .of_rewritten placed (congrArg Tables.roles e).symm (find?_eq_some_iff.1 found).1 rfl rfl rfl
      rfl
  | _ => exact .of_same placed (perform_aside ht rfl h).2.1

/-! ## Logs -/

namespace Call

def definesRole (call : Call) : Bool := call.command?.any Command.definesRole

/-- How a call that gives an answer edits the list of the roles of an initiative. -/
def lists (settings : Settings) (ids : Supply) (i : InitiativeId) (listed : List RoleId) (call : Call)
    (answer : Answer) : List RoleId :=
  match call.command? with
  | some command => command.lists settings ids i listed answer
  | none => listed

theorem perform_edited {f f' : Frame Tables} {settings : Settings} {call : Call} {answer : Answer}
    {bound : Nat} (ht : f.store.Consistent) (fresh : f.ids.FreshFor (call.draws settings) f.store)
    (placed : f.store.Placed bound) (two : 2 ≤ bound) (room : bound < UInt32.size)
    (h : call.perform settings f = (.ok answer, f')) :
    f.store.Edited (bound + call.definesRole.toNat)
      (fun i listed => call.lists settings f.ids i listed answer) f'.store := by
  obtain ⟨_, _, _, events, rfl, _, performed⟩ | ⟨none, _, _, _, _, e⟩ := perform_cases h
  · exact Command.perform_edited (f := { f with events }) ht fresh placed two room performed
  · simp only [definesRole, lists, none, e]
    exact .of_same placed rfl

/-- How a call edits the list of the roles of an initiative. One that fails leaves it alone. -/
def Entry.lists (entry : Entry) (i : InitiativeId) (listed : List RoleId) : List RoleId :=
  match entry.result with
  | .ok answer => entry.call.lists entry.settings entry.ids i listed answer
  | .error _ => listed

/-- The roles of an initiative that calls have created and not deleted since, in the order of their
creation. The latest call comes first. -/
def roster (log : List Entry) (i : InitiativeId) : List RoleId :=
  log.foldr (fun entry listed => entry.lists i listed) []

/-- How often a role was to be defined. -/
def defined (log : List Entry) : Nat := log.countP fun entry => entry.call.definesRole

theorem defined_cons {entry : Entry} {log : List Entry} :
    defined (entry :: log) = defined log + entry.call.definesRole.toNat := by
  rw [defined, List.countP_cons]
  cases entry.call.definesRole <;> rfl

end Call

/-- After the calls of a log the roles of each initiative are in the order of their creation. -/
structure Call.RolesOrdered {σ : Type} [Store.Backend σ] [Faithful σ] (log : List Call.Entry) (s : σ) :
    Prop where
  stored : ∀ i r, r ∈ ask (.rolesIn i) s ↔ ask (.role r.id) s = some r ∧ r.initiative = i
  order : ∀ i, (ask (.rolesIn i) s).map Role.id = roster log i
  rising : ∀ i, (ask (.rolesIn i) s).Pairwise fun a b => a.position < b.position
  builtInFirst : ∀ i, (ask (.rolesIn i) s).Pairwise fun a b => a.grade ≤ b.grade
  /-- The position behind a role is a number that there is. -/
  room : ∀ i, ∀ r ∈ ask (.rolesIn i) s, r.position.toNat + 1 < UInt32.size
  told : Store.TellsRoles s
  next : ∀ (settings : Settings) (caller : Caller) (i : InitiativeId) (name : String) (isManager : Bool)
    (ids : Supply) (role : Role), ids.FreshFor 1 (tables s) →
      ((Call.request caller (.order (.defineRole i name isManager))).run settings s ids).result =
        .ok (.role role) → ∀ r ∈ ask (.rolesIn i) s, r.position < role.position

namespace Logged

variable {σ : Type} [Store.Backend σ] [Faithful σ] {log : List Call.Entry} {s : σ}

/-- The lists of roles are those of the log, and each definition of a role moves the positions by one at
most. -/
theorem rosters (h : Logged log s) : Call.defined log < UInt32.size - 2 →
    (tables s).Placed (Call.defined log + 2) ∧ ∀ i, (tables s).roleIds i = Call.roster log i := by
  -- the bound on the positions grows with the log, and so does what it must stay below
  refine h.invariant (P := fun log t => Call.defined log < UInt32.size - 2 →
    t.Placed (Call.defined log + 2) ∧ ∀ i, t.roleIds i = Call.roster log i)
    (fun _ => ⟨.empty, fun _ => rfl⟩) ?_ ?_
  · intro log t entry e before result few
    rw [Call.defined_cons] at few ⊢
    obtain ⟨placed, listed⟩ := before (by omega)
    refine ⟨placed.mono (by omega), fun i => (listed i).trans ?_⟩
    rw [Call.roster, Call.roster, List.foldr_cons, Call.Entry.lists, result]
  · intro log entry answer f f' ht before drawn fresh result performed few
    rw [Call.defined_cons] at few ⊢
    obtain ⟨placed, listed⟩ := before (by omega)
    obtain ⟨placed', ids'⟩ := Call.perform_edited ht fresh placed (by omega) (by omega) performed
    refine ⟨placed'.mono (by omega), fun i => (ids' i).trans ?_⟩
    rw [listed, Call.roster, Call.roster, List.foldr_cons, Call.Entry.lists, result, drawn]

/-- As long as roles have not been defined too often, those of an initiative are listed in the order of their
creation, whatever was done to them in between, and the next one goes behind them. -/
theorem roles_in_creation_order (h : Logged log s) (few : Call.defined log < UInt32.size - 2) :
    Call.RolesOrdered log s := by
  have reachable := h.reachable
  have asked {α : Type} (q : Store.Query α) : ask q s = ask q (tables s) :=
    Faithful.ask_eq reachable.sound q
  obtain ⟨placed, listed⟩ := h.rosters few
  constructor
  case stored =>
    intro i r
    rw [asked, asked, Tables.mem_rolesIn, ask_role, find?_eq_some_iff]
    exact and_congr_left' (and_iff_left rfl).symm
  case order =>
    intro i
    rw [asked]
    exact listed i
  case rising =>
    intro i
    rw [asked]
    exact (placed.sorted i).imp UInt32.lt_iff_toNat_lt.2
  case builtInFirst =>
    intro i
    rw [asked]
    refine List.Pairwise.imp_of_mem (fun {a b} ha hb hlt => Nat.not_lt.1 fun less => ?_) (placed.sorted i)
    obtain ⟨ha, hia⟩ := Tables.mem_rolesIn.1 ha
    obtain ⟨hb, hib⟩ := Tables.mem_rolesIn.1 hb
    have before := UInt32.lt_iff_toNat_lt.1 (placed.graded b hb a ha (hib.trans hia.symm) less)
    omega
  case room =>
    intro i r hr
    rw [asked] at hr
    have := placed.below r (Tables.mem_rolesIn.1 hr).1
    omega
  case told => exact Store.tellsRoles s
  case next =>
    intro settings caller i name isManager ids role fresh done
    obtain ⟨scope, events, _, _, performed, _⟩ := reachable.ordered fresh done
    obtain ⟨_, defined, e⟩ := return_ok.1 performed
    cases e
    rw [asked]
    exact (Administration.defineRole_last (f := ⟨tables s, ids, events⟩) placed (by omega) defined).2.1

/-- Such as a database where a role was created and deleted between two others, one of which was then given
another name, and the deleted one created again. -/
theorem roles_in_creation_order_founding :
    let ada : Caller := ⟨Supply.numberedId 0, .member, Supply.numberedId 1, .activeTenant⟩
    let launch : InitiativeId := Supply.numberedId 2
    let order (command : Command) : Call := .request ada (.order command)
    let calls : List Call := [.register "ada" .member, .foundTenant ada.principal "acme",
      order (.startInitiative "launch"), order (.defineRole launch "guests" false),
      order (.defineRole launch "press" false), order (.retireRole (Supply.numberedId 5)),
      order (.relabelRole (Supply.numberedId 6) "media"), order (.defineRole launch "guests" true)]
    let s : Store.Database := (Call.runAll default calls Store.Backend.empty .empty).1
    (ask (.rolesIn launch) s).map Role.id =
        [Supply.numberedId 3, Supply.numberedId 4, Supply.numberedId 6, Supply.numberedId 7] ∧
      Call.RolesOrdered (Call.logAll default calls [] (Store.Backend.empty : Store.Database) .empty) s := by
  intro ada launch order calls s
  have logged : Logged _ s := of_runAll (by decide +kernel)
  have few : Call.defined (Call.logAll default calls [] (Store.Backend.empty : Store.Database) .empty) <
      UInt32.size - 2 := by decide +kernel
  have ordered := logged.roles_in_creation_order few
  exact ⟨(ordered.order launch).trans (by decide +kernel), ordered⟩

end Logged

end TenantAccess
