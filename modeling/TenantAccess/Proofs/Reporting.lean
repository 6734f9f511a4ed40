import TenantAccess.Call
import TenantAccess.Proofs.Success

/-!
# What is reported beside a transaction

A transaction never reads the events that were reported before it. It adds its own to them, so whatever
else was reported it gives the same result, leaves the same rows and draws the same identifiers.
-/

namespace TenantAccess

open Transaction

variable {σ α β : Type}

/-- A frame in which other events were reported first. -/
def Frame.after (said : List Event) (f : Frame σ) : Frame σ := { f with events := said ++ f.events }

/-- What is left when other events were reported first. -/
def Outcome.after (said : List Event) (o : Outcome σ α) : Outcome σ α :=
  { o with events := said ++ o.events }

/-! ## Transactions -/

namespace Transaction

/-- A transaction that only adds to the events that were reported before it. -/
def AddsReports (x : Transaction σ α) : Prop :=
  ∀ said f, x (f.after said) = ((x f).1, (x f).2.after said)

theorem AddsReports.commit {x : Transaction σ α} (hx : AddsReports x) (said : List Event) (s : σ)
    (ids : Supply) : (do said.forM report; x : Transaction σ α).commit s ids =
      (x.commit s ids).after said := by
  have reported : (do said.forM report; x : Transaction σ α) ⟨s, ids, []⟩ = x ⟨s, ids, said⟩ := by
    rw [bind_eq, forM_report]
    rfl
  have start : (⟨s, ids, said⟩ : Frame σ) = Frame.after said ⟨s, ids, []⟩ := by
    rw [Frame.after, List.append_nil]
  simp only [Transaction.commit, reported, start, hx said]
  rcases x ⟨s, ids, []⟩ with ⟨_ | _, f⟩ <;> rfl

namespace AddsReports

variable {x y : Transaction σ α} {g : α → Transaction σ β}

theorem pure (a : α) : AddsReports (pure a : Transaction σ α) := fun _ _ => rfl

theorem bind (hx : AddsReports x) (hg : ∀ a, AddsReports (g a)) : AddsReports (x >>= g) := by
  intro said f
  simp only [bind_eq, hx said f]
  rcases x f with ⟨_ | a, f'⟩
  · rfl
  · exact hg a said f'

theorem wrap (hx : AddsReports x) (h : α → β) : AddsReports (do return h (← x)) :=
  hx.bind fun _ => .pure _

theorem check (r : Except Failure α) : AddsReports (check r : Transaction σ α) := fun _ _ => rfl

theorem read {g : σ → Transaction σ β} (hg : ∀ s, AddsReports (g s)) :
    AddsReports (current >>= g) := fun said f => hg f.store said f

theorem fresh {noun : Noun} : AddsReports (fresh : Transaction σ (Id noun)) := fun _ _ => rfl

theorem report (e : Event) : AddsReports (report e : Transaction σ Unit) := by
  intro said f
  simp only [Transaction.report, Frame.after, List.append_assoc]

theorem change [Store.Backend σ] (c : Store.Change) : AddsReports (change c : Transaction σ Bool) := by
  intro said f
  simp only [Transaction.change, Frame.after]
  rcases Store.Backend.change c f.store with ⟨_ | _, s⟩ <;> rfl

theorem ite {p : Prop} [Decidable p] (hx : AddsReports x) (hy : AddsReports y) :
    AddsReports (if p then x else y) := by
  split
  · exact hx
  · exact hy

theorem reported [Store.Backend σ] (c : Store.Change) (e : Event) (a : α) : AddsReports (do
    let _ ← Transaction.change c
    Transaction.report e
    return a : Transaction σ α) :=
  .bind (.change _) fun _ => .bind (.report _) fun _ => .pure _

theorem guard {p : Prop} [Decidable p] {r : Except Failure Unit} {k : Unit → Transaction σ β}
    (hk : AddsReports (k ())) : AddsReports (if p then Transaction.check r >>= k else k ()) :=
  .ite (.bind (.check _) fun _ => hk) hk

theorem forM {l : List α} {g : α → Transaction σ Unit} (hg : ∀ a, AddsReports (g a)) :
    AddsReports (l.forM g) := by
  induction l with
  | nil => exact pure ()
  | cons a rest ih => exact (hg a).bind fun _ => ih

theorem mapM {l : List α} (hg : ∀ a, AddsReports (g a)) : AddsReports (l.mapM g) := by
  induction l with
  | nil => exact pure []
  | cons a rest ih =>
    rw [List.mapM_cons]
    exact (hg a).bind fun _ => ih.bind fun _ => pure _

end AddsReports

end Transaction

variable [Store.Backend σ]

/-! ## Handovers and commands -/

namespace Succession

theorem carryOut_addsReports (tenant : TenantId) (plan : Handover.Plan) :
    AddsReports (carryOut tenant plan : Transaction σ HandoverReport) := by
  refine .bind (.forM fun c => ?_) fun _ => .bind (.forM fun c => ?_) fun _ =>
    .bind (.forM fun w => .report _) fun _ => .pure _
  · exact .bind (.change _) fun _ => .pure _
  · exact .bind (.change _) fun _ => .pure _

theorem fillVacancies_addsReports (i : InitiativeId) :
    AddsReports (fillVacancies i : Transaction σ HandoverReport) := by
  refine .read fun s => ?_
  cases Store.Backend.ask (.initiative i) s with
  | none => exact .pure _
  | some initiative => exact .bind (.check _) fun acls => carryOut_addsReports _ _

theorem afterDeparture_addsReports (i : InitiativeId) (p : PrincipalId) :
    AddsReports (afterDeparture i p : Transaction σ HandoverReport) := by
  refine .read fun s => ?_
  cases Store.Backend.ask (.initiative i) s with
  | none => exact .pure _
  | some initiative =>
    exact .bind (.check _) fun acls => .bind (carryOut_addsReports _ _) fun first =>
      .bind (carryOut_addsReports _ _) fun second => .bind (.report _) fun _ => .pure _

theorem leaveInitiative_addsReports (p : PrincipalId) (i : InitiativeId) :
    AddsReports (leaveInitiative p i : Transaction σ HandoverReport) := by
  refine .bind (.change _) fun wasMember => .read fun s => .bind (.check _) fun acls => ?_
  exact .ite (.pure _) <| .bind (afterDeparture_addsReports i p) fun result =>
    .bind (.mapM fun r => .change _) fun dropped => .bind (.report _) fun _ => .pure _

theorem leaveTenant_addsReports (tenant : TenantId) (p : PrincipalId) :
    AddsReports (leaveTenant tenant p : Transaction σ HandoverReport) :=
  .read fun _ => .bind (.mapM fun _ => leaveInitiative_addsReports p _) fun _ => .pure _

end Succession

theorem Command.perform_addsReports (settings : Settings) (scope : Scope) (command : Command) :
    AddsReports (command.perform settings scope : Transaction σ Answer) := by
  -- only to report touches the events, so that each command follows from its steps
  cases command with
  | bringIn p role =>
    refine .wrap (.bind (.check _) fun _ => .read fun s => .bind (.check _) fun _ => ?_) _
    exact .reported _ _ _
  | expel p =>
    refine .wrap (.bind (.check _) fun _ => .bind (.change _) fun wasMember => .guard ?_) _
    exact .bind (Succession.leaveTenant_addsReports _ _) fun _ => .bind (.report _) fun _ => .pure _
  | startInitiative name =>
    refine .wrap (.bind (.check _) fun _ => .bind (.check _) fun _ => .bind .fresh fun id =>
      .bind (.change _) fun _ => ?_) _
    have reported (initiative : Initiative) : AddsReports (do
        report (.initiativeCreated initiative.id initiative.tenant)
        return initiative : Transaction σ Initiative) := .bind (.report _) fun _ => .pure _
    refine .ite (.bind .fresh fun manager => .bind .fresh fun member => .bind (.change _) fun _ =>
      .bind (.change _) fun _ => ?_) (reported _)
    exact .ite (.bind (.change _) fun _ => reported _) (reported _)
  | defineRole i name isManager =>
    refine .wrap (.read fun s => .bind (.check _) fun _ => .bind (.check _) fun _ =>
      .bind (.check _) fun _ => .bind .fresh fun id => ?_) _
    exact .reported _ _ _
  | relabelRole r name =>
    refine .wrap (.read fun s => .bind (.check _) fun ⟨role, initiative⟩ => .bind (.check _) fun _ =>
      .bind (.check _) fun _ => .ite (.pure _) ?_) _
    exact .bind (.check _) fun _ => .bind (.change _) fun _ => .pure _
  | empowerRole r isManager =>
    refine .wrap (.read fun s => .bind (.check _) fun ⟨role, initiative⟩ => .bind (.check _) fun _ => ?_) _
    exact .bind (.change _) fun _ => .pure _
  | retireRole r =>
    refine .wrap (.read fun s => .bind (.check _) fun ⟨role, initiative⟩ => .bind (.check _) fun _ =>
      .guard ?_) _
    exact .bind (.change _) fun _ => .bind (Succession.fillVacancies_addsReports _) fun _ =>
      .bind (.report _) fun _ => .pure _
  | switchFeature r c enabled =>
    refine .wrap (.read fun s => .bind (.check _) fun ⟨role, initiative⟩ => ?_) _
    exact .reported _ _ _
  | enrol i p r =>
    refine .wrap (.read fun s => .bind (.check _) fun initiative => .bind (.check _) fun _ =>
      .bind (.check _) fun _ => .bind (.check _) fun role => .guard ?_) _
    exact .reported _ _ _
  | reassign i p r =>
    refine .wrap (.read fun s => .bind (.check _) fun initiative => .bind (.check _) fun membership =>
      .bind (.check _) fun role => ?_) _
    exact .bind (.change _) fun _ => Succession.fillVacancies_addsReports _
  | dismiss i p =>
    refine .wrap (.read fun s => .bind (.check _) fun initiative => ?_) _
    have left := (AddsReports.change (.removeMembership initiative.id p)).bind fun wasMember =>
      .guard (p := (!wasMember) = true) (r := .error (.notFound s!"membership of {p}"))
        (k := fun _ => (Succession.afterDeparture initiative.id p : Transaction σ HandoverReport))
        (Succession.afterDeparture_addsReports initiative.id p)
    exact .ite (.bind (.check _) fun _ => left) (.bind (.check _) fun _ => left)
  | restoreOwners i =>
    exact .wrap (.read fun s => .bind (.check _) fun _ => Succession.fillVacancies_addsReports _) _
  | addResource i kind name =>
    refine .wrap (.read fun s => .bind (.check _) fun initiative => .bind (.check _) fun _ =>
      .bind (.check _) fun _ => .guard ?_) _
    exact .bind .fresh fun id => .bind (.change _) fun _ => .reported _ _ _
  | dropResource r =>
    refine .bind (.read fun s => .bind (.check _) fun _ => ?_) fun _ => .pure _
    exact .bind (.change _) fun _ => .report _
  | share r p level =>
    refine .wrap (.read fun s => .bind (.check _) fun ⟨acl, _⟩ => .bind (.check _) fun _ =>
      .bind (.check _) fun _ => .bind (.check _) fun _ => ?_) _
    exact .reported _ _ _
  | unshare | unshareWithRole =>
    refine .wrap (.read fun s => .bind (.check _) fun ⟨acl, _⟩ => .ite (.pure _) ?_) _
    exact .bind (.check _) fun _ => .reported _ _ _
  | shareWithRole r role level =>
    refine .wrap (.read fun s => .bind (.check _) fun ⟨acl, _⟩ => .bind (.check _) fun role =>
      .bind (.check _) fun _ => .bind (.check _) fun _ => ?_) _
    exact .reported _ _ _

theorem Request.perform_addsReports (settings : Settings) (scope : Scope) (r : Request) :
    AddsReports (r.perform settings scope : Transaction σ Answer) := by
  cases r with
  | ask q => exact .read fun _ => .bind (.forM fun e => .report e) fun _ => .check _
  | order command => exact command.perform_addsReports settings scope

/-- A request reports what is to be said about its caller first. All else is up to the scope of the
caller. -/
theorem Call.request_run (settings : Settings) (caller : Caller) (r : Request) (s : σ)
    (ids : Supply) : (Call.request caller r).run settings s ids =
      ((check (caller.scope settings s) >>= fun scope => r.perform settings scope).commit s ids).after
        (caller.warnings settings s) := by
  have performed : AddsReports (check (caller.scope settings s) >>= fun scope =>
      (r.perform settings scope : Transaction σ Answer)) :=
    .bind (.check _) fun scope => r.perform_addsReports settings scope
  rw [← performed.commit]
  simp only [run, perform, Caller.openScope, bind_assoc]
  rfl

end TenantAccess
