import Mathlib.Data.Set.Defs
import Mathlib.Logic.Relation
import TenantAccess.Proofs.Entitlement

/-!
# Coalitions of ordinary principals

Principals that have no right on a resource do not come by one together, however many calls they
make. What a call may confer, it confers by a right of its caller, so a call by an ordinary principal
keeps all members ordinary, and so does a sequence of such calls.
-/

namespace TenantAccess

open Store (Tables Faithful)
open Store.Faithful (tables)
open Transaction Table

/-! ## Moves of a coalition -/

/-- A call that principals may make among themselves: one of them makes it, or a principal registers
or founds a tenant. -/
def Call.OpenTo (C : Set PrincipalId) : Call → Prop
  | request caller _ => caller.principal ∈ C
  | register .. | foundTenant .. => True

/-- No identifier is drawn for another that a member without a row goes by. -/
def Supply.Spares (ids : Supply) (count : Nat) (C : Set PrincipalId) (t : Tables) : Prop :=
  ∀ p ∈ C, t.principals.contains p = true ∨ p.value ∉ ids.upcoming count

/-- One call that is open to a coalition, under any settings and with fresh identifiers. -/
inductive Move {σ : Type} [Store.Backend σ] [Faithful σ] (C : Set PrincipalId) : σ → σ → Prop
  | call {s : σ} (settings : Settings) {call : Call} {ids : Supply} (entry : call.OpenTo C)
      (fresh : ids.FreshFor (call.draws settings) (tables s))
      (spares : ids.Spares (call.draws settings) C (tables s)) :
      Move C s (call.run settings s ids).store

/-! ## Ordinary principals -/

namespace Store.Tables

/-- The principal administers neither the platform nor the tenant of the resource, manages nothing in
its initiative and does not own it. -/
structure Ordinary (t : Tables) (x : Resource) (p : PrincipalId) : Prop where
  platform : ¬ t.PlatformAdmin p
  tenant : ¬ t.TenantAdmin x.tenant p
  manager : ¬ t.Manages x.initiative p
  owner : t.levelOn x p ≠ some .owner

/-- The rows `t'` give a principal no office over a resource that `t` does not give. -/
structure NoPromotion (t t' : Tables) (x : Resource) (q : PrincipalId) : Prop where
  platform : t'.PlatformAdmin q → t.PlatformAdmin q
  tenant : t'.TenantAdmin x.tenant q → t.TenantAdmin x.tenant q
  manager : t'.Manages x.initiative q → t.Manages x.initiative q

variable {t t' : Tables} {x : Resource} {p q : PrincipalId} {u : TenantId}

theorem Ordinary.not_leads (h : t.Ordinary x p) : ¬ t.Leads x.tenant x.initiative p := by
  rintro ((platform | tenant) | manager)
  · exact h.platform platform
  · exact h.tenant tenant
  · exact h.manager manager

theorem Ordinary.not_administers (h : t.Ordinary x p) : ¬ t.Administers x.tenant p :=
  fun administers => h.not_leads (Or.inl administers)

/-- Who gains neither an office nor a level stays ordinary. -/
theorem Ordinary.keep (h : t.Ordinary x q) (offices : t.NoPromotion t' x q)
    (level : ¬ t.levelOn x q < t'.levelOn x q) : t'.Ordinary x q where
  platform admin := h.platform (offices.platform admin)
  tenant admin := h.tenant (offices.tenant admin)
  manager manages := h.manager (offices.manager manages)
  owner owned := by
    refine level (Level.lt_iff.2 ?_)
    have below : Level.standing (t.levelOn x q) ≠ Level.standing (some .owner) :=
      fun e => h.owner (Level.standing_injective e)
    have top := Level.standing_le_owner (t.levelOn x q)
    rw [owned]
    omega

namespace NoPromotion

theorem refl (t : Tables) : t.NoPromotion t x q := ⟨id, id, id⟩

/-- What an ordinary principal may change in the tenant promotes nobody. -/
theorem of_governed (h : t.Governed x.tenant p t') (ht' : t'.Consistent) (ordinary : t.Ordinary x p) :
    t.NoPromotion t' x q := by
  have members := h.tenantMembers.resolve_left ordinary.not_administers
  have memberships := (h.members x.initiative).resolve_left ordinary.not_leads
  have roles := (h.roles x.initiative).resolve_left ordinary.not_leads
  refine ⟨?_, ?_, ?_⟩
  · rw [PlatformAdmin, h.principals]
    exact id
  · rw [TenantAdmin, members]
    exact id
  · rintro ⟨m, hm, hi, hq, r, hr, e, manages⟩
    have there : r.initiative = x.initiative := (ht'.aligned.membership m hm r hr e).trans hi
    exact ⟨m, (memberships m hi).1 hm, hi, hq, r, (roles r there).1 hr, e, manages⟩

theorem of_sameOutside (h : SameOutside u t t') (ht' : t'.Consistent) (hx : x ∈ t.resources)
    (outside : x.tenant ≠ u) : t.NoPromotion t' x q := by
  have part := h.part x.tenant outside
  refine ⟨?_, ?_, ?_⟩
  · rw [PlatformAdmin, h.principals]
    exact id
  · rintro ⟨m, hm, hu, rest⟩
    have listed : m ∈ t'.membersOf x.tenant := mem_filter.2 ⟨hm, decide_eq_true hu⟩
    rw [h.members x.tenant outside] at listed
    exact ⟨m, (mem_filter.1 listed).1, hu, rest⟩
  · rintro ⟨m, hm, hi, hq, r, hr, e, manages⟩
    have tenant' := ht'.tenantOf_resource (h.resource hx outside)
    have there : r.initiative = x.initiative := (ht'.aligned.membership m hm r hr e).trans hi
    have hm : m ∈ (t'.part x.tenant).memberships :=
      mem_filter.2 ⟨hm, decide_eq_true (hi ▸ tenant')⟩
    have hr : r ∈ (t'.part x.tenant).roles := mem_filter.2 ⟨hr, decide_eq_true (there ▸ tenant')⟩
    rw [part] at hm hr
    exact ⟨m, (mem_filter.1 hm).1, hi, hq, r, (mem_filter.1 hr).1, e, manages⟩

end NoPromotion

end Store.Tables

/-! ## Calls that promote nobody -/

namespace Call

variable {f f' : Frame Tables} {settings : Settings} {call : Call} {answer : Answer} {x : Resource}
  {p q : PrincipalId} {C : Set PrincipalId}

theorem register_noPromotion {name : String} {role : PlatformRole} {row : Principal}
    (fresh : f.ids.FreshFor 1 f.store) (spares : f.ids.Spares 1 C f.store) (hq : q ∈ C)
    (h : Administration.register name role f = (.ok row, f')) :
    f.store.NoPromotion f'.store x q := by
  obtain ⟨rfl, _, step⟩ := Administration.register_ok h
  obtain ⟨_, e⟩ := Tables.step_putPrincipal.1 step
  rw [← e]
  refine ⟨?_, id, id⟩
  rintro ⟨row, hrow, rfl, admin⟩
  rcases mem_insert.1 hrow with rfl | ⟨hrow, _⟩
  · rcases spares _ hq with stored | unnamed
    · rw [fresh.principal_free] at stored
      cases stored
    · exact absurd (List.mem_singleton.2 (Supply.draw_eq f.ids .principal .tenant).1) unnamed
  · exact ⟨row, hrow, rfl, admin⟩

/-- Who founds a tenant administers another one than that of the resource. -/
theorem foundTenant_noPromotion {creator : PrincipalId} {name : String} {row : Tenant}
    (ht : f.store.Consistent) (hx : x ∈ f.store.resources)
    (h : Administration.foundTenant creator name f = (.ok row, f')) :
    f.store.NoPromotion f'.store x q := by
  obtain ⟨_, _, _, t, step, step'⟩ := Administration.foundTenant_ok h
  obtain ⟨free, _, rfl⟩ := Tables.step_addTenant.1 step
  obtain ⟨_, _, _, e⟩ := Tables.step_putTenantMembership.1 step'
  rw [← e]
  refine ⟨id, ?_, id⟩
  rintro ⟨m, hm, hu, rest⟩
  rcases mem_insert.1 hm with rfl | ⟨hm, _⟩
  · exact absurd hu.symm (ne_of_contains free (ht.stored.resource x hx).2)
  · exact ⟨m, hm, hu, rest⟩

/-- No call that is open to ordinary principals promotes one of them, and the resource stays. -/
theorem perform_noPromotion (ht : f.store.Consistent)
    (fresh : f.ids.FreshFor (call.draws settings) f.store)
    (h : call.perform settings f = (.ok answer, f')) (hx : x ∈ f.store.resources)
    (entry : call.OpenTo C) (spares : f.ids.Spares (call.draws settings) C f.store)
    (ordinary : ∀ p ∈ C, f.store.Ordinary x p) :
    x ∈ f'.store.resources ∧ ∀ q ∈ C, f.store.NoPromotion f'.store x q := by
  have ht' := (perform_fits ht fresh h).consistent ht
  cases call with
  | register name role =>
    have performed := h
    obtain ⟨_, h, _⟩ := return_ok.1 h
    refine ⟨?_, fun q hq => register_noPromotion fresh spares hq h⟩
    obtain ⟨_, _, e⟩ := perform_register performed
    rw [e]
    exact hx
  | foundTenant creator name =>
    have performed := h
    obtain ⟨_, h, _⟩ := return_ok.1 h
    refine ⟨?_, fun q hq => foundTenant_noPromotion ht hx h⟩
    obtain ⟨_, _, e⟩ := perform_foundTenant performed
    rw [e]
    exact hx
  | request caller r =>
    have caller_ordinary := ordinary caller.principal entry
    by_cases here : caller.tenant = x.tenant
    · cases r with
      | ask q =>
        obtain ⟨_, _, _, e⟩ := perform_ask h
        rw [e]
        exact ⟨hx, fun _ _ => .refl _⟩
      | order command =>
        have governed := order_governed ht fresh h
        rw [here] at governed
        exact ⟨(governed.resources x hx).resolve_left caller_ordinary.owner,
          fun _ _ => .of_governed governed ht' caller_ordinary⟩
    · obtain ⟨scope, entered, within⟩ := request_within ht fresh h
      obtain ⟨_, tenant, _⟩ := Caller.scope_backed entered
      have outside : x.tenant ≠ scope.tenant := fun e => here (tenant.symm.trans e.symm)
      have same := within.sameOutside ht
      exact ⟨same.resource hx outside, fun _ _ => .of_sameOutside same ht' hx outside⟩

theorem perform_not_rise (ht : f.store.Consistent)
    (fresh : f.ids.FreshFor (call.draws settings) f.store)
    (h : call.perform settings f = (.ok answer, f')) (hx : x ∈ f.store.resources)
    (entry : call.OpenTo C) (ordinary : ∀ p ∈ C, f.store.Ordinary x p) (hq : q ∈ C)
    (offices : f.store.NoPromotion f'.store x q) :
    ¬ f.store.levelOn x q < f'.store.levelOn x q := by
  intro rise
  obtain ⟨caller, command, rfl, here, cause⟩ := perform_rise ht fresh h hx rise
  have caller_ordinary := ordinary caller.principal entry
  cases cause with
  | granted grants owner => exact caller_ordinary.owner owner
  | placed places leads => exact caller_ordinary.not_leads leads
  | handedOver hands unowned handed =>
    -- what is handed over goes to a manager, and the member is none
    exact (ordinary q hq).manager (offices.manager handed.manages)

end Call

/-! ## Runs of moves -/

namespace Reachable

variable {σ : Type} [Store.Backend σ] [Faithful σ] {s s' : σ} {C : Set PrincipalId} {x : Resource}

theorem move (h : Reachable s) (move : Move C s s') : Reachable s' := by
  obtain ⟨settings, _, fresh, _⟩ := move
  exact h.call settings _ fresh

/-- One move keeps the resource and all members ordinary, and raises none. -/
theorem move_ordinary (h : Reachable s) (hx : x ∈ (tables s).resources)
    (ordinary : ∀ p ∈ C, (tables s).Ordinary x p) (move : Move C s s') :
    x ∈ (tables s').resources ∧ ∀ p ∈ C, (tables s').Ordinary x p ∧
      ¬ (tables s).levelOn x p < (tables s').levelOn x p := by
  obtain @⟨settings, call, ids, entry, fresh, spares⟩ := move
  rw [(h.run_mirrors fresh).store]
  cases e : (call.run settings (tables s) ids).result with
  | error =>
    rw [Call.run, commit_error e]
    refine ⟨hx, fun p hp => ⟨ordinary p hp, fun rise => ?_⟩⟩
    rw [Level.lt_iff] at rise
    exact Nat.lt_irrefl _ rise
  | ok answer =>
    obtain ⟨f, performed, store⟩ := commit_ok e
    rw [Call.run, store]
    obtain ⟨kept, offices⟩ := Call.perform_noPromotion (f := ⟨tables s, ids, []⟩) h.consistent fresh
      performed hx entry spares ordinary
    refine ⟨kept, fun p hp => ?_⟩
    have level := Call.perform_not_rise (f := ⟨tables s, ids, []⟩) h.consistent fresh performed hx
      entry ordinary hp (offices p hp)
    exact ⟨(ordinary p hp).keep (offices p hp) level, level⟩

theorem moves_ordinary (h : Reachable s) (hx : x ∈ (tables s).resources)
    (ordinary : ∀ p ∈ C, (tables s).Ordinary x p) (moves : Relation.ReflTransGen (Move C) s s') :
    Reachable s' ∧ x ∈ (tables s').resources ∧ ∀ p ∈ C, (tables s').Ordinary x p := by
  induction moves with
  | refl => exact ⟨h, hx, ordinary⟩
  | tail _ move ih =>
    obtain ⟨h, hx, ordinary⟩ := ih
    obtain ⟨hx, kept⟩ := h.move_ordinary hx ordinary move
    exact ⟨h.move move, hx, fun p hp => (kept p hp).1⟩

/-- However many calls ordinary principals make, none of them comes by an office over the resource or
comes to own it, and no call raises one of them. -/
theorem coalition_powerless (h : Reachable s) (hx : x ∈ (tables s).resources)
    (ordinary : ∀ p ∈ C, (tables s).Ordinary x p) (moves : Relation.ReflTransGen (Move C) s s') :
    x ∈ (tables s').resources ∧ ∀ p ∈ C, (tables s').Ordinary x p ∧
      ∀ s'', Move C s' s'' → ¬ (tables s').levelOn x p < (tables s'').levelOn x p := by
  obtain ⟨h', hx', kept⟩ := h.moves_ordinary hx ordinary moves
  exact ⟨hx', fun p hp => ⟨kept p hp, fun _ move => ((h'.move_ordinary hx' kept move).2 p hp).2⟩⟩

/-- A member of an initiative that claims to administer the platform grants itself nothing, and leaves
as it came. -/
theorem coalition_powerless_staffing :
    let staffed : Tables := (Call.runAll default (Call.staffing 4) .empty .empty).1
    let project : Resource :=
      ⟨Supply.numberedId 5, .project, Supply.numberedId 2, Supply.numberedId 1, "plan"⟩
    let bob : Caller := ⟨Supply.numberedId 6, .admin, Supply.numberedId 1, .global⟩
    let grab : Call := .request bob (.order (.share project.id bob.principal .owner))
    let leave : Call := .request bob (.order (.dismiss project.initiative bob.principal))
    let grabbed := (grab.run default staffed .empty).store
    let left := (leave.run default grabbed .empty).store
    project ∈ (tables left).resources ∧ ∀ p ∈ ({bob.principal} : Set PrincipalId),
      (tables left).Ordinary project p ∧ ∀ s, Move {bob.principal} left s →
        ¬ (tables left).levelOn project p < (tables s).levelOn project p := by
  intro staffed project bob grab leave grabbed left
  have reachable : Reachable staffed := of_runAll (by decide +kernel)
  have stored : project ∈ (tables staffed).resources := mem_iff.2 (by decide +kernel)
  have registered : (tables staffed).principals.contains bob.principal = true := by decide +kernel
  have ordinary : (tables staffed).Ordinary project bob.principal :=
    ⟨by decide +kernel, by decide +kernel, by decide +kernel, by decide +kernel⟩
  have first : Move {bob.principal} staffed grabbed :=
    .call default rfl (by decide +kernel) fun p hp => Or.inl (hp ▸ registered)
  have second : Move {bob.principal} grabbed left :=
    .call default rfl (by decide +kernel) fun p hp => Or.inl (hp ▸ by decide +kernel)
  exact reachable.coalition_powerless stored (fun p hp => hp ▸ ordinary) (.tail (.single first) second)

end Reachable

end TenantAccess
