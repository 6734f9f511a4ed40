import TenantAccess.Proofs.Inheritance

/-!
# Leaving a tenant

Who is taken out of a tenant leaves its initiatives one after the other. In each of them the managers
come to own what it owned, and all its own grants go, so that nothing is there for it when it is
brought back in.
-/

namespace TenantAccess

open Store (Faithful Tables)
open Store.Faithful (tables)
open Handover (ownerlessOf)
open Transaction Table

/-! ## Initiatives that are left -/

namespace Store.Tables

variable {t t₁ t' : Tables} {x : Resource} {i : InitiativeId} {ids : List InitiativeId}
  {p : PrincipalId} {u : TenantId} {report report' : HandoverReport}

/-- From the rows `t` on, a principal has given up what it owned in some initiatives to their managers,
and the report says what. -/
structure Relinquished (p : PrincipalId) (ids : List InitiativeId) (report : HandoverReport)
    (t t' : Tables) : Prop where
  revoked : ∀ c, c ∈ report.revoked ↔
    ∃ x ∈ t.resources, x.initiative ∈ ids ∧ t.directOn x p = some .owner ∧ c = (x.id, p)
  distinct : report.revoked.Nodup
  inherited : ∀ x ∈ t.resources, x.initiative ∈ ids → t.directOn x p = some .owner →
    ∀ q, t'.Manages x.initiative q → t'.directOn x q = some .owner
  ownerless : ∀ w ∈ report.ownerless,
    ∃ x ∈ t.resources, x.initiative ∈ ids ∧ ¬ t'.Owned x ∧ w = ownerlessOf x

theorem AgreeOn.owned (h : t.AgreeOn x t') : t'.Owned x ↔ t.Owned x :=
  owned_congr h.acl h.members

namespace Relinquished

theorem none (t : Tables) : t.Relinquished p [] .empty t where
  revoked c := by
    refine iff_of_false List.not_mem_nil ?_
    rintro ⟨_, _, among, _⟩
    exact List.not_mem_nil among
  distinct := .nil
  inherited _ _ among := absurd among List.not_mem_nil
  ownerless _ listed := absurd listed List.not_mem_nil

theorem cons (h : t.Relinquished p [i] report t₁) (h' : t₁.Relinquished p ids report' t')
    (other : i ∉ ids) (same : t₁.resources = t.resources)
    (before : ∀ x ∈ t.resources, x.initiative ∈ ids → t.AgreeOn x t₁)
    (after : ∀ x ∈ t.resources, x.initiative = i → t₁.AgreeOn x t') :
    t.Relinquished p (i :: ids) (report ++ report') t' where
  revoked c := by
    have e : (report ++ report').revoked = report.revoked ++ report'.revoked := rfl
    rw [e, List.mem_append, h.revoked, h'.revoked, same]
    constructor
    · rintro (⟨x, hx, among, held, rfl⟩ | ⟨x, hx, among, held, rfl⟩)
      · exact ⟨x, hx, List.mem_cons.2 (Or.inl (List.mem_singleton.1 among)), held, rfl⟩
      · rw [(before x hx among).directOn] at held
        exact ⟨x, hx, List.mem_cons_of_mem i among, held, rfl⟩
    · rintro ⟨x, hx, among, held, rfl⟩
      rcases List.mem_cons.1 among with here | among
      · exact Or.inl ⟨x, hx, List.mem_singleton.2 here, held, rfl⟩
      · refine Or.inr ⟨x, hx, among, ?_, rfl⟩
        rw [(before x hx among).directOn]
        exact held
  distinct := by
    refine List.nodup_append.2 ⟨h.distinct, h'.distinct, fun c hc c' hc' e => ?_⟩
    obtain ⟨x, hx, here, _, rfl⟩ := (h.revoked c).1 hc
    obtain ⟨y, hy, among, _, rfl⟩ := (h'.revoked c').1 hc'
    -- a resource lies in one initiative
    obtain rfl := eq_of_key hx (same ▸ hy) (Prod.mk.inj e).1
    exact other (List.mem_singleton.1 here ▸ among)
  inherited x hx among held q manages := by
    rcases List.mem_cons.1 among with here | among
    · have agree := after x hx here
      rw [agree.directOn]
      exact h.inherited x hx (List.mem_singleton.2 here) held q (agree.symm.manages q manages)
    · rw [← (before x hx among).directOn] at held
      exact h'.inherited x (same ▸ hx) among held q manages
  ownerless w listed := by
    rcases List.mem_append.1 listed with listed | listed
    · obtain ⟨x, hx, here, unowned, rfl⟩ := h.ownerless w listed
      have here := List.mem_singleton.1 here
      rw [← (after x hx here).owned] at unowned
      exact ⟨x, hx, List.mem_cons.2 (Or.inl here), unowned, rfl⟩
    · obtain ⟨x, hx, among, unowned, rfl⟩ := h'.ownerless w listed
      exact ⟨x, same ▸ hx, List.mem_cons_of_mem i among, unowned, rfl⟩

end Relinquished

theorem Consistent.mem_initiativesIn_iff (ht : t.Consistent) (hx : x ∈ t.resources) :
    x.initiative ∈ (t.initiatives.rows.filter fun i => i.tenant = u).map Initiative.id ↔
      x.tenant = u := by
  have here := ht.tenantOf_resource hx
  constructor
  · intro among
    obtain ⟨i, hi, e⟩ := List.mem_map.1 among
    obtain ⟨hi, tenant⟩ := List.mem_filter.1 hi
    rw [← e, tenantOf_mem hi, of_decide_eq_true tenant] at here
    exact (Option.some.inj here).symm
  · rintro rfl
    exact mem_initiativesIn here

end Store.Tables

/-! ## Leaving one after the other -/

namespace Succession

variable {f f' : Frame Tables} {i : InitiativeId} {p : PrincipalId} {result : HandoverReport}
  {x : Resource} {u : TenantId}

theorem owned_of_drop {t : Tables} {l : List ResourceId}
    (owned : (t.regrant (l.foldl (fun g r => g.erase (r, p)) t.userGrants)).Owned x) :
    t.Owned x := by
  obtain ⟨q, level⟩ := owned
  refine ⟨q, ?_⟩
  rw [Tables.levelOn, Tables.regrant, find?_drop] at level
  split at level
  · exact Level.greater_eq_owner.2 (Or.inr ((Level.greater_eq_owner.1 level).resolve_left (by simp)))
  · exact level

theorem leaveInitiative_relinquished (ht : f.store.Consistent)
    (found : f.store.initiatives.contains i = true)
    (h : leaveInitiative p i f = (.ok result, f')) :
    f.store.Relinquished p [i] result f'.store := by
  obtain ⟨wasMember, t, acls, step, listed, h⟩ := leaveInitiative_ok h
  have ht' : t.Consistent := ht.step (c := .removeMembership i p) trivial step
  obtain ⟨_, rfl⟩ := Tables.step_removeMembership.1 step
  rcases h with ⟨_, none, rfl, e⟩ | ⟨f₁, departed, e⟩
  · -- it had no grant there, least of all one as an owner
    have free : ∀ x ∈ f.store.resources, x.initiative ∈ [i] →
        f.store.directOn x p ≠ some .owner := by
      intro x hx among held
      have listed : x.id ∈ heldBy p acls := by
        refine mem_heldBy.2 ⟨_, acl_mem_accessLists listed hx (List.mem_singleton.1 among), ?_, rfl⟩
        rw [Tables.direct?_acl_eq]
        exact congrArg Option.isSome held
      rw [none] at listed
      exact List.not_mem_nil listed
    refine ⟨fun c => iff_of_false List.not_mem_nil ?_, .nil, fun x hx among held =>
      absurd held (free x hx among), fun _ listed => absurd listed List.not_mem_nil⟩
    rintro ⟨x, hx, among, held, _⟩
    exact free x hx among held
  · have left : (f.store.unenrol i p).memberships.contains (i, p) = false :=
      not_contains_iff.2 fun m hm => (mem_erase.1 hm).2
    have passed := afterDeparture_passedOn (f := { f with store := f.store.unenrol i p }) ht' found
      left departed
    obtain ⟨_, _, _, reported, _⟩ := afterDeparture_departing
      (f := { f with store := f.store.unenrol i p }) found departed
    obtain ⟨grants, same⟩ := passed.others
    constructor
    · intro c
      rw [reported, mem_departing_revoke]
      simp only [List.mem_singleton]
      exact Iff.rfl
    · exact passed.revoked_nodup
    · intro x hx among held q manages
      have hi := List.mem_singleton.1 among
      rw [e, hi] at manages
      have manages : (f.store.unenrol i p).Manages i q := passed.manages.1 manages
      have row := passed.inherited x hx hi (Or.inl held) q manages
      have hq : q ≠ p := by
        rintro rfl
        exact Tables.not_manages left manages
      rw [e, Tables.directOn, Tables.regrant, find?_drop, if_neg fun own => hq own.1, row]
      rfl
    · intro w listed
      obtain ⟨x, hx, hi, unowned, rfl⟩ := (passed.ownerless w).1 listed
      refine ⟨x, hx, List.mem_singleton.2 hi, fun owned => unowned ?_, rfl⟩
      rw [e] at owned
      exact owned_of_drop owned

theorem leaveEach_relinquished {l : List Initiative} {reports : List HandoverReport}
    (ht : f.store.Consistent) (inside : ∀ i ∈ l, f.store.tenantOf i.id = some u)
    (apart : (l.map Initiative.id).Nodup)
    (h : l.mapM (fun i => leaveInitiative p i.id) f = (.ok reports, f')) :
    f.store.Relinquished p (l.map Initiative.id) (.concat reports) f'.store := by
  induction l generalizing f reports with
  | nil =>
    simp only [List.mapM_nil, pure_ok] at h
    obtain ⟨rfl, rfl⟩ := h
    exact .none f.store
  | cons i rest ih =>
    obtain ⟨report, f₁, reports, h₁, hrest, rfl⟩ := mapM_cons_ok.1 h
    obtain ⟨hne, apart⟩ := List.nodup_cons.1 apart
    obtain ⟨grants, e⟩ := leaveInitiative_store h₁
    have resources : f₁.store.resources = f.store.resources := by
      rw [e]
      rfl
    have here := inside i List.mem_cons_self
    obtain ⟨initiative, found, _⟩ := Option.map_eq_some_iff.1 here
    have within := leaveInitiative_within ht here h₁
    have ht₁ := (within.mono fun _ _ h => h.fits).consistent ht
    have inside₁ : ∀ j ∈ rest, f₁.store.tenantOf j.id = some u := fun j hj => by
      rw [e]
      exact inside j (List.mem_cons_of_mem i hj)
    refine (leaveInitiative_relinquished ht (contains_of_find? found) h₁).cons
      (ih ht₁ inside₁ apart hrest) hne resources (fun x hx among => ?_) fun x hx hi => ?_
    · exact leaveInitiative_agree h₁ hx fun e => hne (e ▸ among)
    · refine leaveEach_agree (resources ▸ hx) (fun j hj e => hne ?_) hrest
      exact hi.symm.trans e ▸ List.mem_map_of_mem hj

end Succession

/-! ## Expulsion from a tenant -/

namespace Store.Tables

/-- From the rows `t` on, a principal has been taken out of a tenant, and the report says what it owned
there. -/
structure Expelled (u : TenantId) (p : PrincipalId) (report : HandoverReport)
    (t t' : Tables) : Prop where
  outside : t'.tenantMemberships.contains (u, p) = false
  resources : t'.resources = t.resources
  memberships : ∀ m ∈ t'.memberships, m.principal = p → t'.tenantOf m.initiative ≠ some u
  grants : ∀ g ∈ t'.userGrants, g.principal = p → ∀ x ∈ t'.resources, x.id = g.resource → x.tenant ≠ u
  levels : ∀ x ∈ t'.resources, x.tenant = u → t'.levelOn x p = none
  revoked : ∀ c, c ∈ report.revoked ↔
    ∃ x ∈ t.resources, x.tenant = u ∧ t.directOn x p = some .owner ∧ c = (x.id, p)
  revoked_nodup : report.revoked.Nodup
  inherited : ∀ x ∈ t.resources, x.tenant = u → t.directOn x p = some .owner →
    ∀ q, t'.Manages x.initiative q → t'.directOn x q = some .owner
  /-- What is listed has no owner. -/
  unowned : ∀ w ∈ report.ownerless, ∃ x ∈ t'.resources, x.tenant = u ∧ ¬ t'.Owned x ∧ w = ownerlessOf x
  /-- What has lost its last owner is listed. -/
  listed : ∀ x ∈ t'.resources, x.tenant = u → t.Owned x → ¬ t'.Owned x →
    ownerlessOf x ∈ report.ownerless

end Store.Tables

theorem Succession.leaveTenant_expelled {f f' : Frame Tables} {p : PrincipalId} {u : TenantId}
    {result : HandoverReport} (ht : f.store.Consistent)
    (outside : f.store.tenantMemberships.contains (u, p) = false)
    (h : leaveTenant u p f = (.ok result, f')) : f.store.Expelled u p result f'.store := by
  obtain ⟨reports, left, rfl⟩ := leaveTenant_ok h
  obtain ⟨memberships, userGrants, e⟩ := leaveEach_store left
  have relinquished := leaveEach_relinquished (u := u) ht (fun i hi => by
      obtain ⟨hi, e⟩ := List.mem_filter.1 hi
      rw [Tables.tenantOf_mem hi, of_decide_eq_true e])
    ((nodup_keys (t := f.store.initiatives)).sublist (List.filter_sublist.map _)) left
  have resources : f'.store.resources = f.store.resources := by rw [e]
  have stays : ∀ m ∈ f'.store.memberships, m.principal = p → f'.store.tenantOf m.initiative ≠ some u := by
    intro m hm own here
    rw [e] at here
    exact (leaveEach_member left hm).2 ⟨own, Tables.mem_initiativesIn here⟩
  have granted : ∀ g ∈ f'.store.userGrants, g.principal = p → ∀ x ∈ f'.store.resources,
      x.id = g.resource → x.tenant ≠ u := by
    intro g hg own x hx ex here
    rw [resources] at hx
    exact (leaveEach_grant left hg own).2 x hx ex ((ht.mem_initiativesIn_iff hx).2 here)
  refine
    { outside := by rw [e]; exact outside
      resources
      memberships := stays
      grants := granted
      levels := fun x hx here => ?_
      revoked := fun c => ?_
      revoked_nodup := relinquished.distinct
      inherited := fun x hx here => relinquished.inherited x hx ((ht.mem_initiativesIn_iff hx).2 here)
      unowned := fun w listed => ?_
      listed := fun x hx here owned unowned => ?_ }
  · refine Tables.levelOn_eq_none (find?_eq_none_iff.2 fun g hg key => ?_)
      (find?_eq_none_iff.2 fun m hm key => ?_)
    · exact granted g hg (Prod.mk.inj key).2 x hx (Prod.mk.inj key).1.symm here
    · refine stays m hm (Prod.mk.inj key).2 ?_
      obtain ⟨ei, _⟩ := Prod.mk.inj key
      rw [resources] at hx
      rw [e, ← here]
      exact ei ▸ ht.tenantOf_resource hx
  · rw [relinquished.revoked]
    refine exists_congr fun x => and_congr_right fun hx => ?_
    rw [ht.mem_initiativesIn_iff hx]
  · obtain ⟨x, hx, among, unowned, rfl⟩ := relinquished.ownerless w listed
    exact ⟨x, resources ▸ hx, (ht.mem_initiativesIn_iff hx).1 among, unowned, rfl⟩
  · rw [resources] at hx
    exact ((leaveTenant_settled ht hx h owned).resolve_left unowned).2

section Calls

variable {f f' : Frame Tables} {settings : Settings} {caller : Caller} {answer : Answer}
  {p : PrincipalId}

theorem Call.perform_expel (ht : f.store.Consistent)
    (h : (Call.request caller (.order (.expel p))).perform settings f = (.ok answer, f')) :
    ∃ report, answer = .handover report ∧ f.store.Expelled caller.tenant p report f'.store := by
  obtain ⟨scope, _, entered, performed⟩ := perform_order h
  obtain ⟨_, tenant, _⟩ := Caller.scope_backed entered
  obtain ⟨report, expels, e⟩ := return_ok.1 performed
  refine ⟨report, e.symm, ?_⟩
  obtain ⟨_, t, f₂, step, left, e⟩ := Administration.expel_ok expels
  have ht' : t.Consistent := ht.step (c := .removeTenantMembership scope.tenant p) trivial step
  obtain ⟨_, rfl⟩ := Tables.step_removeTenantMembership.1 step
  have expelled := Succession.leaveTenant_expelled ht'
    (not_contains_iff.2 fun m hm => (mem_erase.1 hm).2) left
  rw [← tenant, e]
  -- the membership in the tenant has no part in what is owned
  exact { expelled with }

/-- Bringing a principal in gives it no level. -/
theorem Call.perform_bringIn {role : TenantRole}
    (h : (Call.request caller (.order (.bringIn p role))).perform settings f = (.ok answer, f')) :
    ∃ tenantMemberships, f'.store = { f.store with tenantMemberships } := by
  obtain ⟨_, _, _, performed⟩ := perform_order h
  obtain ⟨m, h, _⟩ := return_ok.1 performed
  obtain ⟨_, _, _, step⟩ := Administration.bringIn_ok h
  obtain ⟨_, _, _, e⟩ := Tables.step_putTenantMembership.1 step
  exact ⟨f.store.tenantMemberships.insert m, e.symm⟩

end Calls

namespace Reachable

variable {σ : Type} [Store.Backend σ] [Faithful σ] {s : σ}

/-- Who has been taken out of a tenant holds nothing there. What it owned is reported and owned by the
managers, the resources without an owner are listed, and when it is brought back in it has no level on
any resource there. -/
theorem expelled_leaves_nothing (h : Reachable s) {settings : Settings} {caller : Caller}
    {p : PrincipalId} {ids : Supply} {answer : Answer}
    (done : ((Call.request caller (.order (.expel p))).run settings s ids).result = .ok answer) :
    let left := ((Call.request caller (.order (.expel p))).run settings s ids).store
    (∃ report, answer = .handover report ∧
      (tables s).Expelled caller.tenant p report (tables left)) ∧
      ∀ (settings' : Settings) (caller' : Caller) (role : TenantRole) (ids' : Supply) (again : Answer),
        let back := (Call.request caller' (.order (.bringIn p role))).run settings' left ids'
        back.result = .ok again →
          ∀ x ∈ (tables back.store).resources, x.tenant = caller.tenant →
            (tables back.store).levelOn x p = none := by
  intro left
  obtain ⟨f, performed, store⟩ := h.performed .zero done
  obtain ⟨report, e, expelled⟩ := Call.perform_expel (f := ⟨tables s, ids, []⟩) h.consistent performed
  rw [← store] at expelled
  refine ⟨⟨report, e, expelled⟩, ?_⟩
  intro settings' caller' role ids' again back done' x hx here
  have reachable : Reachable left := h.call settings _ .zero
  obtain ⟨g, performed', store'⟩ := reachable.performed .zero done'
  obtain ⟨members, same⟩ := Call.perform_bringIn performed'
  rw [store', same] at hx ⊢
  exact expelled.levels x hx here

/-- Such as a second owner of a project, whom the founder takes out of the tenant and brings back in. -/
theorem expelled_leaves_nothing_staffing :
    let founder : Caller := ⟨Supply.numberedId 0, .member, Supply.numberedId 1, .activeTenant⟩
    let shared : Tables := (Call.runAll default (Call.staffing 3 ++ [.request founder
      (.order (.share (Supply.numberedId 5) (Supply.numberedId 6) .owner))]) .empty .empty).1
    let left := (Call.request founder (.order (.expel (Supply.numberedId 6)))).run default shared .empty
    let back := (Call.request founder (.order (.bringIn (Supply.numberedId 6) .member))).run default
      left.store .empty
    ∃ report, left.result = .ok (.handover report) ∧
      (Supply.numberedId 5, Supply.numberedId 6) ∈ report.revoked ∧
      shared.Expelled (Supply.numberedId 1) (Supply.numberedId 6) report (tables left.store) ∧
      back.result.isOk = true ∧ ∀ x ∈ (tables back.store).resources, x.tenant = Supply.numberedId 1 →
        (tables back.store).levelOn x (Supply.numberedId 6) = none := by
  intro founder shared left back
  let project : Resource :=
    ⟨Supply.numberedId 5, .project, Supply.numberedId 2, Supply.numberedId 1, "plan"⟩
  have reachable : Reachable shared := of_runAll (by decide +kernel)
  have stored : project ∈ shared.resources := mem_iff.2 (by decide +kernel)
  have owner : shared.directOn project (Supply.numberedId 6) = some .owner := by decide +kernel
  have leaves : left.result.isOk = true := by decide +kernel
  have returns : back.result.isOk = true := by decide +kernel
  clear_value shared
  obtain ⟨answer, gone⟩ := exists_of_isOk leaves
  obtain ⟨again, returned⟩ := exists_of_isOk returns
  obtain ⟨⟨report, e, expelled⟩, later⟩ := reachable.expelled_leaves_nothing gone
  have reported : left.result = .ok (.handover report) := by rw [← e]; exact gone
  have listed : (Supply.numberedId 5, Supply.numberedId 6) ∈ report.revoked :=
    (expelled.revoked _).2 ⟨project, stored, rfl, owner, rfl⟩
  exact ⟨report, reported, listed, expelled, returns,
    later default founder .member .empty again returned⟩

end Reachable

end TenantAccess
