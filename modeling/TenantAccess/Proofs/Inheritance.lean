import TenantAccess.Proofs.Acceptance
import TenantAccess.Proofs.Departures
import TenantAccess.Proofs.Entitlement
import TenantAccess.Proofs.WholePlan

/-!
# What a departure passes on

What the principal owned in an initiative and what nobody owns there passes to the managers, and no
other row is touched. The report lists just the rows that differ afterwards, so that after a departure
nothing is left to pass on.
-/

namespace TenantAccess

open Store (Faithful Tables)
open Store.Backend (ask)
open Store.Faithful (tables Sound)
open Transaction Table

/-! ## What is passed on -/

namespace Store.Tables

variable {t t' t'' : Tables} {x : Resource} {i : InitiativeId} {q : PrincipalId}
  {report report' : HandoverReport}

/-- The resource passes to the managers when the principal has left: it was the principal's own, or
nobody's. -/
def Devolves (t : Tables) (q : PrincipalId) (x : Resource) : Prop :=
  t.directOn x q = some .owner ∨ ¬ t.Owned x

/-- From the rows `t` on, the ownership that falls vacant in an initiative as a principal leaves it
has been passed on, and the report says so. -/
structure PassedOn (i : InitiativeId) (q : PrincipalId) (report : HandoverReport)
    (t t' : Tables) : Prop where
  /-- Only grants of users differ. -/
  others : ∃ grants, t' = t.regrant grants
  departed : ∀ x ∈ t.resources, x.initiative = i → t.directOn x q = some .owner →
    t'.userGrants.find? (x.id, q) = none
  inherited : ∀ x ∈ t.resources, x.initiative = i → t.Devolves q x → ∀ p, t.Manages i p →
    t'.userGrants.find? (x.id, p) = some ⟨x.id, p, .owner, x.tenant⟩
  kept : ∀ r p, (∀ x ∈ t.resources, x.initiative = i → x.id = r →
      ¬ (p = q ∧ t.directOn x q = some .owner) ∧ ¬ (t.Devolves q x ∧ t.Manages i p)) →
    t'.userGrants.find? (r, p) = t.userGrants.find? (r, p)
  revoked : ∀ c, c ∈ report.revoked ↔
    t.userGrants.contains c = true ∧ t'.userGrants.contains c = false
  granted : ∀ c, c ∈ report.granted ↔
    (t'.userGrants.find? c).map UserGrant.level = some .owner ∧
      (t.userGrants.find? c).map UserGrant.level ≠ some .owner
  ownerless : ∀ w, w ∈ report.ownerless ↔
    ∃ x ∈ t.resources, x.initiative = i ∧ ¬ t'.Owned x ∧ w = Handover.ownerlessOf x
  revoked_nodup : report.revoked.Nodup
  granted_nodup : report.granted.Nodup
  ownerless_nodup : report.ownerless.Nodup

theorem Consistent.mem_managers (ht : t.Consistent) :
    q ∈ Handover.managers (roleMap t i) (managingRoles t i) ↔ t.Manages i q := by
  refine ⟨manages_of_mem_managers, ?_⟩
  rintro ⟨m, hm, rfl, rfl, role, hr, e, manages⟩
  refine Handover.mem_managers.2 ⟨(m.principal, m.role), mem_roleMap.2 ⟨m, hm, rfl, rfl⟩, rfl, ?_⟩
  exact contains_managingRoles.2 ⟨role, hr, ht.aligned.membership m hm role hr e, manages, e⟩

theorem not_manages (left : t.memberships.contains (i, q) = false) : ¬ t.Manages i q := by
  rintro ⟨m, hm, hi, hp, _⟩
  exact not_contains_iff.1 left m hm (Prod.ext hi hp)

theorem owned_of_directOn {p : PrincipalId} (h : t.directOn x p = some .owner) : t.Owned x :=
  ⟨p, Level.greater_eq_owner.2 (Or.inl h)⟩

theorem Consistent.find?_of_directOn (ht : t.Consistent) (hx : x ∈ t.resources) {level : Level}
    (h : t.directOn x q = some level) :
    t.userGrants.find? (x.id, q) = some ⟨x.id, q, level, x.tenant⟩ := by
  obtain ⟨g, found, rfl⟩ := Option.map_eq_some_iff.1 h
  obtain ⟨hg, key⟩ := find?_eq_some_iff.1 found
  obtain ⟨resource, principal, level, tenant⟩ := g
  obtain ⟨rfl, rfl⟩ := Prod.mk.inj key
  rw [found, ht.aligned.userGrant _ hg x hx rfl]

namespace PassedOn

variable {p : PrincipalId}

theorem manages (h : t.PassedOn i q report t') {j : InitiativeId} :
    t'.Manages j p ↔ t.Manages j p := by
  obtain ⟨grants, rfl⟩ := h.others
  exact Iff.rfl

theorem mem_resources (h : t.PassedOn i q report t') : x ∈ t'.resources ↔ x ∈ t.resources := by
  obtain ⟨grants, rfl⟩ := h.others
  exact Iff.rfl

theorem directOn (h : t.PassedOn i q report t') (hx : x ∈ t.resources)
    (departed : ¬ (p = q ∧ x.initiative = i ∧ t.directOn x q = some .owner))
    (inherited : ¬ (x.initiative = i ∧ t.Devolves q x ∧ t.Manages i p)) :
    t'.directOn x p = t.directOn x p := by
  unfold Tables.directOn
  rw [h.kept x.id p]
  intro y hy hi e
  obtain rfl := eq_of_key hy hx e
  exact ⟨fun own => departed ⟨own.1, hi, own.2⟩, fun falls => inherited ⟨hi, falls⟩⟩

theorem owned_of_devolves (h : t.PassedOn i q report t') (hx : x ∈ t.resources)
    (hi : x.initiative = i) (falls : t.Devolves q x) : t'.Owned x ∨ ∀ p, ¬ t.Manages i p := by
  by_cases managed : ∃ p, t.Manages i p
  · obtain ⟨p, manages⟩ := managed
    refine Or.inl (owned_of_directOn (p := p) ?_)
    unfold Tables.directOn
    rw [h.inherited x hx hi falls p manages]
    rfl
  · exact Or.inr fun p manages => managed ⟨p, manages⟩

/-- Afterwards the principal owns nothing in the initiative, and what has no owner has no manager
either. -/
theorem settled (h : t.PassedOn i q report t') (left : ¬ t.Manages i q) (hx : x ∈ t.resources)
    (hi : x.initiative = i) :
    t'.directOn x q ≠ some .owner ∧ (t'.Owned x ∨ ∀ p, ¬ t.Manages i p) := by
  by_cases held : t.directOn x q = some .owner
  · refine ⟨?_, h.owned_of_devolves hx hi (Or.inl held)⟩
    unfold Tables.directOn
    rw [h.departed x hx hi held]
    exact nofun
  · constructor
    · rw [h.directOn hx (fun own => held own.2.2) fun falls => left falls.2.2]
      exact held
    · by_cases owned : t.Owned x
      · -- nothing changes for this resource
        obtain ⟨p, level⟩ := owned
        have same := h.directOn (p := p) hx (fun own => held own.2.2) fun falls =>
          falls.2.1.elim held fun unowned => unowned ⟨p, level⟩
        refine Or.inl ⟨p, ?_⟩
        obtain ⟨grants, rfl⟩ := h.others
        rw [Tables.levelOn] at level ⊢
        unfold Tables.directOn at same
        rw [same]
        exact level
      · exact h.owned_of_devolves hx hi (Or.inr owned)

/-- There is nothing to pass on a second time. -/
theorem again (h : t.PassedOn i q report t') (left : ¬ t.Manages i q)
    (h' : t'.PassedOn i q report' t'') : report'.revoked = [] ∧ report'.granted = [] ∧
      ∀ w, w ∈ report'.ownerless ↔ w ∈ report.ownerless := by
  have same : ∀ c, t''.userGrants.find? c = t'.userGrants.find? c := by
    intro c
    refine h'.kept c.1 c.2 fun x hx hi _ => ?_
    obtain ⟨lost, settled⟩ := h.settled left (h.mem_resources.1 hx) hi
    refine ⟨fun own => lost own.2, ?_⟩
    rintro ⟨falls, manages⟩
    exact settled.elim (falls.resolve_left lost) fun none => none c.2 (h.manages.1 manages)
  refine ⟨List.eq_nil_iff_forall_not_mem.2 fun c hc => ?_,
    List.eq_nil_iff_forall_not_mem.2 fun c hc => ?_, fun w => ?_⟩
  · obtain ⟨there, gone⟩ := (h'.revoked c).1 hc
    rw [contains, same] at gone
    rw [contains, gone] at there
    cases there
  · obtain ⟨now, before⟩ := (h'.granted c).1 hc
    rw [same] at now
    exact before now
  · have unchanged : t'' = t' := by
      obtain ⟨grants, rfl⟩ := h'.others
      have e : grants = t'.userGrants := ext_find? same
      rw [e]
      rfl
    rw [h'.ownerless, h.ownerless, unchanged]
    simp only [h.mem_resources]

end PassedOn

end Store.Tables

/-! ## Transactions without checks -/

section Unchecked

variable {σ α β : Type}

/-- If the transaction fails, it does not fail by a check of its own. -/
def Transaction.Unchecked (x : Transaction σ α) : Prop :=
  ∀ f e, (x f).1 = .error e → ¬ e.ByCheck

namespace Transaction.Unchecked

variable {x : Transaction σ α} {g : α → Transaction σ β}

theorem bind (hx : Unchecked x) (hg : ∀ a, Unchecked (g a)) : Unchecked (x >>= g) := by
  intro f e
  rw [bind_eq]
  rcases h : x f with ⟨failure | a, f'⟩
  · intro failed
    obtain rfl : failure = e := Except.error.inj failed
    exact hx f failure (congrArg Prod.fst h)
  · exact hg a f' e

theorem pure (a : α) : Unchecked (pure a : Transaction σ α) := fun _ _ h => by cases h

theorem current : Unchecked (current : Transaction σ σ) := fun _ _ h => by cases h

theorem report (e : Event) : Unchecked (report e : Transaction σ Unit) := fun _ _ h => by cases h

theorem storeError (r : Except Store.Error α) : Unchecked (liftM r : Transaction σ α) := by
  intro f e h
  cases r with
  | error v =>
    cases h
    exact id
  | ok a => cases h

theorem change [Store.Backend σ] (c : Store.Change) :
    Unchecked (change c : Transaction σ Bool) := by
  intro f e h
  unfold Transaction.change at h
  split at h
  · cases h
  · cases h
    exact id

theorem forM {l : List α} {g : α → Transaction σ Unit} (hg : ∀ a, Unchecked (g a)) :
    Unchecked (l.forM g) := by
  induction l with
  | nil => exact pure ()
  | cons a rest ih => exact (hg a).bind fun _ => ih

end Transaction.Unchecked

/-- What makes no checks and can fail by a check only does not fail. -/
theorem Transaction.Accepted.done {f : Frame Tables} {x : Transaction Tables α} (h : Accepted f x)
    (unchecked : Unchecked x) : ∃ a f', x f = (.ok a, f') := by
  rcases e : x f with ⟨failure | a, f'⟩
  · have failed : (x f).1 = .error failure := congrArg Prod.fst e
    exact absurd (h failure failed) (unchecked f failure failed)
  · exact ⟨a, f', rfl⟩

/-- Nor does it on a faithful store. -/
theorem Transaction.Mirrors.done [Store.Backend σ] [Faithful σ] {f : Frame σ} {x : Transaction σ α}
    {y : Transaction Tables α} (mirrors : Mirrors x y) (sound : Sound f.store)
    (accepted : Accepted f.view y) (unchecked : Unchecked y) :
    ∃ a f', x f = (.ok a, f') ∧ Sound f'.store ∧ y f.view = (.ok a, f'.view) := by
  obtain ⟨a, g, done⟩ := accepted.done unchecked
  obtain ⟨sound', view, result⟩ := mirrors f sound
  rw [done] at view result
  refine ⟨a, (x f).2, Prod.ext (result.ok_iff.2 rfl) rfl, sound', ?_⟩
  rw [done, view]

end Unchecked

/-! ## The plan of a departure -/

namespace Succession

variable {f f' : Frame Tables} {t : Tables} {i : InitiativeId} {p : PrincipalId}
  {result : HandoverReport} {tenant : TenantId} {plan sweep : Handover.Plan}
  {grants : Table UserGrant} {c : ResourceId × PrincipalId}

theorem find?_granted : (granted tenant plan grants).find? c =
    if c ∈ plan.grantOwner then some ⟨c.1, c.2, .owner, tenant⟩
    else if c ∈ plan.revoke then none
    else grants.find? c := by
  have revoked : ∀ (l : List (ResourceId × PrincipalId)) (grants : Table UserGrant),
      (l.foldl (fun g c => g.erase c) grants).find? c =
        if c ∈ l then none else grants.find? c := fun l => by
    induction l with
    | nil => exact fun _ => rfl
    | cons a rest ih =>
      intro grants
      rw [List.foldl_cons, ih, find?_erase]
      by_cases later : c ∈ rest
      · simp [later]
      · simp [later]
  have raised : ∀ (l : List (ResourceId × PrincipalId)) (grants : Table UserGrant),
      (l.foldl (fun g c => g.insert ⟨c.1, c.2, .owner, tenant⟩) grants).find? c =
        if c ∈ l then some ⟨c.1, c.2, .owner, tenant⟩ else grants.find? c := fun l => by
    induction l with
    | nil => exact fun _ => rfl
    | cons a rest ih =>
      intro grants
      rw [List.foldl_cons, ih, find?_insert]
      by_cases later : c ∈ rest
      · simp [later]
      · by_cases e : c = a
        · subst e
          simp [later]
        · simp [later, e]
  rw [granted, raised, revoked]

/-- If a plan raises nobody who is an owner already, it raises just those who are owners by a grant
then and were not before. -/
theorem mem_grantOwner_iff
    (free : ∀ c ∈ plan.grantOwner, (grants.find? c).map UserGrant.level ≠ some .owner) :
    c ∈ plan.grantOwner ↔
      ((granted tenant plan grants).find? c).map UserGrant.level = some .owner ∧
        (grants.find? c).map UserGrant.level ≠ some .owner := by
  rw [find?_granted]
  constructor
  · intro raised
    rw [if_pos raised]
    exact ⟨rfl, free c raised⟩
  · rintro ⟨now, before⟩
    split at now
    · rename_i raised
      exact raised
    · split at now
      · cases now
      · exact absurd now before

theorem granted_append (idle : sweep.revoke = []) :
    granted tenant sweep (granted tenant plan grants) = granted tenant (plan ++ sweep) grants := by
  have revokes : (plan ++ sweep).revoke = plan.revoke := by
    have e : (plan ++ sweep).revoke = plan.revoke ++ sweep.revoke := rfl
    rw [e, idle, List.append_nil]
  have grants : (plan ++ sweep).grantOwner = plan.grantOwner ++ sweep.grantOwner := rfl
  rw [granted, granted, granted, revokes, grants, idle, List.foldl_append]
  rfl

/-- The plan of a departure from an initiative, as it is made from the rows. -/
def departing (t : Tables) (i : InitiativeId) (p : PrincipalId) : Handover.Plan :=
  Handover.wholePlan p ((t.resources.rows.filter fun r => r.initiative = i).map t.acl)
    (Store.roleMap t i) (Store.managingRoles t i)

/-- Handing on after a departure carries this plan out and reports it. -/
theorem afterDeparture_departing (found : f.store.initiatives.contains i = true)
    (h : afterDeparture i p f = (.ok result, f')) :
    ∃ initiative ∈ f.store.initiatives, initiative.id = i ∧
      result = ⟨(departing f.store i p).revoke, (departing f.store i p).grantOwner,
        (departing f.store i p).ownerless⟩ ∧
      f'.store = f.store.regrant
        (granted initiative.tenant (departing f.store i p) f.store.userGrants) := by
  rcases afterDeparture_ok h with ⟨missing, _, _⟩ |
    ⟨initiative, acls, plan, sweep, f₁, f₂, first, second, here, listed, hplan, hsweep, h₁, h₂, rfl,
      e⟩
  · rw [contains, missing] at found
    cases found
  · obtain ⟨hi, ei⟩ := find?_eq_some_iff.1 here
    obtain rfl := accessLists_eq_ok listed
    have idle : sweep.revoke = [] := by
      rw [hsweep]
      exact Handover.vacancyPlan_revoke
    have whole : plan ++ sweep = departing f.store i p := by
      rw [hsweep, hplan]
      rfl
    refine ⟨initiative, hi, ei, ?_, ?_⟩
    · rw [← whole, (carryOut_ok h₁).1, (carryOut_ok h₂).1]
      rfl
    · rw [e, (carryOut_ok h₂).2, (carryOut_ok h₁).2, ← whole, ← granted_append idle]
      rfl

section Rows

theorem exists_acl {P : Acl → Prop} :
    (∃ acl ∈ (t.resources.rows.filter fun r => r.initiative = i).map t.acl, P acl) ↔
      ∃ x ∈ t.resources, x.initiative = i ∧ P (t.acl x) := by
  constructor
  · rintro ⟨_, hacl, h⟩
    obtain ⟨x, hx, rfl⟩ := List.mem_map.1 hacl
    obtain ⟨hx, hi⟩ := List.mem_filter.1 hx
    exact ⟨x, hx, of_decide_eq_true hi, h⟩
  · rintro ⟨x, hx, hi, h⟩
    exact ⟨t.acl x, List.mem_map_of_mem (List.mem_filter.2 ⟨hx, decide_eq_true hi⟩), h⟩

theorem mem_departing_revoke : c ∈ (departing t i p).revoke ↔
    ∃ x ∈ t.resources, x.initiative = i ∧ t.directOn x p = some .owner ∧ c = (x.id, p) := by
  rw [departing, Handover.mem_wholePlan_revoke, exists_acl]
  simp only [Tables.direct?_acl_eq]
  exact Iff.rfl

theorem departing_apart (ht : t.Consistent) (i : InitiativeId) :
    ∀ a ∈ (t.resources.rows.filter fun r => r.initiative = i).map t.acl,
      ∀ b ∈ (t.resources.rows.filter fun r => r.initiative = i).map t.acl,
        a.resource.id = b.resource.id → a = b :=
  accessLists_apart (accessLists_of_consistent ht i)

theorem not_planned (ht : t.Consistent) (left : t.memberships.contains (i, p) = false) :
    ¬ p ∈ Handover.managers (Store.roleMap t i) (Store.managingRoles t i) := fun h =>
  Tables.not_manages left (ht.mem_managers.1 h)

theorem mem_departing_grantOwner (ht : t.Consistent)
    (left : t.memberships.contains (i, p) = false) : c ∈ (departing t i p).grantOwner ↔
      ∃ x ∈ t.resources, x.initiative = i ∧ t.Devolves p x ∧ ∃ q, t.Manages i q ∧
        t.directOn x q ≠ some .owner ∧ c = (x.id, q) := by
  rw [departing, Handover.mem_wholePlan_grantOwner (departing_apart ht i) (not_planned ht left),
    exists_acl]
  refine exists_congr fun x => and_congr_right fun _ => and_congr_right fun hi => ?_
  simp only [Tables.direct?_acl_eq, ht.mem_managers, Tables.Devolves, Tables.owned_iff, hi]
  exact Iff.rfl

theorem mem_departing_ownerless (ht : t.Consistent)
    (left : t.memberships.contains (i, p) = false) {w : Ownerless} :
    w ∈ (departing t i p).ownerless ↔ ∃ x ∈ t.resources, x.initiative = i ∧
      (∀ q, ¬ t.Manages i q) ∧ ¬ ((t.acl x).removeUser p).Owned (Store.roleMap t i) ∧
        w = Handover.ownerlessOf x := by
  rw [departing, Handover.mem_wholePlan_ownerless (departing_apart ht i) (not_planned ht left),
    exists_acl]
  simp only [isEmpty_iff_forall, ht.mem_managers]
  exact Iff.rfl

theorem departing_distinct (ht : t.Consistent) (i : InitiativeId) (p : PrincipalId) :
    (departing t i p).Distinct := by
  refine Handover.wholePlan_distinct p _ _ (departing_apart ht i) ?_
  rw [List.map_map]
  exact (nodup_keys (t := t.resources)).sublist (List.filter_sublist.map _)

end Rows

/-! ## The rows after it -/

section Passed

variable {t' : Tables} {x : Resource} {q : PrincipalId} {initiative : Initiative}
  (ht : t.Consistent) (left : t.memberships.contains (i, p) = false)
  (stored : t' = t.regrant (granted tenant (departing t i p) t.userGrants))

include stored

theorem find?_passed (c : ResourceId × PrincipalId) : t'.userGrants.find? c =
    if c ∈ (departing t i p).grantOwner then some ⟨c.1, c.2, .owner, tenant⟩
    else if c ∈ (departing t i p).revoke then none
    else t.userGrants.find? c := by
  rw [stored]
  exact find?_granted

include ht left

theorem passed_departed (hx : x ∈ t.resources) (hi : x.initiative = i)
    (held : t.directOn x p = some .owner) : t'.userGrants.find? (x.id, p) = none := by
  have unraised : ¬ (x.id, p) ∈ (departing t i p).grantOwner := by
    intro raised
    obtain ⟨y, _, _, _, q, manages, _, e⟩ := (mem_departing_grantOwner ht left).1 raised
    obtain rfl := (Prod.mk.inj e).2
    exact Tables.not_manages left manages
  rw [find?_passed stored, if_neg unraised,
    if_pos (mem_departing_revoke.2 ⟨x, hx, hi, held, rfl⟩)]

theorem passed_inherited (hx : x ∈ t.resources) (hi : x.initiative = i) (here : x.tenant = tenant)
    (falls : t.Devolves p x) (manages : t.Manages i q) :
    t'.userGrants.find? (x.id, q) = some ⟨x.id, q, .owner, x.tenant⟩ := by
  by_cases owner : t.directOn x q = some .owner
  · -- it has the grant already
    have unraised : ¬ (x.id, q) ∈ (departing t i p).grantOwner := by
      intro raised
      obtain ⟨y, hy, _, _, _, _, free, e⟩ := (mem_departing_grantOwner ht left).1 raised
      obtain ⟨ex, rfl⟩ := Prod.mk.inj e
      exact free (eq_of_key hx hy ex ▸ owner)
    have spared : ¬ (x.id, q) ∈ (departing t i p).revoke := by
      intro revoked
      obtain ⟨_, _, _, _, e⟩ := mem_departing_revoke.1 revoked
      obtain rfl := (Prod.mk.inj e).2
      exact Tables.not_manages left manages
    rw [find?_passed stored, if_neg unraised, if_neg spared, ht.find?_of_directOn hx owner]
  · rw [find?_passed stored, here, if_pos
      ((mem_departing_grantOwner ht left).2 ⟨x, hx, hi, falls, q, manages, owner, rfl⟩)]

theorem passed_kept (r : ResourceId) (q : PrincipalId)
    (untouched : ∀ x ∈ t.resources, x.initiative = i → x.id = r →
      ¬ (q = p ∧ t.directOn x p = some .owner) ∧ ¬ (t.Devolves p x ∧ t.Manages i q)) :
    t'.userGrants.find? (r, q) = t.userGrants.find? (r, q) := by
  have unraised : ¬ (r, q) ∈ (departing t i p).grantOwner := by
    intro raised
    obtain ⟨x, hx, hi, falls, q, manages, _, e⟩ := (mem_departing_grantOwner ht left).1 raised
    obtain ⟨rfl, rfl⟩ := Prod.mk.inj e
    exact (untouched x hx hi rfl).2 ⟨falls, manages⟩
  have spared : ¬ (r, q) ∈ (departing t i p).revoke := by
    intro revoked
    obtain ⟨x, hx, hi, held, e⟩ := mem_departing_revoke.1 revoked
    obtain ⟨rfl, rfl⟩ := Prod.mk.inj e
    exact (untouched x hx hi rfl).1 ⟨rfl, held⟩
  rw [find?_passed stored, if_neg unraised, if_neg spared]

theorem passed_revoked : c ∈ (departing t i p).revoke ↔
    t.userGrants.contains c = true ∧ t'.userGrants.contains c = false := by
  constructor
  · intro revoked
    obtain ⟨x, hx, hi, held, rfl⟩ := mem_departing_revoke.1 revoked
    obtain ⟨g, found, _⟩ := Option.map_eq_some_iff.1 held
    rw [contains, contains, found, passed_departed ht left stored hx hi held]
    exact ⟨rfl, rfl⟩
  · rintro ⟨there, gone⟩
    rw [contains, find?_passed stored] at gone
    split at gone
    · cases gone
    · split at gone
      · rename_i revoked
        exact revoked
      · rw [contains, gone] at there
        cases there

theorem passed_granted : c ∈ (departing t i p).grantOwner ↔
    (t'.userGrants.find? c).map UserGrant.level = some .owner ∧
      (t.userGrants.find? c).map UserGrant.level ≠ some .owner := by
  rw [stored]
  refine mem_grantOwner_iff fun c raised => ?_
  obtain ⟨x, _, _, _, q, _, free, rfl⟩ := (mem_departing_grantOwner ht left).1 raised
  exact free

/-- Where nobody manages, the owners that are left are others than the principal. -/
theorem passed_owned (none : ∀ q, ¬ t.Manages i q) (hx : x ∈ t.resources) (hi : x.initiative = i)
    (owned : t'.Owned x) : ((t.acl x).removeUser p).Owned (Store.roleMap t i) := by
  rw [Tables.owned_iff, Acl.owned_iff, hi] at owned
  refine Acl.owned_iff.2 ?_
  rcases owned with ⟨q, owns⟩ | byRole
  · have unraised : ¬ (x.id, q) ∈ (departing t i p).grantOwner := by
      intro raised
      obtain ⟨_, _, _, _, m, manages, _⟩ := (mem_departing_grantOwner ht left).1 raised
      exact none m manages
    rw [Tables.direct?_acl, find?_passed stored, if_neg unraised] at owns
    split at owns
    · cases owns
    · rename_i spared
      refine Or.inl ⟨q, ?_⟩
      rw [Acl.direct?_removeUser, if_neg]
      · exact Tables.direct?_acl.trans owns
      · rintro rfl
        exact spared (mem_departing_revoke.2 ⟨x, hx, hi, owns, rfl⟩)
  · rw [stored] at byRole
    exact Or.inr byRole

end Passed

/-- Handing on after a departure passes on what the principal leaves. -/
theorem afterDeparture_passedOn (ht : f.store.Consistent)
    (found : f.store.initiatives.contains i = true)
    (left : f.store.memberships.contains (i, p) = false)
    (h : afterDeparture i p f = (.ok result, f')) : f.store.PassedOn i p result f'.store := by
  obtain ⟨initiative, hinitiative, hid, rfl, stored⟩ := afterDeparture_departing found h
  have distinct := departing_distinct ht i p
  refine
    { others := ⟨_, stored⟩
      departed := fun x hx hi held => passed_departed ht left stored hx hi held
      inherited := fun x hx hi falls q manages => passed_inherited ht left stored hx hi
        (ht.aligned.resource x hx initiative hinitiative (hid.trans hi.symm)).symm falls manages
      kept := passed_kept ht left stored
      revoked := fun c => passed_revoked ht left stored
      granted := fun c => passed_granted ht left stored
      ownerless := fun w => ?_
      revoked_nodup := distinct.revoke
      granted_nodup := distinct.grantOwner
      ownerless_nodup := distinct.ownerless }
  constructor
  · intro listed
    obtain ⟨x, hx, hi, none, unowned, rfl⟩ := (mem_departing_ownerless ht left).1 listed
    exact ⟨x, hx, hi, fun owned => unowned (passed_owned ht left stored none hx hi owned), rfl⟩
  · rintro ⟨x, hx, hi, unowned, rfl⟩
    have gone : ∀ m ∈ f.store.memberships, m.initiative = i → m.principal ≠ p :=
      fun m hm hmi e => not_contains_iff.1 left m hm (Prod.ext hmi e)
    exact ((afterDeparture_settled ht h hx hi gone).1.resolve_left unowned).2

theorem carryOut_unchecked (tenant : TenantId) (plan : Handover.Plan) :
    Unchecked (carryOut tenant plan : Transaction Tables HandoverReport) :=
  .bind (.forM fun _ => .bind (.change _) fun _ => .pure _) fun _ =>
    .bind (.forM fun _ => .bind (.change _) fun _ => .pure _) fun _ =>
      .bind (.forM fun _ => .report _) fun _ => .pure _

theorem afterDeparture_unchecked (i : InitiativeId) (p : PrincipalId) :
    Unchecked (afterDeparture i p : Transaction Tables HandoverReport) := by
  refine .bind .current fun s => ?_
  cases ask (.initiative i) s with
  | none => exact .pure _
  | some initiative =>
    exact .bind (.storeError _) fun acls => .bind (carryOut_unchecked _ _) fun first =>
      .bind (carryOut_unchecked _ _) fun second => .bind (.report _) fun _ => .pure _

/-! ## Faithful stores -/

section Faithful

variable {σ : Type} [Store.Backend σ] {f f' : Frame σ}

/-- A plan that was carried out with no grants to report has changed none. -/
theorem carryOut_idle {tenant : TenantId} {plan : Handover.Plan}
    (h : carryOut tenant plan f = (.ok result, f')) (revoked : result.revoked = [])
    (granted : result.granted = []) : f'.store = f.store := by
  simp only [carryOut, bind_ok, pure_ok] at h
  obtain ⟨_, f₁, h₁, _, f₂, h₂, _, f₃, h₃, rfl, rfl⟩ := h
  rw [show plan.revoke = [] from revoked] at h₁
  rw [show plan.grantOwner = [] from granted] at h₂
  simp only [List.forM, pure_ok, true_and] at h₁ h₂
  subst h₁ h₂
  refine forM_ok_induction (P := fun g => g.store = f.store) (fun w _ g g' same h => ?_) rfl h₃
  rw [← report_ok.1 h]
  exact same

theorem afterDeparture_idle (h : afterDeparture i p f = (.ok result, f'))
    (revoked : result.revoked = []) (granted : result.granted = []) : f'.store = f.store := by
  simp only [afterDeparture, bind_ok, current_ok] at h
  obtain ⟨_, _, ⟨rfl, rfl⟩, h⟩ := h
  cases found : ask (.initiative i) f.store with
  | none =>
    simp only [found, pure_ok] at h
    rw [h.2]
  | some initiative =>
    simp only [found, bind_ok, lift_storeError_ok, report_ok, pure_ok] at h
    obtain ⟨acls, _, ⟨_, rfl⟩, first, f₁, h₁, second, f₂, h₂, _, _, rfl, rfl, rfl⟩ := h
    obtain ⟨revoked, revoked'⟩ := List.append_eq_nil_iff.1 revoked
    obtain ⟨granted, granted'⟩ := List.append_eq_nil_iff.1 granted
    exact (carryOut_idle h₂ revoked' granted').trans (carryOut_idle h₁ revoked granted)

variable [Faithful σ]

/-- On a faithful store with rows that fit together it succeeds and passes on what the principal
leaves. -/
theorem afterDeparture_run (sound : Sound f.store) (ht : (tables f.store).Consistent)
    (found : (tables f.store).initiatives.contains i = true)
    (left : (tables f.store).memberships.contains (i, p) = false) :
    ∃ report f', afterDeparture i p f = (.ok report, f') ∧ Sound f'.store ∧
      (tables f'.store).Consistent ∧ (tables f.store).PassedOn i p report (tables f'.store) := by
  obtain ⟨report, f', succeeded, sound', done⟩ := (afterDeparture_mirrors i p).done sound
    (afterDeparture_accepted (f := f.view) ht) (afterDeparture_unchecked i p)
  obtain ⟨initiative, here⟩ := Option.isSome_iff_exists.1 found
  have within := afterDeparture_within (f := f.view) ht (Tables.tenantOf_found here) done
  exact ⟨report, f', succeeded, sound', (within.mono fun _ _ h => h.fits).consistent ht,
    afterDeparture_passedOn (f := f.view) ht found left done⟩

/-- Whatever it has passed on, doing it again any number of times changes nothing. -/
theorem afterDeparture_again {t : Tables} {report : HandoverReport} (sound : Sound f.store)
    (ht : (tables f.store).Consistent) (found : (tables f.store).initiatives.contains i = true)
    (left : (tables f.store).memberships.contains (i, p) = false)
    (passed : t.PassedOn i p report (tables f.store)) (n : Nat) :
    ∃ again f', (List.replicate n i).mapM (afterDeparture · p) f = (.ok again, f') ∧
      f'.store = f.store ∧ ∀ r ∈ again, r.revoked = [] ∧ r.granted = [] ∧
        ∀ w, w ∈ r.ownerless ↔ w ∈ report.ownerless := by
  induction n generalizing f with
  | zero => exact ⟨[], f, rfl, rfl, fun _ h => absurd h List.not_mem_nil⟩
  | succ n ih =>
    obtain ⟨r, f₁, done, _, _, passed'⟩ := afterDeparture_run sound ht found left
    have unmanaged : ¬ t.Manages i p := fun manages =>
      Tables.not_manages left (passed.manages.2 manages)
    obtain ⟨revoked, granted, ownerless⟩ := passed.again unmanaged passed'
    have same := afterDeparture_idle done revoked granted
    rw [← same] at sound ht found left passed
    obtain ⟨again, f', dones, same', idle⟩ := ih sound ht found left passed
    refine ⟨r :: again, f', ?_, same'.trans same, ?_⟩
    · rw [List.replicate_succ, mapM_cons_ok]
      exact ⟨r, f₁, again, done, dones, rfl⟩
    · intro r' hr'
      rcases List.mem_cons.1 hr' with rfl | hr'
      · exact ⟨revoked, granted, ownerless⟩
      · exact idle r' hr'

end Faithful

end Succession

namespace Reachable

variable {σ : Type} [Store.Backend σ] [Faithful σ] {s : σ} {i : InitiativeId} {q : PrincipalId}

/-- After a single change that fits, the rows fit together and are those that the tables would have. -/
theorem changed (h : Reachable s) {c : Store.Change} (fits : c.Fits (tables s)) :
    Sound (Store.Backend.change c s).2 ∧ (tables (Store.Backend.change c s).2).Consistent ∧
      tables (Store.Backend.change c s).2 = (Store.Backend.change c (tables s)).2 := by
  have follows := Faithful.change_follows h.sound fits.upright
  have e : Store.Backend.change c (tables s) = (Tables.step c).run (tables s) := rfl
  rw [e, Store.Step.run]
  generalize Store.Backend.change c s = r at follows
  generalize step : Tables.step c (tables s) = r' at follows
  cases follows with
  | done sound => exact ⟨sound, h.consistent.step fits step, rfl⟩
  | refused => exact ⟨h.sound, h.consistent, rfl⟩

/-- The rows when a membership is absent or has just ended. -/
theorem unenrolled (h : Reachable s) {s₁ : σ}
    (left : ask (.membership i q) s = none ∧ s₁ = s ∨
      s₁ = (Store.Backend.change (.removeMembership i q) s).2) :
    Sound s₁ ∧ tables s₁ = (tables s).unenrol i q := by
  rcases left with ⟨absent, rfl⟩ | rfl
  · rw [Faithful.ask_eq h.sound] at absent
    refine ⟨h.sound, ?_⟩
    rw [Tables.unenrol, erase_eq_self (not_contains_iff.2 (find?_eq_none_iff.1 absent))]
  · obtain ⟨sound, _, rows⟩ := h.changed (c := .removeMembership i q) trivial
    exact ⟨sound, rows⟩

/-- When a membership in an initiative is absent or has just ended, handing on what the principal owned
there passes on just what falls vacant, reports just the grants that it changed and the resources
that are left without an owner, and doing it again changes nothing. -/
theorem departure_passedOn (h : Reachable s) {initiative : Initiative}
    (stored : ask (.initiative i) s = some initiative) {s₁ : σ}
    (left : ask (.membership i q) s = none ∧ s₁ = s ∨
      s₁ = (Store.Backend.change (.removeMembership i q) s).2)
    (ids : Supply) (events : List Event) :
    ∃ report f, Succession.afterDeparture i q ⟨s₁, ids, events⟩ = (.ok report, f) ∧
      (tables s₁).PassedOn i q report (tables f.store) ∧
      ∀ n, ∃ again f', (List.replicate n i).mapM (Succession.afterDeparture · q) f = (.ok again, f') ∧
        f'.store = f.store ∧ ∀ r ∈ again, r.revoked = [] ∧ r.granted = [] ∧
          ∀ w, w ∈ r.ownerless ↔ w ∈ report.ownerless := by
  obtain ⟨sound, e⟩ := h.unenrolled left
  have consistent : (tables s₁).Consistent := by
    rw [e]
    exact h.consistent.step (c := .removeMembership i q) trivial
      (Tables.step_removeMembership.2 ⟨rfl, rfl⟩)
  have found : (tables s₁).initiatives.contains i = true := by
    rw [Faithful.ask_eq h.sound] at stored
    rw [e]
    exact contains_of_find? stored
  have absent : (tables s₁).memberships.contains (i, q) = false := by
    rw [e]
    exact not_contains_iff.2 fun m hm => (mem_erase.1 hm).2
  obtain ⟨report, f, done, sound', consistent', passed⟩ :=
    Succession.afterDeparture_run (f := ⟨s₁, ids, events⟩) sound consistent found absent
  refine ⟨report, f, done, passed, fun n => ?_⟩
  obtain ⟨grants, same⟩ := passed.others
  refine Succession.afterDeparture_again sound' consistent' ?_ ?_ passed n
  · rw [same]
    exact found
  · rw [same]
    exact absent

/-- A founder leaves its initiative, and the other manager comes to own its project. -/
theorem departure_passedOn_staffing :
    let staffed : Tables := (Call.runAll default (Call.staffing 3) .empty .empty).1
    let left : Tables := (Store.Backend.change
      (.removeMembership (Supply.numberedId 2) (Supply.numberedId 0)) staffed).2
    ∃ report f, Succession.afterDeparture (Supply.numberedId 2) (Supply.numberedId 0)
        (⟨left, .empty, []⟩ : Frame Tables) = (.ok report, f) ∧
      report = ⟨[(Supply.numberedId 5, Supply.numberedId 0)],
        [(Supply.numberedId 5, Supply.numberedId 6)], []⟩ ∧
      left.PassedOn (Supply.numberedId 2) (Supply.numberedId 0) report f.store := by
  intro staffed left
  have reachable : Reachable staffed := of_runAll (by decide +kernel)
  obtain ⟨initiative, stored⟩ := Option.isSome_iff_exists.1
    (show (ask (.initiative (Supply.numberedId 2)) staffed).isSome = true by decide +kernel)
  obtain ⟨report, f, done, passed, _⟩ :=
    reachable.departure_passedOn stored (q := Supply.numberedId 0) (Or.inr rfl) .empty []
  have reported : (Succession.afterDeparture (Supply.numberedId 2) (Supply.numberedId 0)
      (⟨left, .empty, []⟩ : Frame Tables)).1.toOption = some ⟨[(Supply.numberedId 5,
        Supply.numberedId 0)], [(Supply.numberedId 5, Supply.numberedId 6)], []⟩ := by decide +kernel
  rw [done] at reported
  exact ⟨report, f, done, Option.some.inj reported, passed⟩

end Reachable

end TenantAccess
