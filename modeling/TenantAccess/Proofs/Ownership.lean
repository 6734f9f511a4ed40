import TenantAccess.Proofs.Coverage
import TenantAccess.Proofs.Effects

/-!
# Owners of stored resources

What each operation does to the owners of the resources that are left. Most keep an owner wherever
there is one. Those that end or change a membership either do so too or report the resource, and then
no member of its initiative holds a manager role.
-/

namespace TenantAccess

open Store (Tables Change)
open Handover (ownerlessOf)
open Transaction Table

/-! ## Owners and managers -/

namespace Store.Tables

variable {t t' : Tables} {x : Resource}

/-- The resource has an owner, or it is reported as without one for want of a manager. -/
def Settled (t : Tables) (x : Resource) (report : HandoverReport) : Prop :=
  t.Owned x ∨ ¬ t.Managed x.initiative ∧ ownerlessOf x ∈ report.ownerless

/-- Each resource that is left has an owner if it had one. -/
def KeepsOwners (t t' : Tables) : Prop :=
  ∀ x ∈ t.resources, ∀ x' ∈ t'.resources, x'.id = x.id → t.Owned x → t'.Owned x'

/-- Each resource that is left is settled if it had an owner. -/
def SettlesOwners (t t' : Tables) (report : HandoverReport) : Prop :=
  ∀ x ∈ t.resources, ∀ x' ∈ t'.resources, x'.id = x.id → t.Owned x → t'.Settled x' report

theorem KeepsOwners.of_resources (same : t'.resources = t.resources)
    (h : ∀ x ∈ t.resources, t.Owned x → t'.Owned x) : t.KeepsOwners t' :=
  fun x hx _ hx' e owned => eq_of_key (same ▸ hx') hx e ▸ h x hx owned

theorem SettlesOwners.of_resources {report : HandoverReport} (same : t'.resources = t.resources)
    (h : ∀ x ∈ t.resources, t.Owned x → t'.Settled x report) : t.SettlesOwners t' report :=
  fun x hx _ hx' e owned => eq_of_key (same ▸ hx') hx e ▸ h x hx owned

@[simp] theorem roleMap_regrant {grants : Table UserGrant} {i : InitiativeId} :
    roleMap (t.regrant grants) i = roleMap t i := rfl

@[simp] theorem managed_regrant {grants : Table UserGrant} {i : InitiativeId} :
    (t.regrant grants).Managed i ↔ t.Managed i := Iff.rfl

/-- Owners stay owners when nothing is granted anew and no member leaves. -/
theorem Owned.mono (h : t.Owned x) (acl : t'.acl x = t.acl x)
    (members : ∀ m ∈ t.memberships, m.initiative = x.initiative → m ∈ t'.memberships) :
    t'.Owned x := by
  rw [owned_iff, Acl.owned_iff] at h ⊢
  rw [acl]
  refine h.imp_right fun ⟨entry, hentry, owner⟩ => ⟨entry, ?_, owner⟩
  obtain ⟨m, hm, hi, e⟩ := mem_roleMap.1 hentry
  exact mem_roleMap.2 ⟨m, members m hm hi, hi, e⟩

theorem owned_congr (acl : t'.acl x = t.acl x)
    (members : ∀ m, m.initiative = x.initiative → (m ∈ t'.memberships ↔ m ∈ t.memberships)) :
    t'.Owned x ↔ t.Owned x :=
  ⟨fun h => h.mono acl.symm fun m hm hi => (members m hi).1 hm,
    fun h => h.mono acl fun m hm hi => (members m hi).2 hm⟩

theorem Settled.congr {report : HandoverReport} (h : t.Settled x report) (acl : t'.acl x = t.acl x)
    (members : ∀ m, m.initiative = x.initiative → (m ∈ t'.memberships ↔ m ∈ t.memberships))
    (roles : t'.roles = t.roles) : t'.Settled x report := by
  refine h.imp (owned_congr acl members).2 (And.imp_left fun unmanaged => ?_)
  rintro ⟨m, hm, hi, r, hr, manages⟩
  exact unmanaged ⟨m, (members m hi).1 hm, hi, r, roles ▸ hr, manages⟩

theorem Settled.mono {report report' : HandoverReport} (h : t.Settled x report)
    (more : ∀ w ∈ report.ownerless, w ∈ report'.ownerless) : t.Settled x report' :=
  h.imp_right (And.imp_right (more _))

end Store.Tables

/-! ## Handovers -/

namespace Succession

variable {f f' : Frame Tables} {i : InitiativeId} {p : PrincipalId} {result : HandoverReport}
  {x : Resource} {acls : List Acl}

theorem carryOut_acl {tenant : TenantId} {plan : Handover.Plan}
    (h : carryOut tenant plan f = (.ok result, f')) :
    f'.store.acl x = plan.applyTo (f.store.acl x) := by
  rw [(carryOut_ok h).2, Tables.acl_granted]

theorem accessLists_apart {t : Tables} (listed : accessLists t i = .ok acls) :
    ∀ a ∈ acls, ∀ b ∈ acls, a.resource.id = b.resource.id → a = b := by
  intro a ha b hb e
  obtain ⟨r, hr, _, rfl⟩ := mem_accessLists listed ha
  obtain ⟨r', hr', _, rfl⟩ := mem_accessLists listed hb
  rw [eq_of_key hr hr' e]

theorem acl_mem_accessLists {t : Tables} (listed : accessLists t i = .ok acls)
    (hx : x ∈ t.resources) (hi : x.initiative = i) : t.acl x ∈ acls := by
  rw [accessLists_eq_ok listed]
  exact List.mem_map_of_mem (List.mem_filter.2 ⟨hx, decide_eq_true hi⟩)

theorem initiative_found {t : Tables} (ht : t.Consistent) (hx : x ∈ t.resources)
    (hi : x.initiative = i) : t.initiatives.find? i ≠ none := by
  intro missing
  have absent := not_contains_iff.2 (find?_eq_none_iff.1 missing)
  exact ne_of_contains absent (ht.stored.resource x hx).1 hi

theorem fillVacancies_owned (h : fillVacancies i f = (.ok result, f')) (owned : f.store.Owned x) :
    f'.store.Owned x := by
  rcases fillVacancies_ok h with ⟨_, _, rfl⟩ | ⟨_, _, _, _, carried⟩
  · exact owned
  · rw [Tables.owned_iff] at owned ⊢
    obtain ⟨grants, e⟩ := fillVacancies_regrant h
    rw [carryOut_acl carried, e, Tables.roleMap_regrant]
    exact Handover.vacancyPlan_owned owned

theorem fillVacancies_settled (ht : f.store.Consistent) (h : fillVacancies i f = (.ok result, f'))
    (hx : x ∈ f.store.resources) (hi : x.initiative = i) : f'.store.Settled x result := by
  rcases fillVacancies_ok h with ⟨missing, _, _⟩ | ⟨initiative, acls, _, listed, carried⟩
  · exact absurd missing (initiative_found ht hx hi)
  · obtain ⟨grants, e⟩ := fillVacancies_regrant h
    rw [Tables.Settled, Tables.owned_iff, carryOut_acl carried, (carryOut_ok carried).1, e,
      Tables.roleMap_regrant, Tables.managed_regrant, hi]
    have covered := Handover.vacancyPlan_covers (Store.roleMap f.store i)
      (Store.managingRoles f.store i) (acl_mem_accessLists listed hx hi)
    exact covered.imp_right (And.imp_left ht.not_managed)

/-- After a departure each resource of the initiative is settled, and the principal that left is not
its owner by a grant of its own. -/
theorem afterDeparture_settled (ht : f.store.Consistent)
    (h : afterDeparture i p f = (.ok result, f')) (hx : x ∈ f.store.resources)
    (hi : x.initiative = i)
    (left : ∀ m ∈ f.store.memberships, m.initiative = i → m.principal ≠ p) :
    f'.store.Settled x result ∧ (f'.store.acl x).direct? p ≠ some .owner := by
  rcases afterDeparture_ok h with ⟨missing, _, _⟩ |
    ⟨initiative, acls, plan, sweep, f₁, f₂, first, second, _, listed, hplan, hsweep, h₁, h₂, rfl, e⟩
  · exact absurd missing (initiative_found ht hx hi)
  · obtain ⟨grants, same⟩ := afterDeparture_regrant h
    have hacl := acl_mem_accessLists listed hx hi
    have after : f'.store.acl x = Handover.afterBoth p acls (Store.roleMap f.store i)
        (Store.managingRoles f.store i) (f.store.acl x) := by
      rw [e, carryOut_acl h₂, carryOut_acl h₁, hsweep, hplan]
      rfl
    have gone : ¬ p ∈ Handover.managers (Store.roleMap f.store i)
        (Store.managingRoles f.store i) := fun hp => by
      obtain ⟨entry, hentry, e, _⟩ := Handover.mem_managers.1 hp
      obtain ⟨m, hm, hm', rfl⟩ := Store.mem_roleMap.1 hentry
      exact left m hm hm' e
    constructor
    · have covered := Handover.afterBoth_covers p (Store.roleMap f.store i)
        (Store.managingRoles f.store i)
        (accessLists_apart listed) hacl
      have all : ∀ q ∈ Handover.managers (Store.roleMap f.store i)
          (Store.managingRoles f.store i), Keyed.key q ≠ p := by
        rintro q hq rfl
        exact gone hq
      rw [erase_eq_self (not_contains_iff.2 all), ← after] at covered
      have lists : (first ++ second).ownerless = plan.ownerless ++ sweep.ownerless := by
        rw [(carryOut_ok h₁).1, (carryOut_ok h₂).1]
        rfl
      rw [same] at covered
      rw [Tables.Settled, lists, Tables.owned_iff, hsweep, hplan, same, Tables.roleMap_regrant,
        Tables.managed_regrant, hi]
      exact covered.imp_right (And.imp_left ht.not_managed)
    · rw [after]
      exact Handover.afterBoth_direct? hacl gone

/-- A departure from one initiative leaves the access lists in others alone. -/
theorem afterDeparture_acl (h : afterDeparture i p f = (.ok result, f'))
    (hx : x ∈ f.store.resources) (hi : x.initiative ≠ i) : f'.store.acl x = f.store.acl x := by
  have elsewhere {acls : List Acl} (listed : accessLists f.store i = .ok acls) {acl : Acl}
      (hacl : acl ∈ acls) : acl.resource.id ≠ x.id := by
    obtain ⟨r, hr, rfl, rfl⟩ := mem_accessLists listed hacl
    intro e
    exact hi (congrArg Resource.initiative (eq_of_key hr hx e)).symm
  rcases afterDeparture_ok h with ⟨_, _, rfl⟩ |
    ⟨initiative, acls, plan, sweep, f₁, f₂, _, _, _, listed, rfl, rfl, h₁, h₂, _, e⟩
  · rfl
  · rw [e, carryOut_acl h₂, carryOut_acl h₁, Handover.Plan.applyTo_of_untouched,
      Handover.Plan.applyTo_of_untouched]
    · intro c hc
      obtain ⟨acl, hacl, e⟩ := Handover.departurePlan_resource hc
      rw [e]
      exact elsewhere listed hacl
    · intro c hc
      obtain ⟨acl, hacl, e⟩ := Handover.vacancyPlan_resource hc
      obtain ⟨old, hold, rfl⟩ := List.mem_map.1 (List.mem_filter.1 hacl).1
      rw [e, Handover.Plan.applyTo_resource, Handover.Plan.applyTo_resource]
      exact elsewhere listed hold

theorem drop_owned {t : Tables} {l : List ResourceId} (owned : t.Owned x)
    (hp : (t.acl x).direct? p ≠ some .owner) :
    (t.regrant (l.foldl (fun g r => g.erase (r, p)) t.userGrants)).Owned x := by
  induction l generalizing t with
  | nil => exact owned
  | cons r rest ih =>
    refine ih (t := t.regrant (t.userGrants.erase (r, p))) ?_ ?_
    · rw [Tables.owned_iff] at owned ⊢
      rw [Tables.acl_erase, Tables.roleMap_regrant]
      split
      · exact owned.removeUser hp
      · exact owned
    · rw [Tables.acl_erase]
      split
      · rw [Acl.direct?_removeUser, if_pos rfl]
        exact nofun
      · exact hp

theorem drop_acl {t : Tables} {l : List ResourceId} (hl : ∀ r ∈ l, r ≠ x.id) :
    (t.regrant (l.foldl (fun g r => g.erase (r, p)) t.userGrants)).acl x = t.acl x := by
  induction l generalizing t with
  | nil => rfl
  | cons r rest ih =>
    refine (ih (t := t.regrant (t.userGrants.erase (r, p)))
      fun r hr => hl r (List.mem_cons_of_mem _ hr)).trans ?_
    rw [Tables.acl_erase, if_neg (hl r List.mem_cons_self)]

/-! ## Leaving -/

theorem leaveInitiative_settled (ht : f.store.Consistent) (h : leaveInitiative p i f = (.ok result, f'))
    (hx : x ∈ f.store.resources) (hi : x.initiative = i) (owned : f.store.Owned x) :
    f'.store.Settled x result := by
  obtain ⟨wasMember, t, acls, step, listed, h⟩ := leaveInitiative_ok h
  have ht' : t.Consistent := ht.step (c := .removeMembership i p) trivial step
  obtain ⟨hmember, rfl⟩ := Tables.step_removeMembership.1 step
  rcases h with ⟨none, _, _, e⟩ | ⟨f₁, left, e⟩
  · rw [e]
    have absent : f.store.memberships.contains (i, p) = false := hmember ▸ none
    have same : (f.store.unenrol i p).Owned x ↔ f.store.Owned x :=
      Tables.owned_congr rfl fun m _ => by rw [Tables.unenrol, erase_eq_self absent]
    exact Or.inl (same.2 owned)
  · -- what is dropped after the plans is no ownership any more
    have gone : ∀ m ∈ f.store.memberships.erase (i, p), m.initiative = i → m.principal ≠ p :=
      fun m hm hmi e => (mem_erase.1 hm).2 (Prod.ext hmi e)
    obtain ⟨settled, direct⟩ := afterDeparture_settled ht' left hx hi gone
    rw [e]
    exact settled.imp_left fun owned => drop_owned owned direct

theorem leaveInitiative_acl (h : leaveInitiative p i f = (.ok result, f'))
    (hx : x ∈ f.store.resources) (hi : x.initiative ≠ i) : f'.store.acl x = f.store.acl x := by
  obtain ⟨wasMember, t, acls, step, listed, h⟩ := leaveInitiative_ok h
  obtain ⟨_, rfl⟩ := Tables.step_removeMembership.1 step
  rcases h with ⟨_, _, _, e⟩ | ⟨f₁, left, e⟩
  · rw [e]
    rfl
  · rw [e, drop_acl, afterDeparture_acl left hx hi]
    · rfl
    · intro r hr e
      obtain ⟨acl, hacl, _, rfl⟩ := mem_heldBy.1 hr
      obtain ⟨y, hy, rfl, rfl⟩ := mem_accessLists listed hacl
      exact hi (congrArg Resource.initiative (eq_of_key hx hy e.symm))

theorem mem_unenrol {t : Tables} {m : Membership} (hi : m.initiative ≠ i) :
    m ∈ (t.unenrol i p).memberships ↔ m ∈ t.memberships :=
  mem_erase.trans (and_iff_left fun e => hi (Prod.mk.inj e).1)

theorem leaveEach_keeps {l : List Initiative} {reports : List HandoverReport}
    {report : HandoverReport} (hx : x ∈ f.store.resources) (others : ∀ i ∈ l, x.initiative ≠ i.id)
    (h : l.mapM (fun i => leaveInitiative p i.id) f = (.ok reports, f'))
    (settled : f.store.Settled x report) : f'.store.Settled x report := by
  induction l generalizing f reports with
  | nil =>
    simp only [List.mapM_nil, pure_ok] at h
    rw [← h.2]
    exact settled
  | cons i rest ih =>
    obtain ⟨_, f₁, reports, h₁, hrest, _⟩ := mapM_cons_ok.1 h
    have other := others i List.mem_cons_self
    obtain ⟨grants, e⟩ := leaveInitiative_store h₁
    refine ih (by rw [e]; exact hx) (fun j hj => others j (List.mem_cons_of_mem i hj)) hrest ?_
    refine settled.congr (leaveInitiative_acl h₁ hx other) (fun m hm => ?_) (by rw [e]; rfl)
    rw [e]
    exact mem_unenrol fun hi => other (hm.symm.trans hi)

theorem leaveEach_settled {l : List Initiative} {u : TenantId} {reports : List HandoverReport}
    (ht : f.store.Consistent) (inside : ∀ i ∈ l, f.store.tenantOf i.id = some u)
    (apart : (l.map Initiative.id).Nodup) (hx : x ∈ f.store.resources)
    (h : l.mapM (fun i => leaveInitiative p i.id) f = (.ok reports, f'))
    (owned : f.store.Owned x) : f'.store.Settled x (.concat reports) := by
  induction l generalizing f reports with
  | nil =>
    simp only [List.mapM_nil, pure_ok] at h
    rw [← h.2]
    exact Or.inl owned
  | cons i rest ih =>
    obtain ⟨report, f₁, reports, h₁, hrest, rfl⟩ := mapM_cons_ok.1 h
    obtain ⟨hne, apart⟩ := List.nodup_cons.1 apart
    obtain ⟨grants, e⟩ := leaveInitiative_store h₁
    have hx₁ : x ∈ f₁.store.resources := by rw [e]; exact hx
    -- the departure from its own initiative settles a resource; until then it keeps its owner, and
    -- afterwards it stays settled
    by_cases here : x.initiative = i.id
    · have others : ∀ j ∈ rest, x.initiative ≠ j.id := fun j hj e =>
        hne (here.symm.trans e ▸ List.mem_map_of_mem hj)
      exact (leaveEach_keeps hx₁ others hrest (leaveInitiative_settled ht h₁ hx here owned)).mono
        fun w => List.mem_append_left _
    · have within := leaveInitiative_within ht (inside i List.mem_cons_self) h₁
      have ht₁ := (within.mono fun _ _ h => h.fits).consistent ht
      have inside₁ : ∀ j ∈ rest, f₁.store.tenantOf j.id = some u := fun j hj => by
        rw [e]
        exact inside j (List.mem_cons_of_mem i hj)
      have owned₁ : f₁.store.Owned x := by
        refine (Tables.owned_congr (leaveInitiative_acl h₁ hx here) fun m hm => ?_).2 owned
        rw [e]
        exact mem_unenrol fun hi => here (hm.symm.trans hi)
      exact (ih ht₁ inside₁ apart hx₁ hrest owned₁).mono fun w => List.mem_append_right _

theorem leaveEach_resources {l : List Initiative} {reports : List HandoverReport}
    (h : l.mapM (fun i => leaveInitiative p i.id) f = (.ok reports, f')) :
    f'.store.resources = f.store.resources := by
  induction l generalizing f reports with
  | nil =>
    simp only [List.mapM_nil, pure_ok] at h
    rw [h.2]
  | cons i rest ih =>
    obtain ⟨_, f₁, reports, h₁, hrest, _⟩ := mapM_cons_ok.1 h
    obtain ⟨grants, e⟩ := leaveInitiative_store h₁
    rw [ih hrest, e]
    rfl

theorem leaveTenant_settled {u : TenantId} (ht : f.store.Consistent) (hx : x ∈ f.store.resources)
    (h : leaveTenant u p f = (.ok result, f')) (owned : f.store.Owned x) :
    f'.store.Settled x result := by
  obtain ⟨reports, left, rfl⟩ := leaveTenant_ok h
  refine leaveEach_settled (u := u) ht (fun i hi => ?_) ?_ hx left owned
  · obtain ⟨hi, e⟩ := List.mem_filter.1 hi
    rw [Tables.tenantOf_mem hi, of_decide_eq_true e]
  · exact (nodup_keys (t := f.store.initiatives)).sublist (List.filter_sublist.map _)

end Succession

end TenantAccess
