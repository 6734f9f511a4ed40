import TenantAccess.Proofs.Rises

/-!
# What is left after a departure

Handing ownership over changes grants of principals only, and the grants that it adds are for managers
of the initiative. Who leaves an initiative keeps neither a membership nor a grant there, and leaving
other initiatives gives neither back.
-/

namespace TenantAccess

open Store (Tables)
open Transaction Table

/-! ## Grants within a tenant -/

namespace Store.Tables

variable {t t' t'' : Tables} {i : InitiativeId}

/-- The rows `t'` differ from `t` in grants of principals only, and those that are new are for managers
of the initiative, in its tenant. -/
structure RegrantedIn (i : InitiativeId) (t t' : Tables) : Prop where
  others : ∃ grants, t' = t.regrant grants
  added : ∀ g ∈ t'.userGrants,
    g ∈ t.userGrants ∨ t.tenantOf i = some g.tenant ∧ t.Manages i g.principal

namespace RegrantedIn

theorem refl (t : Tables) : t.RegrantedIn i t := ⟨⟨t.userGrants, rfl⟩, fun _ hg => Or.inl hg⟩

theorem trans (h : t.RegrantedIn i t') (h' : t'.RegrantedIn i t'') : t.RegrantedIn i t'' := by
  obtain ⟨⟨grants, rfl⟩, added⟩ := h
  obtain ⟨⟨grants', rfl⟩, added'⟩ := h'
  exact ⟨⟨grants', rfl⟩, fun g hg => (added' g hg).elim (added g) Or.inr⟩

theorem of_subset {grants : Table UserGrant} (h : ∀ g ∈ grants, g ∈ t.userGrants) :
    t.RegrantedIn i (t.regrant grants) :=
  ⟨⟨grants, rfl⟩, fun g hg => Or.inl (h g hg)⟩

end RegrantedIn

theorem mem_initiativesIn {u : TenantId} (h : t.tenantOf i = some u) :
    i ∈ (t.initiatives.rows.filter fun i => i.tenant = u).map Initiative.id := by
  obtain ⟨initiative, found, e⟩ := Option.map_eq_some_iff.1 h
  obtain ⟨hi, ei⟩ := find?_eq_some_iff.1 found
  exact List.mem_map.2 ⟨initiative, List.mem_filter.2 ⟨hi, decide_eq_true e⟩, ei⟩

end Store.Tables

/-! ## Handovers -/

namespace Succession

variable {f f' : Frame Tables} {i : InitiativeId} {p : PrincipalId} {result : HandoverReport}
  {tenant : TenantId} {plan : Handover.Plan} {g : UserGrant} {grants : Table UserGrant}

theorem mem_granted (h : g ∈ granted tenant plan grants) :
    g ∈ grants ∨ (g.resource, g.principal) ∈ plan.grantOwner ∧ g.tenant = tenant := by
  have kept : ∀ (l : List (ResourceId × PrincipalId)) (grants : Table UserGrant),
      g ∈ l.foldl (fun g c => g.erase c) grants → g ∈ grants := fun l => by
    induction l with
    | nil => exact fun _ => id
    | cons c rest ih => exact fun grants hg => (mem_erase.1 (ih _ hg)).1
  have set : ∀ (l : List (ResourceId × PrincipalId)) (grants : Table UserGrant),
      g ∈ l.foldl (fun g c => g.insert ⟨c.1, c.2, .owner, tenant⟩) grants →
        g ∈ grants ∨ (g.resource, g.principal) ∈ l ∧ g.tenant = tenant := fun l => by
    induction l with
    | nil => exact fun _ => Or.inl
    | cons c rest ih =>
      intro grants hg
      rcases ih _ hg with hg | ⟨hg, e⟩
      · rcases mem_insert.1 hg with rfl | ⟨hg, _⟩
        · exact Or.inr ⟨List.mem_cons_self, rfl⟩
        · exact Or.inl hg
      · exact Or.inr ⟨List.mem_cons_of_mem c hg, e⟩
  exact (set _ _ h).imp_left (kept _ _)

theorem mem_drop {l : List ResourceId} : g ∈ l.foldl (fun g r => g.erase (r, p)) grants ↔
    g ∈ grants ∧ ¬ (g.principal = p ∧ g.resource ∈ l) := by
  have e (grants : Table UserGrant) :
      g ∈ grants ↔ grants.find? (g.resource, g.principal) = some g :=
    (and_iff_left rfl).symm.trans find?_eq_some_iff.symm
  rw [e, e, find?_drop]
  split
  · rename_i gone
    simp [gone]
  · rename_i kept
    exact (and_iff_left kept).symm

/-- A plan for managers of an initiative adds grants to them. -/
theorem carryOut_regranted (here : f.store.tenantOf i = some tenant)
    (managers : ∀ c ∈ plan.grantOwner, f.store.Manages i c.2)
    (h : carryOut tenant plan f = (.ok result, f')) : f.store.RegrantedIn i f'.store := by
  rw [(carryOut_ok h).2]
  refine ⟨⟨_, rfl⟩, fun g hg => (mem_granted hg).imp_right ?_⟩
  rintro ⟨planned, rfl⟩
  exact ⟨here, managers _ planned⟩

theorem fillVacancies_regranted (h : fillVacancies i f = (.ok result, f')) :
    f.store.RegrantedIn i f'.store := by
  rcases fillVacancies_ok h with ⟨_, _, rfl⟩ | ⟨initiative, acls, found, _, carried⟩
  · exact .refl _
  · refine carryOut_regranted (Tables.tenantOf_found found) (fun c hc => ?_) carried
    obtain ⟨_, _, _, m, hm, _, rfl⟩ := Handover.mem_vacancyPlan_grantOwner.1 hc
    exact Tables.manages_of_mem_managers hm

theorem afterDeparture_regranted (h : afterDeparture i p f = (.ok result, f')) :
    f.store.RegrantedIn i f'.store := by
  rcases afterDeparture_ok h with ⟨_, _, rfl⟩ |
    ⟨initiative, acls, plan, sweep, f₁, f₂, _, _, found, _, hplan, hsweep, h₁, h₂, _, e⟩
  · exact .refl _
  · have first : f.store.RegrantedIn i f₁.store :=
      carryOut_regranted (Tables.tenantOf_found found) (fun c hc => by
        rw [hplan] at hc
        obtain ⟨_, _, _, m, hm, _, rfl⟩ := Handover.mem_departurePlan_grantOwner.1 hc
        exact Tables.manages_of_mem_managers (mem_erase.1 hm).1) h₁
    obtain ⟨grants, same⟩ := first.others
    have second : f₁.store.RegrantedIn i f₂.store :=
      carryOut_regranted (same ▸ Tables.tenantOf_found found) (fun c hc => by
        rw [hsweep] at hc
        obtain ⟨_, _, _, m, hm, _, rfl⟩ := Handover.mem_vacancyPlan_grantOwner.1 hc
        exact same ▸ Tables.manages_of_mem_managers hm) h₂
    exact e ▸ first.trans second

theorem leaveInitiative_regranted (h : leaveInitiative p i f = (.ok result, f')) :
    (f.store.unenrol i p).RegrantedIn i f'.store := by
  obtain ⟨wasMember, t, acls, step, _, h⟩ := leaveInitiative_ok h
  obtain ⟨_, rfl⟩ := Tables.step_removeMembership.1 step
  rcases h with ⟨_, _, _, e⟩ | ⟨f₁, left, e⟩
  · rw [e]
    exact .refl _
  · rw [e]
    exact (afterDeparture_regranted left).trans (.of_subset fun g hg => (mem_drop.1 hg).1)

/-- Who has left an initiative has the grants that it had elsewhere. -/
theorem leaveInitiative_grant (h : leaveInitiative p i f = (.ok result, f'))
    (hg : g ∈ f'.store.userGrants) (own : g.principal = p) : g ∈ f.store.userGrants ∧
      ∀ x ∈ f.store.resources, x.id = g.resource → x.initiative ≠ i := by
  have had : g ∈ f.store.userGrants := by
    refine ((leaveInitiative_regranted h).added g hg).resolve_right ?_
    -- it is no manager there, for its membership has ended
    rintro ⟨_, m, hm, hi, hp, _⟩
    exact (mem_erase.1 hm).2 (Prod.ext hi (hp.trans own))
  refine ⟨had, ?_⟩
  rintro x hx ex rfl
  obtain ⟨wasMember, t, acls, step, listed, h⟩ := leaveInitiative_ok h
  obtain ⟨_, rfl⟩ := Tables.step_removeMembership.1 step
  have found : f.store.userGrants.find? (g.resource, p) = some g :=
    find?_eq_some_iff.2 ⟨had, Prod.ext rfl own⟩
  have held : g.resource ∈ heldBy p acls := by
    refine mem_heldBy.2 ⟨(f.store.unenrol x.initiative p).acl x, ?_, ?_, ex⟩
    · rw [accessLists_eq_ok listed]
      exact List.mem_map_of_mem (List.mem_filter.2 ⟨hx, decide_eq_true rfl⟩)
    · rw [Tables.direct?_acl, ex, Tables.unenrol, found]
      rfl
  rcases h with ⟨_, none, _, _⟩ | ⟨f₁, _, e⟩
  · rw [none] at held
    cases held
  · rw [e] at hg
    exact (mem_drop.1 hg).2 ⟨own, held⟩

theorem leaveEach_grant {l : List Initiative} {reports : List HandoverReport}
    (h : l.mapM (fun i => leaveInitiative p i.id) f = (.ok reports, f'))
    (hg : g ∈ f'.store.userGrants) (own : g.principal = p) : g ∈ f.store.userGrants ∧
      ∀ x ∈ f.store.resources, x.id = g.resource → x.initiative ∉ l.map Initiative.id := by
  induction l generalizing f reports with
  | nil =>
    simp only [List.mapM_nil, pure_ok] at h
    exact ⟨h.2 ▸ hg, fun _ _ _ => List.not_mem_nil⟩
  | cons i rest ih =>
    obtain ⟨_, f₁, reports, h₁, hrest, _⟩ := mapM_cons_ok.1 h
    obtain ⟨had, elsewhere⟩ := ih hrest
    obtain ⟨had, other⟩ := leaveInitiative_grant h₁ had own
    obtain ⟨grants, e⟩ := leaveInitiative_store h₁
    have same : f₁.store.resources = f.store.resources := by
      rw [e]
      rfl
    refine ⟨had, fun x hx ex among => ?_⟩
    rcases List.mem_cons.1 among with here | among
    · exact other x hx ex here
    · exact elsewhere x (same ▸ hx) ex among

theorem leaveEach_member {l : List Initiative} {reports : List HandoverReport}
    (h : l.mapM (fun i => leaveInitiative p i.id) f = (.ok reports, f')) {m : Membership}
    (hm : m ∈ f'.store.memberships) : m ∈ f.store.memberships ∧
      ¬ (m.principal = p ∧ m.initiative ∈ l.map Initiative.id) := by
  induction l generalizing f reports with
  | nil =>
    simp only [List.mapM_nil, pure_ok] at h
    exact ⟨h.2 ▸ hm, fun left => List.not_mem_nil left.2⟩
  | cons i rest ih =>
    obtain ⟨_, f₁, reports, h₁, hrest, _⟩ := mapM_cons_ok.1 h
    obtain ⟨had, stays⟩ := ih hrest
    obtain ⟨grants, e⟩ := leaveInitiative_store h₁
    rw [e] at had
    obtain ⟨had, other⟩ := mem_erase.1 had
    refine ⟨had, ?_⟩
    rintro ⟨own, among⟩
    rcases List.mem_cons.1 among with here | among
    · exact other (Prod.ext here own)
    · exact stays ⟨own, among⟩

end Succession

end TenantAccess
