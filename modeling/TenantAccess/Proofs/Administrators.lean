import TenantAccess.Proofs.Entitlement

/-!
# Administrative rows change by right

A row that administers a tenant, an initiative or a resource differs after a call only if the caller had
the right to change it by the rows before the call, for the tenant, initiative or resource of that very
row.
-/

namespace TenantAccess

open Store (Tables Faithful)
open Store.Faithful (tables)
open Transaction Table

/-- The row is in one of two tables and not in the other. -/
def Table.Differs {R K : Type} [Ranked K] [Keyed R K] (t t' : Table R) (r : R) : Prop :=
  ¬ (r ∈ t' ↔ r ∈ t)

/-- A row that can only have gone was there before. -/
theorem Table.Differs.gone {R K : Type} [Ranked K] [Keyed R K] {t t' : Table R} {r : R}
    (h : t.Differs t' r) (old : r ∈ t' → r ∈ t) : r ∈ t ∧ r ∉ t' := by
  have gone : r ∉ t' := fun there => h ⟨old, fun _ => there⟩
  exact ⟨Classical.byContradiction fun absent => h (iff_of_false gone absent), gone⟩

namespace Store.Tables

/-- Where the rows `t'` differ from `t`, the principal has the right by `t` to change the row in the
tenant. Grants to principals are left out. -/
structure ChangedByRight (t : Tables) (u : TenantId) (p : PrincipalId) (t' : Tables) : Prop where
  tenantMembers : ∀ m, t.tenantMemberships.Differs t'.tenantMemberships m → t.Administers u p
  initiatives : ∀ i, t.initiatives.Differs t'.initiatives i → t.Administers u p
  /-- The toggles of a role are part of its row. -/
  roles : ∀ r, t.roles.Differs t'.roles r → t.Leads u r.initiative p
  /-- Members may delete their own membership. -/
  members : ∀ m, t.memberships.Differs t'.memberships m → t.Leads u m.initiative p ∨
    m.principal = p ∧ m ∈ t.memberships ∧ t'.memberships.contains (m.initiative, p) = false
  resources : ∀ x ∈ t.resources, x ∉ t'.resources → t.levelOn x p = some .owner
  /-- Grants to a role go with the role, which nobody holds then. -/
  roleGrants : ∀ x ∈ t.resources, x ∈ t'.resources → ∀ g, g.resource = x.id →
    t.roleGrants.Differs t'.roleGrants g → t.levelOn x p = some .owner ∨
      t.roles.contains g.role = true ∧ t'.roles.contains g.role = false ∧
        ∀ m ∈ t.memberships, m.role ≠ g.role

variable {t t' : Tables} {u : TenantId} {p : PrincipalId}

/-- A member without a right over its initiative can but leave it. -/
theorem Governed.own_membership (h : t.Governed u p t') {m : Membership}
    (differs : t.memberships.Differs t'.memberships m) (powerless : ¬ t.Leads u m.initiative p) :
    m.principal = p ∧ m ∈ t.memberships ∧ t'.memberships.contains (m.initiative, p) = false := by
  have kept := (h.members m.initiative).resolve_left powerless
  obtain ⟨old, stays⟩ := kept m rfl
  obtain ⟨had, gone⟩ := differs.gone old
  have own : m.principal = p :=
    Classical.byContradiction fun other => gone (stays had other)
  refine ⟨own, had, not_contains_iff.2 fun n hn e => gone ?_⟩
  -- a membership under the same key would be the old one
  obtain ⟨hi, hp⟩ := Prod.mk.inj e
  rwa [← eq_of_key ((kept n hi).1 hn) had (Prod.ext hi (hp.trans own.symm))]

theorem Governed.changedByRight (h : t.Governed u p t') (ht : t.Consistent) :
    t.ChangedByRight u p t' where
  tenantMembers m differs := h.tenantMembers.resolve_right fun same => differs (same ▸ Iff.rfl)
  initiatives i differs := h.initiatives.resolve_right fun same => differs (same ▸ Iff.rfl)
  roles r differs := (h.roles r.initiative).resolve_right fun same => differs (same r rfl)
  members m differs :=
    (Classical.em (t.Leads u m.initiative p)).imp_right (h.own_membership differs)
  resources x hx gone := (h.resources x hx).resolve_right gone
  roleGrants x hx hx' g hg differs := by
    refine (h.roleGrants x hx hx').imp_right fun kept => ?_
    obtain ⟨old, stays⟩ := kept g hg
    obtain ⟨had, gone⟩ := differs.gone old
    obtain ⟨deleted, unheld⟩ := (stays had).resolve_left gone
    exact ⟨(ht.stored.roleGrant g had).2, deleted, unheld⟩

end Store.Tables

/-- What a caller asks or orders in its tenant, it does by the rights that it has there. -/
theorem Call.request_governed {f f' : Frame Tables} {settings : Settings} {caller : Caller}
    {r : Request} {answer : Answer} (ht : f.store.Consistent)
    (fresh : f.ids.FreshFor ((request caller r).draws settings) f.store)
    (h : (request caller r).perform settings f = (.ok answer, f')) :
    f.store.Governed caller.tenant caller.principal f'.store := by
  cases r with
  | ask q =>
    obtain ⟨_, _, _, e⟩ := perform_ask h
    rw [e]
    exact .refl _
  | order command => exact order_governed ht fresh h

namespace Reachable

variable {σ : Type} [Store.Backend σ] [Faithful σ] {s : σ} {settings : Settings} {caller : Caller}
  {r : Request} {ids : Supply} {answer : Answer}

/-- A successful request changes only such rows as its caller had the right to change before. -/
theorem request_changedByRight (h : Reachable s)
    (fresh : ids.FreshFor ((Call.request caller r).draws settings) (tables s))
    (done : ((Call.request caller r).run settings s ids).result = .ok answer) :
    (tables s).ChangedByRight caller.tenant caller.principal
      (tables ((Call.request caller r).run settings s ids).store) := by
  obtain ⟨f, performed, store⟩ := h.performed fresh done
  rw [store]
  exact (Call.request_governed (f := ⟨tables s, ids, []⟩) h.consistent fresh
    performed).changedByRight h.consistent

/-- A member that leads nothing leaves its initiative. -/
theorem request_changedByRight_staffing :
    let staffed : Tables := (Call.runAll default (Call.staffing 4) .empty .empty).1
    let leave : Call := .request ⟨Supply.numberedId 6, .member, Supply.numberedId 1, .activeTenant⟩
      (.order (.dismiss (Supply.numberedId 2) (Supply.numberedId 6)))
    (tables staffed).ChangedByRight (Supply.numberedId 1) (Supply.numberedId 6)
      (tables (leave.run default staffed .empty).store) := by
  intro staffed leave
  have reachable : Reachable staffed := of_runAll (by decide +kernel)
  have fresh : Supply.empty.FreshFor (leave.draws default) (tables staffed) := by decide +kernel
  obtain ⟨answer, done⟩ := exists_of_isOk (x := (leave.run default staffed .empty).result)
    (by decide +kernel)
  clear_value staffed
  exact reachable.request_changedByRight fresh done

end Reachable

end TenantAccess
