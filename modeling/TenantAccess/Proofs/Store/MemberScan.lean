import TenantAccess.Proofs.Levels

/-!
# Scanning for the members of an initiative

Memberships lie in the order of their initiatives and, within one initiative, of their principals. The scan
that starts at the least principal of an initiative and stops at the next initiative passes just its
members, whether the initiatives beside it have members or not.
-/

namespace TenantAccess.Store

open Keyed Table

namespace Tables

variable {t : Tables} {i : InitiativeId}

theorem mem_membershipsIn {m : Membership} :
    m ∈ Backend.ask (.membershipsIn i) t ↔ m ∈ t.memberships ∧ m.initiative = i := by
  rw [TenantAccess.ask_membershipsIn, List.mem_filter, decide_eq_true_eq]
  exact Iff.rfl

/-- Within one initiative the order of the keys is that of the principals. -/
theorem membershipsIn_ordered : (Backend.ask (.membershipsIn i) t).Pairwise
    fun a b => a.principal.value < b.principal.value := by
  have ordered : (Backend.ask (.membershipsIn i) t).Pairwise fun a b => place a < place b := by
    rw [TenantAccess.ask_membershipsIn]
    exact t.memberships.ordered.filter _
  refine ordered.imp_of_mem fun {a b} ha hb before => ?_
  have same : a.initiative = b.initiative :=
    (mem_membershipsIn.1 ha).2.trans (mem_membershipsIn.1 hb).2.symm
  simp only [place, Ranked.rank, key_membership, same] at before
  omega

end Tables

/-- Members that are listed in order make up a map as they are. -/
theorem roleMap_rows {t : Tables} {i : InitiativeId} : (roleMap t i).rows =
    (Backend.ask (.membershipsIn i) t).map fun m => (m.principal, m.role) := by
  have ordered : ((Backend.ask (.membershipsIn i) t).map fun m => (m.principal, m.role)).Pairwise
      fun a b => place a < place b :=
    List.pairwise_map.2 (Tables.membershipsIn_ordered.imp fun before => before)
  refine eq_of_strictly_sorted place (roleMap t i).ordered ordered fun entry => ?_
  rw [← mem_iff, mem_roleMap, List.mem_map]
  simp only [Tables.mem_membershipsIn, and_assoc]

namespace Tables

/-- The scan finds the members of an initiative, stored or not: just the memberships in it, each one once
and in the order of their principals, and the role map is made of them. -/
theorem members_scanned (t : Tables) (i : InitiativeId) :
    let listed := Backend.ask (.membershipsIn i) t
    listed = t.memberships.rows.filter (fun m => m.initiative = i) ∧
      (∀ m, m ∈ listed ↔ m ∈ t.memberships ∧ m.initiative = i) ∧
      (listed.Pairwise fun a b => a.principal.value < b.principal.value) ∧
      (roleMap t i).rows = (listed.map fun m => (m.principal, m.role)) ∧
      ∀ p, (roleMap t i).find? p = (t.memberships.find? (i, p)).map fun m => (m.principal, m.role) := by
  intro listed
  refine ⟨TenantAccess.ask_membershipsIn, fun m => mem_membershipsIn, membershipsIn_ordered, roleMap_rows,
    fun p => find?_roleMap⟩

/-- The first and the last principal that there can be are found, and those of the initiatives right before
and after are not. -/
example :
    let first : PrincipalId := Id.least
    let last : PrincipalId := ⟨(1 <<< 128) - 1, by decide⟩
    let at' (i : InitiativeId) (p : PrincipalId) : Membership := ⟨i, p, Id.least⟩
    let before : InitiativeId := ⟨6, by decide⟩
    let here : InitiativeId := ⟨7, by decide⟩
    let after : InitiativeId := ⟨8, by decide⟩
    let t : Tables := { Tables.empty with
      memberships := .ofList [at' after first, at' here last, at' before last, at' here first] }
    Backend.ask (.membershipsIn here) t = [at' here first, at' here last] := by
  decide +kernel

end Tables

end TenantAccess.Store
