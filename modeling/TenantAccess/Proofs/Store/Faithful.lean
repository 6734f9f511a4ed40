import TenantAccess.Proofs.Store.Consistency

/-!
# Stores that amount to ordered tables

A store is faithful if its rows can be seen as ordered tables such that each question has the answer
that the tables give, and each change succeeds or fails with the same change to the tables and leaves
the rows that this leaves.
-/

namespace TenantAccess.Store

/-- A change of a role keeps to what a store can hold: tidy toggles, and the initiative that the role
is stored with. -/
def Change.Upright (t : Tables) : Change → Prop
  | .putRole row => row.Tidy ∧ ∀ r ∈ t.roles, r.id = row.id → r.initiative = row.initiative
  | _ => True

instance Change.decidableUpright {t : Tables} : (c : Change) → Decidable (c.Upright t)
  | .putRole row => inferInstanceAs (Decidable (row.Tidy ∧
      ∀ r ∈ t.roles.rows, r.id = row.id → r.initiative = row.initiative))
  | .addTenant _ | .putPrincipal _ | .putTenantMembership _ | .removeTenantMembership _ _
  | .addInitiative _ | .removeRole _ | .putToggle _ | .putMembership _ | .removeMembership _ _
  | .addResource _ | .removeResource _ | .putUserGrant _ | .removeUserGrant _ _ | .putRoleGrant _
  | .removeRoleGrant _ _ => .isTrue trivial

theorem Change.Fits.upright {t : Tables} {c : Change} (h : c.Fits t) : c.Upright t := by
  cases c with
  | putRole row => exact h
  | _ => trivial

/-- A change to a store, as against the same change to the tables that it shows. -/
inductive Follows {σ : Type} (Sound : σ → Prop) (tables : σ → Tables) (s : σ) :
    Except Error Bool × σ → Except Error (Bool × Tables) → Prop
  | done {hit : Bool} {s' : σ} (sound : Sound s') :
    Follows Sound tables s (.ok hit, s') (.ok (hit, tables s'))
  | refused (v v' : Violation) :
    Follows Sound tables s (.error (.constraint v), s) (.error (.constraint v'))

/-- A way to keep rows that amounts to ordered tables. -/
class Faithful (σ : Type) [Backend σ] where
  /-- The rows of a store. -/
  tables : σ → Tables
  /-- What holds of the stores that arise from changes. -/
  Sound : σ → Prop
  empty_sound : Sound Backend.empty
  tables_empty : tables Backend.empty = .empty
  ask_eq {s : σ} (h : Sound s) {α : Type} (q : Query α) : Backend.ask q s = Tables.ask q (tables s)
  change_follows {s : σ} (h : Sound s) {c : Change} (up : c.Upright (tables s)) :
    Follows Sound tables s (Backend.change c s) (Tables.step c (tables s))

theorem Tables.demand_error {R : Type} {noun : Noun} [Keyed R (Id noun)] {table : Table R}
    {id : Id noun} (h : table.contains id = false) :
    demand table id = .error (.constraint (.unknown id)) := by
  simp [demand, h]

theorem Tables.step_error {t : Tables} {c : Change} {e : Error} (h : Tables.step c t = .error e) :
    ∃ v, e = .constraint v := by
  have needed {R : Type} {noun : Noun} [Keyed R (Id noun)] {table : Table R} {id : Id noun}
      {α : Type} {next : Unit → Except Error α} (h : (demand table id >>= next) = .error e)
      (hnext : next () = .error e → ∃ v, e = .constraint v) : ∃ v, e = .constraint v := by
    cases hc : table.contains id with
    | true =>
      rw [demand, hc] at h
      exact hnext h
    | false =>
      rw [demand_error hc] at h
      exact ⟨_, (Except.error.inj h).symm⟩
  have free {R : Type} {noun : Noun} [Keyed R (Id noun)] {table : Table R} {id : Id noun}
      {α : Type} {a : α} (h : (demandFree table id >>= fun _ => pure a) = .error e) :
      ∃ v, e = .constraint v := by
    cases hc : table.contains id with
    | true =>
      rw [demandFree, hc] at h
      exact ⟨_, (Except.error.inj h).symm⟩
    | false =>
      rw [demandFree, hc] at h
      cases h
  cases c with
  | addTenant row => exact free h
  | putTenantMembership row => exact needed h fun h => needed h fun h => by cases h
  | addInitiative row => exact needed h free
  | putRole row =>
    refine needed h fun h => ?_
    cases hn : t.roleNameTaken row with
    | true =>
      rw [hn] at h
      exact ⟨_, (Except.error.inj h).symm⟩
    | false =>
      rw [hn] at h
      cases h
  | removeRole r =>
    simp only [step] at h
    split at h
    · exact ⟨_, (Except.error.inj h).symm⟩
    · split at h <;> cases h
  | putToggle row =>
    simp only [step] at h
    split at h
    · exact ⟨_, (Except.error.inj h).symm⟩
    · cases h
  | putMembership row => exact needed h fun h => needed h fun h => needed h fun h => by cases h
  | addResource row => exact needed h fun h => needed h free
  | removeResource r =>
    simp only [step] at h
    split at h <;> cases h
  | putUserGrant row => exact needed h fun h => needed h fun h => by cases h
  | putRoleGrant row => exact needed h fun h => needed h fun h => by cases h
  | putPrincipal | removeTenantMembership | removeMembership | removeUserGrant | removeRoleGrant =>
    cases h

/-- Ordered tables go along with any change to themselves. -/
theorem Tables.change_follows (t : Tables) (c : Change) :
    Follows (fun _ => True) id t (Backend.change c t) (Tables.step c t) := by
  have e : Backend.change c t = (Tables.step c).run t := rfl
  rw [e, Step.run]
  cases h : Tables.step c t with
  | ok r => exact .done trivial
  | error e =>
    obtain ⟨v, rfl⟩ := Tables.step_error h
    exact .refused v v

instance : Faithful Tables where
  tables := id
  Sound _ := True
  empty_sound := trivial
  tables_empty := rfl
  ask_eq _ _ _ := rfl
  change_follows {s} _ c _ := Tables.change_follows s c

end TenantAccess.Store
