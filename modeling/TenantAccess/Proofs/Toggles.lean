import TenantAccess.Proofs.Rows
import TenantAccess.Role

/-!
# The toggles of a role

In a tidy role the toggles stand in the order of their features, at most one for each, and are its
own. Switching a feature keeps a role tidy and changes the toggle of that feature only.
-/

namespace TenantAccess

theorem Feature.position_injective {a b : Feature} (h : a.position = b.position) : a = b := by
  cases a <;> cases b <;> simp_all [position]

namespace Role

/-- The toggles are in strict order of their features, and all are toggles of the role. -/
structure Tidy (role : Role) : Prop where
  ordered : role.toggles.Pairwise fun a b => a.feature.position < b.feature.position
  own : ∀ x ∈ role.toggles, x.role = role.id

variable {role : Role} {new x : Toggle} {l : List Toggle}

instance : Decidable role.Tidy :=
  decidable_of_iff
    ((role.toggles.Pairwise fun a b => a.feature.position < b.feature.position) ∧
      ∀ x ∈ role.toggles, x.role = role.id)
    ⟨fun h => ⟨h.1, h.2⟩, fun h => ⟨h.ordered, h.own⟩⟩

theorem mem_putToggle (ordered : l.Pairwise fun a b => a.feature.position < b.feature.position)
    (own : ∀ y ∈ l, y.role = new.role) :
    x ∈ putToggle new l ↔ x = new ∨ x ∈ l ∧ x.feature ≠ new.feature := by
  induction l with
  | nil => simp [putToggle]
  | cons y rest ih =>
    have hy := List.pairwise_cons.1 ordered
    have later : ∀ z ∈ rest, z.feature ≠ y.feature := fun z hz e => by
      have := hy.1 z hz
      rw [e] at this
      omega
    simp only [putToggle]
    split
    · rename_i e
      have same : { y with enabled := new.enabled } = new := by
        rw [own y List.mem_cons_self, ← e]
      rw [same, List.mem_cons, List.mem_cons]
      constructor
      · rintro (rfl | hx)
        · exact Or.inl rfl
        · exact Or.inr ⟨Or.inr hx, e ▸ later x hx⟩
      · rintro (rfl | ⟨rfl | hx, hne⟩)
        · exact Or.inl rfl
        · exact absurd e.symm hne
        · exact Or.inr hx
    · rename_i hne
      split
      · rename_i hlt
        rw [List.mem_cons (a := x) (b := new)]
        refine or_congr_right ⟨fun hx => ⟨hx, fun e => ?_⟩, And.left⟩
        rcases List.mem_cons.1 hx with rfl | hx
        · exact hne e.symm
        · have := hy.1 x hx
          rw [e] at this
          omega
      · rw [List.mem_cons, ih hy.2 fun z hz => own z (List.mem_cons_of_mem y hz), List.mem_cons]
        constructor
        · rintro (rfl | rfl | ⟨hx, hx'⟩)
          · exact Or.inr ⟨Or.inl rfl, fun e => hne e.symm⟩
          · exact Or.inl rfl
          · exact Or.inr ⟨Or.inr hx, hx'⟩
        · rintro (rfl | ⟨rfl | hx, hx'⟩)
          · exact Or.inr (Or.inl rfl)
          · exact Or.inl rfl
          · exact Or.inr (Or.inr ⟨hx, hx'⟩)

theorem putToggle_ordered (ordered : l.Pairwise fun a b => a.feature.position < b.feature.position)
    (own : ∀ y ∈ l, y.role = new.role) :
    (putToggle new l).Pairwise fun a b => a.feature.position < b.feature.position := by
  induction l with
  | nil => exact List.pairwise_singleton _ _
  | cons y rest ih =>
    have hy := List.pairwise_cons.1 ordered
    have own' := fun z hz => own z (List.mem_cons_of_mem y hz)
    simp only [putToggle]
    split
    · exact List.pairwise_cons.2 ⟨hy.1, hy.2⟩
    · rename_i hne
      split
      · rename_i hlt
        refine List.pairwise_cons.2 ⟨fun x hx => ?_, ordered⟩
        rcases List.mem_cons.1 hx with rfl | hx
        · exact hlt
        · exact Nat.lt_trans hlt (hy.1 x hx)
      · rename_i hge
        refine List.pairwise_cons.2 ⟨fun x hx => ?_, ih hy.2 own'⟩
        rcases (mem_putToggle hy.2 own').1 hx with rfl | ⟨hx, _⟩
        · have : x.feature.position ≠ y.feature.position := fun e =>
            hne (Feature.position_injective e)
          omega
        · exact hy.1 x hx

namespace Tidy

theorem plain {id : RoleId} {i : InitiativeId} {name : String} {isManager : Bool}
    {position : UInt32} : (Role.plain id i name isManager position).Tidy :=
  ⟨List.Pairwise.nil, by simp [Role.plain]⟩

theorem mem_withToggle (h : role.Tidy) {c : Feature} {enabled : Bool} :
    x ∈ (role.withToggle c enabled).toggles ↔
      x = ⟨role.id, c, enabled⟩ ∨ x ∈ role.toggles ∧ x.feature ≠ c :=
  mem_putToggle h.ordered h.own

theorem withToggle (h : role.Tidy) (c : Feature) (enabled : Bool) :
    (role.withToggle c enabled).Tidy where
  ordered := putToggle_ordered h.ordered h.own
  own x hx := by
    rcases h.mem_withToggle.1 hx with rfl | ⟨hx, _⟩
    · rfl
    · exact h.own x hx

theorem toggles_eq {other : Role} (h : role.Tidy) (h' : other.Tidy)
    (same : ∀ x, x ∈ role.toggles ↔ x ∈ other.toggles) : role.toggles = other.toggles :=
  eq_of_strictly_sorted (fun x => x.feature.position) h.ordered h'.ordered same

end Tidy

end Role

end TenantAccess
