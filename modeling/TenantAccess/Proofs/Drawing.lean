import Mathlib.Data.Finset.Card
import Mathlib.Data.Finset.Range
import TenantAccess.Proofs.Freshness

/-!
# Drawing several identifiers

What the numbers of the next identifiers are after some have been drawn, and that those that were fresh
before are still fresh if no rows were named but by the ones drawn.
-/

namespace TenantAccess

open Store (Tables)

/-- Rows that bear identifiers are only added under one of the numbers. -/
structure Store.Tables.Adds (t : Tables) (numbers : List Nat) (t' : Tables) : Prop where
  tenants : ∀ x ∈ t'.tenants, x ∈ t.tenants ∨ x.id.value ∈ numbers
  principals : ∀ x ∈ t'.principals, x ∈ t.principals ∨ x.id.value ∈ numbers
  initiatives : ∀ x ∈ t'.initiatives, x ∈ t.initiatives ∨ x.id.value ∈ numbers
  roles : ∀ x ∈ t'.roles, x ∈ t.roles ∨ x.id.value ∈ numbers
  resources : ∀ x ∈ t'.resources, x ∈ t.resources ∨ x.id.value ∈ numbers

namespace Store.Tables

variable {t t' : Tables} {numbers : List Nat} {number : Nat}

theorem Adds.none : t.Adds numbers t :=
  ⟨fun _ => Or.inl, fun _ => Or.inl, fun _ => Or.inl, fun _ => Or.inl, fun _ => Or.inl⟩

theorem names_iff : t.names number = true ↔ (∃ x ∈ t.tenants, x.id.value = number) ∨
    (∃ x ∈ t.principals, x.id.value = number) ∨ (∃ x ∈ t.initiatives, x.id.value = number) ∨
    (∃ x ∈ t.roles, x.id.value = number) ∨ ∃ x ∈ t.resources, x.id.value = number := by
  simp only [names, Bool.or_eq_true, List.any_eq_true, decide_eq_true_eq, or_assoc, Table.mem_iff]

theorem free_of_names (unnamed : t.names number = false) :
    (∀ id : TenantId, id.value = number → t.tenants.contains id = false) ∧
    (∀ id : PrincipalId, id.value = number → t.principals.contains id = false) ∧
    (∀ id : InitiativeId, id.value = number → t.initiatives.contains id = false) ∧
    ∀ id : RoleId, id.value = number → t.roles.contains id = false := by
  rw [Bool.eq_false_iff, ne_eq, names_iff] at unnamed
  simp only [not_or, not_exists, not_and] at unnamed
  obtain ⟨tenants, principals, initiatives, roles, _⟩ := unnamed
  refine ⟨?_, ?_, ?_, ?_⟩ <;> rintro id rfl <;> refine Table.not_contains_iff.2 fun x hx e => ?_
  · exact tenants x hx (congrArg Id.value e)
  · exact principals x hx (congrArg Id.value e)
  · exact initiatives x hx (congrArg Id.value e)
  · exact roles x hx (congrArg Id.value e)

theorem Adds.named (adds : t.Adds numbers t') (named : t'.names number = true) :
    t.names number = true ∨ number ∈ numbers := by
  rw [names_iff] at named ⊢
  rcases named with ⟨x, hx, rfl⟩ | ⟨x, hx, rfl⟩ | ⟨x, hx, rfl⟩ | ⟨x, hx, rfl⟩ | ⟨x, hx, rfl⟩
  · exact (adds.tenants x hx).imp_left fun old => Or.inl ⟨x, old, rfl⟩
  · exact (adds.principals x hx).imp_left fun old => Or.inr (Or.inl ⟨x, old, rfl⟩)
  · exact (adds.initiatives x hx).imp_left fun old => Or.inr (Or.inr (Or.inl ⟨x, old, rfl⟩))
  · exact (adds.roles x hx).imp_left fun old => Or.inr (Or.inr (Or.inr (Or.inl ⟨x, old, rfl⟩)))
  · exact (adds.resources x hx).imp_left fun old => Or.inr (Or.inr (Or.inr (Or.inr ⟨x, old, rfl⟩)))

end Store.Tables

namespace Supply

variable {ids later : Supply} {noun : Noun} {id : Id noun} {count more : Nat}

theorem upcoming_draw (drawn : ids.draw = (id, later)) :
    ids.upcoming (count + 1) = id.value :: later.upcoming count := by
  obtain ⟨value, rest⟩ := draw_eq ids noun .tenant
  rw [drawn] at value rest
  rw [upcoming, ← value, ← rest]

/-- What is left after some identifiers have been drawn. -/
def after : (count : Nat) → Supply → Supply
  | 0, ids => ids
  | count + 1, ids => after count (@draw .tenant ids).2

theorem draw_after (noun : Noun) : (@draw noun ids).2 = ids.after 1 := (draw_eq ids noun .tenant).2

theorem after_after : (ids.after count).after more = ids.after (count + more) := by
  induction count generalizing ids with
  | zero => rw [Nat.zero_add, after]
  | succ count ih => rw [Nat.add_right_comm, after, after, ih]

theorem upcoming_append :
    ids.upcoming (count + more) = ids.upcoming count ++ (ids.after count).upcoming more := by
  induction count generalizing ids with
  | zero => rw [Nat.zero_add]; rfl
  | succ count ih => rw [Nat.add_right_comm, upcoming, upcoming, ih, after, List.cons_append]

theorem mem_upcoming_after {i : Nat} (noun : Noun) (h : i < count) :
    (@draw noun (ids.after i)).1.value ∈ ids.upcoming count := by
  obtain ⟨k, rfl⟩ := Nat.exists_eq_add_of_lt h
  rw [Nat.add_assoc, upcoming_append, (draw_eq _ noun .tenant).1]
  exact List.mem_append_right _ List.mem_cons_self

theorem length_upcoming : (ids.upcoming count).length = count := by
  induction count generalizing ids with
  | zero => rfl
  | succ count ih => rw [upcoming, List.length_cons, ih]

theorem upcoming_lt : ∀ n ∈ ids.upcoming count, n < 1 <<< 128 := by
  induction count generalizing ids with
  | zero => exact fun _ h => absurd h List.not_mem_nil
  | succ count ih =>
    intro n hn
    rcases List.mem_cons.1 hn with rfl | hn
    · exact Id.bounded _
    · exact ih n hn

namespace FreshFor

variable {t t' : Tables}

/-- There are no more identifiers than numbers for them. -/
theorem count_le (h : ids.FreshFor count t) : count ≤ 1 <<< 128 := by
  have within : (ids.upcoming count).toFinset ⊆ Finset.range (1 <<< 128) := fun n hn =>
    Finset.mem_range.2 (upcoming_lt n (List.mem_toFinset.1 hn))
  have few := Finset.card_le_card within
  rwa [List.toFinset_card_of_nodup h.apart, length_upcoming, Finset.card_range] at few

theorem first (h : ids.FreshFor (count + more) t) : ids.FreshFor count t := by
  obtain ⟨apart, unused⟩ := h
  rw [upcoming_append] at apart unused
  exact ⟨apart.of_append_left, fun n hn => unused n (List.mem_append_left _ hn)⟩

/-- Identifiers stay fresh while those before them are used up. -/
theorem rest (h : ids.FreshFor (count + more) t) (adds : t.Adds (ids.upcoming count) t') :
    (ids.after count).FreshFor more t' := by
  obtain ⟨apart, unused⟩ := h
  rw [upcoming_append] at apart unused
  refine ⟨apart.of_append_right, fun n hn => Bool.eq_false_iff.2 fun used => ?_⟩
  rcases adds.named used with old | drawn
  · exact absurd old (Bool.eq_false_iff.1 (unused n (List.mem_append_right _ hn)))
  · exact (List.nodup_append.1 apart).2.2 n drawn n hn rfl

end FreshFor

end Supply

end TenantAccess
