import TenantAccess.Call
import TenantAccess.Proofs.Store.Step

/-!
# Fresh identifiers

Which identifiers a call is going to draw, and when they are fresh: they differ, and no stored row
bears one of them.
-/

namespace TenantAccess

open Store (Tables)

namespace Supply

/-- The numbers of the identifiers that are drawn next. -/
def upcoming : (count : Nat) → Supply → List Nat
  | 0, _ => []
  | count + 1, ids => (@draw .tenant ids).1.value :: upcoming count (@draw .tenant ids).2

/-- Which number is drawn does not depend on what it is drawn for. -/
theorem draw_eq (ids : Supply) (noun other : Noun) :
    (@draw noun ids).1.value = (@draw other ids).1.value ∧
      (@draw noun ids).2 = (@draw other ids).2 := by
  obtain ⟨listed, numbered⟩ := ids
  cases listed <;> exact ⟨rfl, rfl⟩

end Supply

/-- Whether a stored row bears the identifier with a number. -/
def Store.Tables.names (t : Tables) (number : Nat) : Bool :=
  (t.tenants.rows.any fun x => x.id.value = number) ||
  (t.principals.rows.any fun x => x.id.value = number) ||
  (t.initiatives.rows.any fun x => x.id.value = number) ||
  (t.roles.rows.any fun x => x.id.value = number) ||
  (t.resources.rows.any fun x => x.id.value = number)

/-- The next identifiers differ and no stored row bears one of them. -/
structure Supply.FreshFor (ids : Supply) (count : Nat) (t : Tables) : Prop where
  apart : (ids.upcoming count).Nodup
  unused : ∀ n ∈ ids.upcoming count, t.names n = false

instance {ids : Supply} {count : Nat} {t : Tables} : Decidable (ids.FreshFor count t) :=
  decidable_of_iff ((ids.upcoming count).Nodup ∧ ∀ n ∈ ids.upcoming count, t.names n = false)
    ⟨fun h => ⟨h.1, h.2⟩, fun h => ⟨h.apart, h.unused⟩⟩

/-- How many identifiers a command draws. -/
def Command.draws (settings : Settings) : Command → Nat
  | startInitiative _ => if settings.seedsRoles then 3 else 1
  | defineRole .. | addResource .. => 1
  | _ => 0

/-- How many identifiers a call draws at most. -/
def Call.draws (settings : Settings) : Call → Nat
  | register .. | foundTenant .. => 1
  | request _ (.order command) => command.draws settings
  | request _ (.ask _) => 0

namespace Supply.FreshFor

variable {ids : Supply} {count : Nat} {t t' : Tables}

theorem zero : ids.FreshFor 0 t := ⟨.nil, fun _ h => absurd h List.not_mem_nil⟩

theorem next (h : ids.FreshFor (count + 1) t) (noun : Noun) :
    (@Supply.draw noun ids).2.FreshFor count t := by
  rw [(draw_eq ids noun .tenant).2]
  exact ⟨(List.nodup_cons.1 h.apart).2, fun n hn => h.unused n (List.mem_cons_of_mem _ hn)⟩

theorem next_unused (h : ids.FreshFor (count + 1) t) (noun : Noun) :
    t.names (@Supply.draw noun ids).1.value = false := by
  rw [(draw_eq ids noun .tenant).1]
  exact h.unused _ List.mem_cons_self

theorem not_contains_of_unused {R : Type} {noun : Noun} [Keyed R (Id noun)] {table : Table R}
    {id : Id noun} (h : (table.rows.any fun x => (Keyed.key x).value = id.value) = false) :
    table.contains id = false := by
  refine Table.not_contains_iff.2 fun r hr e => ?_
  have unused := List.any_eq_false.1 h r hr
  exact unused (decide_eq_true (congrArg Id.value e))

theorem tenant_free (h : ids.FreshFor (count + 1) t) :
    t.tenants.contains (@Supply.draw .tenant ids).1 = false := by
  have unused := h.next_unused .tenant
  simp only [Store.Tables.names, Bool.or_eq_false_iff] at unused
  exact not_contains_of_unused unused.1.1.1.1

theorem principal_free (h : ids.FreshFor (count + 1) t) :
    t.principals.contains (@Supply.draw .principal ids).1 = false := by
  have unused := h.next_unused .principal
  simp only [Store.Tables.names, Bool.or_eq_false_iff] at unused
  exact not_contains_of_unused unused.1.1.1.2

theorem initiative_free (h : ids.FreshFor (count + 1) t) :
    t.initiatives.contains (@Supply.draw .initiative ids).1 = false := by
  have unused := h.next_unused .initiative
  simp only [Store.Tables.names, Bool.or_eq_false_iff] at unused
  exact not_contains_of_unused unused.1.1.2

theorem role_free (h : ids.FreshFor (count + 1) t) :
    t.roles.contains (@Supply.draw .role ids).1 = false := by
  have unused := h.next_unused .role
  simp only [Store.Tables.names, Bool.or_eq_false_iff] at unused
  exact not_contains_of_unused unused.1.2

theorem resource_free (h : ids.FreshFor (count + 1) t) :
    t.resources.contains (@Supply.draw .resource ids).1 = false := by
  have unused := h.next_unused .resource
  simp only [Store.Tables.names, Bool.or_eq_false_iff] at unused
  exact not_contains_of_unused unused.2

theorem draw_ne (h : ids.FreshFor (count + 2) t) (noun : Noun) :
    (@Supply.draw noun ids).1 ≠ (@Supply.draw noun (@Supply.draw noun ids).2).1 := by
  intro e
  have hne := (List.nodup_cons.1 h.apart).1
  apply hne
  rw [← (draw_eq ids noun .tenant).1, ← (draw_eq ids noun .tenant).2, e]
  simp only [upcoming, List.mem_cons]
  exact Or.inl (draw_eq _ noun .tenant).1

end Supply.FreshFor

end TenantAccess
