import Mathlib.Data.List.DropRight
import Mathlib.Data.Nat.Digits.Defs
import TenantAccess.Naming

/-!
# The form of names

A name passes the check when it is not empty, has no white space at either end, and is not too long.
-/

namespace TenantAccess

/-! ## White space -/

namespace Text

variable {cs : List Char}

/-- Text without white space at either end. -/
structure Unpadded (cs : List Char) : Prop where
  first : ∀ c ∈ cs.head?, isBlank c = false
  last : ∀ c ∈ cs.getLast?, isBlank c = false

theorem dropWhile_isBlank_eq_self :
    cs.dropWhile isBlank = cs ↔ ∀ c ∈ cs.head?, isBlank c = false := by
  rw [List.dropWhile_eq_self_iff]
  cases cs <;> simp

theorem rdropWhile_isBlank_eq_self :
    cs.rdropWhile isBlank = cs ↔ ∀ c ∈ cs.getLast?, isBlank c = false := by
  rw [List.rdropWhile_eq_self_iff]
  by_cases empty : cs = []
  · simp [empty]
  · simp [List.getLast?_eq_some_getLast empty, empty]

theorem trim_eq_self : trim cs = cs ↔ Unpadded cs := by
  have e : trim cs = (cs.dropWhile isBlank).rdropWhile isBlank := rfl
  rw [e]
  constructor
  · intro same
    -- what is left at the end is no longer than what is left at the start
    have short := (List.rdropWhile_prefix isBlank (l := cs.dropWhile isBlank)).length_le
    rw [same] at short
    have start : cs.dropWhile isBlank = cs :=
      (List.dropWhile_suffix isBlank).eq_of_length_le short
    rw [start] at same
    exact ⟨dropWhile_isBlank_eq_self.1 start, rdropWhile_isBlank_eq_self.1 same⟩
  · rintro ⟨first, last⟩
    rw [dropWhile_isBlank_eq_self.2 first, rdropWhile_isBlank_eq_self.2 last]

theorem isBlank_of_isDigit {c : Char} (digit : c.isDigit = true) : isBlank c = false := by
  simp only [Char.isDigit, Bool.and_eq_true, decide_eq_true_eq] at digit
  obtain ⟨low, high⟩ := digit
  have low : 48 ≤ c.toNat := low
  have high : c.toNat ≤ 57 := high
  refine List.any_eq_false.2 fun r hr blank => ?_
  rw [Bool.and_eq_true, decide_eq_true_eq, decide_eq_true_eq] at blank
  have apart : ∀ r ∈ blankRanges, r.2 < 48 ∨ 57 < r.1 := by decide
  have := apart r hr
  omega

end Text

/-! ## Names -/

namespace Naming

variable {limit : Nat} {name what : String}

structure WellFormed (limit : Nat) (name : String) : Prop where
  nonempty : name ≠ ""
  unpadded : Text.Unpadded name.toList
  short : name.length ≤ limit

theorem fault?_eq_none : fault? limit name = none ↔ WellFormed limit name := by
  have nonempty : (Text.trim name.toList).isEmpty = false ∧ Text.trim name.toList = name.toList ↔
      name ≠ "" ∧ Text.Unpadded name.toList := by
    rw [Text.trim_eq_self]
    refine and_congr_left fun unpadded => ?_
    rw [Text.trim_eq_self.2 unpadded]
    simp
  simp only [fault?]
  constructor
  · intro h
    split at h
    · cases h
    · rename_i notBlank
      split at h
      · cases h
      · rename_i same
        split at h
        · cases h
        · rename_i short
          obtain ⟨nonempty, unpadded⟩ := nonempty.1
            ⟨Bool.eq_false_iff.2 notBlank, Decidable.not_not.1 same⟩
          exact ⟨nonempty, unpadded, Nat.le_of_not_lt short⟩
  · intro h
    obtain ⟨notBlank, same⟩ := nonempty.2 ⟨h.nonempty, h.unpadded⟩
    rw [if_neg (Bool.eq_false_iff.1 notBlank), if_neg (not_not_intro same),
      if_neg (Nat.not_lt.2 h.short)]

theorem check_eq_ok {u : Unit} : check what limit name = .ok u ↔ WellFormed limit name := by
  rw [← fault?_eq_none, check]
  cases fault? limit name <;> simp

/-- A word with a number behind it is a name, unless it gets too long. -/
theorem numbered_wellFormed {stem : String} {number digits : Nat}
    (start : ∀ c ∈ stem.toList.head?, Text.isBlank c = false) (few : number < 10 ^ digits)
    (short : stem.length + digits ≤ limit) (pos : 0 < digits) :
    WellFormed limit (stem ++ toString number) := by
  have written : (toString number).toList = Nat.toDigits 10 number := Nat.toList_repr
  have digit : ∀ c ∈ (toString number).toList, Text.isBlank c = false := fun c hc =>
    Text.isBlank_of_isDigit (Nat.isDigit_of_mem_toDigits (by decide) (by decide) (written ▸ hc))
  have nonempty : (toString number).toList ≠ [] := written ▸ Nat.toDigits_ne_nil
  constructor
  case nonempty =>
    intro e
    have e := congrArg String.toList e
    rw [String.toList_append] at e
    exact nonempty (List.append_eq_nil_iff.1 e).2
  case unpadded =>
    rw [String.toList_append]
    constructor
    · intro c hc
      rw [List.head?_append, Option.mem_def, Option.or_eq_some_iff] at hc
      rcases hc with hc | ⟨_, hc⟩
      · exact start c hc
      · exact digit c (List.mem_of_mem_head? hc)
    · intro c hc
      rw [List.getLast?_append_of_ne_nil _ nonempty] at hc
      exact digit c (List.mem_of_getLast? hc)
  case short =>
    have length := Nat.repr_length number digits pos few
    rw [String.length_append]
    exact (Nat.add_le_add_left length _).trans short

end Naming

end TenantAccess
