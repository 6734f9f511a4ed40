/-!
# Positional digits

A number below the capacity of `width` digits written with exactly so many digits, highest first,
and read back.
Writing and reading are inverse to each other (`value_digits`, `digits_value`).
-/

namespace TenantAccess.Radix

/-- The `width` lowest digits of a number, highest first. -/
def digits (base : Nat) : (width : Nat) → (n : Nat) → List Nat
  | 0, _ => []
  | width + 1, n => digits base width (n / base) ++ [n % base]

/-- The number that a list of digits, highest first, stands for. -/
def value (base : Nat) (ds : List Nat) : Nat :=
  ds.foldl (fun acc d => acc * base + d) 0

/-- How many numbers `width` digits write. -/
def capacity (base : Nat) : (width : Nat) → Nat
  | 0 => 1
  | width + 1 => capacity base width * base

variable {base : Nat}

@[simp] theorem length_digits (width n : Nat) : (digits base width n).length = width := by
  induction width generalizing n with
  | zero => rfl
  | succ width ih => simp [digits, ih]

@[simp] theorem value_append_singleton (ds : List Nat) (d : Nat) :
    value base (ds ++ [d]) = value base ds * base + d := by
  simp [value]

theorem digit_lt (hb : 0 < base) {width n d : Nat} (h : d ∈ digits base width n) : d < base := by
  induction width generalizing n with
  | zero => simp [digits] at h
  | succ width ih =>
    simp only [digits, List.mem_append, List.mem_singleton] at h
    cases h with
    | inl h => exact ih h
    | inr h => exact h ▸ Nat.mod_lt _ hb

theorem value_digits {width n : Nat} (h : n < capacity base width) :
    value base (digits base width n) = n := by
  induction width generalizing n with
  | zero =>
    have : n = 0 := Nat.lt_one_iff.1 h
    simp [digits, value, this]
  | succ width ih =>
    have hq : n / base < capacity base width :=
      Nat.div_lt_of_lt_mul (by rwa [capacity, Nat.mul_comm] at h)
    rw [digits, value_append_singleton, ih hq, Nat.div_add_mod']

theorem value_lt {ds : List Nat} (h : ∀ d ∈ ds, d < base) :
    value base ds < capacity base ds.length := by
  induction hn : ds.length generalizing ds with
  | zero => simp [List.length_eq_zero_iff.1 hn, value, capacity]
  | succ n ih =>
    obtain ⟨init, last, rfl⟩ : ∃ init last, ds = init ++ [last] :=
      ⟨ds.dropLast, ds.getLast (by intro e; simp [e] at hn), (List.dropLast_concat_getLast _).symm⟩
    have hlast : last < base := h last (by simp)
    have hinit : value base init < capacity base n :=
      ih (fun d hd => h d (by simp [hd])) (by simpa using hn)
    rw [value_append_singleton, capacity]
    calc value base init * base + last < value base init * base + base := by omega
      _ = (value base init + 1) * base := by rw [Nat.add_mul, Nat.one_mul]
      _ ≤ capacity base n * base := Nat.mul_le_mul_right _ hinit

theorem digits_value {ds : List Nat} (h : ∀ d ∈ ds, d < base) :
    digits base ds.length (value base ds) = ds := by
  induction hn : ds.length generalizing ds with
  | zero => simp [List.length_eq_zero_iff.1 hn, digits]
  | succ n ih =>
    obtain ⟨init, last, rfl⟩ : ∃ init last, ds = init ++ [last] :=
      ⟨ds.dropLast, ds.getLast (by intro e; simp [e] at hn), (List.dropLast_concat_getLast _).symm⟩
    have hlast : last < base := h last (by simp)
    have hb : 0 < base := Nat.lt_of_le_of_lt (Nat.zero_le _) hlast
    have hdiv : (value base init * base + last) / base = value base init := by
      rw [Nat.mul_comm, Nat.mul_add_div hb, Nat.div_eq_of_lt hlast, Nat.add_zero]
    have hmod : (value base init * base + last) % base = last := by
      rw [Nat.mul_comm, Nat.mul_add_mod, Nat.mod_eq_of_lt hlast]
    rw [value_append_singleton, digits, hdiv, hmod,
      ih (fun d hd => h d (by simp [hd])) (by simpa using hn)]

end TenantAccess.Radix
