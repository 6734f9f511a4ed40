import TenantAccess.Table

/-!
# The rows of an ordered table

What each operation does to the rows and to look-ups, and that rows determine the table.
-/

namespace TenantAccess.Table

variable {R K : Type} [Ranked K] [Keyed R K] {t u : Table R} {r s : R} {k : K}

open Ranked Keyed

theorem mem_iff : r ∈ t ↔ r ∈ t.rows := .rfl

theorem place_inj : place r = place s ↔ key r = key s :=
  ⟨fun h => rank_injective h, fun h => congrArg rank h⟩

theorem eq_of_key (hr : r ∈ t) (hs : s ∈ t) (h : key r = key s) : r = s := by
  have hp : place r = place s := place_inj.2 h
  obtain ⟨rows, ordered⟩ := t
  simp only [mem_iff] at hr hs
  induction rows with
  | nil => simp at hr
  | cons x rest ih =>
    have hx := List.pairwise_cons.1 ordered
    cases List.mem_cons.1 hr with
    | inl hr =>
      cases List.mem_cons.1 hs with
      | inl hs => rw [hr, hs]
      | inr hs => exact absurd hp (by have := hx.1 s hs; subst hr; omega)
    | inr hr =>
      cases List.mem_cons.1 hs with
      | inl hs => exact absurd hp (by have := hx.1 r hr; subst hs; omega)
      | inr hs => exact ih hx.2 hr hs

/-! ## Look-ups -/

theorem find?_eq_some_iff : t.find? k = some r ↔ r ∈ t ∧ key r = k := by
  constructor
  · intro h
    refine ⟨List.mem_of_find?_eq_some h, rank_injective ?_⟩
    simpa [place] using List.find?_some h
  · rintro ⟨hr, rfl⟩
    cases h : t.find? (key r) with
    | none =>
      have := List.find?_eq_none.1 h r hr
      simp [place] at this
    | some s =>
      have hs : s ∈ t := List.mem_of_find?_eq_some h
      have hk : key s = key r := rank_injective (by simpa [place] using List.find?_some h)
      rw [eq_of_key hs hr hk]

theorem find?_eq_none_iff : t.find? k = none ↔ ∀ r ∈ t, key r ≠ k := by
  constructor
  · intro h r hr e
    have := find?_eq_some_iff.2 ⟨hr, e⟩
    simp [h] at this
  · intro h
    cases h' : t.find? k with
    | none => rfl
    | some r =>
      have := find?_eq_some_iff.1 h'
      exact absurd this.2 (h r this.1)

theorem contains_iff : t.contains k = true ↔ ∃ r ∈ t, key r = k := by
  cases h : t.find? k with
  | none => simpa [contains, h] using find?_eq_none_iff.1 h
  | some r => simpa [contains, h] using ⟨r, find?_eq_some_iff.1 h⟩

theorem ext_mem (h : ∀ r, r ∈ t ↔ r ∈ u) : t = u := by
  obtain ⟨rows, ordered⟩ := t
  obtain ⟨rows', ordered'⟩ := u
  congr
  simp only [mem_iff] at h
  induction rows generalizing rows' with
  | nil => cases rows' with
    | nil => rfl
    | cons y _ => exact absurd ((h y).2 (.head _)) (by simp)
  | cons x rest ih => cases rows' with
    | nil => exact absurd ((h x).1 (.head _)) (by simp)
    | cons y rest' =>
      have hx := List.pairwise_cons.1 ordered
      have hy := List.pairwise_cons.1 ordered'
      have hxy : x = y := by
        cases List.mem_cons.1 ((h x).1 (.head _)) with
        | inl e => exact e
        | inr hm =>
          cases List.mem_cons.1 ((h y).2 (.head _)) with
          | inl e => exact e.symm
          | inr hm' => exact absurd (hy.1 x hm) (by have := hx.1 y hm'; omega)
      subst hxy
      congr 1
      refine ih hx.2 rest' hy.2 fun r => ?_
      constructor
      · intro hr
        cases List.mem_cons.1 ((h r).1 (.tail _ hr)) with
        | inl e => exact absurd (hx.1 r hr) (by subst e; omega)
        | inr hr' => exact hr'
      · intro hr
        cases List.mem_cons.1 ((h r).2 (.tail _ hr)) with
        | inl e => exact absurd (hy.1 r hr) (by subst e; omega)
        | inr hr' => exact hr'

theorem ext_find? (h : ∀ k, t.find? k = u.find? k) : t = u := by
  refine ext_mem fun r => ?_
  have e : t.find? (key r) = some r ↔ u.find? (key r) = some r := by rw [h]
  rw [find?_eq_some_iff, find?_eq_some_iff] at e
  simpa using e

@[simp] theorem not_mem_empty : ¬ r ∈ (empty : Table R) := by simp [mem_iff, empty]

@[simp] theorem find?_empty : (empty : Table R).find? k = none := rfl

/-! ## Changes -/

@[simp] theorem mem_filter {p : R → Bool} : r ∈ t.filter p ↔ r ∈ t ∧ p r = true := by
  simp [mem_iff, filter]

@[simp] theorem mem_erase : r ∈ t.erase k ↔ r ∈ t ∧ key r ≠ k := by
  simp only [erase, mem_filter, bne_iff_ne, ne_eq, and_congr_right_iff]
  intro _
  exact not_congr ⟨fun h => rank_injective h, fun h => congrArg rank h⟩

theorem mem_insertRow_self {rows : List R} : r ∈ insertRow r rows := by
  induction rows with
  | nil => simp [insertRow]
  | cons s rest ih =>
    simp only [insertRow]
    split
    · simp
    · split
      · simp
      · exact .tail _ ih

theorem mem_insertRow_of_place_ne {rows : List R} (hs : s ∈ rows) (h : place s ≠ place r) :
    s ∈ insertRow r rows := by
  induction rows with
  | nil => simp at hs
  | cons x rest ih =>
    simp only [insertRow]
    split
    · exact .tail _ hs
    · split
      · rename_i e
        cases List.mem_cons.1 hs with
        | inl hx => exact absurd e.symm (hx ▸ h)
        | inr hx => exact .tail _ hx
      · cases List.mem_cons.1 hs with
        | inl hx => exact hx ▸ .head _
        | inr hx => exact .tail _ (ih hx)

@[simp] theorem mem_insert_self : r ∈ t.insert r := mem_insertRow_self

@[simp] theorem mem_insert : s ∈ t.insert r ↔ s = r ∨ s ∈ t ∧ key s ≠ key r := by
  constructor
  · intro hs
    cases mem_insertRow hs with
    | inl e => exact .inl e
    | inr hm =>
      by_cases e : key s = key r
      · exact .inl (eq_of_key hs mem_insert_self e)
      · exact .inr ⟨hm, e⟩
  · rintro (rfl | ⟨hm, hne⟩)
    · exact mem_insert_self
    · exact mem_insertRow_of_place_ne hm fun e => hne (place_inj.1 e)

theorem find?_insert [DecidableEq K] :
    (t.insert r).find? k = if k = key r then some r else t.find? k := by
  split
  · rename_i h
    exact find?_eq_some_iff.2 ⟨mem_insert_self, h.symm⟩
  · rename_i h
    cases h' : t.find? k with
    | none =>
      refine find?_eq_none_iff.2 fun s hs e => ?_
      cases mem_insert.1 hs with
      | inl hs => subst hs; exact h e.symm
      | inr hs => exact find?_eq_none_iff.1 h' s hs.1 e
    | some s =>
      have := find?_eq_some_iff.1 h'
      exact find?_eq_some_iff.2 ⟨mem_insert.2 (.inr ⟨this.1, fun e => h (this.2 ▸ e)⟩), this.2⟩

theorem find?_filter {p : R → Bool} : (t.filter p).find? k = (t.find? k).filter p := by
  cases h : t.find? k with
  | none =>
    refine find?_eq_none_iff.2 fun s hs => ?_
    exact find?_eq_none_iff.1 h s (mem_filter.1 hs).1
  | some s =>
    have hs := find?_eq_some_iff.1 h
    by_cases hp : p s = true
    · simpa [Option.filter, hp] using find?_eq_some_iff.2 ⟨mem_filter.2 ⟨hs.1, hp⟩, hs.2⟩
    · simp only [Option.filter, hp]
      refine find?_eq_none_iff.2 fun x hx e => ?_
      have hx' := mem_filter.1 hx
      exact hp (eq_of_key hx'.1 hs.1 (e.trans hs.2.symm) ▸ hx'.2)

theorem find?_erase [DecidableEq K] {j : K} :
    (t.erase j).find? k = if k = j then none else t.find? k := by
  split
  · rename_i h
    exact find?_eq_none_iff.2 fun s hs e => (mem_erase.1 hs).2 (e.trans h)
  · rename_i h
    cases h' : t.find? k with
    | none => exact find?_eq_none_iff.2 fun s hs => find?_eq_none_iff.1 h' s (mem_erase.1 hs).1
    | some s =>
      have := find?_eq_some_iff.1 h'
      exact find?_eq_some_iff.2 ⟨mem_erase.2 ⟨this.1, fun e => h (this.2 ▸ e)⟩, this.2⟩

theorem nodup_keys : (t.rows.map key).Nodup := by
  refine List.Pairwise.map _ (fun a b h e => ?_) t.ordered
  have := place_inj.2 e
  omega

end TenantAccess.Table
