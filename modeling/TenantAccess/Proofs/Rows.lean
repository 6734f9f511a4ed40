import Mathlib.Data.List.Sort
import TenantAccess.Sorting
import TenantAccess.Table.Lemmas

/-!
# Lists of rows as ordered tables

A list in which no key occurs twice holds the same rows as its table. What is looked up, sorted,
added, amended or left out on one side is so on the other.
-/

namespace TenantAccess

open Ranked Keyed

/-! ## Sorted lists -/

section Lists

variable {α : Type} {number : α → Nat} {l l' : List α}

theorem eq_of_strictly_sorted (number : α → Nat) (h : l.Pairwise fun a b => number a < number b)
    (h' : l'.Pairwise fun a b => number a < number b) (same : ∀ a, a ∈ l ↔ a ∈ l') : l = l' := by
  have nodup {k : List α} (hk : k.Pairwise fun a b => number a < number b) : k.Nodup :=
    hk.imp fun hlt e => by subst e; omega
  have perm := (List.perm_ext_iff_of_nodup (nodup h) (nodup h')).2 same
  exact perm.eq_of_pairwise (fun a b _ _ h1 h2 => by omega) h h'

section Sorting

variable (number : α → Nat)

/-- Rows are sorted as the library sorts by insertion. -/
theorem sortOn_eq_insertionSort (l : List α) :
    sortOn number l = l.insertionSort fun a b => number a ≤ number b := by
  induction l with
  | nil => rfl
  | cons a rest ih =>
    rw [List.insertionSort_cons, ← ih, List.orderedInsert_eq_take_drop]
    simp only [sortOn, List.foldr_cons, Nat.not_le]

theorem sortOn_perm (l : List α) : (sortOn number l).Perm l := by
  rw [sortOn_eq_insertionSort]
  exact List.perm_insertionSort _ l

theorem sortOn_pairwise (l : List α) :
    (sortOn number l).Pairwise fun x y => number x ≤ number y := by
  have total : Std.Total fun a b : α => number a ≤ number b := ⟨fun a b => Nat.le_total _ _⟩
  have trans : IsTrans α fun a b => number a ≤ number b := ⟨fun _ _ _ => Nat.le_trans⟩
  rw [sortOn_eq_insertionSort]
  exact List.pairwise_insertionSort _ l

/-- Elements with the same number stay in the order that they came in. -/
theorem sortOn_stable {before : α → α → Prop} (h : l.Pairwise before) : (sortOn number l).Pairwise
    fun x y => number x < number y ∨ number x = number y ∧ before x y := by
  refine List.pairwise_iff_forall_sublist.2 fun {a b} pair => ?_
  have le := List.pairwise_iff_forall_sublist.1 (sortOn_pairwise number l) pair
  refine (Nat.lt_or_eq_of_le le).imp_right fun e => ⟨e, ?_⟩
  -- the sort takes the elements with their number over as they stand
  let alike (x : α) : Bool := number x = number a
  have level : (l.filter alike).Pairwise fun x y => number x ≤ number y :=
    List.pairwise_of_forall_mem_list fun x hx y hy => by
      rw [of_decide_eq_true (List.mem_filter.1 hx).2, of_decide_eq_true (List.mem_filter.1 hy).2]
  have taken : (l.filter alike).Sublist ((sortOn number l).filter alike) := by
    have taken := (List.sublist_insertionSort level List.filter_sublist).filter alike
    simp only [List.filter_filter, Bool.and_self] at taken
    rwa [sortOn_eq_insertionSort]
  have same := taken.eq_of_length ((sortOn_perm number l).filter alike).length_eq.symm
  have both : [a, b].filter alike = [a, b] := by simp [alike, e]
  have pair := pair.filter alike
  rw [both, ← same] at pair
  exact List.pairwise_iff_forall_sublist.1 h (pair.trans List.filter_sublist)

end Sorting

end Lists

variable {R K : Type} [Keyed R K] {rows : List R} {r s : R} {k : K}

/-! ## Rows that keys tell apart -/

/-- No key occurs twice. -/
def Distinct (rows : List R) : Prop := rows.Pairwise fun a b => key a ≠ key b

namespace Distinct

theorem nil : Distinct ([] : List R) := List.Pairwise.nil

theorem nodup (h : Distinct rows) : rows.Nodup := h.imp fun hne e => hne (congrArg key e)

theorem of_perm {l : List R} (h : Distinct l) (perm : rows.Perm l) : Distinct rows :=
  h.perm perm.symm fun hne e => hne e.symm

theorem filter (h : Distinct rows) (p : R → Bool) : Distinct (rows.filter p) :=
  List.Pairwise.filter p h

theorem eq_of_key (h : Distinct rows) (hr : r ∈ rows) (hs : s ∈ rows) (e : key r = key s) :
    r = s := by
  induction rows with
  | nil => cases hr
  | cons a rest ih =>
    have ha := List.pairwise_cons.1 h
    rcases List.mem_cons.1 hr with rfl | hr'
    · rcases List.mem_cons.1 hs with rfl | hs'
      · rfl
      · exact absurd e (ha.1 s hs')
    · rcases List.mem_cons.1 hs with rfl | hs'
      · exact absurd e.symm (ha.1 r hr')
      · exact ih ha.2 hr' hs'

theorem append_single (h : Distinct rows) (hr : ∀ s ∈ rows, key s ≠ key r) :
    Distinct (rows ++ [r]) := by
  refine List.pairwise_append.2 ⟨h, List.pairwise_singleton _ _, fun a ha b hb => ?_⟩
  rw [List.mem_singleton.1 hb]
  exact hr a ha

theorem map (h : Distinct rows) {f : R → R} (hf : ∀ r ∈ rows, key (f r) = key r) :
    Distinct (rows.map f) := by
  refine List.pairwise_map.2 (List.Pairwise.imp_of_mem (fun {a b} ha hb hne => ?_) h)
  rw [hf a ha, hf b hb]
  exact hne

theorem filter_key [DecidableEq K] (h : Distinct rows) (hr : r ∈ rows) :
    rows.filter (fun x => key x = key r) = [r] := by
  induction rows with
  | nil => cases hr
  | cons a rest ih =>
    have ha := List.pairwise_cons.1 h
    rcases List.mem_cons.1 hr with rfl | hr
    · have others : rest.filter (fun x => key x = key r) = [] :=
        List.filter_eq_nil_iff.2 fun x hx e => ha.1 x hx (of_decide_eq_true e).symm
      rw [List.filter_cons_of_pos (by simp), others]
    · rw [List.filter_cons_of_neg (by simpa using ha.1 r hr), ih ha.2 hr]

end Distinct

variable [Ranked K]

/-! ## Tables of listed rows -/

namespace Table

instance [DecidableEq R] : DecidableEq (Table R) := fun t u =>
  decidable_of_iff (t.rows = u.rows) ⟨fun h => by cases t; cases u; cases h; rfl, congrArg Table.rows⟩

variable {t : Table R}

theorem distinct_rows (t : Table R) : Distinct t.rows :=
  t.ordered.imp fun hlt e => by have := place_inj.2 e; omega

theorem mem_foldl_insert (h : Distinct rows) :
    r ∈ rows.foldl insert t ↔ r ∈ rows ∨ r ∈ t ∧ ∀ s ∈ rows, key s ≠ key r := by
  induction rows generalizing t with
  | nil => simp
  | cons a rest ih =>
    have ha := List.pairwise_cons.1 h
    rw [List.foldl_cons, ih ha.2, mem_insert]
    constructor
    · rintro (hr | ⟨rfl | ⟨hr, hne⟩, hrest⟩)
      · exact Or.inl (List.mem_cons_of_mem _ hr)
      · exact Or.inl List.mem_cons_self
      · refine Or.inr ⟨hr, fun s hs => ?_⟩
        rcases List.mem_cons.1 hs with rfl | hs
        · exact fun e => hne e.symm
        · exact hrest s hs
    · rintro (hr | ⟨hr, hne⟩)
      · rcases List.mem_cons.1 hr with rfl | hr
        · exact Or.inr ⟨Or.inl rfl, fun s hs e => ha.1 s hs e.symm⟩
        · exact Or.inl hr
      · refine Or.inr ⟨Or.inr ⟨hr, fun e => hne a List.mem_cons_self e.symm⟩, fun s hs => ?_⟩
        exact hne s (List.mem_cons_of_mem _ hs)

theorem mem_ofList (h : Distinct rows) : r ∈ ofList rows ↔ r ∈ rows := by
  simp [ofList, mem_foldl_insert h]

theorem perm_ofList (h : Distinct rows) : rows.Perm (ofList rows).rows :=
  (List.perm_ext_iff_of_nodup h.nodup (distinct_rows _).nodup).2 fun _ => (mem_ofList h).symm

theorem ofList_eq (perm : rows.Perm t.rows) : ofList rows = t :=
  ext_mem fun _ => (mem_ofList (t.distinct_rows.of_perm perm)).trans perm.mem_iff

theorem find?_ofList (h : Distinct rows) {p : R → Bool} (hp : ∀ r, p r = true ↔ key r = k) :
    (ofList rows).find? k = rows.find? p := by
  cases e : rows.find? p with
  | none =>
    refine find?_eq_none_iff.2 fun r hr hk => ?_
    exact List.find?_eq_none.1 e r ((mem_ofList h).1 hr) ((hp r).2 hk)
  | some r =>
    refine find?_eq_some_iff.2 ⟨(mem_ofList h).2 (List.mem_of_find?_eq_some e), ?_⟩
    exact (hp r).1 (List.find?_some e)

theorem contains_ofList (h : Distinct rows) {p : R → Bool} (hp : ∀ r, p r = true ↔ key r = k) :
    (ofList rows).contains k = rows.any p := by
  rw [contains, find?_ofList h hp, List.isSome_find?]

theorem ofList_append_single : ofList (rows ++ [r]) = (ofList rows).insert r := by
  simp [ofList, List.foldl_append]

theorem ofList_filter (h : Distinct rows) (p : R → Bool) :
    ofList (rows.filter p) = (ofList rows).filter p :=
  ext_mem fun r => by simp [mem_ofList h, mem_ofList (h.filter p)]

/-- Rows that satisfy a condition under which a number puts rows into key order come sorted from the
table. -/
theorem sortOn_filter (h : Distinct rows) {p : R → Bool} {number : R → Nat}
    (hn : ∀ a b, p a = true → p b = true → (number a < number b ↔ place a < place b)) :
    sortOn number (rows.filter p) = (ofList rows).rows.filter p := by
  refine eq_of_strictly_sorted place ?_ ((ofList rows).ordered.filter p) fun a => ?_
  · have perm := sortOn_perm number (rows.filter p)
    have hp : ∀ a ∈ sortOn number (rows.filter p), p a = true := fun a ha =>
      (List.mem_filter.1 (perm.mem_iff.1 ha)).2
    have apart : Distinct (sortOn number (rows.filter p)) := (h.filter p).of_perm perm
    have sorted := sortOn_pairwise number (rows.filter p)
    refine List.Pairwise.imp_of_mem (fun {a b} ha hb hab => ?_) (sorted.and apart)
    have hne : place a ≠ place b := fun e => hab.2 (place_inj.1 e)
    have hba := hn b a (hp b hb) (hp a ha)
    omega
  · rw [(sortOn_perm number _).mem_iff, List.mem_filter, List.mem_filter, ← mem_iff, mem_ofList h]

/-- A list of keys that stand for themselves need not keep them apart. -/
theorem mem_ofList_of_injective (inj : ∀ a b : R, key a = key b → a = b) :
    r ∈ ofList rows ↔ r ∈ rows := by
  have all : ∀ (l : List R) (t : Table R), r ∈ l.foldl insert t ↔ r ∈ l ∨ r ∈ t := fun l => by
    induction l with
    | nil => simp
    | cons a rest ih =>
      intro t
      rw [List.foldl_cons, ih, mem_insert, List.mem_cons]
      constructor
      · rintro (hr | rfl | ⟨hr, _⟩)
        · exact Or.inl (Or.inr hr)
        · exact Or.inl (Or.inl rfl)
        · exact Or.inr hr
      · rintro ((rfl | hr) | hr)
        · exact Or.inr (Or.inl rfl)
        · exact Or.inl hr
        · by_cases e : r = a
          · exact Or.inr (Or.inl e)
          · exact Or.inr (Or.inr ⟨hr, fun h => e (inj r a h)⟩)
  rw [ofList, all]
  exact or_iff_left not_mem_empty

/-- Rows that are selected by one part of their key, as a map from the rest of it. -/
theorem mem_slice {K' V : Type} [Ranked K'] {p : R → Bool} {f : R → K' × V} (full : K' → K)
    (hkey : ∀ r k, p r = true ∧ (f r).1 = k ↔ key r = full k) {entry : K' × V} :
    entry ∈ ofList ((t.rows.filter p).map f) ↔ ∃ r ∈ t, p r = true ∧ f r = entry := by
  rw [mem_ofList, List.mem_map]
  · simp only [List.mem_filter, and_assoc, ← mem_iff]
  · refine List.pairwise_map.2 (List.Pairwise.imp_of_mem (fun {a b} ha hb hne e => hne ?_)
      ((distinct_rows t).filter p))
    have e : (f a).1 = (f b).1 := e
    rw [(hkey a _).1 ⟨(List.mem_filter.1 ha).2, e⟩, (hkey b _).1 ⟨(List.mem_filter.1 hb).2, rfl⟩]

theorem find?_slice {K' V : Type} [Ranked K'] {p : R → Bool} {f : R → K' × V} (full : K' → K)
    (hkey : ∀ r k, p r = true ∧ (f r).1 = k ↔ key r = full k) {k : K'} :
    (ofList ((t.rows.filter p).map f)).find? k = (t.find? (full k)).map f := by
  cases e : t.find? (full k) with
  | none =>
    refine find?_eq_none_iff.2 fun entry hentry hk => ?_
    obtain ⟨r, hr, hp, rfl⟩ := (mem_slice full hkey).1 hentry
    exact find?_eq_none_iff.1 e r hr ((hkey r k).1 ⟨hp, hk⟩)
  | some r =>
    obtain ⟨hr, hk⟩ := find?_eq_some_iff.1 e
    obtain ⟨hp, hk⟩ := (hkey r k).2 hk
    exact find?_eq_some_iff.2 ⟨(mem_slice full hkey).2 ⟨r, hr, hp, rfl⟩, hk⟩

theorem find?_filter_of {p : R → Bool} (h : ∀ r ∈ t, key r = k → p r = true) :
    (t.filter p).find? k = t.find? k := by
  rw [find?_filter]
  cases e : t.find? k with
  | none => rfl
  | some r =>
    obtain ⟨hr, hk⟩ := find?_eq_some_iff.1 e
    rw [Option.filter, if_pos (h r hr hk)]

theorem contains_eq_isSome : t.contains k = (t.find? k).isSome := rfl

theorem isEmpty_iff_forall : t.isEmpty = true ↔ ∀ r, ¬ r ∈ t := by
  rw [isEmpty, List.isEmpty_iff, List.eq_nil_iff_forall_not_mem]
  exact Iff.rfl

theorem exists_mem (h : ¬ t.isEmpty = true) : ∃ r, r ∈ t :=
  Classical.byContradiction fun none => h (isEmpty_iff_forall.2 fun r hr => none ⟨r, hr⟩)

/-- If the rows that satisfy a condition all come after those that do not start from a key, and lie
together, scanning from the key finds just them. -/
theorem scanFrom_eq_filter {p : R → Bool} (hlow : ∀ r ∈ t, p r = true → rank k ≤ place r)
    (hhigh : ∀ r ∈ t, ∀ s ∈ t, rank k ≤ place r → place r < place s → p s = true → p r = true) :
    t.scanFrom k p = t.rows.filter p := by
  obtain ⟨rows, ordered⟩ := t
  simp only [scanFrom]
  induction rows with
  | nil => rfl
  | cons a rest ih =>
    have ha := List.pairwise_cons.1 ordered
    have ih' := ih ha.2 (fun r hr => hlow r (List.mem_cons_of_mem a hr))
      (fun r hr s hs => hhigh r (List.mem_cons_of_mem a hr) s (List.mem_cons_of_mem a hs))
    by_cases hlt : place a < rank k
    · have hpa : ¬ p a = true := fun hp => by
        have := hlow a List.mem_cons_self hp
        omega
      rw [List.dropWhile_cons_of_pos (by simpa using hlt), ih', List.filter_cons_of_neg hpa]
    · have hge : ∀ r ∈ rest, ¬ place r < rank k := fun r hr => by
        have := ha.1 r hr
        omega
      have drop : ∀ {l : List R}, (∀ r ∈ l, ¬ place r < rank k) →
          l.dropWhile (fun r => decide (place r < rank k)) = l := fun {l} hl => by
        cases l with
        | nil => rfl
        | cons b _ => rw [List.dropWhile_cons_of_neg (by simpa using hl b List.mem_cons_self)]
      rw [drop hge] at ih'
      rw [drop (fun r hr => by
        rcases List.mem_cons.1 hr with rfl | hr
        · exact hlt
        · exact hge r hr)]
      by_cases hpa : p a = true
      · rw [List.takeWhile_cons_of_pos hpa, List.filter_cons_of_pos hpa, ih']
      · have none : ∀ r ∈ rest, ¬ p r = true := fun r hr hp =>
          hpa (hhigh a List.mem_cons_self r (List.mem_cons_of_mem a hr) (by omega) (ha.1 r hr) hp)
        rw [List.takeWhile_cons_of_neg hpa, List.filter_cons_of_neg hpa, eq_comm,
          List.filter_eq_nil_iff]
        exact none

end Table

end TenantAccess
