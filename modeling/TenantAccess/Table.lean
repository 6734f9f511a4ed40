/-!
# Ordered tables

Rows that carry their own key, kept in the order of their keys, at most one row for each key. Two
tables with the same rows are equal (`Table.ext_find?`), so "the same rows" is plain equality.

A key type is ordered by an injective rank. Sets of keys and maps from keys to values are tables
whose rows are the keys themselves or pairs.
-/

namespace TenantAccess

/-- A type in a fixed linear order, given by each value's place on the number line. -/
class Ranked (K : Type) where
  rank : K → Nat
  rank_injective {a b : K} : rank a = rank b → a = b

/-- Rows that carry their own key. -/
class Keyed (R : Type) (K : outParam Type) where
  key : R → K

instance {K V : Type} [Ranked K] : Keyed (K × V) K := ⟨Prod.fst⟩

section Place

variable {R K : Type} [Ranked K] [Keyed R K]

/-- The place of a row in key order. -/
def place (r : R) : Nat := Ranked.rank (Keyed.key r)

end Place

/-- Rows in strict key order. -/
structure Table (R : Type) {K : outParam Type} [Ranked K] [Keyed R K] where
  rows : List R
  ordered : rows.Pairwise (fun a b => place a < place b)

namespace Table

variable {R K : Type} [Ranked K] [Keyed R K]

open Ranked Keyed

def empty : Table R := ⟨[], .nil⟩

instance : EmptyCollection (Table R) := ⟨empty⟩

instance : Inhabited (Table R) := ⟨empty⟩

/-- The row with a given key. -/
def find? (t : Table R) (k : K) : Option R :=
  t.rows.find? fun r => place r == rank k

def contains (t : Table R) (k : K) : Bool := (t.find? k).isSome

def isEmpty (t : Table R) : Bool := t.rows.isEmpty

/-- Puts a row at its place among ordered rows, instead of the row with its key if there is one. -/
def insertRow (r : R) : List R → List R
  | [] => [r]
  | s :: rest =>
    if place r < place s then r :: s :: rest
    else if place r = place s then r :: rest
    else s :: insertRow r rest

theorem mem_insertRow {r x : R} {rows : List R} (h : x ∈ insertRow r rows) : x = r ∨ x ∈ rows := by
  induction rows with
  | nil => simpa [insertRow] using h
  | cons s rest ih =>
    simp only [insertRow] at h
    split at h
    · simpa using h
    · split at h
      · simp only [List.mem_cons] at h ⊢
        cases h with
        | inl h => exact .inl h
        | inr h => exact .inr (.inr h)
      · simp only [List.mem_cons] at h ⊢
        cases h with
        | inl h => exact .inr (.inl h)
        | inr h => cases ih h with
          | inl h => exact .inl h
          | inr h => exact .inr (.inr h)

theorem insertRow_ordered (r : R) {rows : List R} (h : rows.Pairwise (fun a b => place a < place b)) :
    (insertRow r rows).Pairwise (fun a b => place a < place b) := by
  induction rows with
  | nil => simp [insertRow]
  | cons s rest ih =>
    have hs := List.pairwise_cons.1 h
    simp only [insertRow]
    split
    · rename_i hlt
      refine List.pairwise_cons.2 ⟨fun x hx => ?_, h⟩
      cases List.mem_cons.1 hx with
      | inl hx => exact hx ▸ hlt
      | inr hx => exact Nat.lt_trans hlt (hs.1 x hx)
    · split
      · rename_i heq
        exact List.pairwise_cons.2 ⟨fun x hx => heq ▸ hs.1 x hx, hs.2⟩
      · refine List.pairwise_cons.2 ⟨fun x hx => ?_, ih hs.2⟩
        cases mem_insertRow hx with
        | inl hx => subst hx; omega
        | inr hx => exact hs.1 x hx

def insert (t : Table R) (r : R) : Table R := ⟨insertRow r t.rows, insertRow_ordered r t.ordered⟩

/-- The rows that satisfy a test. -/
def filter (t : Table R) (p : R → Bool) : Table R := ⟨t.rows.filter p, t.ordered.filter p⟩

def erase (t : Table R) (k : K) : Table R := t.filter fun r => place r != rank k

/-- The table of a list of rows; of two rows with one key the later stays. -/
def ofList (rows : List R) : Table R := rows.foldl insert empty

/-- The rows from a key on, in order, as long as they satisfy a test. -/
def scanFrom (t : Table R) (k : K) (p : R → Bool) : List R :=
  (t.rows.dropWhile fun r => place r < rank k).takeWhile p

instance : Membership R (Table R) := ⟨fun t r => r ∈ t.rows⟩

end Table

end TenantAccess
