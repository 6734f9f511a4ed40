import TenantAccess.Identifier

/-!
# Fresh identifiers

Where new identifiers come from: a list is used up first, and numbered identifiers with eight high
bytes of ones follow.
-/

namespace TenantAccess

structure Supply where
  /-- The numbers of the identifiers to hand out next. -/
  listed : List (Fin (1 <<< 128))
  /-- How many numbered identifiers have been handed out. -/
  numbered : Nat

namespace Supply

def empty : Supply := ⟨[], 0⟩

/-- The numbered identifier with a given number, which is taken modulo `0x10000000000000000`. -/
def numberedId {noun : Noun} (n : Nat) : Id noun :=
  ⟨0xFFFFFFFFFFFFFFFF <<< 64 + n % 0x10000000000000000, by omega⟩

/-- The next identifier. -/
def draw {noun : Noun} : Supply → Id noun × Supply
  | ⟨n :: rest, numbered⟩ => (⟨n.val, n.isLt⟩, ⟨rest, numbered⟩)
  | ⟨[], numbered⟩ => (numberedId numbered, ⟨[], numbered + 1⟩)

end Supply

end TenantAccess
