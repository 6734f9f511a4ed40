import TenantAccess.Hex
import TenantAccess.Table

/-!
# Identifiers

Sixteen bytes that name a tenant, a principal, an initiative, a role or a resource. The kind of
thing named is part of the type, so that no identifier is used for a thing of another kind.
Identifiers are ordered as byte strings, which is the order of the numbers that the bytes spell,
highest byte first.
-/

namespace TenantAccess

/-- The kinds of things that carry an identifier. -/
inductive Noun
  | tenant
  | principal
  | initiative
  | role
  | resource
  deriving DecidableEq, Repr

namespace Noun

def word : Noun → String
  | tenant => "tenant"
  | principal => "principal"
  | initiative => "initiative"
  | role => "role"
  | resource => "resource"

/-- The name of the identifiers of this kind in diagnostic text. -/
def idName : Noun → String
  | tenant => "TenantId"
  | principal => "PrincipalId"
  | initiative => "InitiativeId"
  | role => "RoleId"
  | resource => "ResourceId"

end Noun

/-- An identifier, as the number that its sixteen bytes spell. -/
structure Id (noun : Noun) where
  value : Nat
  bounded : value < 1 <<< 128
  deriving DecidableEq

abbrev TenantId := Id .tenant

abbrev PrincipalId := Id .principal

abbrev InitiativeId := Id .initiative

abbrev RoleId := Id .role

abbrev ResourceId := Id .resource

namespace Id

variable {noun other : Noun}

theorem eq_of_value {a b : Id noun} (h : a.value = b.value) : a = b := by
  cases a; cases b; simp_all

/-- The identifier whose bytes are all zero, which comes before all others. -/
def least : Id noun := ⟨0, by decide⟩

/-- The sixteen bytes of an identifier. -/
def bytes (a : Id noun) : List UInt8 := (Radix.digits 256 16 a.value).map UInt8.ofNat

/-- The identifier with the given bytes; only sixteen of them make one. -/
def ofBytes? (bs : List UInt8) : Option (Id noun) :=
  if h : bs.length = 16 then
    some ⟨Radix.value 256 (bs.map UInt8.toNat), by
      have hlt := @Radix.value_lt 256 (bs.map UInt8.toNat) (by
        intro d hd
        obtain ⟨b, -, rfl⟩ := List.mem_map.1 hd
        exact b.toNat_lt)
      rwa [List.length_map, h] at hlt⟩
  else none

def hex (a : Id noun) : String := Hex.write 32 a.value

def ofHex (text : String) : Except Hex.Fault (Id noun) :=
  (Hex.read 32 text).map fun v => ⟨v.val, v.isLt⟩

instance : ToString (Id noun) := ⟨hex⟩

/-- The name of the kind and the first six bytes, for diagnostic text. -/
def brief (a : Id noun) : String :=
  s!"{noun.idName}({String.ofList (a.hex.toList.take 12)})"

instance : Ranked (Id noun) := ⟨value, eq_of_value⟩

instance : Keyed (Id noun) (Id noun) := ⟨id⟩

/-- Pairs of identifiers are ordered by their first and then by their second part. -/
instance : Ranked (Id noun × Id other) where
  rank p := p.1.value <<< 128 + p.2.value
  rank_injective := by
    rintro ⟨a, b⟩ ⟨c, d⟩ h
    have hb := b.bounded
    have hd := d.bounded
    have h1 : a.value = c.value := by simp only at h; omega
    have h2 : b.value = d.value := by simp only at h; omega
    rw [eq_of_value h1, eq_of_value h2]

end Id

/-- A set of identifiers, in order. -/
abbrev IdSet (noun : Noun) := Table (Id noun)

end TenantAccess
