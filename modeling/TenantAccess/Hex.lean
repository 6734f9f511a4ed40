import TenantAccess.Text.QuotedChar

/-!
# Hexadecimal text

Two digits for each byte. Reading looks at the length of the text in bytes first and then at the
digits from the left, so a text with several faults always reports the same one.
-/

namespace TenantAccess.Hex

/-- Why a text is not the hexadecimal form of a byte string of the wanted length. -/
inductive Fault
  | oddLength
  | badDigit (byte : UInt8) (position : Nat)
  | wrongLength
  deriving DecidableEq, Repr

def Fault.message : Fault → String
  | .oddLength => "Odd number of digits"
  | .badDigit byte position =>
    s!"Invalid character {Text.quoted (Char.ofNat byte.toNat)} at position {position}"
  | .wrongLength => "Invalid string length"

/-- The value of a digit; letters count in either case. -/
def digit? (c : Char) : Option (Fin 16) :=
  if '0' ≤ c ∧ c ≤ '9' then some (Fin.ofNat 16 (c.toNat - 0x30))
  else if 'a' ≤ c ∧ c ≤ 'f' then some (Fin.ofNat 16 (c.toNat - 0x57))
  else if 'A' ≤ c ∧ c ≤ 'F' then some (Fin.ofNat 16 (c.toNat - 0x37))
  else none

/-- The digits in a row of characters. The characters before the first bad one are digits and one
byte long each, so its position in bytes is its index. -/
def scan (position : Nat) : List Char → Except Fault (List (Fin 16))
  | [] => .ok []
  | c :: rest =>
    match digit? c with
    | some d => (scan (position + 1) rest).map (d :: ·)
    | none => .error (.badDigit ((String.utf8EncodeChar c).headD 0) position)

/-- The number that digits, highest first, stand for. -/
def ofDigits (ds : List (Fin 16)) : Fin (Radix.capacity 16 ds.length) :=
  ⟨Radix.value 16 (ds.map Fin.val), by
    have h := @Radix.value_lt 16 (ds.map Fin.val) (by
      intro d hd
      obtain ⟨f, -, rfl⟩ := List.mem_map.1 hd
      exact f.isLt)
    simpa using h⟩

/-- The number written by exactly `count` digits, an even number. -/
def read (count : Nat) (text : String) : Except Fault (Fin (Radix.capacity 16 count)) :=
  if text.utf8ByteSize % 2 = 1 then .error .oddLength
  else match scan 0 text.toList with
    | .error fault => .error fault
    | .ok ds => if h : ds.length = count then .ok (h ▸ ofDigits ds) else .error .wrongLength

/-- A number as exactly `count` lower-case digits. -/
def write (count n : Nat) : String :=
  String.ofList ((Radix.digits 16 count n).map Text.hexLetter)

end TenantAccess.Hex
