import TenantAccess.Radix

/-!
# Quoted characters

How a character is shown between single quotes in an error text. Control characters, the no-break
space and the soft hyphen are shown by their number, a single quote and a backslash behind a
backslash, all others as themselves. The rule covers the characters below U+0100, which stand for
single bytes.
-/

namespace TenantAccess.Text

/-- The sixteen digits of hexadecimal text, in lower case. -/
def hexLetter (d : Nat) : Char :=
  if d < 10 then Char.ofNat (0x30 + d) else Char.ofNat (0x57 + d)

/-- The hexadecimal digits of a number below 256, without leading zeros. -/
private def shortHex (n : Nat) : String :=
  String.ofList ((Radix.digits 16 (if n < 16 then 1 else 2) n).map hexLetter)

private def isHidden (n : Nat) : Bool :=
  n < 0x20 || (0x7F ≤ n && n ≤ 0xA0) || n == 0xAD

private def escaped (c : Char) : String :=
  match c.toNat with
  | 0x00 => "\\0"
  | 0x09 => "\\t"
  | 0x0A => "\\n"
  | 0x0D => "\\r"
  | 0x27 => "\\\x27"
  | 0x5C => "\\\\"
  | n => if isHidden n then "\\u\x7b" ++ shortHex n ++ "\x7d" else c.toString

def quoted (c : Char) : String :=
  "\x27" ++ escaped c ++ "\x27"

end TenantAccess.Text
