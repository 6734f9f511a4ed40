import TenantAccess.Hex

/-!
# Tokens of JSON text

The marks, words, numbers and strings that strict JSON text is made of. White space is the space,
the tabulator, the line feed and the carriage return. Numbers are told apart only as far as they
are used: natural numbers written without sign, point and exponent, and all others. A string may
hold half of a surrogate pair without the other half; it is a token then, but it stands for no
text.
-/

namespace TenantAccess.Json

/-- The text that a string stands for, if it stands for any. -/
abbrev Text := Option String

/-! ## Tokens -/

inductive Token
  | openArray
  | closeArray
  | openObject
  | closeObject
  | comma
  | colon
  | null
  | bool (value : Bool)
  | natural (n : Nat)
  | otherNumber
  | string (text : Text)

/-- What is left of a text after a part that is not empty. -/
abbrev Shorter (cs : List Char) := { rest : List Char // rest.length < cs.length }

/-! ## Strings -/

/-- A part of a string: a character or an escaped unit of UTF-16. -/
inductive Piece
  | char (c : Char)
  | unit (n : Nat)

/-- The characters that pieces stand for. A pair of surrogates is one character, and a surrogate
outside a pair is none. -/
def decode : List Piece → Option (List Char)
  | [] => some []
  | .char c :: rest => (decode rest).map (c :: ·)
  | .unit n :: rest =>
    if 0xD800 ≤ n ∧ n < 0xDC00 then
      match rest with
      | .unit m :: rest' =>
        if 0xDC00 ≤ m ∧ m < 0xE000 then
          (decode rest').map (Char.ofNat (0x10000 + (n - 0xD800) * 0x400 + (m - 0xDC00)) :: ·)
        else none
      | _ => none
    else if 0xDC00 ≤ n ∧ n < 0xE000 then none
    else (decode rest).map (Char.ofNat n :: ·)

/-- The unit that four digits spell. -/
def unit? (a b c d : Char) : Option Nat := do
  let ds ← [a, b, c, d].mapM Hex.digit?
  return Radix.value 16 (ds.map Fin.val)

/-- The character for a letter behind a backslash. -/
def escape? (c : Char) : Option Char :=
  match c.toNat with
  | 0x22 => some c
  | 0x5C => some c
  | 0x2F => some c
  | 0x62 => some (Char.ofNat 0x08)
  | 0x66 => some (Char.ofNat 0x0C)
  | 0x6E => some (Char.ofNat 0x0A)
  | 0x72 => some (Char.ofNat 0x0D)
  | 0x74 => some (Char.ofNat 0x09)
  | _ => none

/-- The pieces of a string up to its closing quote. Control characters have to be escaped. -/
def pieces : (cs : List Char) → Option (List Piece × Shorter cs)
  | '\x22' :: r => some ([], ⟨r, by simp⟩)
  | '\x5c' :: 'u' :: a :: b :: c :: d :: r => do
    let n ← unit? a b c d
    let (ps, rest) ← pieces r
    return (.unit n :: ps, ⟨rest, by have := rest.2; simp only [List.length_cons]; omega⟩)
  | '\x5c' :: e :: r => do
    let c ← escape? e
    let (ps, rest) ← pieces r
    return (.char c :: ps, ⟨rest, by have := rest.2; simp only [List.length_cons]; omega⟩)
  | c :: r =>
    if c.toNat < 0x20 then none
    else do
      let (ps, rest) ← pieces r
      return (.char c :: ps, ⟨rest, by have := rest.2; simp only [List.length_cons]; omega⟩)
  | [] => none

theorem length_dropWhile_lt (p : Char → Bool) (c : Char) (cs : List Char) :
    (cs.dropWhile p).length < (c :: cs).length :=
  Nat.lt_succ_of_le (List.dropWhile_sublist p).length_le

/-! ## Numbers -/

/-- The decimal digits at the start of a text and what follows them; at least one is needed. -/
def digits? : (cs : List Char) → Option (List Char × Shorter cs)
  | [] => none
  | c :: r =>
    if c.isDigit then
      some (c :: r.takeWhile Char.isDigit,
        ⟨r.dropWhile Char.isDigit, length_dropWhile_lt Char.isDigit c r⟩)
    else none

/-- The whole part of a number: zero, or digits that do not start with zero. -/
def whole? : (cs : List Char) → Option (Nat × Shorter cs)
  | '0' :: r => some (0, ⟨r, by simp⟩)
  | cs => do
    let (ds, rest) ← digits? cs
    return (ds.foldl (fun n d => n * 10 + (d.toNat - 0x30)) 0, rest)

/-- What follows the fraction of a number, if it has one. -/
def skipFraction : (cs : List Char) → Option (Bool × { rest : List Char // rest.length ≤ cs.length })
  | '.' :: r => do
    let (_, rest) ← digits? r
    return (true, ⟨rest, by have := rest.2; simp only [List.length_cons]; omega⟩)
  | cs => some (false, ⟨cs, Nat.le_refl _⟩)

/-- What follows the sign of an exponent, if it has one. -/
def skipSign : (cs : List Char) → { rest : List Char // rest.length ≤ cs.length }
  | '+' :: r => ⟨r, by simp⟩
  | '-' :: r => ⟨r, by simp⟩
  | cs => ⟨cs, Nat.le_refl _⟩

/-- What follows the exponent of a number, if it has one. -/
def skipExponent (cs : List Char) : Option (Bool × { rest : List Char // rest.length ≤ cs.length }) :=
  match cs with
  | c :: r =>
    if c = 'e' ∨ c = 'E' then do
      let signed := skipSign r
      let (_, rest) ← digits? signed
      return (true, ⟨rest, by
        have h := rest.2
        have h' := signed.2
        simp only [List.length_cons]
        omega⟩)
    else some (false, ⟨c :: r, Nat.le_refl _⟩)
  | [] => some (false, ⟨[], Nat.le_refl _⟩)

/-- A number without sign. -/
def number? (cs : List Char) : Option (Token × Shorter cs) := do
  let (n, afterWhole) ← whole? cs
  let (hasFraction, afterFraction) ← skipFraction afterWhole
  let (hasExponent, rest) ← skipExponent afterFraction
  return (if hasFraction || hasExponent then .otherNumber else .natural n, ⟨rest, by
    have h := afterWhole.2
    have h' := afterFraction.2
    have h'' := rest.2
    omega⟩)

/-! ## Texts -/

/-- The token at the start of a text and what follows it. -/
def token? : (cs : List Char) → Option (Token × Shorter cs)
  | '[' :: r => some (.openArray, ⟨r, by simp⟩)
  | ']' :: r => some (.closeArray, ⟨r, by simp⟩)
  | '\x7b' :: r => some (.openObject, ⟨r, by simp⟩)
  | '\x7d' :: r => some (.closeObject, ⟨r, by simp⟩)
  | ',' :: r => some (.comma, ⟨r, by simp⟩)
  | ':' :: r => some (.colon, ⟨r, by simp⟩)
  | 'n' :: 'u' :: 'l' :: 'l' :: r => some (.null, ⟨r, by simp; omega⟩)
  | 't' :: 'r' :: 'u' :: 'e' :: r => some (.bool true, ⟨r, by simp; omega⟩)
  | 'f' :: 'a' :: 'l' :: 's' :: 'e' :: r => some (.bool false, ⟨r, by simp; omega⟩)
  | '\x22' :: r => do
    let (ps, rest) ← pieces r
    return (.string ((decode ps).map String.ofList),
      ⟨rest, by have := rest.2; simp only [List.length_cons]; omega⟩)
  | '-' :: r => do
    let (_, rest) ← number? r
    return (.otherNumber, ⟨rest, by have := rest.2; simp only [List.length_cons]; omega⟩)
  | cs => number? cs

def isSpace (c : Char) : Bool := c = ' ' || c = '\t' || c = '\n' || c = '\r'

/-- The tokens of a text. -/
def tokens? (cs : List Char) : Option (List Token) :=
  match cs with
  | [] => some []
  | c :: r =>
    if isSpace c then tokens? r
    else
      match token? (c :: r) with
      | none => none
      | some (t, rest) => (tokens? rest).map (t :: ·)
termination_by cs.length
decreasing_by
  · simp
  · exact rest.2

end TenantAccess.Json
