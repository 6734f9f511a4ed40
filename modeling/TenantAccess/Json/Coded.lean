import TenantAccess.Json.Tree
import TenantAccess.Vocabulary

/-!
# Data in JSON form

How words, records and lists are written in JSON and which forms are read. A word is a string, or
an object whose only name is the word, with the value null. A record is an object with a member for
each field, in any order, or an array of the fields. Names that a record does not know are passed
over unless the record is closed.
-/

namespace TenantAccess.Json

/-- Data with a JSON form. -/
class Coded (α : Type) where
  read : Json → Option α
  write : α → Json

open Coded

/-- The data that a text stands for. -/
def decodeText? (α : Type) [Coded α] (text : String) : Option α := do read (← parse? text)

def text (s : String) : Json := .string (some s)

/-- The value of each named field of an object; a field may be missing, but it is not repeated.
Names that stand for no text are refused. -/
def memberFields? (isClosed : Bool) (names : List String) (members : List (Text × Json)) :
    Option (List (Option Json)) := do
  let members ← members.mapM fun (name, value) => name.map (·, value)
  let unknown := members.any fun m => !names.contains m.1
  let repeated := names.any fun n => 1 < members.countP fun m => m.1 == n
  if repeated || (isClosed && unknown) then none
  return names.map fun n => (members.find? fun m => m.1 == n).map Prod.snd

/-- The values of the fields of a record, in the order of their names. -/
def fields? (isClosed : Bool) (names : List String) : Json → Option (List (Option Json))
  | .object members => memberFields? isClosed names members
  | .array items =>
    if items.length ≤ names.length then
      some (items.map some ++ List.replicate (names.length - items.length) none)
    else none
  | _ => none

/-- The values of the fields of a record that has to have all of them. -/
def allFields? (names : List String) (v : Json) : Option (List Json) := do
  (← fields? false names v).mapM id

def record (members : List (String × Json)) : Json :=
  .object (members.map fun m => (some m.1, m.2))

/-- Vocabularies are written as their words. -/
def readWord (α : Type) [Vocabulary α] : Json → Option α
  | .string (some s) => Vocabulary.ofWord? α s
  | .object [(some s, .null)] => Vocabulary.ofWord? α s
  | _ => none

instance {α : Type} [Vocabulary α] : Coded α := ⟨readWord α, fun a => text (Vocabulary.word a)⟩

instance : Coded Bool where
  read
    | .bool b => some b
    | _ => none
  write := .bool

instance : Coded String where
  read
    | .string s => s
    | _ => none
  write := text

instance : Coded UInt8 where
  read
    | .natural n => if n < 256 then some (.ofNat n) else none
    | _ => none
  write b := .natural b.toNat

instance : Coded UInt32 where
  read
    | .natural n => if n < UInt32.size then some (.ofNat n) else none
    | _ => none
  write w := .natural w.toNat

instance {α : Type} [Coded α] : Coded (List α) where
  read
    | .array items => items.mapM read
    | _ => none
  write xs := .array (xs.map write)

end TenantAccess.Json
