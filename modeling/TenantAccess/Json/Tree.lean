import TenantAccess.Json.Token

/-!
# JSON values

The values that JSON text stands for. Tokens are taken one by one, with the arrays and objects that
are still open on a stack, so that values may be nested to any depth. Members of an object are kept
in order, repeated names included.
-/

namespace TenantAccess

inductive Json
  | null
  | bool (value : Bool)
  | natural (n : Nat)
  | otherNumber
  | string (text : Json.Text)
  | array (items : List Json)
  | object (members : List (Json.Text × Json))

namespace Json

/-- An array or an object that is still open, with what it holds so far in reverse order. -/
inductive Open
  | array (items : List Json)
  /-- An object that waits for the value of its last name. -/
  | object (members : List (Text × Json)) (name : Text)

/-- What may come next, inside of the containers that are open. -/
inductive Expected
  | value (outer : List Open)
  | firstItem (outer : List Open)
  | firstName (outer : List Open)
  | name (members : List (Text × Json)) (outer : List Open)
  | colon (members : List (Text × Json)) (name : Text) (outer : List Open)
  /-- What follows a value that is complete. -/
  | after (value : Json) (outer : List Open)

namespace Expected

/-- The first token of a value. -/
def start (outer : List Open) : Token → Option Expected
  | .openArray => some (firstItem outer)
  | .openObject => some (firstName outer)
  | .null => some (after .null outer)
  | .bool b => some (after (.bool b) outer)
  | .natural n => some (after (.natural n) outer)
  | .otherNumber => some (after .otherNumber outer)
  | .string text => some (after (.string text) outer)
  | _ => none

def next : Expected → Token → Option Expected
  | value outer, t => start outer t
  | firstItem outer, .closeArray => some (after (.array []) outer)
  | firstItem outer, t => start (.array [] :: outer) t
  | firstName outer, .closeObject => some (after (.object []) outer)
  | firstName outer, .string n => some (colon [] n outer)
  | name members outer, .string n => some (colon members n outer)
  | colon members n outer, .colon => some (value (.object members n :: outer))
  | after v (.array items :: outer), .comma => some (value (.array (v :: items) :: outer))
  | after v (.array items :: outer), .closeArray =>
    some (after (.array (v :: items).reverse) outer)
  | after v (.object members n :: outer), .comma => some (name ((n, v) :: members) outer)
  | after v (.object members n :: outer), .closeObject =>
    some (after (.object ((n, v) :: members).reverse) outer)
  | _, _ => none

end Expected

/-- The value that a text stands for, if the text is valid. -/
def parse? (text : String) : Option Json := do
  let ts ← tokens? text.toList
  match ← ts.foldlM Expected.next (.value []) with
  | .after v [] => some v
  | _ => none

end Json

end TenantAccess
