/-!
# Vocabularies

Types whose values are a fixed list of words. The word of a value is how it is stored, shown and
read; no other spelling is accepted.
-/

namespace TenantAccess

class Vocabulary (α : Type) where
  /-- What a word of this vocabulary is, for error texts. -/
  label : String
  /-- All values, in their order. -/
  all : List α
  word : α → String

/-- The value with a given word. -/
def Vocabulary.ofWord? (α : Type) [Vocabulary α] (text : String) : Option α :=
  (all : List α).find? fun a => word a == text

end TenantAccess
