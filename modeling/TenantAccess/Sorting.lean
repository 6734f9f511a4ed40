/-!
# Sorting by a number

Sorting a list by a number that belongs to each element. Elements with the same number keep their
order.
-/

namespace TenantAccess

/-- Each element, from the last on, goes before the first one whose number is not smaller. Unlike a merge
sort this evaluates by recursion on the list alone. -/
def sortOn {α : Type} (number : α → Nat) (l : List α) : List α :=
  l.foldr (fun a sorted => sorted.takeWhile (number · < number a) ++
    a :: sorted.dropWhile (number · < number a)) []

end TenantAccess
