import BoundedMap.Order.Basic
/-!
# Predicates on lists of integers

Lists are compared element by element, and a list that another one continues
comes before it. The two orders by a measure compare lengths and sums.
-/

namespace BoundedMap.Order

/-- The predicates on lists that can be chosen for a map. -/
inductive Sequence
  | general (kind : General)
  | length
  /-- By the sum of the elements, which does not overflow. -/
  | sum
  deriving DecidableEq, Repr

/-- The predicate of that name. -/
def Sequence.less : Sequence → List Int64 → List Int64 → Bool
  | general kind, a, b => kind.less a b
  | length, a, b => through List.length a b
  | sum, a, b => through (fun xs : List Int64 => xs.foldl (fun acc n => acc + n.toInt) 0) a b

end BoundedMap.Order
