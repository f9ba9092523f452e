import BoundedMap.Order.Basic
/-!
# Predicates on strings

Strings are compared by their characters, character by character, and a
character by its code point. The orders by a measure compare lengths, single
characters or altered strings.
-/

namespace BoundedMap.Order

/-- The predicates on strings that can be chosen for a map. -/
inductive Text
  | general (kind : General)
  /-- By the number of bytes in UTF-8. -/
  | bytes
  /-- By the number of characters. -/
  | length
  /-- Capital ASCII letters count as small ones. -/
  | caseless
  /-- From the last character to the first. -/
  | backwards
  /-- By the first character alone, nothing before everything. -/
  | initial
  deriving DecidableEq, Repr

/-- The predicate of that name. -/
def Text.less : Text → String → String → Bool
  | general kind, a, b => kind.less a b
  | bytes, a, b => through String.utf8ByteSize a b
  | length, a, b => through String.length a b
  | caseless, a, b => through (fun s : String => s.toList.map Char.toLower) a b
  | backwards, a, b => through (fun s : String => s.toList.reverse) a b
  | initial, a, b =>
    through (fun s : String => (s.toList.head?.map fun c => c.toNat + 1).getD 0) a b

end BoundedMap.Order
