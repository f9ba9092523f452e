import BoundedMap.Order.Basic
/-!
# Predicates on 64-bit integers

Besides the general ones: orders by a measure of the integer, and two
predicates that are not orders. All of them compute with unbounded integers,
so that nothing overflows.
-/

namespace BoundedMap.Order

/-- The predicates on integers that can be chosen for a map. -/
inductive Integer
  | general (kind : General)
  /-- By distance from zero. -/
  | magnitude
  /-- By remainder, which is never negative. -/
  | remainder (modulus : Int)
  /-- By quotient, rounded down. -/
  | quotient (divisor : Int)
  /-- By the number of ones in two's complement. -/
  | ones
  /-- Even integers before odd ones, each in ascending order. -/
  | evenFirst
  /-- Smaller by more than a tolerance. -/
  | beyond (tolerance : Int)
  /-- Less than half a turn ahead on a circle. -/
  | ahead (turn : Int)
  deriving DecidableEq, Repr

/-- The number of ones among the lowest 64 binary digits. -/
def onesOf (n : Nat) : Nat :=
  (List.range 64).countP n.testBit

/-- The predicate of that name. -/
def Integer.less : Integer → Int64 → Int64 → Bool
  | general kind, a, b => kind.less a b
  | magnitude, a, b => through (fun n : Int64 => n.toInt.natAbs) a b
  | remainder modulus, a, b => through (fun n : Int64 => n.toInt % modulus) a b
  | quotient divisor, a, b => through (fun n : Int64 => n.toInt.fdiv divisor) a b
  | ones, a, b => through (fun n : Int64 => onesOf n.toUInt64.toNat) a b
  | evenFirst, a, b =>
    decide (a.toInt % 2 < b.toInt % 2) ||
      (a.toInt % 2 == b.toInt % 2 && decide (a.toInt < b.toInt))
  | beyond tolerance, a, b => decide (a.toInt + tolerance < b.toInt)
  | ahead turn, a, b =>
    let gap := (b.toInt - a.toInt) % turn
    decide (0 < gap) && decide (2 * gap < turn)

end BoundedMap.Order
