import BoundedMap.Binary64.Basic
import BoundedMap.Text.Decimal
/-!
# Numbers with a fixed count of places

A double-precision number stands for one exact value. `fixed` rounds that
value to a count of decimal places, a tie going to the even last digit, and
writes all its digits.
-/

namespace BoundedMap.Binary64

/-- The exact value in units of `10 ^ -places`, rounded to the nearest one. -/
def inPlaces (places m : Nat) (e : Int) : Nat :=
  let (num, den) := ratio m e
  roundDiv (num * Nat.pow 10 places) den

/-- The last `count` digits of a number, with leading zeros. -/
def lastDigits : (count n : Nat) → List Char
  | 0, _ => []
  | count + 1, n => lastDigits count (n / 10) ++ [Decimal.digit (n % 10)]

/-- The number with `places` digits after the point, of which there is at
least one. -/
def fixed (places : Nat) : Binary64 → String
  | finite m e =>
    let units := inPlaces places m e
    String.ofList
      (Decimal.digits (units / Nat.pow 10 places) ++ '.' :: lastDigits places units)
  | infinite => "inf"

end BoundedMap.Binary64
