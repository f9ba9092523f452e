/-!
# Double-precision numbers

The nonnegative numbers of the 64-bit binary format, as exact values: a
significand below `2 ^ 53` times a power of two whose exponent is at least
`-1074`, or infinity. Every operation is the exact result rounded once to the
nearest such number, a tie going to the even significand. All of it is integer
arithmetic.
-/

namespace BoundedMap

/-- The quotient `num / den` rounded to the nearest natural number, a tie going
to the even one. -/
def roundDiv (num den : Nat) : Nat :=
  let q := num / den
  let r := num % den
  if 2 * r < den then q
  else if den < 2 * r then q + 1
  else q + q % 2

/-- A nonnegative double-precision number. -/
inductive Binary64
  /-- The number `significand * 2 ^ exponent`. -/
  | finite (significand : Nat) (exponent : Int)
  | infinite
  deriving DecidableEq, Repr

namespace Binary64

/-- The leading bit of a full significand, `2 ^ 52`. -/
def leadingBit : Nat :=
  4503599627370496

/-- The least exponent, that of the numbers nearest to zero. -/
def minExponent : Int :=
  -1074

/-- The greatest exponent. -/
def maxExponent : Int :=
  971

/-- A fraction that equals `num / den * 2 ^ e`. -/
def scaled (num den : Nat) (e : Int) : Nat × Nat :=
  (num * Nat.pow 2 e.toNat, den * Nat.pow 2 (-e).toNat)

/-- The greatest `l` such that `2 ^ l` does not exceed `num / den`. -/
def log2Ratio (num den : Nat) : Int :=
  let l : Int := num.log2 - den.log2
  let (n, d) := scaled num den (-l)
  if n < d then l - 1 else l

/-- The number nearest to `num / den`. -/
def ofRatio (num den : Nat) : Binary64 :=
  if num = 0 then .finite 0 minExponent
  else
    let e := max minExponent (log2Ratio num den - 52)
    let (n, d) := scaled num den (-e)
    let m := roundDiv n d
    -- rounding up may carry into the next power of two
    let (m, e) := if m = 2 * leadingBit then (leadingBit, e + 1) else (m, e)
    if e > maxExponent then .infinite else .finite m e

/-- The number nearest to a natural number. -/
def ofNat (n : Nat) : Binary64 :=
  ofRatio n 1

/-- A finite number as a fraction. -/
def ratio (m : Nat) (e : Int) : Nat × Nat :=
  scaled m 1 e

/-- The product. Infinity is kept. -/
def mul : Binary64 → Binary64 → Binary64
  | finite m e, finite n f =>
    let (num, den) := ratio (m * n) (e + f)
    ofRatio num den
  | _, _ => infinite

/-- The quotient. A quotient by zero is infinite, one by infinity zero. -/
def div : Binary64 → Binary64 → Binary64
  | finite m e, finite n f =>
    if n = 0 then infinite
    else
      let (num, den) := scaled m n (e - f)
      ofRatio num den
  | finite _ _, infinite => finite 0 minExponent
  | infinite, _ => infinite

/-- Whether the number is zero. -/
def isZero : Binary64 → Bool
  | finite m _ => m == 0
  | infinite => false

/-- The 64 bits of the number, as an unsigned integer. -/
def bits : Binary64 → Nat
  | finite m e =>
    if m < leadingBit then m else (e + 1075).toNat * leadingBit + (m - leadingBit)
  | infinite => 2047 * leadingBit

end Binary64

end BoundedMap
