import BoundedMap.Binary64.Basic
import BoundedMap.Text.Decimal
/-!
# Numbers in JSON text

A number is read as an integer where it is written as one and fits 64 bits,
and as a double-precision number otherwise. A negative zero is not an integer.

The digits are gathered into a 64-bit significand as long as they fit; what
follows only shifts the exponent, or is dropped behind the point. The
significand is then scaled by a power of ten, in at most three steps, each of
them rounded. A text that starts with no number, or with one that is too large,
reads as `none`.
-/

namespace BoundedMap.Json

/-- A number as it was read. -/
inductive Number
  /-- An integer that is not negative, below `2 ^ 64`. -/
  | unsigned (n : Nat)
  /-- The integer `-n`, for `n` from 1 to `2 ^ 63`. -/
  | negative (n : Nat)
  | float (minus : Bool) (size : Binary64)
  deriving DecidableEq, Repr

namespace Number

/-- The least number that only an unsigned 64-bit word can hold. -/
def signBit : Nat :=
  9223372036854775808

/-- The integer, if the number is one that a 64-bit signed word can hold. -/
def int64? : Number → Option Int64
  | unsigned n => if n < signBit then some (Int64.ofNat n) else none
  | negative n => some (Int64.ofInt (-n))
  | float _ _ => none

/-- The greatest significand, that of 64 bits. -/
def maxSignificand : Nat :=
  18446744073709551615

/-- Append digits to a significand up to the first that does not fit, and
answer the digits that are left. -/
def gather : (significand : Nat) → List Char → Nat × List Char
  | s, [] => (s, [])
  | s, c :: rest =>
    if s * 10 + Decimal.digitValue c ≤ maxSignificand then
      gather (s * 10 + Decimal.digitValue c) rest
    else (s, c :: rest)

/-- The power `10 ^ k` as a double-precision number. -/
def power (k : Nat) : Binary64 :=
  .ofNat (Nat.pow 10 k)

/-- The greatest power of ten that is used in one step. -/
def maxPower : Nat :=
  308

/-- Scale a number by `10 ^ exponent`. The answer is `none` when the result is
too large. -/
def scale (x : Binary64) (exponent : Int) : Option Binary64 :=
  if exponent.natAbs ≤ maxPower then
    if exponent ≥ 0 then
      match x.mul (power exponent.natAbs) with
      | .infinite => none
      | y => some y
    else some (x.div (power exponent.natAbs))
  else if x.isZero then some x
  else if exponent ≥ 0 then none
  else scale (x.div (power maxPower)) (exponent + maxPower)
termination_by exponent.natAbs
decreasing_by simp only [maxPower] at *; omega

/-- The first exponent that needs more than 32 bits. -/
def exponentBound : Nat :=
  2147483648

/-- Beyond the least and the greatest exponent, exponents stay there. -/
def clampExponent (e : Int) : Int :=
  max (-exponentBound) (min (exponentBound - 1) e)

/-- The digits at the start of a text, and what follows. -/
def spanDigits (cs : List Char) : List Char × List Char :=
  (cs.takeWhile Decimal.isDigit, cs.dropWhile Decimal.isDigit)

/-- A fraction behind its point: the significand and the exponent with its
digits taken in. Without a point nothing changes; the third component tells
whether there was one. -/
def fraction (significand : Nat) (exponent : Int) :
    List Char → Option (Nat × Int × Bool × List Char)
  | '.' :: cs =>
    let (ds, rest) := spanDigits cs
    if ds.isEmpty then none
    else
      let (s, dropped) := gather significand ds
      some (s, exponent - (ds.length - dropped.length), true, rest)
  | cs => some (significand, exponent, false, cs)

/-- What the mark of an exponent is followed by: its sign, then its digits. -/
def exponentParts (cs : List Char) : Option (Bool × Nat × List Char) :=
  let (down, cs) :=
    match cs with
    | '+' :: cs => (false, cs)
    | '-' :: cs => (true, cs)
    | cs => (false, cs)
  let (ds, rest) := spanDigits cs
  if ds.isEmpty then none else some (down, Decimal.value ds, rest)

/-- A floating-point number from its parts. An exponent that needs more than 32
bits leaves nothing but zero, or a number that is too large. -/
def ofParts (minus : Bool) (significand : Nat) (exponent : Int) :
    Option (Bool × Nat) → Option Number
  | none => (scale (.ofNat significand) exponent).map (float minus)
  | some (down, n) =>
    if n ≥ exponentBound then
      if significand ≠ 0 ∧ !down then none else some (float minus (.ofNat 0))
    else
      let e := clampExponent (if down then exponent - n else exponent + n)
      (scale (.ofNat significand) e).map (float minus)

/-- The number of an integer's digits, sign apart. -/
def ofInteger (minus : Bool) (significand : Nat) : Number :=
  if minus then
    if significand = 0 ∨ significand > signBit then .float true (.ofNat significand)
    else .negative significand
  else .unsigned significand

/-- An exponent behind its mark, if there is one. -/
def exponent? : List Char → Option (Option (Bool × Nat) × List Char)
  | 'e' :: cs | 'E' :: cs => do
    let (down, n, rest) ← exponentParts cs
    return (some (down, n), rest)
  | cs => some (none, cs)

/-- Read a number behind its sign. Its integer part has no leading zeros. -/
def readUnsigned? (minus : Bool) (cs : List Char) : Option (Number × List Char) := do
  let (ds, rest) := spanDigits cs
  guard (!ds.isEmpty && (ds.head? != some '0' || ds.length == 1))
  let (s, dropped) := gather 0 ds
  let (s, e, point, rest) ← fraction s dropped.length rest
  let (mark, rest) ← exponent? rest
  if dropped.isEmpty && !point && mark.isNone then
    return (ofInteger minus s, rest)
  else
    return (← ofParts minus s e mark, rest)

/-- Read the number at the start of a text. -/
def read? : List Char → Option (Number × List Char)
  | '-' :: cs => readUnsigned? true cs
  | cs => readUnsigned? false cs

end Number

end BoundedMap.Json
