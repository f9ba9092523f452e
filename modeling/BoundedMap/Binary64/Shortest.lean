import BoundedMap.Binary64.Basic
import BoundedMap.Text.Decimal
/-!
# The fewest digits that read back

Many decimals round to the same double-precision number. `shortest` finds the
one with the fewest significant digits, and of those the nearest to the exact
value, a tie going to the even digit. It tries one digit, then two, and so on.
On each grid of decimals the two neighbours of the value are tested, the nearer
first. Both are needed: the numbers that round to a power of two reach twice as
far above it as below, so the nearer neighbour may miss where the other reads
back. No point further off has to be tested, for a neighbour lies between it
and the value.

`Format` holds the choices of a written form, and `Format.plain` is the one
used in messages.
-/

namespace BoundedMap.Binary64

/-- The decimal `coefficient * 10 ^ exponent`. -/
structure DecimalForm where
  coefficient : Nat
  exponent : Int
  deriving DecidableEq, Repr

/-- The half-way points around `m * 2 ^ e`, in units of `2 ^ (e - 2)`. Below a
power of two the numbers lie twice as close, so the lower point is nearer. -/
def halfWay (m : Nat) (e : Int) : Nat × Nat :=
  (4 * m - (if m = leadingBit ∧ e > minExponent then 1 else 2), 4 * m + 2)

/-- The sizes of `2 ^ (e - 2)` and of `10 ^ u`, as multiples of one fraction. -/
def units (e u : Int) : Nat × Nat :=
  (Nat.pow 2 (e - 2).toNat * Nat.pow 10 (-u).toNat,
    Nat.pow 10 u.toNat * Nat.pow 2 (2 - e).toNat)

/-- Whether the decimal rounds to `m * 2 ^ e`. It lies between the half-way
points, and a half-way point itself does when `m` is even. -/
def readsBack (m : Nat) (e : Int) (d : DecimalForm) : Bool :=
  let (quarter, step) := units e d.exponent
  let (low, high) := halfWay m e
  let x := d.coefficient * step
  if m % 2 = 0 then low * quarter ≤ x && x ≤ high * quarter
  else low * quarter < x && x < high * quarter

/-- The two neighbours of `m * 2 ^ e` among the multiples of `10 ^ u`, the
nearer first, and the even one first where both are as near. -/
def neighbours (m : Nat) (e u : Int) : List DecimalForm :=
  let (quarter, step) := units e u
  let below := 4 * m * quarter / step
  let nearest := roundDiv (4 * m * quarter) step
  [⟨nearest, u⟩, ⟨below + (below + 1) - nearest, u⟩]

/-- The decimal that equals `m * 2 ^ e`, with all its digits. -/
def exactly (m : Nat) (e : Int) : DecimalForm :=
  ⟨m * Nat.pow 2 e.toNat * Nat.pow 5 (-e).toNat, min e 0⟩

/-- The least `k` such that `m * 2 ^ e` is below `10 ^ k`, for a number that is
not zero. All numbers lie between `10 ^ -330` and `10 ^ 310`. -/
def places (m : Nat) (e : Int) : Int :=
  let (num, den) := ratio m e
  let steps := (List.range 640).find? fun (i : Nat) =>
    num * Nat.pow 10 (330 - i) < den * Nat.pow 10 (i - 330)
  (steps.getD 640 : Int) - 330

/-- A coefficient without its trailing zeros. -/
def DecimalForm.trim (d : DecimalForm) : (limit : Nat) → DecimalForm
  | 0 => d
  | limit + 1 =>
    if d.coefficient % 10 = 0 then
      DecimalForm.trim ⟨d.coefficient / 10, d.exponent + 1⟩ limit
    else d

/-- The shortest decimal that reads back as `m * 2 ^ e`, which is not zero.
Seventeen digits are always enough. -/
def shortest (m : Nat) (e : Int) : DecimalForm :=
  let k := places m e
  let found := (List.range 17).findSome? fun (n : Nat) =>
    (neighbours m e (k - n - 1)).find? (readsBack m e)
  let d := found.getD (exactly m e)
  d.trim (Decimal.digits d.coefficient).length

/-- The choices of a written form: the powers of ten of the first digit for
which all digits are written out, and the signs of the other exponents. -/
structure Format where
  leastPositional : Int
  greatestPositional : Int
  positiveSign : List Char
  deriving DecidableEq, Repr

/-- Positional from `1e-5` up to below `1e16`, scientific outside, and a sign
before every exponent. -/
def Format.plain : Format :=
  ⟨-5, 15, ['+']⟩

/-- An exponent behind its mark. -/
def Format.exponent (f : Format) (n : Int) : List Char :=
  if n < 0 then 'e' :: Decimal.ofInt n else 'e' :: (f.positiveSign ++ Decimal.ofInt n)

/-- The digits `ds`, the first of which counts `10 ^ first`, written out. -/
def positional (ds : List Char) (first : Int) : List Char :=
  if first < 0 then
    ['0', '.'] ++ List.replicate (-first - 1).toNat '0' ++ ds
  else
    let whole := first.toNat + 1
    if ds.length ≤ whole then ds ++ List.replicate (whole - ds.length) '0' ++ ['.', '0']
    else ds.take whole ++ '.' :: ds.drop whole

/-- The number in its written form. A positional form always has a point. -/
def write (f : Format) : Binary64 → List Char
  | infinite => ['i', 'n', 'f']
  | finite m e =>
    if m = 0 then ['0', '.', '0']
    else
      let d := shortest m e
      let ds := Decimal.digits d.coefficient
      let first := d.exponent + ds.length - 1
      if f.leastPositional ≤ first ∧ first ≤ f.greatestPositional then positional ds first
      else
        match ds with
        | [] => []
        | [c] => c :: f.exponent first
        | c :: rest => c :: '.' :: rest ++ f.exponent first

end BoundedMap.Binary64
