import Std.Data.HashSet.Basic
/-!
# Samples of distinct values

A sample of `len` distinct values is drawn by several parties. Each draws an
equal share of distinct values from draws of its own; the shares are merged as
they come in, and as shares may overlap, and the division may leave a
remainder, the first party goes on drawing until the sample is complete.

Draws are a function of their number. How many are needed depends on how often
they repeat, so every party is given a limit; `none` means that it was reached.
-/

namespace BoundedMap.Bench

/-- An endless sequence of draws. -/
abbrev Draws :=
  Nat → Int64

/-- Draw on from number `next` until `seen` has `size` elements. The answer
includes the number of the draw that comes next. -/
def fill (draw : Draws) (size : Nat) :
    (limit next : Nat) → Std.HashSet Int64 → Option (Std.HashSet Int64 × Nat)
  | 0, next, seen => if size ≤ seen.size then some (seen, next) else none
  | limit + 1, next, seen =>
    if size ≤ seen.size then some (seen, next)
    else fill draw size limit (next + 1) (seen.insert (draw next))

/-- The share of one party out of `parties` in a sample of `len` values. -/
def share (parties len : Nat) : Nat :=
  len / max parties 1

/-- Add every value of a share to the values so far. -/
def absorb (seen chunk : Std.HashSet Int64) : Std.HashSet Int64 :=
  chunk.fold (·.insert ·) seen

/-- Complete a sample from the shares of the others, in the order in which they
come in. The values are answered as the set lists them; no order is promised. -/
def complete (limit : Nat) (draw : Draws) (parties len : Nat)
    (chunks : List (Std.HashSet Int64)) : Option (List Int64) := do
  let (own, next) ← fill draw (share parties len) limit 0 ∅
  let (all, _) ← fill draw len limit next (chunks.foldl absorb own)
  return all.toList

/-- A sample of `len` distinct values: `draw` serves the first party, `others`
the further ones, in the order in which their shares come in. -/
def sample (limit : Nat) (draw : Draws) (others : List Draws) (len : Nat) :
    Option (List Int64) := do
  let parties := others.length + 1
  let chunks ← others.mapM fun d => (·.1) <$> fill d (share parties len) limit 0 ∅
  complete limit draw parties len chunks

/-! ## A source of draws -/

/-- One step of mixing: the high bits of a word are folded into its low ones
and the result is multiplied. -/
def mixStep (shift factor w : UInt64) : UInt64 :=
  (w ^^^ (w >>> shift)) * factor

/-- A word that depends on all bits of another one, and determines it. -/
def mix (w : UInt64) : UInt64 :=
  mixStep 31 1 (mixStep 27 0x94d049bb133111eb (mixStep 30 0xbf58476d1ce4e5b9 w))

/-- Draws that look random and do not repeat: a counter with an odd step,
mixed. -/
def drawsFrom (seed : UInt64) : Draws := fun i =>
  (mix (seed + (i.toUInt64 + 1) * 0x9e3779b97f4a7c15)).toInt64

end BoundedMap.Bench
