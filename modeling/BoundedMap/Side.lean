/-!
# Sides

A binary search tree does everything twice, once towards the smaller keys and
once towards the greater ones. `Side` names the two directions, so that each
rotation, descent and traversal is written, and reasoned about, only once.

`turn` is the only place where keys are compared during a descent. It asks
whether the probe lies below the key first, and only then the other way round.
-/

namespace BoundedMap

/-- One of the two directions below a node. -/
inductive Side
  | left
  | right
  deriving DecidableEq, Repr

namespace Side

/-- The opposite direction. -/
def other : Side → Side
  | left => right
  | right => left

@[simp] theorem other_other (s : Side) : s.other.other = s := by
  cases s <;> rfl

@[simp] theorem other_ne (s : Side) : s.other ≠ s := by
  cases s <;> decide

theorem eq_or_eq_other (s t : Side) : t = s ∨ t = s.other := by
  cases s <;> cases t <;> decide

end Side

/-- Where a descent for `probe` goes at a node that holds `key`: left when the
probe orders below the key, otherwise right when the key orders below the
probe, and nowhere when neither holds, which is a match. -/
def turn {α : Type} (less : α → α → Bool) (probe key : α) : Option Side :=
  if less probe key then some .left
  else if less key probe then some .right
  else none

theorem turn_eq_none_iff {α : Type} {less : α → α → Bool} {probe key : α} :
    turn less probe key = none ↔ less probe key = false ∧ less key probe = false := by
  cases h : less probe key <;> cases h' : less key probe <;> simp [turn, h, h']

end BoundedMap
