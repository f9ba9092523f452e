import BoundedMap.Pool.Basic
/-!
# Rotations of linked nodes

The nodes of a pool form trees through their links. The steps here work on the
subtree that hangs from one handle: they record heights, raise a child above
its parent, and restore the balance of one node. They write only to the nodes
whose links or heights change, and answer the handle that heads the subtree
afterwards, which the caller has to link where the old one was.
-/

namespace BoundedMap.Subtree

variable {α β : Type}

/-- The greatest height that a node records, in 16 bits. -/
def maxHeight : Nat :=
  65535

/-- The height of a node over subtrees of the two given heights. -/
def heightOver (l r : Nat) : Except Fault Nat :=
  if 1 + max l r ≤ maxHeight then .ok (1 + max l r) else .error .heightOverflow

/-- The recorded height of the subtree at a link; an absent one has height 0. -/
def height : Option Handle → PoolM α β Nat
  | none => return 0
  | some h => return (← Pool.node h).height

/-- Record the height of `x` from the heights of its children. -/
def reheight (x : Handle) : PoolM α β Unit := do
  let n ← Pool.node x
  Pool.setHeight x (← heightOver (← height n.left) (← height n.right))

/-- How much higher the subtree of `x` on side `s` is than the one opposite. -/
def excess (s : Side) (x : Handle) : PoolM α β Int := do
  let n ← Pool.node x
  return (← height (n.child s)) - (← height (n.child s.other))

/-- Raise the child of `x` on side `s` above `x`. The child's subtree on the
other side moves under `x`. The child heads the subtree afterwards. -/
def lift (s : Side) (x : Handle) : PoolM α β Handle := do
  match (← Pool.node x).child s with
  | none => throw (.fault (.missingChild s x))
  | some y =>
    Pool.setChild x s ((← Pool.node y).child s.other)
    Pool.setChild y s.other (some x)
    reheight x
    reheight y
    return y

/-- Lower the side `s` of the subtree at `x`, which is too high there. A child
that itself leans to the opposite side is first brought to lean outwards. -/
def settle (s : Side) (x : Handle) : PoolM α β Handle := do
  match (← Pool.node x).child s with
  | none => lift s x
  | some y =>
    if (← excess s y) < 0 then
      Pool.setChild x s (some (← lift s.other y))
    lift s x

/-- Restore height and balance of the subtree at `x`, whose own subtrees are
balanced and differ by at most two in height. -/
def balance (x : Handle) : PoolM α β Handle := do
  reheight x
  let lean ← excess .left x
  if lean > 1 then settle .left x
  else if lean < -1 then settle .right x
  else return x

end BoundedMap.Subtree
