import BoundedMap.Subtree.Rotation
/-!
# Insertion and removal in linked subtrees

Each step takes the link to a subtree and answers the link that replaces it.
The recursion goes down one side per node, and every node that was passed is
relinked and rebalanced on the way back. `limit` bounds the length of a path,
as in `Subtree.locate`.

The recursions are written around the step `bal` that they rebalance a node
with; the updates themselves are the recursions around `balance`.
-/

namespace BoundedMap.Subtree

variable {α β : Type}

/-! ## The recursions -/

section With

variable (bal : Handle → PoolM α β Handle)

/-- Bind `key` to `value` below the link `t`, and answer the new head and the
value that was replaced. A match keeps its slot and its key. Without a match a
slot is acquired; if there is none the step is refused and nothing was written. -/
def insertWith (less : α → α → Bool) (key : α) (value : β) :
    (limit : Nat) → (t : Option Handle) → PoolM α β (Handle × Option β)
  | _, none => do
    match ← Pool.acquire key value with
    | some x => return (x, none)
    | none => throw (.refused (.exhausted (← get).capacity))
  | 0, some _ => throw (.fault .endlessPath)
  | limit + 1, some x => do
    let n ← Pool.node x
    match turn less key n.key with
    | none =>
      Pool.setValue x value
      return (x, some n.value)
    | some s =>
      let (c, old) ← insertWith less key value limit (n.child s)
      Pool.setChild x s (some c)
      return (← bal x, old)

/-- Detach the leftmost node of the subtree at `x`. The answer is the link to
what remains and the handle of the detached node, which keeps its slot. -/
def removeMinWith : (limit : Nat) → (x : Handle) → PoolM α β (Option Handle × Handle)
  | 0, _ => throw (.fault .endlessPath)
  | limit + 1, x => do
    let n ← Pool.node x
    match n.left with
    | none => return (n.right, x)
    | some l =>
      let (l, least) ← removeMinWith limit l
      Pool.setChild x .left l
      return (some (← bal x), least)

/-- The link to what takes the place of a node with the links `l` and `r`: its
in-order successor, relinked above the rest, or `l` when there is none. -/
def mergeWith (limit : Nat) (l r : Option Handle) : PoolM α β (Option Handle) := do
  match r with
  | none => return l
  | some r =>
    let (r, least) ← removeMinWith bal limit r
    Pool.update least ({ · with left := l, right := r })
    return some (← bal least)

/-- Remove the node where a descent for `probe` ends, and answer its entry. Its
own slot is the one that is released. -/
def removeWith (less : α → α → Bool) (probe : α) :
    (limit : Nat) → (t : Option Handle) → PoolM α β (Option Handle × Option (α × β))
  | _, none => return (none, none)
  | 0, some _ => throw (.fault .endlessPath)
  | limit + 1, some x => do
    let n ← Pool.node x
    match turn less probe n.key with
    | none =>
      let rest ← mergeWith bal limit n.left n.right
      return (rest, some (← Pool.release x))
    | some s =>
      let (c, removed) ← removeWith less probe limit (n.child s)
      Pool.setChild x s c
      return (some (← bal x), removed)

end With

/-! ## The updates -/

/-- Bind a key below a link. -/
def insert (less : α → α → Bool) (key : α) (value : β) (limit : Nat) (t : Option Handle) :
    PoolM α β (Handle × Option β) :=
  insertWith balance less key value limit t

/-- Detach the leftmost node below a handle. -/
def removeMin (limit : Nat) (x : Handle) : PoolM α β (Option Handle × Handle) :=
  removeMinWith balance limit x

/-- Put the successor of a node in its place. -/
def merge (limit : Nat) (l r : Option Handle) : PoolM α β (Option Handle) :=
  mergeWith balance limit l r

/-- Remove a key below a link. -/
def remove (less : α → α → Bool) (probe : α) (limit : Nat) (t : Option Handle) :
    PoolM α β (Option Handle × Option (α × β)) :=
  removeWith balance less probe limit t

/-- Release every node below a link, each one after all nodes below it. -/
def releaseAll : (limit : Nat) → (t : Option Handle) → PoolM α β Unit
  | _, none => return ()
  | 0, some _ => throw (.fault .endlessPath)
  | limit + 1, some x => do
    let n ← Pool.node x
    releaseAll limit n.left
    releaseAll limit n.right
    discard (Pool.release x)

end BoundedMap.Subtree
