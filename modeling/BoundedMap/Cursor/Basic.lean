import BoundedMap.Pool.Basic
/-!
# Double-ended iteration

A cursor walks the entries of a tree from both ends. For each end it keeps a
stack of nodes that are still to be answered together with everything beyond
them on the far side; the two stacks know nothing of each other, and what
stops the walk is the count of entries that remain.

The stacks have room for `maxDepth` nodes. A step that would need more is a
fault. Once a cursor answers `none` from one end it does so from both.
-/

namespace BoundedMap

/-- A position in the middle of a walk over the entries of a pool's tree. -/
structure Cursor (α β : Type) where
  pool : Pool α β
  front : List Handle
  back : List Handle
  remaining : Nat

namespace Cursor

variable {α β : Type}

/-- The room of each stack of pending nodes. -/
def maxDepth : Nat :=
  64

/-- The nodes that are pending at one end, the next one first. -/
def pending (c : Cursor α β) : Side → List Handle
  | .left => c.front
  | .right => c.back

/-- The cursor after one entry was taken at the end `s`. -/
def advance (c : Cursor α β) (s : Side) (pending : List Handle) : Cursor α β :=
  match s with
  | .left => { c with front := pending, remaining := c.remaining - 1 }
  | .right => { c with back := pending, remaining := c.remaining - 1 }

/-- Push the nodes on the way from a link that always turns to side `s`. At
most `room` more nodes fit. -/
def pushSpine (p : Pool α β) (s : Side) :
    (room : Nat) → Option Handle → List Handle → Except Fault (List Handle)
  | _, none, pending => .ok pending
  | 0, some _, _ => .error .stackFull
  | room + 1, some x, pending =>
    match p.read x with
    | .error what => .error what
    | .ok n => pushSpine p s room (n.child s) (x :: pending)

/-- Push a spine onto a stack that already holds some nodes. -/
def push (p : Pool α β) (s : Side) (t : Option Handle) (pending : List Handle) :
    Except Fault (List Handle) :=
  pushSpine p s (maxDepth - pending.length) t pending

/-- The cursor before all entries of the tree at `root`, of which there are
`len`. -/
def start (pool : Pool α β) (root : Option Handle) (len : Nat) :
    Except Fault (Cursor α β) := do
  let front ← push pool .left root []
  let back ← push pool .right root []
  return { pool, front, back, remaining := len }

/-- Take the next entry at the end `s`. -/
def pull (s : Side) (c : Cursor α β) : Except Fault (Option (α × β) × Cursor α β) :=
  if c.remaining = 0 then .ok (none, c)
  else
    match c.pending s with
    | [] => .ok (none, c)
    | x :: rest =>
      match c.pool.read x with
      | .error what => .error what
      | .ok n =>
        match push c.pool s (n.child s.other) rest with
        | .error what => .error what
        | .ok rest => .ok (some (n.key, n.value), c.advance s rest)

/-- Pass over `n` entries at the end `s`, then take one. A walk that runs out
on the way stays where it ran out. -/
def nth (s : Side) : (n : Nat) → Cursor α β → Except Fault (Option (α × β) × Cursor α β)
  | 0, c => c.pull s
  | n + 1, c =>
    match c.pull s with
    | .ok (some _, c) => nth s n c
    | ended => ended

/-- At most `limit` more entries, taken at the end `s`. -/
def take (s : Side) : (limit : Nat) → Cursor α β → Except Fault (List (α × β))
  | 0, _ => .ok []
  | limit + 1, c =>
    match c.pull s with
    | .error what => .error what
    | .ok (none, _) => .ok []
    | .ok (some e, c) =>
      match take s limit c with
      | .error what => .error what
      | .ok rest => .ok (e :: rest)

/-- All entries that remain, in the order in which the end `s` answers them. -/
def drain (s : Side) (c : Cursor α β) : Except Fault (List (α × β)) :=
  take s c.remaining c

/-- How many entries remain, counted by walking over them. -/
def count (c : Cursor α β) : Except Fault Nat :=
  return (← c.drain .left).length

/-- The last entry that a walk from the front answers. -/
def last? (c : Cursor α β) : Except Fault (Option (α × β)) :=
  return (← c.drain .left).getLast?

/-- Bounds on the number of entries that remain: both are that number. -/
def sizeHint (c : Cursor α β) : Nat × Nat :=
  (c.remaining, c.remaining)

/-- Nothing remains after the count has reached zero, at either end. -/
theorem pull_of_remaining_eq_zero {c : Cursor α β} (s : Side) (ended : c.remaining = 0) :
    c.pull s = .ok (none, c) := by
  simp [pull, ended]

end Cursor

end BoundedMap
