import BoundedMap.Cursor.Basic
import BoundedMap.Subtree.Search
import BoundedMap.Subtree.Update
/-!
# Ordered maps of fixed capacity

A map owns a pool with all the nodes it will ever use, the link to the root of
the tree that they form, and the number of its entries. Keys are ordered by a
predicate `less`; two keys of which neither is less than the other are the same
key. No law is assumed of the predicate: the definitions make sense for every
one, and the theorems say what they need.

What only reads is a function of the map; what writes is a step in `MapM`. A
full map refuses a new key and stays exactly as it was.
-/

namespace BoundedMap

/-- An ordered map whose entries live in the nodes of a pool. -/
structure Map (α β : Type) where
  less : α → α → Bool
  root : Option Handle
  pool : Pool α β
  len : Nat

/-- A step that may write to a map. It ends with an answer or with a failure,
and in both cases with the map that it leaves behind. -/
abbrev MapM (α β : Type) :=
  EStateM Failure (Map α β)

namespace Map

variable {α β γ : Type}

/-- The number of slots of a map for which none was asked. -/
def defaultCapacity : Nat :=
  32

/-- The map without entries over a fresh pool. -/
def ofPool (less : α → α → Bool) (pool : Pool α β) : Map α β :=
  { less, root := none, pool, len := 0 }

/-- An empty map with room for `capacity` entries, if its pool can be had. -/
def withCapacityFrom (memory : Memory) (less : α → α → Bool) (capacity : Nat) :
    Except Refusal (Map α β) :=
  match Pool.allocateFrom memory capacity with
  | .ok pool => .ok (ofPool less pool)
  | .error why => .error why

/-- An empty map with room for `capacity` entries where memory is ample. -/
def withCapacity (less : α → α → Bool) (capacity : Nat) : Except Refusal (Map α β) :=
  withCapacityFrom .ample less capacity

/-- An empty map of the default capacity. -/
def empty (less : α → α → Bool) : Map α β :=
  ofPool less (Pool.fresh defaultCapacity)

/-! ## Reading -/

/-- How many entries the map can hold. -/
def capacity (m : Map α β) : Nat :=
  m.pool.capacity

/-- Whether the map has no entries. -/
def isEmpty (m : Map α β) : Bool :=
  m.len == 0

/-- Whether a new key would be refused. -/
def isFull (m : Map α β) : Bool :=
  m.len == m.capacity

/-- The height of the tree. -/
def height (m : Map α β) : Except Fault Nat :=
  match m.root with
  | none => .ok 0
  | some x => (·.height) <$> m.pool.read x

/-- The handle of the node whose key matches. -/
def locate (m : Map α β) (probe : α) : Except Fault (Option Handle) :=
  Subtree.locate m.pool m.less probe m.capacity m.root

/-- The stored key that matches and its value. -/
def lookup? (m : Map α β) (probe : α) : Except Fault (Option (α × β)) := do
  match ← m.locate probe with
  | none => return none
  | some x =>
    let n ← m.pool.read x
    return some (n.key, n.value)

/-- The value bound to a key. -/
def get? (m : Map α β) (probe : α) : Except Fault (Option β) :=
  return (← m.lookup? probe).map (·.2)

/-- Whether a key is bound. -/
def contains (m : Map α β) (probe : α) : Except Fault Bool :=
  return (← m.lookup? probe).isSome

/-- The value bound to a key that must be bound. -/
def demand (m : Map α β) (probe : α) : Except Fault β := do
  match ← m.get? probe with
  | some value => return value
  | none => throw .missingKey

/-- The entry at the end `s` of the order. -/
def outermost? (m : Map α β) (s : Side) : Except Fault (Option (α × β)) := do
  match m.root with
  | none => return none
  | some x =>
    let n ← Subtree.outermost m.pool s m.capacity x
    return some (n.key, n.value)

/-- The entry with the least key. -/
def first? (m : Map α β) : Except Fault (Option (α × β)) :=
  m.outermost? .left

/-- The entry with the greatest key. -/
def last? (m : Map α β) : Except Fault (Option (α × β)) :=
  m.outermost? .right

/-- A walk over the entries, not yet begun. -/
def cursor (m : Map α β) : Except Fault (Cursor α β) :=
  Cursor.start m.pool m.root m.len

/-- All entries, in ascending order. -/
def entries (m : Map α β) : Except Fault (List (α × β)) := do
  (← m.cursor).drain .left

/-- All entries, in descending order. -/
def entriesDown (m : Map α β) : Except Fault (List (α × β)) := do
  (← m.cursor).drain .right

/-- All keys, in ascending order. -/
def keys (m : Map α β) : Except Fault (List α) :=
  return (← m.entries).map (·.1)

/-- All values, in the order of their keys. -/
def values (m : Map α β) : Except Fault (List β) :=
  return (← m.entries).map (·.2)

/-- Pass the entries through `visit` one after another, in ascending order. -/
def inorder (m : Map α β) (visit : γ → α → β → γ) (start : γ) : Except Fault γ :=
  return (← m.entries).foldl (fun acc e => visit acc e.1 e.2) start

/-- Whether two maps hold equal entries in the same order. Capacities, orders
and the shapes of the trees do not matter. -/
def agrees [BEq α] [BEq β] (m n : Map α β) : Except Fault Bool := do
  if m.len == n.len then
    return (← m.entries) == (← n.entries)
  else
    return false

/-- The tree that the links spell out, labelled with slots. -/
def toTree (m : Map α β) : Except Fault (Tree Handle α β) :=
  Subtree.toTree m.pool m.capacity m.root

/-! ## Writing -/

/-- Run a step on the pool of a map. It is given the order, the root and the
greatest length of a path. -/
def onPool (step : (α → α → Bool) → Option Handle → Nat → PoolM α β γ) : MapM α β γ :=
  fun ⟨less, root, pool, len⟩ =>
    match step less root pool.capacity pool with
    | .ok a pool => .ok a ⟨less, root, pool, len⟩
    | .error e pool => .error e ⟨less, root, pool, len⟩

/-- Link the map to another root. -/
def setRoot (root : Option Handle) : MapM α β Unit :=
  modify ({ · with root })

/-- Change the number of entries. -/
def setLen (len : Nat) : MapM α β Unit :=
  modify ({ · with len })

/-- Bind `key` to `value` and answer the value that was replaced, if any. -/
def insert (key : α) (value : β) : MapM α β (Option β) := do
  let (root, old) ← onPool fun less root limit => Subtree.insert less key value limit root
  setRoot (some root)
  if old.isNone then
    setLen (← countUp (← get).len)
  return old

/-- Bind each key to its value in turn and stop at the first that is refused.
What was bound before stays. -/
def insertMany : List (α × β) → MapM α β Unit
  | [] => return ()
  | (key, value) :: rest => do
    discard (insert key value)
    insertMany rest

/-- Remove the binding of a key and answer the stored entry, if any. -/
def removeEntry (probe : α) : MapM α β (Option (α × β)) := do
  let (root, removed) ← onPool fun less root limit => Subtree.remove less probe limit root
  setRoot root
  if removed.isSome then
    setLen (← countDown (← get).len)
  return removed

/-- Remove the binding of a key and answer its value, if any. -/
def remove (probe : α) : MapM α β (Option β) :=
  return (← removeEntry probe).map (·.2)

/-- Write a value where a key is already bound and answer the old one. Nothing
is written when the key is not bound. -/
def replace (probe : α) (value : β) : MapM α β (Option β) := do
  match ← (← get).locate probe with
  | none => return none
  | some x =>
    onPool fun _ _ _ => do
      let n ← Pool.node x
      Pool.setValue x value
      return some n.value

/-- Remove every entry. All slots are free afterwards. -/
def clear : MapM α β Unit := do
  onPool fun _ root limit => Subtree.releaseAll limit root
  setRoot none
  setLen 0

end Map

end BoundedMap
