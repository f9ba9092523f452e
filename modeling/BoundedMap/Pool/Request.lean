import BoundedMap.Pool.Check
/-!
# Requests to a pool, and what they mean

`Request` lists the accesses to a pool, by any handle, live or not. `Stack` is
what a pool stands for: a stack of free handles and, for each live handle, its
node. It answers the same requests without links from slot to slot and without
counting.
-/

namespace BoundedMap.Pool

variable {α β : Type}

/-- The accesses to a pool. -/
inductive Request (α β : Type)
  | acquire (key : α) (value : β)
  | release (h : Handle)
  | read (h : Handle)
  | replace (h : Handle) (value : β)
  | link (h : Handle) (left right : Option Handle)
  | setHeight (h : Handle) (height : Nat)
  deriving DecidableEq

/-- What a pool answers. -/
inductive Answer (α β : Type)
  | slot (h : Option Handle)
  | entry (key : α) (value : β)
  | node (n : Node α β)
  | value (old : β)
  | done
  deriving DecidableEq

/-- Answer one request. -/
def perform : Request α β → PoolM α β (Answer α β)
  | .acquire key value => return .slot (← acquire key value)
  | .release h => do
    let (key, value) ← release h
    return .entry key value
  | .read h => return .node (← node h)
  | .replace h value => do
    let n ← node h
    setValue h value
    return .value n.value
  | .link h left right => do
    update h ({ · with left, right })
    return .done
  | .setHeight h height => do
    setHeight h height
    return .done

/-- The answer to one request, or what was wrong with it, and the pool that is left. -/
def attempt (request : Request α β) (p : Pool α β) : Except Failure (Answer α β) × Pool α β :=
  match perform request p with
  | .ok answer q => (.ok answer, q)
  | .error e q => (.error e, q)

/-- Answer requests one after another. A failure is an answer like any other. -/
def run : List (Request α β) → Pool α β → List (Except Failure (Answer α β)) × Pool α β
  | [], p => ([], p)
  | request :: rest, p =>
    ((attempt request p).1 :: (run rest (attempt request p).2).1,
      (run rest (attempt request p).2).2)

/-- The handle that a request names. -/
def Request.target : Request α β → Option Handle
  | acquire _ _ => none
  | release h => some h
  | read h => some h
  | replace h _ => some h
  | link h _ _ => some h
  | setHeight h _ => some h

/-! ## What a pool stands for -/

/-- A stack of free handles and the nodes of the live ones. -/
structure Stack (α β : Type) where
  capacity : Nat
  free : List Handle
  live : Handle → Option (Node α β)

namespace Stack

/-- All handles free, the least on top. -/
def fresh (capacity : Nat) : Stack α β where
  capacity
  free := (List.range capacity).map .ofIndex
  live _ := none

/-- The stack with another node, or none, for one handle. -/
def set (s : Stack α β) (h : Handle) (n : Option (Node α β)) : Stack α β :=
  { s with live := fun g => if g = h then n else s.live g }

/-- What is wrong with a handle that is not live. -/
def absent (s : Stack α β) (h : Handle) (what : Handle → Fault) : Fault :=
  if h.index < s.capacity then what h else .outOfBounds s.capacity h.index

/-- Answer one request. A fault leaves everything as it is. -/
def perform (s : Stack α β) : Request α β → Except Fault (Answer α β) × Stack α β
  | .acquire key value =>
    match s.free with
    | [] => (.ok (.slot none), s)
    | h :: rest =>
      (.ok (.slot (some h)), { s.set h (some (.leaf key value)) with free := rest })
  | .release h =>
    match s.live h with
    | none => (.error (s.absent h .releaseOfFree), s)
    | some n => (.ok (.entry n.key n.value), { s.set h none with free := h :: s.free })
  | .read h =>
    match s.live h with
    | none => (.error (s.absent h .freeSlot), s)
    | some n => (.ok (.node n), s)
  | .replace h value =>
    match s.live h with
    | none => (.error (s.absent h .freeSlot), s)
    | some n => (.ok (.value n.value), s.set h (some { n with value }))
  | .link h left right =>
    match s.live h with
    | none => (.error (s.absent h .freeSlot), s)
    | some n => (.ok .done, s.set h (some { n with left, right }))
  | .setHeight h height =>
    match s.live h with
    | none => (.error (s.absent h .freeSlot), s)
    | some n => (.ok .done, s.set h (some { n with height }))

/-- Answer requests one after another. -/
def run (s : Stack α β) : List (Request α β) → List (Except Fault (Answer α β)) × Stack α β
  | [] => ([], s)
  | request :: rest =>
    ((s.perform request).1 :: ((s.perform request).2.run rest).1,
      ((s.perform request).2.run rest).2)

/-- The live handles, in the order of their indices. -/
def taken (s : Stack α β) : List Handle :=
  ((List.range s.capacity).map .ofIndex).filter fun h => (s.live h).isSome

end Stack

/-! ## Well-formed pools -/

/-- The free list from a link on is exactly this list. -/
inductive Lists (p : Pool α β) : Option Handle → List Handle → Prop
  | nil : Lists p none []
  | cons {h : Handle} {next : Option Handle} {rest : List Handle} :
    p.slot h = .ok (.free next) → Lists p next rest → Lists p (some h) (h :: rest)

/-- Every slot is either live or on the free list, exactly once, and the live
ones are counted. -/
structure WellFormed (p : Pool α β) : Prop where
  capacity_le : p.capacity ≤ maxCapacity
  live_eq : p.live = p.occupied
  free : ∃ hs, Lists p p.free hs ∧ hs.Nodup ∧
    ∀ h, h ∈ hs ↔ ∃ next, p.slot h = .ok (.free next)

/-- A link has one free list. -/
theorem Lists.unique {p : Pool α β} {t : Option Handle} {a b : List Handle}
    (ha : Lists p t a) (hb : Lists p t b) : a = b := by
  induction ha generalizing b with
  | nil => cases hb; rfl
  | cons found _ ih =>
    cases hb with
    | cons found' rest =>
      cases found.symm.trans found'
      rw [ih rest]

end BoundedMap.Pool
