import BoundedMap.Pool.Basic
/-!
# The free list, and the self-check of a pool

`freeList` is the view of a pool's free slots: the handles met on the way from
the head of the list. `check` verifies that every slot is either live or on
the free list exactly once, and names the first violation that it finds. It
ends on every pool, however its slots are linked.
-/

namespace BoundedMap.Pool

variable {α β : Type}

/-! ## Views -/

/-- The free slots met from `t` on, at most `limit` of them. The walk ends at
the end of the list and at a handle that names no free slot. -/
def freeFrom (p : Pool α β) : (limit : Nat) → (t : Option Handle) → List Handle
  | 0, _ => []
  | _, none => []
  | limit + 1, some h =>
    match p.slot h with
    | .ok (.free next) => h :: freeFrom p limit next
    | _ => []

/-- The free slots in the order in which they will be handed out. -/
def freeList (p : Pool α β) : List Handle :=
  p.freeFrom p.capacity p.free

/-- How many slots hold a node. -/
def occupied (p : Pool α β) : Nat :=
  p.slots.countP fun s => s.node?.isSome

/-! ## The self-check -/

/-- What can be wrong with a pool. -/
inductive Violation
  /-- A handle on the free list leads out of the pool. -/
  | fault (what : Fault)
  | listedTwice (h : Handle)
  | listedLive (h : Handle)
  | wrongLiveCount (recorded counted : Nat)
  | unaccounted (free live capacity : Nat)
  deriving DecidableEq, Repr

/-- The wording of the report. -/
def Violation.message : Violation → String
  | fault what => what.message
  | listedTwice h => s!"slot {h.text} is on the free list twice"
  | listedLive h => s!"live slot {h.text} is on the free list"
  | wrongLiveCount recorded counted => s!"live count is wrong {recorded} vs {counted}"
  | unaccounted free live capacity =>
    s!"{free} free + {live} live slots don't account for capacity {capacity}"

/-- Follow the free list from `t`, marking every slot, and count its slots.
The first slot that is met again ends the walk, so `limit` need not exceed the
capacity by more than one. -/
def checkFree (p : Pool α β) :
    (limit : Nat) → (t : Option Handle) → (marks : Array Bool) → (count : Nat) →
      Except Violation Nat
  | _, none, _, count => .ok count
  | 0, some _, _, _ => .error (.fault .endlessPath)
  | limit + 1, some h, marks, count =>
    match marks[h.index]? with
    | none => .error (.fault (.outOfBounds p.capacity h.index))
    | some true => .error (.listedTwice h)
    | some false =>
      match p.slot h with
      | .error what => .error (.fault what)
      | .ok (.occupied _) => .error (.listedLive h)
      | .ok (.free next) =>
        checkFree p limit next (marks.setIfInBounds h.index true) (count + 1)

/-- Verify that the free list and the live slots account for every slot once. -/
def check (p : Pool α β) : Except Violation Unit := do
  let free ← p.checkFree (p.capacity + 1) p.free (Array.replicate p.capacity false) 0
  if p.occupied ≠ p.live then
    throw (.wrongLiveCount p.live p.occupied)
  if free + p.live ≠ p.capacity then
    throw (.unaccounted free p.live p.capacity)

end BoundedMap.Pool
