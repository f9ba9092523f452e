import BoundedMap.Handle
import BoundedMap.Side
/-!
# Refusals and faults

Two kinds of failure are kept apart.

* A `Refusal` is an answer: the request cannot be met, and the caller is told
  why. Nothing has changed.
* A `Fault` is a broken promise: the caller named a slot that is not live, or
  the nodes do not form the tree that every operation maintains. A fault stops
  the computation where it stands.

`Failure` joins the two, because a step that writes to a pool may end in
either. Each cause has its own constructor; the wording is in `message` only.
-/

namespace BoundedMap

/-- Why storage could not be obtained. -/
inductive AllocationCause
  /-- More bytes were asked for than can be addressed. -/
  | capacityOverflow
  deriving DecidableEq, Repr

/-- Everything that can go wrong when a map is built or grows. A missing key is
no refusal: look-ups and removals answer that there is none. -/
inductive Refusal
  /-- Every slot holds a live entry. -/
  | exhausted (capacity : Nat)
  /-- Handles have 32 bits, so a pool cannot have that many slots. -/
  | capacityOverflow (requested max : Nat)
  /-- The slots could not be allocated. -/
  | allocation (cause : AllocationCause)
  deriving DecidableEq, Repr

namespace Refusal

/-- What the caller is told. -/
def message : Refusal → String
  | exhausted capacity => s!"node pool exhausted, all {capacity} slots are in use"
  | capacityOverflow requested max =>
    s!"capacity {requested} exceeds the maximum pool size of {max}"
  | allocation _ => "failed to allocate the node pool"

/-- The structural text of a refusal, its fields spelled out. -/
def describe : Refusal → String
  | exhausted capacity => s!"Exhausted \x7b capacity: {capacity} \x7d"
  | capacityOverflow requested max =>
    s!"CapacityOverflow \x7b requested: {requested}, max: {max} \x7d"
  | allocation .capacityOverflow =>
    "Alloc(TryReserveError \x7b kind: CapacityOverflow \x7d)"

/-- The failure underneath, for a refusal that only passes one on. -/
def source? : Refusal → Option AllocationCause
  | allocation cause => some cause
  | _ => none

end Refusal

/-- The ways in which the promises behind an operation can turn out broken. -/
inductive Fault
  /-- A handle points past the last slot. -/
  | outOfBounds (size index : Nat)
  /-- A node was expected in a slot that is free. -/
  | freeSlot (h : Handle)
  /-- A slot was to be released twice. -/
  | releaseOfFree (h : Handle)
  /-- The free list starts at a slot that holds a node. -/
  | liveFreeHead (h : Handle)
  /-- A child was to be lifted over its parent and is not there. -/
  | missingChild (side : Side) (parent : Handle)
  /-- A node is too high for its 16-bit height. -/
  | heightOverflow
  /-- A 64-bit counter has no successor. -/
  | counterOverflow
  /-- A counter has no predecessor. -/
  | counterUnderflow
  /-- An iterator's stack of pending nodes is full. -/
  | stackFull
  /-- A path has more nodes than the pool has slots, so it runs in a circle. -/
  | endlessPath
  /-- An entry was demanded whose key is not stored. -/
  | missingKey
  deriving DecidableEq, Repr

namespace Fault

/-- The opening words of the report of a state that no run leads to. -/
def unreachableText : String :=
  "internal error: entered unreachable code"

/-- The text of the report. -/
def message : Fault → String
  | outOfBounds size index =>
    s!"index out of bounds: the len is {size} but the index is {index}"
  | freeSlot h => s!"{unreachableText}: handle {h.text} refers to a free slot"
  | releaseOfFree h => s!"{unreachableText}: release of free slot {h.text}"
  | liveFreeHead h => s!"{unreachableText}: free list head {h.text} is a live slot"
  | missingChild .left h =>
    s!"{unreachableText}: right rotation of {h.text} without a left child"
  | missingChild .right h =>
    s!"{unreachableText}: left rotation of {h.text} without a right child"
  | heightOverflow => "attempt to add with overflow"
  | counterOverflow => "attempt to add with overflow"
  | counterUnderflow => "attempt to subtract with overflow"
  | stackFull => "the stack of pending nodes is full"
  | endlessPath => "the links run in a circle"
  | missingKey => "element not found for key"

end Fault

/-- How a step that may write can end early. -/
inductive Failure
  | refused (why : Refusal)
  | fault (what : Fault)
  deriving DecidableEq, Repr

namespace Failure

/-- The wording of the failure, whichever kind it is. -/
def message : Failure → String
  | refused why => why.message
  | fault what => what.message

end Failure

/-- A step that only reads can take part in one that writes: its fault becomes
a failure and the state stays as it is. -/
instance {σ : Type} : MonadLift (Except Fault) (EStateM Failure σ) where
  monadLift step := fun s =>
    match step with
    | .ok a => .ok a s
    | .error what => .error (.fault what) s

@[simp] theorem lift_ok {σ γ : Type} (a : γ) (s : σ) :
    (liftM (Except.ok a : Except Fault γ) : EStateM Failure σ γ) s = .ok a s :=
  rfl

@[simp] theorem lift_error {σ γ : Type} (what : Fault) (s : σ) :
    (liftM (Except.error what : Except Fault γ) : EStateM Failure σ γ) s
      = .error (.fault what) s :=
  rfl

/-! ## Counters -/

/-- The greatest value of a counter, which has 64 bits. -/
def maxCount : Nat :=
  18446744073709551615

/-- One more than `n`, if a counter can hold it. -/
def countUp (n : Nat) : Except Fault Nat :=
  if n < maxCount then .ok (n + 1) else .error .counterOverflow

/-- One less than `n`, if there is one. -/
def countDown : Nat → Except Fault Nat
  | 0 => .error .counterUnderflow
  | n + 1 => .ok n

theorem countUp_of_lt {n : Nat} (small : n < maxCount) : countUp n = .ok (n + 1) :=
  if_pos small

@[simp] theorem countDown_succ (n : Nat) : countDown (n + 1) = .ok n :=
  rfl

end BoundedMap
