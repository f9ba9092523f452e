import BoundedMap.Failure
/-!
# Node pools

A pool is a fixed array of slots. A slot either holds a node or is free, and
then holds only the link of the free list, which is threaded through all free
slots. `acquire` pops the head of that list and builds a childless node there;
`release` takes the node out of its slot and pushes the slot.

The pool knows nothing of the tree that its nodes form. Reading is
`Pool.read`; everything that writes is a step in `PoolM`. A step that fails
leaves the pool as it found it.
-/

namespace BoundedMap

/-- An entry together with its place in a tree: the links to its two children
and the height of the subtree that it heads. -/
structure Node (α β : Type) where
  key : α
  value : β
  left : Option Handle
  right : Option Handle
  height : Nat
  deriving DecidableEq

namespace Node

variable {α β : Type}

/-- A node without children. -/
def leaf (key : α) (value : β) : Node α β :=
  ⟨key, value, none, none, 1⟩

/-- The link on one side. -/
def child (n : Node α β) : Side → Option Handle
  | .left => n.left
  | .right => n.right

/-- The node with the link on one side replaced. -/
def withChild (n : Node α β) (s : Side) (c : Option Handle) : Node α β :=
  match s with
  | .left => { n with left := c }
  | .right => { n with right := c }

@[simp] theorem child_withChild (n : Node α β) (s : Side) (c : Option Handle) :
    (n.withChild s c).child s = c := by
  cases s <;> rfl

@[simp] theorem child_other_withChild (n : Node α β) (s : Side) (c : Option Handle) :
    (n.withChild s c).child s.other = n.child s.other := by
  cases s <;> rfl

@[simp] theorem key_withChild (n : Node α β) (s : Side) (c : Option Handle) :
    (n.withChild s c).key = n.key := by
  cases s <;> rfl

@[simp] theorem value_withChild (n : Node α β) (s : Side) (c : Option Handle) :
    (n.withChild s c).value = n.value := by
  cases s <;> rfl

@[simp] theorem height_withChild (n : Node α β) (s : Side) (c : Option Handle) :
    (n.withChild s c).height = n.height := by
  cases s <;> rfl

end Node

/-- One place of a pool. A free slot carries only the free list's link, an
occupied slot only its node. -/
inductive Slot (α β : Type)
  | free (next : Option Handle)
  | occupied (node : Node α β)
  deriving DecidableEq

/-- The node in an occupied slot. -/
def Slot.node? {α β : Type} : Slot α β → Option (Node α β)
  | free _ => none
  | occupied n => some n

/-- A fixed number of slots, the head of the free list that runs through them,
and the number of slots in use. -/
structure Pool (α β : Type) where
  slots : Array (Slot α β)
  free : Option Handle
  live : Nat
  deriving DecidableEq

/-- A step that may write to a pool. It ends with an answer or with a failure,
and in both cases with the pool that it leaves behind. -/
abbrev PoolM (α β : Type) :=
  EStateM Failure (Pool α β)

/-- As many slots as 32-bit handles can tell apart, less one. -/
def maxCapacity : Nat :=
  4294967295

/-- What memory answers when so many slots are asked of it: nothing if it has them, and otherwise
why it has not. -/
abbrev Memory :=
  Nat → Option AllocationCause

/-- The memory that is assumed where none is named. It has all slots that are asked for. -/
def Memory.ample : Memory :=
  fun _ => none

namespace Pool

variable {α β : Type}

/-- The number of slots, fixed for the life of the pool. -/
def capacity (p : Pool α β) : Nat :=
  p.slots.size

/-- A pool whose slots are all free and are handed out in the order of their
indices. The capacity must not exceed `maxCapacity`. -/
def fresh (capacity : Nat) : Pool α β where
  slots := Array.ofFn fun i : Fin capacity =>
    .free (if i.val + 1 < capacity then some (.ofIndex (i.val + 1)) else none)
  free := if 0 < capacity then some (.ofIndex 0) else none
  live := 0

/-- A fresh pool, unless handles cannot name that many slots or memory does not have them. -/
def allocateFrom (memory : Memory) (capacity : Nat) : Except Refusal (Pool α β) :=
  if capacity > maxCapacity then .error (.capacityOverflow capacity maxCapacity)
  else
    match memory capacity with
    | some cause => .error (.allocation cause)
    | none => .ok (fresh capacity)

/-- A fresh pool where memory is ample. -/
def allocate (capacity : Nat) : Except Refusal (Pool α β) :=
  allocateFrom .ample capacity

/-- The slot that a handle names. -/
def slot (p : Pool α β) (h : Handle) : Except Fault (Slot α β) :=
  match p.slots[h.index]? with
  | some s => .ok s
  | none => .error (.outOfBounds p.capacity h.index)

/-- The node that a handle names. -/
def read (p : Pool α β) (h : Handle) : Except Fault (Node α β) :=
  match p.slot h with
  | .ok (.occupied n) => .ok n
  | .ok (.free _) => .error (.freeSlot h)
  | .error what => .error what

/-- The pool with one slot overwritten; a handle out of range changes nothing. -/
def put (p : Pool α β) (h : Handle) (s : Slot α β) : Pool α β :=
  { p with slots := p.slots.setIfInBounds h.index s }

/-! ## Steps -/

/-- The node that a handle names, as a step. -/
def node (h : Handle) : PoolM α β (Node α β) := fun p =>
  match p.read h with
  | .ok n => .ok n p
  | .error what => .error (.fault what) p

/-- Change the node that a handle names. -/
def update (h : Handle) (change : Node α β → Node α β) : PoolM α β Unit := fun p =>
  match p.read h with
  | .ok n => .ok () (p.put h (.occupied (change n)))
  | .error what => .error (.fault what) p

/-- Link the node `h` to `c` on side `s`. -/
def setChild (h : Handle) (s : Side) (c : Option Handle) : PoolM α β Unit :=
  update h (·.withChild s c)

/-- Record a height in the node `h`. -/
def setHeight (h : Handle) (height : Nat) : PoolM α β Unit :=
  update h ({ · with height })

/-- Replace the value in the node `h`. -/
def setValue (h : Handle) (value : β) : PoolM α β Unit :=
  update h ({ · with value })

/-- Take the head of the free list and build a childless node in it. The
answer is `none` when every slot is in use. -/
def acquire (key : α) (value : β) : PoolM α β (Option Handle) := fun p =>
  match p.free with
  | none => .ok none p
  | some h =>
    match p.slot h with
    | .error what => .error (.fault what) p
    | .ok (.occupied _) => .error (.fault (.liveFreeHead h)) p
    | .ok (.free next) =>
      match countUp p.live with
      | .error what => .error (.fault what) p
      | .ok live =>
        .ok (some h) { p.put h (.occupied (.leaf key value)) with free := next, live }

/-- Take the entry out of a live slot and push the slot onto the free list. -/
def release (h : Handle) : PoolM α β (α × β) := fun p =>
  match p.slot h with
  | .error what => .error (.fault what) p
  | .ok (.free _) => .error (.fault (.releaseOfFree h)) p
  | .ok (.occupied n) =>
    match countDown p.live with
    | .error what => .error (.fault what) p
    | .ok live =>
      .ok (n.key, n.value) { p.put h (.free p.free) with free := some h, live }

/-! ## What a step does -/

theorem node_of_read {p : Pool α β} {h : Handle} {n : Node α β} (live : p.read h = .ok n) :
    node h p = .ok n p := by
  simp [node, live]

theorem update_of_read {p : Pool α β} {h : Handle} {n : Node α β} (live : p.read h = .ok n)
    (change : Node α β → Node α β) :
    update h change p = .ok () (p.put h (.occupied (change n))) := by
  simp [update, live]

theorem acquire_of_empty {p : Pool α β} (key : α) (value : β) (none_free : p.free = none) :
    acquire key value p = .ok none p := by
  simp [acquire, none_free]

/-! ## What a write changes -/

@[simp] theorem capacity_put (p : Pool α β) (h : Handle) (s : Slot α β) :
    (p.put h s).capacity = p.capacity :=
  Array.size_setIfInBounds

@[simp] theorem free_put (p : Pool α β) (h : Handle) (s : Slot α β) :
    (p.put h s).free = p.free :=
  rfl

@[simp] theorem live_put (p : Pool α β) (h : Handle) (s : Slot α β) :
    (p.put h s).live = p.live :=
  rfl

@[simp] theorem capacity_fresh (capacity : Nat) :
    (fresh capacity : Pool α β).capacity = capacity :=
  Array.size_ofFn

theorem slot_eq_ok_iff {p : Pool α β} {h : Handle} {s : Slot α β} :
    p.slot h = .ok s ↔ p.slots[h.index]? = some s := by
  cases found : p.slots[h.index]? <;> simp [slot, found]

theorem read_eq_ok_iff {p : Pool α β} {h : Handle} {n : Node α β} :
    p.read h = .ok n ↔ p.slot h = .ok (.occupied n) := by
  unfold read
  split <;> simp_all

/-- A slot that is written holds what was written. -/
theorem slot_put_self {p : Pool α β} {h : Handle} (s : Slot α β)
    (inRange : h.index < p.capacity) : (p.put h s).slot h = .ok s := by
  have inRange' : h.index < p.slots.size := inRange
  simp [slot_eq_ok_iff, put, inRange']

/-- All other slots stay as they were. -/
theorem slot_put_of_ne {p : Pool α β} {g h : Handle} (s : Slot α β) (differ : g ≠ h) :
    (p.put h s).slot g = p.slot g := by
  have differ' : h.index ≠ g.index := fun same => differ (Handle.index_inj.1 same.symm)
  simp [slot, put, capacity, Array.getElem?_setIfInBounds_ne differ']

theorem index_lt_of_read {p : Pool α β} {h : Handle} {n : Node α β}
    (live : p.read h = .ok n) : h.index < p.capacity :=
  (Array.getElem?_eq_some_iff.1 (slot_eq_ok_iff.1 (read_eq_ok_iff.1 live))).1

/-- A live slot that is given another node holds that node. -/
theorem read_put_self {p : Pool α β} {h : Handle} {n : Node α β} (live : p.read h = .ok n)
    (m : Node α β) : (p.put h (.occupied m)).read h = .ok m :=
  read_eq_ok_iff.2 (slot_put_self _ (index_lt_of_read live))

theorem read_put_of_ne {p : Pool α β} {g h : Handle} (s : Slot α β) (differ : g ≠ h) :
    (p.put h s).read g = p.read g := by
  simp [read, slot_put_of_ne s differ]

end Pool

end BoundedMap
