/-!
# Handles

A handle names one slot of a node pool. It is the index of the slot kept in 32
bits, which is what bounds the capacity of a pool.
-/

namespace BoundedMap

/-- The name of one slot of a pool: its index as a 32-bit word. -/
structure Handle where
  val : UInt32
  deriving DecidableEq, Repr

namespace Handle

/-- The position of the slot in its pool. -/
def index (h : Handle) : Nat :=
  h.val.toNat

/-- The handle of the slot at position `i`; exact for every `i` below `2 ^ 32`. -/
def ofIndex (i : Nat) : Handle :=
  ⟨i.toUInt32⟩

/-- How a handle is written in a message. -/
def text (h : Handle) : String :=
  s!"Handle({h.index})"

theorem index_lt (h : Handle) : h.index < 4294967296 :=
  h.val.toNat_lt

theorem index_ofIndex {i : Nat} (small : i < 4294967296) : (ofIndex i).index = i :=
  Nat.mod_eq_of_lt small

theorem index_inj {g h : Handle} : g.index = h.index ↔ g = h := by
  constructor
  · intro same
    cases g
    cases h
    exact congrArg Handle.mk (UInt32.toNat_inj.1 same)
  · exact fun same => same ▸ rfl

@[simp] theorem ofIndex_index (h : Handle) : ofIndex h.index = h :=
  index_inj.1 (index_ofIndex h.index_lt)

end Handle

end BoundedMap
