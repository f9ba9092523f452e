import Mathlib.Data.List.Nodup
import Mathlib.Data.List.Perm.Subperm
import BoundedMap.Proofs.Pool.Frame
/-!
# All slots of a pool

A pool whose capacity handles can name has one handle for every slot, those below the
capacity. Some of the slots hold nodes, which `occupied` counts, and the others are free
(`freeSlots`). A list of distinct free handles is a list of all of them as soon as its
length says so (`mem_of_length_add_occupied`): counting is enough.

The free list of a fresh pool goes through its slots in the order of their indices.
-/

namespace BoundedMap

namespace Handle

/-- The handles below a capacity are distinct. -/
theorem nodup_below {capacity : Nat} (small : capacity ≤ maxCapacity) :
    ((List.range capacity).map ofIndex).Nodup := by
  apply List.Nodup.map_on ?_ List.nodup_range
  intro i hi j hj same
  rw [List.mem_range] at hi hj
  rw [maxCapacity] at small
  rw [← index_ofIndex (i := i) (by omega), same, index_ofIndex (by omega)]

theorem mem_below {capacity : Nat} (small : capacity ≤ maxCapacity) {h : Handle} :
    h ∈ (List.range capacity).map ofIndex ↔ h.index < capacity := by
  rw [maxCapacity] at small
  constructor
  · intro member
    obtain ⟨i, hi, rfl⟩ := List.mem_map.1 member
    rw [List.mem_range] at hi
    rwa [index_ofIndex (by omega)]
  · intro inRange
    exact List.mem_map.2 ⟨h.index, List.mem_range.2 inRange, ofIndex_index h⟩

/-- Handles keep the indices below a capacity as they are. -/
theorem map_index_below {capacity : Nat} (small : capacity ≤ maxCapacity) :
    ((List.range capacity).map ofIndex).map index = List.range capacity := by
  have exact_index : ∀ i ∈ List.range capacity, (ofIndex i).index = id i := by
    intro i member
    rw [List.mem_range] at member
    rw [maxCapacity] at small
    exact index_ofIndex (by omega)
  rw [List.map_map]
  exact (List.map_congr_left exact_index).trans (List.map_id _)

end Handle

namespace Pool

variable {α β : Type} {p : Pool α β} {h : Handle} {hs : List Handle} {t : Option Handle}

/-! ## Live slots and free ones -/

/-- A slot in range that holds no node is free. -/
theorem free_iff : (∃ next, p.slot h = .ok (.free next)) ↔
    h.index < p.capacity ∧ ∀ n, p.read h ≠ .ok n := by
  constructor
  · rintro ⟨next, unused⟩
    exact ⟨index_lt_of_slot unused, fun n live => ne_of_read_of_slot live unused rfl⟩
  · rintro ⟨inRange, dead⟩
    obtain ⟨s, found⟩ := exists_slot inRange
    cases s with
    | free next => exact ⟨next, found⟩
    | occupied n => exact absurd (read_eq_ok_iff.2 found) (dead n)

/-- Whether a handle names a node. -/
def isLive (p : Pool α β) (h : Handle) : Bool :=
  (p.read h).isOk

theorem isLive_iff : p.isLive h = true ↔ ∃ n, p.read h = .ok n := by
  cases found : p.read h <;> simp [isLive, found, Except.isOk, Except.toBool]

/-- The handles of the free slots, in the order of their indices. -/
def freeSlots (p : Pool α β) : List Handle :=
  ((List.range p.capacity).map .ofIndex).filter fun h => !p.isLive h

theorem mem_freeSlots (small : p.capacity ≤ maxCapacity) :
    h ∈ p.freeSlots ↔ ∃ next, p.slot h = .ok (.free next) := by
  rw [freeSlots, List.mem_filter, Handle.mem_below small, free_iff, Bool.not_eq_true',
    ← Bool.not_eq_true, isLive_iff, not_exists]

theorem nodup_freeSlots (small : p.capacity ≤ maxCapacity) : p.freeSlots.Nodup :=
  (Handle.nodup_below small).filter _

/-- The number of occupied slots counts the live handles. -/
theorem occupied_eq_countP (small : p.capacity ≤ maxCapacity) :
    p.occupied = ((List.range p.capacity).map .ofIndex).countP p.isLive := by
  have contents : p.slots.toList.map (fun s => s.node?.isSome) =
      ((List.range p.capacity).map Handle.ofIndex).map p.isLive := by
    apply List.ext_getElem
    · simp [capacity]
    · intro i inSlots inHandles
      rw [List.length_map, Array.length_toList] at inSlots
      rw [maxCapacity, capacity] at small
      have index : (Handle.ofIndex i).index = i := Handle.index_ofIndex (by omega)
      have found : p.slot (.ofIndex i) = .ok p.slots[i] := by
        rw [slot_eq_ok_iff, index, Array.getElem?_eq_getElem inSlots]
      simp only [List.getElem_map, Array.getElem_toList, List.getElem_range, isLive, read, found]
      cases p.slots[i] <;> rfl
  rw [occupied, ← Array.countP_toList]
  have counted := congrArg (List.countP id) contents
  rwa [List.countP_map, List.countP_map] at counted

theorem length_freeSlots_add_occupied (small : p.capacity ≤ maxCapacity) :
    p.freeSlots.length + p.occupied = p.capacity := by
  have total := List.length_eq_countP_add_countP p.isLive
    (l := (List.range p.capacity).map Handle.ofIndex)
  rw [List.length_map, List.length_range, ← occupied_eq_countP small] at total
  rw [freeSlots, ← List.countP_eq_length_filter]
  simp only [Bool.not_eq_true, Bool.decide_eq_false] at total
  omega

/-- Distinct handles that are the free ones are as many as there are free slots. -/
theorem perm_freeSlots (small : p.capacity ≤ maxCapacity) (nodup : hs.Nodup)
    (all : ∀ h, h ∈ hs ↔ ∃ next, p.slot h = .ok (.free next)) : hs.Perm p.freeSlots :=
  (List.perm_ext_iff_of_nodup nodup (nodup_freeSlots small)).2 fun h =>
    (all h).trans (mem_freeSlots small).symm

/-- As many distinct free handles as there are free slots are all of them. -/
theorem mem_of_length_add_occupied (small : p.capacity ≤ maxCapacity) (nodup : hs.Nodup)
    (free : ∀ h ∈ hs, ∃ next, p.slot h = .ok (.free next))
    (enough : hs.length + p.occupied = p.capacity) {next : Option Handle}
    (unused : p.slot h = .ok (.free next)) : h ∈ hs := by
  have within : hs ⊆ p.freeSlots := fun g member => (mem_freeSlots small).2 (free g member)
  have counted := length_freeSlots_add_occupied small
  have all := (nodup.subperm within).perm_of_length_le (by omega)
  exact all.mem_iff.2 ((mem_freeSlots small).2 ⟨next, unused⟩)

/-- As many distinct live handles as there are occupied slots are all of them. -/
theorem mem_of_length_eq_occupied (small : p.capacity ≤ maxCapacity) (nodup : hs.Nodup)
    (live : ∀ h ∈ hs, ∃ n, p.read h = .ok n) (enough : hs.length = p.occupied) {n : Node α β}
    (found : p.read h = .ok n) : h ∈ hs := by
  have mem_iff : ∀ g, g ∈ ((List.range p.capacity).map Handle.ofIndex).filter p.isLive ↔
      ∃ n, p.read g = .ok n := by
    intro g
    rw [List.mem_filter, Handle.mem_below small, isLive_iff]
    exact ⟨And.right, fun ⟨n, read⟩ => ⟨index_lt_of_read read, n, read⟩⟩
  have counted := occupied_eq_countP small
  rw [List.countP_eq_length_filter] at counted
  have within : hs ⊆ ((List.range p.capacity).map Handle.ofIndex).filter p.isLive :=
    fun g member => (mem_iff g).2 (live g member)
  have all := (nodup.subperm within).perm_of_length_le (by omega)
  exact all.mem_iff.2 ((mem_iff h).2 ⟨n, found⟩)

/-! ## The free list as a list -/

/-- A free list over all free slots, which with the live ones are all there are. -/
theorem wellFormed_of_lists (small : p.capacity ≤ maxCapacity) (lists : Lists p p.free hs)
    (nodup : hs.Nodup) (all : ∀ h, h ∈ hs ↔ ∃ next, p.slot h = .ok (.free next))
    (count : p.live + hs.length = p.capacity) : p.WellFormed := by
  have counted := length_freeSlots_add_occupied small
  rw [← (perm_freeSlots small nodup all).length_eq] at counted
  exact ⟨small, by omega, hs, lists, nodup, all⟩

/-- Walking the free list yields it, within any limit that it keeps. -/
theorem Lists.freeFrom_eq (lists : Lists p t hs) {limit : Nat} (room : hs.length ≤ limit) :
    p.freeFrom limit t = hs := by
  induction lists generalizing limit with
  | nil => cases limit <;> rfl
  | cons found _ ih =>
    rw [List.length_cons] at room
    obtain ⟨limit, rfl⟩ : ∃ k, limit = k + 1 := ⟨limit - 1, by omega⟩
    rw [freeFrom, found]
    exact congrArg _ (ih (by omega))

/-! ## Fresh pools -/

/-- Every capacity that handles can name yields a pool. -/
theorem allocate_eq {capacity : Nat} (small : capacity ≤ maxCapacity) :
    (allocate capacity : Except Refusal (Pool α β)) = .ok (fresh capacity) := by
  rw [allocate, allocateFrom, if_neg (Nat.not_lt.2 small)]
  rfl

theorem allocate_of_large {capacity : Nat} (large : maxCapacity < capacity) :
    (allocate capacity : Except Refusal (Pool α β)) =
      .error (.capacityOverflow capacity maxCapacity) := by
  rw [allocate, allocateFrom, if_pos large]

/-- Memory decides whether there is a pool, and not which one. -/
theorem allocate_of_allocateFrom {memory : Memory} {capacity : Nat} {p : Pool α β}
    (allocated : allocateFrom memory capacity = .ok p) : allocate capacity = .ok p := by
  unfold allocateFrom at allocated
  split at allocated
  · cases allocated
  · rename_i small
    rw [allocate_eq (Nat.le_of_not_lt small)]
    cases asked : memory capacity with
    | some cause =>
      rw [asked] at allocated
      cases allocated
    | none =>
      rw [asked] at allocated
      exact allocated

theorem slot_fresh {capacity i : Nat} (inRange : i < capacity) (small : capacity ≤ maxCapacity) :
    (fresh capacity : Pool α β).slot (.ofIndex i) =
      .ok (.free (if i + 1 < capacity then some (.ofIndex (i + 1)) else none)) := by
  rw [maxCapacity] at small
  rw [slot_eq_ok_iff, Handle.index_ofIndex (by omega), fresh]
  simp [inRange]

/-- From any slot of a fresh pool on, the free list goes up by the index. -/
theorem lists_fresh_from {capacity : Nat} (small : capacity ≤ maxCapacity) (k : Nat) :
    ∀ i, i + k = capacity →
      Lists (fresh capacity : Pool α β) (if i < capacity then some (.ofIndex i) else none)
        ((List.range' i k).map .ofIndex) := by
  induction k with
  | zero =>
    intro i sum
    rw [if_neg (by omega)]
    exact .nil
  | succ k ih =>
    intro i sum
    rw [if_pos (by omega), List.range'_succ, List.map_cons]
    exact .cons (slot_fresh (by omega) small) (ih (i + 1) (by omega))

theorem lists_fresh {capacity : Nat} (small : capacity ≤ maxCapacity) :
    Lists (fresh capacity : Pool α β) (fresh capacity : Pool α β).free
      ((List.range capacity).map .ofIndex) := by
  rw [List.range_eq_range']
  exact lists_fresh_from small capacity 0 (Nat.zero_add capacity)

end Pool

end BoundedMap
