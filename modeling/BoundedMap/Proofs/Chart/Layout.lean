import BoundedMap.Proofs.Chart.Follows
import BoundedMap.Proofs.Subtree.Nodes
/-!
# A chart determines its map

Every slot of a map is one of a node of the tree, which the tree determines, or one of the free
list, which holds the link to the next one. So a chart leaves nothing of the state open: two maps
that follow one chart are the same map (`Follows.unique`). An operation that leads back to the
chart it started from has changed nothing.
-/

namespace BoundedMap

namespace Pool

variable {α β : Type} {p q : Pool α β} {t u : Option Handle} {hs : List Handle} {h : Handle}

/-- Pools are equal when their slots and counts are. -/
theorem eq_of_slot (small : p.capacity ≤ maxCapacity) (capacity : q.capacity = p.capacity)
    (same : ∀ h : Handle, h.index < p.capacity → q.slot h = p.slot h) (free : q.free = p.free)
    (live : q.live = p.live) : q = p := by
  have slots : q.slots = p.slots := by
    refine Array.ext_getElem? fun i => ?_
    by_cases inRange : i < p.capacity
    · have index : (Handle.ofIndex i).index = i := by
        rw [maxCapacity] at small
        exact Handle.index_ofIndex (by omega)
      obtain ⟨s, found⟩ := exists_slot (p := p) (h := .ofIndex i) (by rwa [index])
      have found' := (same (.ofIndex i) (by rwa [index])).trans found
      rw [slot_eq_ok_iff, index] at found found'
      rw [found, found']
    · have past : p.slots.size ≤ i := Nat.le_of_not_lt inRange
      have past' : q.slots.size ≤ i := Nat.le_trans (Nat.le_of_eq capacity) past
      rw [Array.getElem?_eq_none past, Array.getElem?_eq_none past']
  obtain ⟨_, _, _⟩ := p
  obtain ⟨_, _, _⟩ := q
  cases slots
  cases free
  cases live
  rfl

namespace Lists

/-- A free list starts at the first of its slots. -/
theorem eq_head? (lists : Lists p t hs) : t = hs.head? := by
  cases lists <;> rfl

/-- Pools with one free list hold the same links in its slots. -/
theorem slot_eq (lists : Lists p t hs) (lists' : Lists q u hs) (member : h ∈ hs) :
    q.slot h = p.slot h := by
  induction lists generalizing u with
  | nil => cases member
  | cons found below ih =>
    cases lists' with
    | cons found' below' =>
      rcases List.mem_cons.1 member with rfl | member
      · rw [found, found', below.eq_head?, below'.eq_head?]
      · exact ih below' member

end Lists

end Pool

namespace Map

variable {α β : Type} {m n : Map α β} {a : Chart α β}

/-- Maps that follow one chart are one map. -/
theorem Follows.unique (follows : m.Follows a) (follows' : n.Follows a) : n = m := by
  have capacity : n.pool.capacity = m.pool.capacity :=
    follows'.capacity.trans follows.capacity.symm
  have pool : n.pool = m.pool := by
    refine Pool.eq_of_slot ?_ capacity (fun h inRange => ?_) ?_ ?_
    · rw [follows.capacity]
      exact follows.valid.capacity_le
    · rw [follows.capacity, ← follows.valid.mem_iff] at inRange
      rcases inRange with inTree | unused
      · obtain ⟨d, found⟩ := follows.spells.read_of_mem inTree
        have found' := (follows.spells.read_eq follows'.spells inTree).trans found
        rw [Pool.slot_of_read found, Pool.slot_of_read found']
      · exact follows.lists.slot_eq follows'.lists unused
    · rw [follows.lists.eq_head?, follows'.lists.eq_head?]
    · rw [follows.live, follows'.live]
  have less := follows'.less.trans follows.less.symm
  have root := follows'.spells.eq_linkTo.trans follows.spells.eq_linkTo.symm
  have len := follows'.len.trans follows.len.symm
  obtain ⟨_, _, _, _⟩ := m
  obtain ⟨_, _, _, _⟩ := n
  cases less
  cases root
  cases pool
  cases len
  rfl

end Map

end BoundedMap
