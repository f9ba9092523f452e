import BoundedMap.Proofs.Chart.Planting
import BoundedMap.Proofs.Chart.Reachable
import BoundedMap.Proofs.Model.Bindings
/-!
# Cleared maps

`clear` gives the slots of a map back in post-order, each slot after those below it, and so the
free list starts with the slot of the root afterwards and ends with what was free before
(`Cleared`). New keys take the slots in that order (`clear_recycles`), until each has its key.
-/

namespace BoundedMap.Map

open Request (inserts)

variable {α β : Type} {m n : Map α β} {a : Chart α β} {less : α → α → Bool}

/-- A map and what `clear` makes of it, by the tree and the free list that it had. -/
structure Cleared (m : Map α β) (t : Tree Handle α β) (free : List Handle) (n : Map α β) :
    Prop where
  done : clear m = .ok () n
  root : n.root = none
  len : n.len = 0
  live : n.pool.live = 0
  height : n.height = .ok 0
  capacity : n.capacity = m.capacity
  unused : ∀ h : Handle, h.index < n.capacity → ∃ next, n.pool.slot h = .ok (.free next)
  lists : n.pool.Lists n.pool.free (t.postorder.reverse ++ free)
  /-- The slot of the root comes first. -/
  first : t.postorder.reverse.head? = m.root
  /-- Every live slot is released, and none of them twice. -/
  releases : Pool.Releases m.pool t.postorder n.pool
  once : t.postorder.Nodup
  mem_iff : ∀ h, h ∈ t.postorder ↔ ∃ x, m.pool.read h = .ok x

theorem Follows.cleared (follows : m.Follows a) :
    ∃ n, m.Cleared a.tree a.free n ∧ n.Follows a.clear := by
  obtain ⟨n, done, follows', releases⟩ := clear_run follows
  have nothing := follows'.spells
  have sameLabels := Tree.postorder_perm a.tree
  refine ⟨n, ⟨done, Subtree.spells_nil_iff.1 nothing, follows'.len, follows'.live,
    height_run follows', ?_, ?_, follows'.lists, ?_, releases, ?_, ?_⟩, follows'⟩
  · exact follows'.capacity.trans follows.capacity.symm
  · intro h inRange
    have inRange' : h.index < a.clear.capacity := follows'.capacity ▸ inRange
    rcases follows'.valid.mem_iff.2 inRange' with stored | unused
    · cases stored
    · exact follows'.lists.slot_of_mem unused
  · rw [follows.spells.eq_linkTo]
    cases a.tree <;> simp [Tree.postorder, Subtree.linkTo]
  · exact sameLabels.symm.nodup follows.valid.nodup_labels
  · intro h
    rw [sameLabels.mem_iff]
    constructor
    · exact follows.spells.read_of_mem
    · rintro ⟨x, live⟩
      exact follows.mem_labels_of_read live

/-- A map that was filled with pairs from a free list: each pair is in the slot beside it. -/
structure Filled (hs : List Handle) (pairs : List (α × β)) (n : Map α β) : Prop where
  len : n.len = min pairs.length hs.length
  holds : ∀ h e, (h, e) ∈ hs.zip pairs →
    ∃ x, n.pool.read h = .ok x ∧ x.key = e.1 ∧ x.value = e.2
  rest : n.pool.Lists n.pool.free (hs.drop pairs.length)

/-- New keys inserted into a map without entries take the slots in the order of the free list. -/
theorem fill_run (follows : m.Follows a) (empty : a.tree = .nil) {pairs : List (α × β)}
    (apart : pairs.Pairwise fun d e => SortedList.same a.less d.1 e.1 = false) :
    ∃ n, run (inserts pairs) m =
        .ok (List.replicate (min pairs.length m.capacity) (.value none) ++
          List.replicate (pairs.length - m.capacity) (.refused (.exhausted m.capacity))) n ∧
      n.Filled a.free pairs := by
  have differ : pairs.Pairwise fun d e => turn a.less e.1 d.1 ≠ none := by
    refine apart.imp ?_
    intro d e here turned
    rw [SortedList.same_comm, SortedList.same_iff.2 turned] at here
    cases here
  have capacity := follows.length_free empty
  have limit : m.capacity = a.capacity := follows.capacity
  obtain ⟨cs, later, rest, rfl, order, ended⟩ := Chart.exists_cells pairs a.free
  obtain ⟨t, ran, planted⟩ := Chart.run_fill empty order ended differ
  obtain ⟨n, answered, follows'⟩ := run_run follows (inserts (cs.map Cell.entry ++ later))
  rw [ran] at answered follows'
  have filled : cs.length = min (cs.map Cell.entry ++ later).length a.free.length := by
    rcases ended with rfl | rfl <;> simp [order]
  have refused : later.length = (cs.map Cell.entry ++ later).length - a.free.length := by
    rcases ended with rfl | rfl <;> simp [order]
  refine ⟨n, ?_, ?_, ?_, ?_⟩
  · rw [← capacity, ← filled, ← refused, capacity, limit]
    exact answered
  · rw [← filled, follows'.len, ← planted.length_eq, Tree.length_cells]
  · intro h e member
    have beside : a.free.zip (cs.map Cell.entry ++ later) =
        cs.map fun c => (c.label, c.entry) := by
      rw [order, List.zip_append (by simp), List.zip_map']
      rcases ended with rfl | rfl <;> simp
    rw [beside] at member
    obtain ⟨c, new, here⟩ := List.mem_map.1 member
    cases here
    exact follows'.spells.read_of_mem_cells (planted.mem_iff.2 new)
  · have left : a.free.drop (cs.map Cell.entry ++ later).length = rest := by
      rcases ended with rfl | rfl <;> simp [order]
    rw [left]
    exact follows'.lists

/-- Clearing a map ends well, whatever the predicate, and gives back every live slot once, in an
order that the tree determines: the slot of the root is the first one on the free list, and what
was free before comes last. As many new keys as there are slots can be inserted then, and no more,
and they take the slots in the order of the list. -/
theorem clear_recycles (reachable : Reachable less m) :
    ∃ t free n, m.toTree = .ok t ∧ m.pool.Lists m.pool.free free ∧ m.Cleared t free n ∧
      ∀ pairs : List (α × β),
        (pairs.Pairwise fun d e => SortedList.same less d.1 e.1 = false) →
        ∃ k, run (inserts pairs) n =
            .ok (List.replicate (min pairs.length m.capacity) (.value none) ++
              List.replicate (pairs.length - m.capacity) (.refused (.exhausted m.capacity))) k ∧
          k.Filled (t.postorder.reverse ++ free) pairs := by
  obtain ⟨a, follows, rfl⟩ := reachable.follows
  obtain ⟨n, cleared, follows'⟩ := follows.cleared
  refine ⟨a.tree, a.free, n, toTree_run follows, follows.lists, cleared, ?_⟩
  intro pairs apart
  rw [← cleared.capacity]
  exact fill_run follows' rfl apart

/-- A map of three entries, in which the slot of a fourth was given back, is cleared. Five of six
keys can be inserted then, the first of them where the root was and the last where no key has
been. -/
theorem clear_of_rotated :
    ∃ m n k : Map Nat Nat,
      run [.insertMany [(2, 20), (1, 10), (3, 30), (4, 40)], .remove 1]
        (ofPool Order.ascending (.fresh 5)) = .ok [.done, .value (some 10)] m ∧
      Reachable Order.ascending m ∧ clear m = .ok () n ∧
      Pool.Releases m.pool [.ofIndex 0, .ofIndex 3, .ofIndex 2] n.pool ∧
      n.pool.Lists n.pool.free
        [.ofIndex 2, .ofIndex 3, .ofIndex 0, .ofIndex 1, .ofIndex 4] ∧
      run (inserts [(6, 60), (1, 11), (5, 50), (2, 21), (9, 90), (7, 70)]) n =
        .ok [.value none, .value none, .value none, .value none, .value none,
          .refused (.exhausted 5)] k ∧
      k.len = 5 ∧ (∃ x, k.pool.read (.ofIndex 2) = .ok x ∧ x.key = 6 ∧ x.value = 60) ∧
      ∃ x, k.pool.read (.ofIndex 4) = .ok x ∧ x.key = 9 ∧ x.value = 90 := by
  obtain ⟨m, ran, reachable, follows⟩ := run_ofPool (Order.ascending : Nat → Nat → Bool)
    (show 5 ≤ maxCapacity by decide)
    [.insertMany [(2, 20), (1, 10), (3, 30), (4, 40)], .remove 1]
  obtain ⟨t, free, n, spelled, listed, cleared, fills⟩ := clear_recycles reachable
  obtain rfl := Except.ok.inj ((toTree_run follows).symm.trans spelled)
  obtain rfl := follows.lists.unique listed
  obtain ⟨k, answered, filled⟩ :=
    fills [(6, 60), (1, 11), (5, 50), (2, 21), (9, 90), (7, 70)] (by decide)
  have capacity : m.capacity = 5 := follows.capacity
  rw [capacity] at answered
  exact ⟨m, n, k, ran, reachable, cleared.done, cleared.releases, cleared.lists, answered,
    filled.len, filled.holds (.ofIndex 2) (6, 60) (by decide),
    filled.holds (.ofIndex 4) (9, 90) (by decide)⟩

end BoundedMap.Map
