import BoundedMap.Proofs.Chart.Reachable
/-!
# The structure behind a map

Whatever the predicate answers, the slots of a map are at any time shared out
between one balanced tree and the free list. `Intact` says so slot by slot, and
every map that requests lead to is intact (`intact_of_reachable`).
-/

namespace BoundedMap.Map

variable {α β : Type} {m : Map α β} {less : α → α → Bool}

/-- The links from the root spell out `t` and those from the head of the free list
spell out `free`, and between them they hold every slot once. -/
structure Intact (m : Map α β) (t : Tree Handle α β) (free : List Handle) : Prop where
  /-- The links from the root form this tree. -/
  spells : Subtree.Spells m.pool m.root t
  /-- No slot is linked into the tree twice. -/
  nodup : t.labels.Nodup
  heights : t.HeightsExact
  balanced : t.Balanced
  /-- The links from the head of the free list form this list. -/
  lists : Pool.Lists m.pool m.pool.free free
  nodup_free : free.Nodup
  /-- A slot is occupied and in the tree once, or free and on the free list once. -/
  slots : ∀ h : Handle, h.index < m.capacity →
    (∃ n, m.pool.slot h = .ok (.occupied n)) ∧ t.labels.count h = 1 ∧ free.count h = 0 ∨
    (∃ next, m.pool.slot h = .ok (.free next)) ∧ t.labels.count h = 0 ∧ free.count h = 1
  len : m.len = t.size
  live : m.pool.live = t.size
  size_le : t.size ≤ m.capacity

/-- What follows a chart is intact. -/
theorem Follows.intact {a : Chart α β} (follows : m.Follows a) : m.Intact a.tree a.free where
  spells := follows.spells
  nodup := follows.valid.nodup_labels
  heights := follows.valid.avl.heights
  balanced := follows.valid.avl.balanced
  lists := follows.lists
  nodup_free := follows.valid.nodup_free
  slots := by
    intro h inRange
    have capacity : m.capacity = a.capacity := follows.capacity
    rw [capacity, ← follows.valid.mem_iff] at inRange
    rcases inRange with inTree | unused
    · left
      obtain ⟨n, found⟩ := follows.spells.read_of_mem inTree
      refine ⟨⟨n, Pool.slot_of_read found⟩, ?_, ?_⟩
      · exact List.count_eq_one_of_mem follows.valid.nodup_labels inTree
      · exact List.count_eq_zero_of_not_mem (follows.valid.not_mem_free inTree)
    · right
      refine ⟨follows.lists.slot_of_mem unused, ?_, ?_⟩
      · exact List.count_eq_zero_of_not_mem (follows.valid.not_mem_labels unused)
      · exact List.count_eq_one_of_mem follows.valid.nodup_free unused
  len := follows.len
  live := follows.live
  size_le := by
    have capacity : m.capacity = a.capacity := follows.capacity
    rw [capacity]
    exact follows.valid.size_le

/-- Every reachable map is intact, and no request changes its capacity. No law is
asked of the predicate. -/
theorem intact_of_reachable (reachable : Reachable less m) :
    ∃ t free, m.Intact t free ∧ t.height = t.depth ∧
      ∀ request, ∃ answer n, perform request m = .ok answer n ∧ n.capacity = m.capacity := by
  obtain ⟨a, follows, -⟩ := reachable.follows
  refine ⟨a.tree, a.free, follows.intact, follows.valid.avl.heights.height_eq_depth, ?_⟩
  intro request
  obtain ⟨n, done, follows'⟩ := perform_run follows request
  refine ⟨_, n, done, ?_⟩
  have before : m.capacity = a.capacity := follows.capacity
  have after : n.capacity = (a.perform request).2.capacity := follows'.capacity
  rw [before, after]
  exact (Chart.alike_perform request).capacity

/-- A predicate that puts every key before every other, itself included, never finds
a key again. The map that it fills with one key is intact all the same. -/
theorem intact_under_always :
    ∃ n : Map Nat Nat,
      perform (.insertMany [(7, 1), (7, 2), (7, 3)]) (ofPool (fun _ _ => true) (.fresh 3)) =
        .ok .done n ∧ Reachable (fun _ _ => true) n ∧
      ∃ t free, n.Intact t free ∧ t.entries = [(7, 3), (7, 2), (7, 1)] ∧ t.height = 2 := by
  obtain ⟨n, done, reachable, follows⟩ := perform_ofPool (α := Nat) (β := Nat) (fun _ _ => true)
    (show 3 ≤ maxCapacity by decide) (.insertMany [(7, 1), (7, 2), (7, 3)])
  obtain ⟨t, free, intact, -⟩ := intact_of_reachable reachable
  obtain rfl := intact.spells.unique follows.spells
  exact ⟨n, done, reachable, _, free, intact, by decide, by decide⟩

end BoundedMap.Map
