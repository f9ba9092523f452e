import BoundedMap.Proofs.Chart.Reachable
/-!
# No request ends in a fault

A fault is a broken promise: a link to a free slot, an occupied slot at the head of
the free list, a rotation without its child, an index out of bounds, a counter or a
height past its range, a full stack, a path that does not end. The first one ends a
step at once, so a request that answers has met none on its way.

Reachable maps answer every request (`no_fault_of_reachable`), whatever the predicate,
and no path in them is longer than the height that they report (`PathsWithin`).
-/

namespace BoundedMap.Map

variable {α β γ : Type} {m : Map α β} {less : α → α → Bool}

/-- Every path that a request takes through the tree meets at most `h` nodes before
the empty link at its end. The limit counts the nodes on a path and is a fault when
it is passed; here every limit from `h` on gives the same result, and none a fault. -/
structure PathsWithin (m : Map α β) (h : Nat) : Prop where
  locate : ∀ probe, ∃ x, ∀ limit, h ≤ limit →
    Subtree.locate m.pool m.less probe limit m.root = .ok x
  outermost : ∀ s x, m.root = some x → ∃ n, ∀ limit, h ≤ limit →
    Subtree.outermost m.pool s limit x = .ok n
  insert : ∀ key value, ∃ result, ((∃ x old q, result = .ok (x, old) q) ∨
    result = .error (.refused (.exhausted m.capacity)) m.pool) ∧ ∀ limit, h ≤ limit →
      Subtree.insert m.less key value limit m.root m.pool = result
  remove : ∀ probe, ∃ answer q, ∀ limit, h ≤ limit →
    Subtree.remove m.less probe limit m.root m.pool = .ok answer q
  releaseAll : ∃ q, ∀ limit, h ≤ limit → Subtree.releaseAll limit m.root m.pool = .ok () q
  /-- A walk goes down from the root and from links of nodes, and pushes what it meets. -/
  pushSpine : ∀ s t, (t = m.root ∨ ∃ x n side, m.pool.read x = .ok n ∧ t = n.child side) →
    ∀ stack, ∃ spine, spine.length ≤ h ∧ ∀ room, h ≤ room →
      Cursor.pushSpine m.pool s room t stack = .ok (spine ++ stack)

theorem Follows.pathsWithin {a : Chart α β} (follows : m.Follows a) :
    m.PathsWithin a.tree.height where
  locate probe := by
    rw [follows.less, follows.valid.avl.heights.height_eq_depth]
    exact ⟨_, fun limit => Subtree.locate_run a.less probe follows.spells⟩
  outermost s x start := by
    have spells := follows.spells
    rw [start] at spells
    rw [follows.valid.avl.heights.height_eq_depth]
    obtain ⟨n, run, -⟩ := Subtree.outermost_run s spells
    exact ⟨n, run⟩
  insert key value := by
    rw [follows.valid.avl.heights.height_eq_depth]
    rcases insert_subtree follows key value with ⟨x, old, q, b, -, run, -⟩ | ⟨-, run⟩
    · exact ⟨_, .inl ⟨x, old, q, rfl⟩, run⟩
    · exact ⟨_, .inr rfl, run⟩
  remove probe := by
    rw [follows.valid.avl.heights.height_eq_depth]
    obtain ⟨link, q, run, -⟩ := remove_subtree follows probe
    exact ⟨_, q, run⟩
  releaseAll := by
    rw [follows.valid.avl.heights.height_eq_depth]
    obtain ⟨q, run, -⟩ := releaseAll_subtree follows
    exact ⟨q, run⟩
  pushSpine s t met stack := by
    rw [follows.valid.avl.heights.height_eq_depth]
    have below : ∃ b, Subtree.Spells m.pool t b ∧ b.depth ≤ a.tree.depth := by
      rcases met with rfl | ⟨x, n, side, live, rfl⟩
      · exact ⟨a.tree, follows.spells, Nat.le_refl _⟩
      · obtain ⟨b, spells, lower⟩ :=
          follows.spells.child_of_mem (follows.mem_labels_of_read live) live side
        exact ⟨b, spells, Nat.le_of_lt lower⟩
    obtain ⟨b, spells, lower⟩ := below
    obtain ⟨spine, short, run⟩ := Cursor.pushSpine_append spells s stack
    exact ⟨spine, Nat.le_trans short lower, fun room enough => run room (Nat.le_trans lower enough)⟩

/-- Requests to a reachable map, and to any walk over it, are all answered. Each
path ends after the nodes that the height of the map counts, and every slot has an
index that its handle keeps. -/
theorem no_fault_of_reachable (reachable : Reachable less m) :
    (∀ requests, ∃ answers n, run requests m = .ok answers n) ∧
      (∀ (view : α × β → γ) requests, ∃ c answers d, m.cursor = .ok c ∧
        Cursor.run view requests c = .ok (answers, d)) ∧
      (∀ i, i < m.capacity → (Handle.ofIndex i).index = i) ∧
      ∃ h, m.height = .ok h ∧ h ≤ m.capacity ∧ m.PathsWithin h := by
  obtain ⟨a, follows, -⟩ := reachable.follows
  refine ⟨?_, ?_, ?_, a.tree.height, height_run follows, ?_, follows.pathsWithin⟩
  · intro requests
    obtain ⟨n, ran, -⟩ := run_run follows requests
    exact ⟨_, n, ran⟩
  · intro view requests
    obtain ⟨c, started, walks⟩ := cursor_run follows
    obtain ⟨answers, d, rest, ran, -⟩ := Cursor.run_walks walks view requests
    exact ⟨c, answers, d, started, ran⟩
  · intro i inRange
    apply Handle.index_ofIndex
    have few := follows.valid.capacity_le
    have capacity : m.capacity = a.capacity := follows.capacity
    rw [maxCapacity] at few
    omega
  · rw [follows.valid.avl.heights.height_eq_depth]
    exact follows.room

/-- Three keys, each put before the next one in a circle: a predicate that no order
explains, and still every request is answered. -/
theorem no_fault_on_circle :
    ∃ n : Map Nat Nat,
      perform (.insertMany [(0, 10), (1, 11), (2, 12)])
        (ofPool (fun a b => (b + 2 * a) % 3 == 1) (.fresh 3)) = .ok .done n ∧
      Reachable (fun a b => (b + 2 * a) % 3 == 1) n ∧
      (∀ requests, ∃ answers n', run requests n = .ok answers n') ∧
      n.height = .ok 2 ∧ n.PathsWithin 2 := by
  obtain ⟨n, done, reachable, follows⟩ := perform_ofPool (β := Nat)
    (fun a b => (b + 2 * a) % 3 == 1) (show 3 ≤ maxCapacity by decide)
    (.insertMany [(0, 10), (1, 11), (2, 12)])
  obtain ⟨answered, -, -, h, reported, -, within⟩ := no_fault_of_reachable (γ := Nat) reachable
  have two : n.height = .ok 2 := height_run follows
  obtain rfl : h = 2 := Except.ok.inj (reported.symm.trans two)
  exact ⟨n, done, reachable, answered, two, within⟩

end BoundedMap.Map
