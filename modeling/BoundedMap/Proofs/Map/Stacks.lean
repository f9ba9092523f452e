import BoundedMap.Proofs.Chart.Reachable
import BoundedMap.Proofs.Cursor.Stacks
/-!
# The stacks of a walk never overflow

The stacks of a walk have fixed room, and a push onto a full one would be a fault. Over a
reachable map no push leaves more handles on a stack than the map is high, and no map is
higher than 45: handles name too few slots for more (`stacks_of_reachable`).
-/

namespace BoundedMap.Map

variable {α β γ : Type} {m : Map α β} {less : α → α → Bool}

/-- A walk over a reachable map is begun, and goes on under any requests, with at most as
many handles on each stack as the map is high. That holds at every push, so none of them
finds a stack full. -/
theorem stacks_of_reachable (reachable : Reachable less m) :
    ∃ h c, m.height = .ok h ∧ h ≤ 45 ∧ m.cursor = .ok c ∧
      (∀ s full, Cursor.Pushed m.pool s m.root [] full → full.length ≤ h) ∧
      ∀ (view : α × β → γ) (requests : List Cursor.Request), ∃ answers d,
        Cursor.run view requests c = .ok (answers, d) ∧ d.StacksWithin h ∧
          ∀ s, d.pull s ≠ .error .stackFull := by
  obtain ⟨a, follows, -⟩ := reachable.follows
  obtain ⟨c, started, walks⟩ := cursor_run follows
  have low := follows.valid.height_le
  refine ⟨a.tree.height, c, height_run follows, low, started, ?_, ?_⟩
  · intro s full pushed
    have bound := pushed.length_le follows.spells
    rwa [List.length_nil, Nat.zero_add, ← follows.valid.avl.heights.height_eq_depth] at bound
  · intro view requests
    obtain ⟨answers, d, rest, ran, walks'⟩ := Cursor.run_walks walks view requests
    have within := walks'.stacksWithin
    exact ⟨answers, d, ran, within, within.pull_ne_stackFull walks'.small⟩

/-- Seven keys in an order that makes every node lean to the left. The map is four high, and
four handles is the most that either stack holds while entries are taken at both ends. -/
theorem stacks_of_leaning :
    ∃ (m : Map Nat Nat) (c d : Cursor Nat Nat),
      perform (.insertMany [(5, 0), (3, 0), (7, 0), (2, 0), (4, 0), (6, 0), (1, 0)])
        (ofPool Order.ascending (.fresh 7)) = .ok .done m ∧
      Reachable Order.ascending m ∧ m.height = .ok 4 ∧ m.cursor = .ok c ∧
      Cursor.run Prod.fst [.pull .left, .pull .right, .pull .right] c =
        .ok ([.item (some 1), .item (some 7), .item (some 6)], d) ∧
      d.StacksWithin 4 ∧ d.pull .right ≠ .error .stackFull := by
  obtain ⟨m, done, reachable, follows⟩ := perform_ofPool (β := Nat)
    (Order.ascending : Nat → Nat → Bool) (show 7 ≤ maxCapacity by decide)
    (.insertMany [(5, 0), (3, 0), (7, 0), (2, 0), (4, 0), (6, 0), (1, 0)])
  obtain ⟨h, c, reported, -, started, -, within⟩ := stacks_of_reachable (γ := Nat) reachable
  have four : m.height = .ok 4 := height_run follows
  obtain rfl : h = 4 := Except.ok.inj (reported.symm.trans four)
  obtain ⟨answers, d, ran, bounded, fits⟩ :=
    within Prod.fst [.pull .left, .pull .right, .pull .right]
  -- what the calls are answered with is known from the list of entries
  obtain ⟨c', started', walks⟩ := cursor_run follows
  obtain rfl := Except.ok.inj (started.symm.trans started')
  obtain ⟨d', ran', -⟩ := Cursor.run_run walks Prod.fst [.pull .left, .pull .right, .pull .right]
  obtain ⟨rfl, rfl⟩ := Prod.mk.inj (Except.ok.inj (ran.symm.trans ran'))
  exact ⟨m, c, d, done, reachable, four, started, ran, bounded, fits .right⟩

end BoundedMap.Map
