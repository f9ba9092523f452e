import BoundedMap.Proofs.Chart.Reachable
import BoundedMap.Proofs.Cursor.Ends
/-!
# Iteration from both ends

The two stacks of a walk know nothing of each other, and after they have crossed each
holds nodes whose entries the other end has answered. The walk answers every entry of the
tree once all the same, whatever the order in which its ends are asked
(`iteration_of_reachable`).
-/

namespace BoundedMap.Map

variable {α β γ : Type} {m : Map α β} {less : α → α → Bool}

/-- A walk over a reachable map shares out the entries of its tree between the calls at its
two ends, whatever is shown of an entry. The first and the last entry of the map are those
of the tree. -/
theorem iteration_of_reachable (reachable : Reachable less m) :
    ∃ t c, m.toTree = .ok t ∧ m.cursor = .ok c ∧ m.first? = .ok t.entries.head? ∧
      m.last? = .ok t.entries.getLast? ∧
      ∀ (view : α × β → γ) (calls : List Side), ∃ answers d rest,
        Cursor.run view (calls.map .pull) c = .ok (answers.map .item, d) ∧
          Cursor.Progress view (t.entries.map view) calls answers d rest := by
  obtain ⟨a, follows, -⟩ := reachable.follows
  obtain ⟨c, started, walks⟩ := cursor_run follows
  refine ⟨a.tree, c, toTree_run follows, started, outermost?_run follows .left, ?_, ?_⟩
  · have outer := outermost?_run follows .right
    rw [Tree.entriesFrom_right, List.head?_reverse] at outer
    exact outer
  · intro view calls
    exact Cursor.progress_run walks view calls

/-- Five keys, taken by turns at both ends and beyond the last one. The middle key is
answered once, though it waits on both stacks when it is reached. -/
theorem iteration_by_turns :
    ∃ (m : Map Nat Nat) (c d : Cursor Nat Nat) (rest : List Nat),
      perform (.insertMany [(4, 40), (2, 20), (5, 50), (1, 10), (3, 30)])
        (ofPool Order.ascending (.fresh 5)) = .ok .done m ∧
      Reachable Order.ascending m ∧ m.cursor = .ok c ∧
      Cursor.run Prod.fst [.pull .left, .pull .right, .pull .left, .pull .right, .pull .right,
        .pull .left] c = .ok ([.item (some 1), .item (some 5), .item (some 2), .item (some 4),
          .item (some 3), .item none], d) ∧
      Cursor.Progress Prod.fst [1, 2, 3, 4, 5] [.left, .right, .left, .right, .right, .left]
        [some 1, some 5, some 2, some 4, some 3, none] d rest := by
  obtain ⟨m, done, reachable, follows⟩ := perform_ofPool (β := Nat)
    (Order.ascending : Nat → Nat → Bool) (show 5 ≤ maxCapacity by decide)
    (.insertMany [(4, 40), (2, 20), (5, 50), (1, 10), (3, 30)])
  obtain ⟨t, c, read, started, -, -, shared⟩ := iteration_of_reachable (γ := Nat) reachable
  obtain rfl := Except.ok.inj (read.symm.trans (toTree_run follows))
  obtain ⟨answers, d, rest, ran, progress⟩ :=
    shared Prod.fst [.left, .right, .left, .right, .right, .left]
  -- what the calls are answered with is known from the list of entries
  obtain ⟨c', started', walks⟩ := cursor_run follows
  obtain rfl := Except.ok.inj (started.symm.trans started')
  obtain ⟨d', ran', -⟩ := Cursor.run_run walks Prod.fst
    ([.left, .right, .left, .right, .right, .left].map .pull)
  obtain ⟨same, rfl⟩ := Prod.mk.inj (Except.ok.inj (ran.symm.trans ran'))
  obtain rfl : answers = [some 1, some 5, some 2, some 4, some 3, none] :=
    (List.map_inj_right fun x y => Cursor.Answer.item.inj).1 same
  exact ⟨m, c, d, rest, done, reachable, started, ran, progress⟩

end BoundedMap.Map
