import BoundedMap.Proofs.Chart.Reachable
import BoundedMap.Proofs.Chart.Layout
import BoundedMap.Proofs.Chart.Reflection
/-!
# The reverse of an order

Two new maps, one under an order and one under its reverse, that are asked the same things take
opposite branches at every comparison and rebalance on opposite sides. What is read of them by key
is the same all along, and what is read in order is reversed (`run_flip`). Their trees are exact
reflections, slot by slot and height by height, until something is taken out.
-/

namespace BoundedMap.Map

variable {α β : Type} {m n : Map α β} {a b : Chart α β} {less : α → α → Bool}

/-- Two maps that hold the same entries in opposite order. -/
structure Opposes (m n : Map α β) : Prop where
  len : n.len = m.len
  first : ∃ e, m.first? = .ok e ∧ n.last? = .ok e
  last : ∃ e, m.last? = .ok e ∧ n.first? = .ok e
  entries : ∃ es, m.entries = .ok es ∧ n.entries = .ok es.reverse
  entriesDown : ∃ es, m.entriesDown = .ok es ∧ n.entriesDown = .ok es.reverse

theorem opposes_of_entries (follows : m.Follows a) (follows' : n.Follows b)
    (entries : b.tree.entries = a.tree.entries.reverse) : m.Opposes n where
  len := by
    rw [follows.len_entries, follows'.len_entries, entries, List.length_reverse]
  first := by
    refine ⟨_, outermost?_run follows .left, ?_⟩
    rw [Tree.entriesFrom_left, ← List.reverse_reverse a.tree.entries, ← entries,
      ← Tree.entriesFrom_right]
    exact outermost?_run follows' .right
  last := by
    refine ⟨_, outermost?_run follows .right, ?_⟩
    rw [Tree.entriesFrom_right, ← entries, ← Tree.entriesFrom_left]
    exact outermost?_run follows' .left
  entries := ⟨_, entries_run follows, entries ▸ entries_run follows'⟩
  entriesDown := ⟨_, entriesDown_run follows, entries ▸ entriesDown_run follows'⟩

/-- The same requests to two new maps of one capacity, under a strict weak order and under its
reverse. Every request that does not ask for the first or the last entry is answered alike, lists
of entries reversed; asked for the other end instead, the second map gives the answers of the
first throughout. The maps then hold the same entries in opposite order. If no request has taken
anything out, the second tree is the reflection of the first, with the same slot, key, value and
height at every place. -/
theorem run_flip (order : StrictWeak less) {capacity : Nat} (small : capacity ≤ maxCapacity)
    (requests : List (Request α β)) :
    ∃ m m' answers answers' n n', withCapacity less capacity = .ok m ∧
      withCapacity (fun a b => less b a) capacity = .ok m' ∧
      run requests m = .ok answers n ∧ run requests m' = .ok answers' n' ∧
      (∀ (i : Nat) (request : Request α β), requests[i]? = some request →
        request ≠ .first → request ≠ .last → answers'[i]? = answers[i]?.map Answer.reflect) ∧
      run (requests.map Request.reflect) m' = .ok (answers.map Answer.reflect) n' ∧
      n.Opposes n' ∧
      ((∀ step ∈ requests.zip answers, step.1.retains step.2 = true) →
        ∃ t, n.toTree = .ok t ∧ n'.toTree = .ok t.reflect) := by
  have follows : (ofPool less (Pool.fresh capacity) : Map α β).Follows
    (Chart.empty less capacity) := follows_ofPool less small
  have follows' : (ofPool (fun a b => less b a) (Pool.fresh capacity) : Map α β).Follows
    (Chart.empty (fun a b => less b a) capacity) := follows_ofPool _ small
  obtain ⟨n, ran, ended⟩ := run_run follows requests
  obtain ⟨n', ran', ended'⟩ := run_run follows' requests
  obtain ⟨k, swapped, endedSwapped⟩ := run_run follows' (requests.map Request.reflect)
  obtain ⟨answers, lists⟩ := Chart.run_of_list_reflect follows.valid
    (Chart.sorted_empty order capacity) follows'.valid (Chart.sorted_empty order.flip capacity)
    rfl requests
  obtain ⟨state, alike⟩ := Chart.run_map_reflect
    (Chart.empty (fun a b => less b a) capacity : Chart α β) requests
  -- with the ends exchanged or not, the second map ends in the same state
  rw [state] at lists endedSwapped
  obtain rfl := endedSwapped.unique ended'
  rw [answers] at swapped alike
  have entries := congrArg SortedList.entries lists
  refine ⟨_, _, _, _, n, n', withCapacity_eq less small, withCapacity_eq _ small, ran, ran', ?_,
    swapped, opposes_of_entries ended ended' entries, fun retained => ?_⟩
  · intro i request here notFirst notLast
    rw [← alike i request here notFirst notLast, List.getElem?_map]
  · have reflected := Chart.run_reflect (a := Chart.empty less capacity) order retained
    have trees := congrArg Chart.tree reflected
    refine ⟨_, toTree_run ended, ?_⟩
    rw [toTree_run ended']
    exact congrArg Except.ok trees

/-- Six keys by magnitude and by the reverse, with rotations of both kinds and one key bound twice.
The trees are reflections. Removing the root is answered alike and ends that: under each order the
next key moves up, which is 4 in one tree and 2 in the other. -/
theorem run_flip_by_magnitude :
    StrictWeak (Order.through Int.natAbs) ∧
    ∃ (m m' n n' k k' : Map Int Nat) (t : Tree Handle Int Nat),
      withCapacity (Order.through Int.natAbs) 7 = .ok m ∧
      withCapacity (fun a b => Order.through Int.natAbs b a) 7 = .ok m' ∧
      run [.insertMany [(1, 10), (5, 50), (3, 30), (2, 20), (4, 40), (6, 60)], .insert (-3) 31,
        .first, .keys] m = .ok [.done, .value (some 30), .entry (some (1, 10)),
          .keys [1, 2, 3, 4, 5, 6]] n ∧
      run [.insertMany [(1, 10), (5, 50), (3, 30), (2, 20), (4, 40), (6, 60)], .insert (-3) 31,
        .first, .keys] m' = .ok [.done, .value (some 30), .entry (some (6, 60)),
          .keys [6, 5, 4, 3, 2, 1]] n' ∧
      n.Opposes n' ∧ n.toTree = .ok t ∧ n'.toTree = .ok t.reflect ∧
      remove 3 n = .ok (some 31) k ∧ remove 3 n' = .ok (some 31) k' ∧
      ∃ u u', k.toTree = .ok u ∧ k'.toTree = .ok u' ∧ u' ≠ u.reflect := by
  have order : StrictWeak (Order.through Int.natAbs) := Order.strictWeak_through _
  obtain ⟨m, m', answers, answers', n, n', built, built', ran, ran', -, -, opposes, trees⟩ :=
    run_flip (β := Nat) order (show 7 ≤ maxCapacity by decide)
      [.insertMany [(1, 10), (5, 50), (3, 30), (2, 20), (4, 40), (6, 60)], .insert (-3) 31, .first,
        .keys]
  obtain ⟨l, again, follows⟩ := run_run (follows_of_withCapacity built).2
    [.insertMany [(1, 10), (5, 50), (3, 30), (2, 20), (4, 40), (6, 60)], .insert (-3) 31, .first,
      .keys]
  obtain ⟨l', again', follows'⟩ := run_run (follows_of_withCapacity built').2
    [.insertMany [(1, 10), (5, 50), (3, 30), (2, 20), (4, 40), (6, 60)], .insert (-3) 31, .first,
      .keys]
  obtain ⟨rfl, rfl⟩ := EStateM.Result.ok.inj (ran.symm.trans again)
  obtain ⟨rfl, rfl⟩ := EStateM.Result.ok.inj (ran'.symm.trans again')
  obtain ⟨t, tree, tree'⟩ := trees (by decide +kernel)
  obtain ⟨k, removed, left⟩ := remove_run follows 3
  obtain ⟨k', removed', left'⟩ := remove_run follows' 3
  exact ⟨order, m, m', n, n', k, k', t, built, built', ran, ran', opposes, tree, tree', removed,
    removed', _, _, toTree_run left, toTree_run left', by decide +kernel⟩

end BoundedMap.Map
