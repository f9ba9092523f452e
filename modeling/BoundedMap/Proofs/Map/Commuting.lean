import BoundedMap.Proofs.Map.Equality
import BoundedMap.Proofs.Model.Updates
/-!
# Independent updates commute

The tree of a map and the slots of its entries depend on the order in which updates come. What can
be read of the entries does not, as long as the updates are about different keys and there is
room for all of them (`updates_commute`): each update is answered as if it came first, and the
maps that two orders lead to are equal.
-/

namespace BoundedMap.Map

variable {α β : Type} {m : Map α β} {less : α → α → Bool}

/-- Updates of keys that the order tells apart may be made in any order. With room for every
insertion none is refused; each is answered from what its key was bound to before all of them; and
the maps that are left read alike from both ends, and are equal if keys and values are equal to
themselves. -/
theorem updates_commute (order : StrictWeak less) (reachable : Reachable less m)
    (updates updates' : List (Update α β))
    (apart : updates.Pairwise fun u v => SortedList.same less u.key v.key = false)
    (room : m.len + updates.countP Update.binds ≤ m.capacity) (perm : updates.Perm updates') :
    ∃ (answer : Update α β → Answer α β) (n n' : Map α β),
      run (updates.map Update.request) m = .ok (updates.map answer) n ∧
      run (updates'.map Update.request) m = .ok (updates'.map answer) n' ∧
      (∀ u, ∃ e, m.lookup? u.key = .ok e ∧ answer u = u.answer e) ∧
      (∀ u why, answer u ≠ .refused why) ∧
      (∀ [BEq α] [ReflBEq α] [BEq β] [ReflBEq β], n.agrees n' = .ok true) ∧
      n.SameContents n' := by
  obtain ⟨a, follows, rfl⟩ := reachable.follows
  have sorted := follows.sorted reachable order
  have capacity : m.capacity = a.capacity := follows.capacity
  rw [follows.len_entries, capacity] at room
  obtain ⟨t, t', listed, listed', same⟩ := SortedList.run_updates_perm (s := a.list) order
    (Chart.list_valid follows.valid sorted).ascending apart room perm
  -- the map runs as its chart does, and the chart as the list of its entries
  rw [Chart.list_run follows.valid sorted] at listed listed'
  obtain ⟨answers, rfl⟩ := Prod.mk.inj listed
  obtain ⟨answers', rfl⟩ := Prod.mk.inj listed'
  obtain ⟨n, ran, follows'⟩ := run_run follows (updates.map Update.request)
  obtain ⟨n', ran', follows''⟩ := run_run follows (updates'.map Update.request)
  rw [answers] at ran
  rw [answers'] at ran'
  refine ⟨_, n, n', ran, ran', fun u => ⟨_, lookup?_run follows u.key, ?_⟩,
    fun u why => u.answer_ne_refused _ why, ?_, sameContents_of_entries follows' follows'' same⟩
  · rw [Chart.list_find? sorted]
  · intro _ _ _ _
    have entries : (a.run (updates.map Update.request)).2.tree.entries =
        (a.run (updates'.map Update.request)).2.tree.entries := same
    rw [agrees_run follows' follows'', entries, BEq.rfl]

/-- Four updates of a map ordered by magnitude, in two orders. In the first one the slot of the
key that is removed is free for the first new key, in the second one it is not, and the trees
have different roots. -/
theorem updates_commute_by_magnitude :
    StrictWeak (Order.through Int.natAbs) ∧
    ∃ (m n n' : Map Int Nat) (answers : List (Answer Int Nat)),
      run [.insertMany [(2, 20), (1, 10), (3, 30)]]
        (ofPool (Order.through Int.natAbs) (.fresh 6)) = .ok answers m ∧
      Reachable (Order.through Int.natAbs) m ∧
      run [.removeEntry (-1), .insert 4 40, .insert (-2) 21, .insert 5 50] m =
        .ok [.entry (some (1, 10)), .value none, .value (some 20), .value none] n ∧
      run [.insert 4 40, .insert 5 50, .insert (-2) 21, .removeEntry (-1)] m =
        .ok [.value none, .value none, .value (some 20), .entry (some (1, 10))] n' ∧
      n.agrees n' = .ok true ∧ n.SameContents n' ∧
      ∃ t t', n.toTree = .ok t ∧ n'.toTree = .ok t' ∧ t'.erase ≠ t.erase ∧
        ¬t'.labels.Perm t.labels := by
  have order : StrictWeak (Order.through Int.natAbs) := Order.strictWeak_through _
  obtain ⟨m, ran, reachable, follows⟩ := run_ofPool (Order.through Int.natAbs)
    (show 6 ≤ maxCapacity by decide) [.insertMany [(2, 20), (1, 10), (3, 30)]]
  have len : m.len = 3 := follows.len
  have capacity : m.capacity = 6 := follows.capacity
  obtain ⟨answer, n, n', first, second, -, -, agree, contents⟩ := updates_commute order
    reachable [.removeEntry (-1), .insert 4 40, .insert (-2) 21, .insert 5 50]
    [.insert 4 40, .insert 5 50, .insert (-2) 21, .removeEntry (-1)] (by decide)
    (by rw [len, capacity]; decide) (by decide)
  obtain ⟨k, first', follows'⟩ := run_run follows
    [.removeEntry (-1), .insert 4 40, .insert (-2) 21, .insert 5 50]
  obtain ⟨k', second', follows''⟩ := run_run follows
    [.insert 4 40, .insert 5 50, .insert (-2) 21, .removeEntry (-1)]
  obtain ⟨-, rfl⟩ := EStateM.Result.ok.inj (first.symm.trans first')
  obtain ⟨-, rfl⟩ := EStateM.Result.ok.inj (second.symm.trans second')
  exact ⟨order, m, n, n', _, ran, reachable, first', second', agree, contents, _, _,
    toTree_run follows', toTree_run follows'', by decide +kernel, by decide +kernel⟩

end BoundedMap.Map
