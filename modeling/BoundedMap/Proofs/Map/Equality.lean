import BoundedMap.Proofs.Chart.Reachable
/-!
# Equal maps answer alike

Equality compares the entries from left to right. A look-up goes down a tree, and the trees of
equal maps need have nothing in common: they depend on the capacities and on all that was asked
of the maps before. Under a strict weak order the two views agree all the same, because an
ascending list is determined by its look-ups (`agrees_iff_lookup`).
-/

namespace BoundedMap.Map

variable {α β : Type} {m n : Map α β} {a b : Chart α β} {less : α → α → Bool}

/-- Two maps that no reading of their entries tells apart, from either end or from both. -/
structure SameContents (m n : Map α β) : Prop where
  len : m.len = n.len
  first : ∃ e, m.first? = .ok e ∧ n.first? = .ok e
  last : ∃ e, m.last? = .ok e ∧ n.last? = .ok e
  entries : ∃ es, m.entries = .ok es ∧ n.entries = .ok es
  entriesDown : ∃ es, m.entriesDown = .ok es ∧ n.entriesDown = .ok es
  cursor : ∃ c d, m.cursor = .ok c ∧ n.cursor = .ok d ∧
    ∀ (γ : Type) (view : α × β → γ) (requests : List Cursor.Request), ∃ answers c' d',
      Cursor.run view requests c = .ok (answers, c') ∧
        Cursor.run view requests d = .ok (answers, d')

/-- Equality of maps is equality of their lists of entries. -/
theorem agrees_run [BEq α] [BEq β] (follows : m.Follows a) (follows' : n.Follows b) :
    m.agrees n = .ok (a.tree.entries == b.tree.entries) := by
  unfold agrees
  rw [follows.len_entries, follows'.len_entries]
  by_cases sizes : a.tree.entries.length = b.tree.entries.length
  · rw [if_pos (beq_iff_eq.2 sizes), entries_run follows, entries_run follows']
    rfl
  · have differ : (a.tree.entries == b.tree.entries) = false := by
      show a.tree.entries.beq b.tree.entries = false
      rw [List.beq_eq_isEqv, List.isEqv_eq_decide, dif_neg sizes]
    rw [if_neg (mt beq_iff_eq.1 sizes), differ]
    rfl

theorem sameContents_of_entries (follows : m.Follows a) (follows' : n.Follows b)
    (same : a.tree.entries = b.tree.entries) : m.SameContents n where
  len := by
    rw [follows.len_entries, follows'.len_entries, same]
  first := by
    refine ⟨_, outermost?_run follows .left, ?_⟩
    rw [Tree.entriesFrom_left, same, ← Tree.entriesFrom_left]
    exact outermost?_run follows' .left
  last := by
    refine ⟨_, outermost?_run follows .right, ?_⟩
    rw [Tree.entriesFrom_right, same, ← Tree.entriesFrom_right]
    exact outermost?_run follows' .right
  entries := ⟨_, entries_run follows, same ▸ entries_run follows'⟩
  entriesDown := ⟨_, entriesDown_run follows, same ▸ entriesDown_run follows'⟩
  cursor := by
    obtain ⟨c, started, walks⟩ := cursor_run follows
    obtain ⟨d, started', walks'⟩ := cursor_run follows'
    refine ⟨c, d, started, started', fun γ view requests => ?_⟩
    obtain ⟨c', ran, -⟩ := Cursor.run_run walks view requests
    obtain ⟨d', ran', -⟩ := Cursor.run_run walks' view requests
    rw [← same] at ran'
    exact ⟨_, c', d', ran, ran'⟩

/-- Whether two maps are equal can be told, and under a strict weak order they are when every
look-up has the same answer in both. Equal maps are then alike in all that is read of their
entries. Nothing is asked of their capacities or of how they came about. -/
theorem agrees_iff_lookup [BEq α] [LawfulBEq α] [BEq β] [LawfulBEq β] (order : StrictWeak less)
    (reachable : Reachable less m) (reachable' : Reachable less n) :
    ∃ same, m.agrees n = .ok same ∧
      (same = true ↔ ∀ probe, ∃ e, m.lookup? probe = .ok e ∧ n.lookup? probe = .ok e) ∧
      (same = true → m.SameContents n) := by
  obtain ⟨a, follows, rfl⟩ := reachable.follows
  obtain ⟨b, follows', alike⟩ := reachable'.follows
  have sorted := follows.sorted reachable order
  have sorted' := follows'.sorted reachable' order
  refine ⟨_, agrees_run follows follows', ?_, ?_⟩
  · rw [beq_iff_eq]
    constructor
    · intro same probe
      refine ⟨_, lookup?_run follows probe, ?_⟩
      rw [lookup?_run follows', ← Chart.list_find? sorted, ← Chart.list_find? sorted',
        Chart.list, Chart.list, SortedList.find?, SortedList.find?, same, alike]
    · intro answers
      refine SortedList.eq_of_find? (s := a.list) (t := b.list) order alike
        (Chart.list_valid follows.valid sorted).ascending
        (Chart.list_valid follows'.valid sorted').ascending fun probe => ?_
      obtain ⟨e, left, right⟩ := answers probe
      rw [Chart.list_find? sorted, Chart.list_find? sorted']
      rw [lookup?_run follows, Except.ok.injEq] at left
      rw [lookup?_run follows', Except.ok.injEq] at right
      rw [left, right]
  · intro same
    exact sameContents_of_entries follows follows' (beq_iff_eq.1 same)

/-- Two maps ordered by magnitude. One was filled in ascending order and leans to the right; the
other has more room, a key was removed from it, and it leans to the left. Nothing that is read
of their entries tells them apart. -/
theorem agrees_of_leaning :
    StrictWeak (Order.through Int.natAbs) ∧
    ∃ (m n : Map Int Nat) (answers answers' : List (Answer Int Nat)),
      run [.insertMany [(1, 10), (-2, 20)]]
        (ofPool (Order.through Int.natAbs) (.fresh 2)) = .ok answers m ∧
      run [.insertMany [(-2, 0), (9, 90), (1, 10)], .remove (-9), .insert 2 20]
        (ofPool (Order.through Int.natAbs) (.fresh 8)) = .ok answers' n ∧
      Reachable (Order.through Int.natAbs) m ∧ Reachable (Order.through Int.natAbs) n ∧
      (∃ t u, m.toTree = .ok t ∧ n.toTree = .ok u ∧ t.erase ≠ u.erase) ∧
      m.agrees n = .ok true ∧ m.SameContents n ∧
      ∃ e, m.lookup? 2 = .ok e ∧ n.lookup? 2 = .ok e := by
  have order : StrictWeak (Order.through Int.natAbs) := Order.strictWeak_through _
  obtain ⟨m, ran, reachable, follows⟩ := run_ofPool (Order.through Int.natAbs)
    (show 2 ≤ maxCapacity by decide) [.insertMany [(1, 10), (-2, 20)]]
  obtain ⟨n, ran', reachable', follows'⟩ := run_ofPool (Order.through Int.natAbs)
    (show 8 ≤ maxCapacity by decide)
    [.insertMany [(-2, 0), (9, 90), (1, 10)], .remove (-9), .insert 2 20]
  obtain ⟨same, told, lookups, contents⟩ := agrees_iff_lookup order reachable reachable'
  obtain rfl : same = true :=
    Except.ok.inj (told.symm.trans (agrees_run follows follows'))
  exact ⟨order, m, n, _, _, ran, ran', reachable, reachable',
    ⟨_, _, toTree_run follows, toTree_run follows', by decide +kernel⟩, told, contents rfl,
    lookups.1 rfl 2⟩

end BoundedMap.Map
