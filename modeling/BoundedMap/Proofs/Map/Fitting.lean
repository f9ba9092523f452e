import BoundedMap.Proofs.Chart.Reachable
import BoundedMap.Proofs.Model.Counting
/-!
# Insertions in turn, and how far they get

Under a strict weak order a sequence of pairs can be inserted into a map if the classes of its keys
and of the stored ones are not more than the map has slots. Otherwise the pairs are inserted up to
the first with which the classes become too many, and nothing after it has an effect
(`insertMany_fits`).
-/

namespace BoundedMap.Map

open SortedList (load bindOnto)

variable {α β : Type} {m n : Map α β} {a : Chart α β} {less : α → α → Bool}
  {pairs before : List (α × β)}

/-- What is inserted after other pairs is inserted into the map that these have left. -/
theorem insertMany_append (done : insertMany before m = .ok () n) (later : List (α × β)) :
    insertMany (before ++ later) m = insertMany later n := by
  induction before generalizing m with
  | nil =>
    cases done
    rfl
  | cons d before ih =>
    rw [List.cons_append]
    cases first : insert d.1 d.2 m with
    | error e k =>
      rw [insertMany_cons_of_error first] at done
      cases done
    | ok old k =>
      rw [insertMany_cons_of_ok first] at done ⊢
      exact ih done

/-- Pairs for which there is room are inserted, and the map has their bindings then. -/
theorem insertMany_of_room (follows : m.Follows a) (sorted : a.Sorted)
    (room : load a.less a.tree.entries pairs ≤ a.capacity) :
    ∃ n b, insertMany pairs m = .ok () n ∧ n.Follows b ∧ b.Sorted ∧
      b.list = a.list.bound pairs := by
  have modelled := Chart.list_insertMany follows.valid sorted pairs
  rw [SortedList.insertMany_of_room (s := a.list) sorted.order
    (Chart.list_valid follows.valid sorted) room] at modelled
  have ran := insertMany_run follows pairs
  have sorted' := Chart.sorted_insertMany sorted pairs
  cases outcome : a.insertMany pairs with
  | mk result b =>
    rw [outcome] at modelled ran sorted'
    obtain ⟨rfl, list⟩ := Prod.mk.inj modelled
    obtain ⟨n, done, follows'⟩ := ran
    exact ⟨n, b, done, follows', sorted', list.symm⟩

/-- Pairs of which the first has no room are refused together, and the map stays as it is. -/
theorem insertMany_of_crowded (follows : m.Follows a) (sorted : a.Sorted) (d : α × β)
    (crowded : a.capacity < load a.less a.tree.entries [d]) (after : List (α × β)) :
    insertMany (d :: after) m = .error (.refused (.exhausted m.capacity)) m ∧
      m.isFull = true := by
  obtain ⟨refused, full⟩ := SortedList.insert_of_crowded (s := a.list) sorted.order
    (Chart.list_valid follows.valid sorted) d crowded
  rw [Chart.list_insert follows.valid sorted] at refused
  cases outcome : a.insert d.1 d.2 with
  | mk result b =>
    rw [outcome] at refused
    obtain ⟨rfl, -⟩ := Prod.mk.inj refused
    refine ⟨insertMany_cons_of_error (insert_of_refused follows outcome), ?_⟩
    have capacity : m.capacity = a.capacity := follows.capacity
    rw [isFull, follows.len_entries, capacity]
    exact full

/-- Pairs for which there is no room are inserted up to the first with which the room ends. -/
theorem insertMany_stops (follows : m.Follows a) (sorted : a.Sorted)
    (crowded : a.capacity < load a.less a.tree.entries pairs) :
    ∃ before d after n, pairs = before ++ d :: after ∧
      load a.less a.tree.entries before ≤ a.capacity ∧
      a.capacity < load a.less a.tree.entries (before ++ [d]) ∧
      insertMany before m = .ok () n ∧ n.entries = .ok (bindOnto a.less a.tree.entries before) ∧
      insertMany pairs m = .error (.refused (.exhausted m.capacity)) n ∧ n.isFull = true := by
  obtain ⟨ascending, few⟩ := Chart.list_valid follows.valid sorted
  have fits : load a.less a.tree.entries [] ≤ a.capacity :=
    (SortedList.length_bindOnto sorted.order ascending []).symm.trans_le few
  obtain ⟨before, d, after, rfl, room, ends⟩ := SortedList.exists_first_crowded fits crowded
  obtain ⟨n, b, done, follows', sorted', list⟩ := insertMany_of_room follows sorted room
  have less' : b.less = a.less := congrArg SortedList.less list
  have capacity' : b.capacity = a.capacity := congrArg SortedList.capacity list
  have entries : b.tree.entries = bindOnto a.less a.tree.entries before :=
    congrArg SortedList.entries list
  have next : b.capacity < load b.less b.tree.entries [d] := by
    rw [less', capacity', entries]
    exact ends.trans_eq (SortedList.load_bindOnto sorted.order ascending before [d]).symm
  obtain ⟨refused, full⟩ := insertMany_of_crowded follows' sorted' d next after
  have same : n.capacity = m.capacity :=
    follows'.capacity.trans (capacity'.trans follows.capacity.symm)
  refine ⟨before, d, after, n, rfl, room, ends, done, ?_, ?_, full⟩
  · rw [entries_run follows', entries]
  · rw [insertMany_append done, refused, same]

/-- Pairs can be inserted exactly when the classes of their keys and of the stored ones are not more
than the slots. Otherwise there is a first pair with which they are more. It is refused, the map is
full, and it is the one that inserting the pairs before it makes: those after it have no effect,
whether they are new or not. -/
theorem insertMany_fits (order : StrictWeak less) (reachable : Reachable less m)
    (pairs : List (α × β)) :
    ∃ es, m.entries = .ok es ∧
      ((∃ n, insertMany pairs m = .ok () n) ↔ load less es pairs ≤ m.capacity) ∧
      (∀ n, insertMany pairs m = .ok () n →
        n.len = load less es pairs ∧ n.entries = .ok (bindOnto less es pairs)) ∧
      (m.capacity < load less es pairs → ∃ before d after n, pairs = before ++ d :: after ∧
        (∀ ps, ps <+: before → load less es ps ≤ m.capacity) ∧
        m.capacity < load less es (before ++ [d]) ∧
        insertMany before m = .ok () n ∧ n.entries = .ok (bindOnto less es before) ∧
        insertMany pairs m = .error (.refused (.exhausted m.capacity)) n ∧ n.isFull = true) := by
  obtain ⟨a, follows, rfl⟩ := reachable.follows
  have sorted := follows.sorted reachable order
  have capacity : m.capacity = a.capacity := follows.capacity
  rw [capacity]
  have room_of_done : ∀ n, insertMany pairs m = .ok () n →
      load a.less a.tree.entries pairs ≤ a.capacity := by
    intro n done
    by_contra crowded
    obtain ⟨before, d, after, k, -, -, -, -, -, failed, -⟩ :=
      insertMany_stops follows sorted (Nat.lt_of_not_le crowded)
    rw [done] at failed
    cases failed
  refine ⟨a.tree.entries, entries_run follows, ⟨?_, ?_⟩, ?_, ?_⟩
  · rintro ⟨n, done⟩
    exact room_of_done n done
  · intro room
    obtain ⟨n, b, done, -⟩ := insertMany_of_room follows sorted room
    exact ⟨n, done⟩
  · intro n done
    obtain ⟨k, b, done', follows', -, list⟩ :=
      insertMany_of_room follows sorted (room_of_done n done)
    obtain ⟨-, rfl⟩ := EStateM.Result.ok.inj (done.symm.trans done')
    have entries : b.tree.entries = bindOnto a.less a.tree.entries pairs :=
      congrArg SortedList.entries list
    have ascending := (Chart.list_valid follows.valid sorted).ascending
    rw [follows'.len_entries, entries_run follows', entries]
    exact ⟨SortedList.length_bindOnto order ascending pairs, rfl⟩
  · intro crowded
    obtain ⟨before, d, after, n, cut, room, ends, done, entries, failed, full⟩ :=
      insertMany_stops follows sorted crowded
    refine ⟨before, d, after, n, cut, ?_, ends, done, entries, capacity ▸ failed, full⟩
    intro ps within
    exact Nat.le_trans (SortedList.load_mono _ _ within.subset) room

/-- Two of three slots are taken, and keys of one magnitude are one key. Of four pairs the first
binds a stored key anew and the second takes the last slot; the third is refused, and the fourth,
which needs no slot, has no effect. -/
theorem insertMany_fits_by_magnitude :
    StrictWeak (Order.through Int.natAbs) ∧
    ∃ m n : Map Int Nat,
      perform (.insertMany [(3, 30), (-2, 20)]) (ofPool (Order.through Int.natAbs) (.fresh 3)) =
        .ok .done m ∧
      Reachable (Order.through Int.natAbs) m ∧
      load (Order.through Int.natAbs) [(-2, 20), (3, 30)] [(2, 5), (1, 1)] = 3 ∧
      (∃ k, insertMany [(2, 5), (1, 1)] m = .ok () k) ∧
      load (Order.through Int.natAbs) [(-2, 20), (3, 30)]
        [(2, 5), (1, 1), (-4, 4), (3, 9)] = 4 ∧
      insertMany [(2, 5), (1, 1), (-4, 4), (3, 9)] m = .error (.refused (.exhausted 3)) n ∧
      n.isFull = true ∧ n.entries = .ok [(1, 1), (-2, 5), (3, 30)] := by
  have order : StrictWeak (Order.through Int.natAbs) := Order.strictWeak_through _
  obtain ⟨m, built, reachable, follows⟩ := perform_ofPool (Order.through Int.natAbs)
    (show 3 ≤ maxCapacity by decide) (.insertMany [(3, 30), (-2, 20)])
  have three : load (Order.through Int.natAbs) [(-2, 20), (3, 30)] [(2, 5), (1, 1)] = 3 :=
    (SortedList.length_bindOnto order (by decide) _).symm
  have four : load (Order.through Int.natAbs) [(-2, 20), (3, 30)]
      [(2, 5), (1, 1), (-4, 4), (3, 9)] = 4 :=
    (SortedList.length_bindOnto order (by decide) _).symm
  have capacity : m.capacity = 3 := follows.capacity
  obtain ⟨es, listed, fits, -⟩ := insertMany_fits order reachable [(2, 5), (1, 1)]
  obtain rfl := Except.ok.inj ((entries_run follows).symm.trans listed)
  obtain ⟨fs, listed', -, -, ends⟩ :=
    insertMany_fits order reachable [(2, 5), (1, 1), (-4, 4), (3, 9)]
  obtain rfl := Except.ok.inj (listed.symm.trans listed')
  have crowded : m.capacity < load (Order.through Int.natAbs) [(-2, 20), (3, 30)]
      [(2, 5), (1, 1), (-4, 4), (3, 9)] := by
    rw [capacity]
    exact four.symm ▸ (by decide)
  obtain ⟨before, d, after, n, -, -, -, -, -, failed, full⟩ := ends crowded
  rw [capacity] at failed
  have ran := insertMany_run follows [(2, 5), (1, 1), (-4, 4), (3, 9)]
  obtain ⟨k, failed', follows'⟩ := ran
  obtain ⟨-, rfl⟩ := EStateM.Result.error.inj (failed.symm.trans failed')
  refine ⟨order, m, n, built, reachable, three, fits.2 ?_, four, failed, full,
    entries_run follows'⟩
  rw [capacity]
  exact Nat.le_of_eq three

end BoundedMap.Map
