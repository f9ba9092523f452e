import BoundedMap.Proofs.Map.Equality
import BoundedMap.Proofs.Model.Bindings
/-!
# Maps that are built from entries

A map that is built from entries gets as many slots as there are entries, before anything is
known of their keys. That is always enough: a pair takes at most one slot, whatever the
predicate answers. Nor do the slots that are left over play a part, and so the map is, slot by
slot, the one that insertions make of any larger map (`insertMany_within`).

Under a strict weak order each class of keys is left with its first key and its last value, and
the map is full when no class was met twice (`ofEntries_total`).
-/

namespace BoundedMap

namespace Chart

variable {α β : Type}

/-- Insertions are not refused as long as there is a free slot for each of them. What they make
of the tree depends on no other slot, and not on the capacity. -/
theorem insertMany_within (less : α → α → Bool) (pairs : List (α × β)) (t : Tree Handle α β)
    (free : List Handle) (room : pairs.length ≤ free.length) :
    ∃ u left, ∀ capacity rest,
      (⟨less, capacity, t, free ++ rest⟩ : Chart α β).insertMany pairs =
        (.ok (), ⟨less, capacity, u, left ++ rest⟩) := by
  induction pairs generalizing t free with
  | nil => exact ⟨t, free, fun capacity rest => rfl⟩
  | cons pair pairs ih =>
    obtain ⟨key, value⟩ := pair
    rw [List.length_cons] at room
    cases found : t.find? less key with
    | some c =>
      -- the key is bound, so no slot is taken
      obtain ⟨u, left, ran⟩ := ih (t.insert less c.label key value).1 free (by omega)
      refine ⟨u, left, fun capacity rest => ?_⟩
      rw [insertMany, insert_of_find? (a := ⟨less, capacity, t, free ++ rest⟩) found value]
      exact ran capacity rest
    | none =>
      cases free with
      | nil => simp at room
      | cons h free =>
        rw [List.length_cons] at room
        obtain ⟨u, left, ran⟩ := ih (t.insert less h key value).1 free (by omega)
        refine ⟨u, left, fun capacity rest => ?_⟩
        rw [insertMany, insert_of_free (a := ⟨less, capacity, t, h :: free ++ rest⟩) found
          (List.cons_append ..) value]
        exact ran capacity rest

/-- Insertions into an empty chart that has a slot for each of them. -/
theorem insertMany_empty (less : α → α → Bool) (pairs : List (α × β)) :
    ∃ u, ∀ capacity, pairs.length ≤ capacity → ∃ left,
      (empty less capacity).insertMany pairs = (.ok (), ⟨less, capacity, u, left⟩) := by
  obtain ⟨u, left, ran⟩ := insertMany_within less pairs .nil
    ((List.range pairs.length).map .ofIndex) (by simp)
  refine ⟨u, fun capacity room => ?_⟩
  obtain ⟨more, rfl⟩ := Nat.exists_eq_add_of_le room
  have fits := ran (pairs.length + more)
    (((List.range more).map (pairs.length + ·)).map Handle.ofIndex)
  rw [← List.map_append, ← List.range_add] at fits
  exact ⟨_, fits⟩

/-- Under a strict weak order the entries are those of the bindings. -/
theorem entries_of_insertMany {less : α → α → Bool} (order : StrictWeak less)
    {capacity : Nat} (small : capacity ≤ maxCapacity) {pairs : List (α × β)} {a : Chart α β}
    (ran : (empty less capacity).insertMany pairs = (.ok (), a)) :
    a.tree.entries = SortedList.bindAll less pairs := by
  have modelled := list_insertMany (valid_empty less small) (sorted_empty order capacity) pairs
  rw [ran] at modelled
  exact SortedList.entries_of_insertMany modelled

end Chart

namespace Map

variable {α β : Type} {m n : Map α β} {a : Chart α β} {less : α → α → Bool}

/-- Whatever number is announced, the entries are gathered as they are. -/
theorem gather_eq (hint : Option Nat) (entries : List (α × β)) :
    gather hint entries = entries.toArray := by
  rw [gather, List.foldl_push_eq_append']
  exact Array.empty_append

/-- Insertions that are not refused in the chart of a new map are not refused in the map. -/
theorem insertMany_ofPool {capacity : Nat} (small : capacity ≤ maxCapacity)
    {pairs : List (α × β)} (ran : (Chart.empty less capacity).insertMany pairs = (.ok (), a)) :
    ∃ n, insertMany pairs (ofPool less (Pool.fresh capacity)) = .ok () n ∧ n.Follows a := by
  have inserted := insertMany_run (follows_ofPool less small) pairs
  rw [ran] at inserted
  exact inserted

/-- A map that is built from entries follows what inserting them makes of an empty chart. -/
theorem ofEntries_run (less : α → α → Bool) {read : List (α × β)}
    (few : read.length ≤ maxCapacity)
    (ran : (Chart.empty less read.length).insertMany read = (.ok (), a)) :
    ∃ m, (∀ hint, ofEntries less hint read = .ok m) ∧ m.Follows a := by
  obtain ⟨m, inserted, follows⟩ := insertMany_ofPool few ran
  refine ⟨m, fun hint => ?_, follows⟩
  simp only [ofEntries, gather_eq, List.size_toArray, withCapacity_eq less few, inserted]

/-- A map can be built from every sequence of entries that handles can name, whatever the
predicate and whatever number of entries was announced. It is well-formed, has a slot for each
of the entries, and is the map that insertions make of any map with that much room, down to the
slots. Under a strict weak order its entries are one for each class of keys, the first key with
the last value, and it is full when all classes differ. -/
theorem ofEntries_total (less : α → α → Bool) {read : List (α × β)}
    (few : read.length ≤ maxCapacity) :
    ∃ m t es, (∀ hint, ofEntries less hint read = .ok m) ∧ m.less = less ∧ m.WellFormed ∧
      m.capacity = read.length ∧ m.len ≤ read.length ∧ m.toTree = .ok t ∧ m.entries = .ok es ∧
      (∀ capacity, read.length ≤ capacity → capacity ≤ maxCapacity →
        ∃ start n, withCapacity less capacity = .ok start ∧ insertMany read start = .ok () n ∧
          n.toTree = .ok t ∧ n.entries = .ok es ∧ n.len = m.len ∧
          ∀ [BEq α] [LawfulBEq α] [BEq β] [LawfulBEq β], m.agrees n = .ok true) ∧
      (StrictWeak less → SortedList.Condenses less read es ∧
        (m.isFull = true ↔ read.Pairwise fun d e => SortedList.same less d.1 e.1 = false)) := by
  obtain ⟨t, ran⟩ := Chart.insertMany_empty less read
  obtain ⟨free, exact⟩ := ran read.length (Nat.le_refl _)
  obtain ⟨m, built, follows⟩ := ofEntries_run less few exact
  have capacity : m.capacity = read.length := follows.capacity
  have few_entries : m.len ≤ read.length := by
    rw [follows.len]
    exact follows.valid.size_le
  refine ⟨m, t, t.entries, built, follows.less, follows.wellFormed, capacity, few_entries,
    toTree_run follows, entries_run follows, ?_, ?_⟩
  · intro larger room small
    obtain ⟨free', wider⟩ := ran larger room
    obtain ⟨n, inserted', follows'⟩ := insertMany_ofPool small wider
    refine ⟨_, n, withCapacity_eq less small, inserted', toTree_run follows', entries_run follows',
      follows'.len.trans follows.len.symm, ?_⟩
    intro _ _ _ _
    rw [agrees_run follows follows', beq_self_eq_true]
  · intro order
    have entries : t.entries = SortedList.bindAll less read :=
      Chart.entries_of_insertMany order few exact
    have len : m.len = t.entries.length := follows.len_entries
    rw [isFull, beq_iff_eq, capacity, len, entries]
    exact ⟨SortedList.condenses_bindAll order read, (SortedList.length_bindAll order read).2⟩

/-- Two of three keys have the same magnitude and the announced number is absurd: the class has
its first key and its last value, and one slot stays free. Without an order nothing is found
again and all three entries are kept. -/
theorem ofEntries_repeated :
    3 ≤ maxCapacity ∧ StrictWeak (Order.through Int.natAbs) ∧
    ∃ m n : Map Int Nat,
      ofEntries (Order.through Int.natAbs) (some 18446744073709551615)
        [(3, 30), (-2, 20), (2, 21)] = .ok m ∧
      m.entries = .ok [(-2, 21), (3, 30)] ∧ m.capacity = 3 ∧ m.isFull = false ∧
      SortedList.Condenses (Order.through Int.natAbs) [(3, 30), (-2, 20), (2, 21)]
        [(-2, 21), (3, 30)] ∧
      ofEntries (fun _ _ => true) none [(3, 30), (-2, 20), (2, 21)] = .ok n ∧
      n.entries = .ok [(2, 21), (-2, 20), (3, 30)] ∧ n.WellFormed := by
  have few : [((3 : Int), 30), (-2, 20), (2, 21)].length ≤ maxCapacity := by decide
  have order : StrictWeak (Order.through Int.natAbs) := Order.strictWeak_through _
  obtain ⟨m, t, es, built, -, -, capacity, -, -, entries, -, lawful⟩ :=
    ofEntries_total (Order.through Int.natAbs) few
  obtain ⟨n, u, fs, built', -, wellFormed, -, -, -, entries', -⟩ :=
    ofEntries_total (fun _ _ => true) few
  -- the charts tell which entries are left
  obtain ⟨k, same, follows⟩ := ofEntries_run (Order.through Int.natAbs) few rfl
  obtain rfl := Except.ok.inj ((built none).symm.trans (same none))
  obtain rfl := Except.ok.inj (entries.symm.trans (entries_run follows))
  obtain ⟨k, same, follows'⟩ := ofEntries_run (fun _ _ => true) few rfl
  obtain rfl := Except.ok.inj ((built' none).symm.trans (same none))
  obtain rfl := Except.ok.inj (entries'.symm.trans (entries_run follows'))
  obtain ⟨condenses, full⟩ := lawful order
  refine ⟨few, order, m, n, built _, entries, capacity, ?_, condenses, built' none, entries',
    wellFormed⟩
  rw [Bool.eq_false_iff, ne_eq, full]
  decide

end Map

end BoundedMap
