import BoundedMap.Proofs.Chart.Listing
import BoundedMap.Proofs.Chart.Reachable
/-!
# Maps refine sorted lists

Under a strict weak order a map answers every sequence of requests as a list of
entries in ascending order does, which has no tree, no slots and no heights. The
map goes through its chart: it follows the chart (`run_run`), and the chart
answers as its list (`list_run`).
-/

namespace BoundedMap.Map

variable {α β : Type} {less : α → α → Bool}

/-- From the empty map on, every answer is that of the bounded list of entries in
ascending order. The list stays ascending and within its capacity, its look-up
finds the one entry whose key matches, and the map's entries are always those of
the list. -/
theorem run_eq_sortedList (order : StrictWeak less) {capacity : Nat}
    (small : capacity ≤ maxCapacity) (requests : List (Request α β)) :
    ∃ m answers n s, withCapacity less capacity = .ok m ∧
      (SortedList.empty less capacity).run requests = (answers, s) ∧
      run requests m = .ok answers n ∧ n.entries = .ok s.entries ∧
      s.less = less ∧ s.capacity = capacity ∧ s.Valid ∧
      ∀ probe e, s.find? probe = some e ↔
        e ∈ s.entries ∧ SortedList.same less probe e.1 = true := by
  have follows : (ofPool less (Pool.fresh capacity) : Map α β).Follows
    (Chart.empty less capacity) := follows_ofPool less small
  have sorted := Chart.sorted_empty (β := β) order capacity
  obtain ⟨n, ran, follows'⟩ := run_run follows requests
  have modelled := Chart.list_run follows.valid sorted requests
  have alike := Chart.alike_run (a := Chart.empty less capacity) requests
  have sorted' := Chart.sorted_run sorted requests
  have valid := Chart.list_valid follows'.valid sorted'
  refine ⟨_, _, n, _, withCapacity_eq less small, modelled, ran, entries_run follows',
    alike.less, alike.capacity, valid, ?_⟩
  intro probe e
  rw [SortedList.find?_eq_some_iff sorted'.order valid.ascending]
  show _ ∧ SortedList.same ((Chart.empty less capacity).run requests).2.less probe e.1 = true ↔ _
  rw [alike.less]
  rfl

/-- Keys of equal magnitude are one key: the second one overwrites the value and
keeps the key that was there first, even in a full map. -/
theorem run_by_magnitude :
    StrictWeak (Order.through Int.natAbs) ∧ 1 ≤ maxCapacity ∧
      ∃ m n : Map Int Nat, withCapacity (Order.through Int.natAbs) 1 = .ok m ∧
        run [.insert 2 10, .insert (-2) 20, .insert 3 30, .entries] m =
          .ok [.value none, .value (some 10), .refused (.exhausted 1), .entries [(2, 20)]] n := by
  have order : StrictWeak (Order.through Int.natAbs) := Order.strictWeak_through _
  have small : 1 ≤ maxCapacity := by decide
  obtain ⟨m, answers, n, s, built, modelled, ran, -⟩ := run_eq_sortedList (β := Nat) order small
    [.insert 2 10, .insert (-2) 20, .insert 3 30, .entries]
  obtain ⟨rfl, -⟩ := Prod.mk.inj modelled
  exact ⟨order, small, m, n, built, ran⟩

end BoundedMap.Map
