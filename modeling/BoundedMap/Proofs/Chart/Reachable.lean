import BoundedMap.Map.WellFormed
import BoundedMap.Proofs.Chart.Follows
import BoundedMap.Proofs.Chart.Listing
/-!
# Reachable maps have charts

A fresh pool lists its slots in the order of their indices, so a new map follows
the empty chart of its capacity. With that every reachable map follows a chart that requests
have made of an empty one (`Reachable.follows_run`).
-/

namespace BoundedMap

namespace Map

variable {α β : Type} {m : Map α β} {less : α → α → Bool}

/-- A new map follows the empty chart. -/
theorem follows_ofPool (less : α → α → Bool) {capacity : Nat} (small : capacity ≤ maxCapacity) :
    (ofPool less (Pool.fresh capacity) : Map α β).Follows (Chart.empty less capacity) where
  less := rfl
  capacity := Pool.capacity_fresh capacity
  spells := .nil
  lists := Pool.lists_fresh small
  live := rfl
  len := rfl
  valid := Chart.valid_empty less small

/-- Every capacity that handles can name yields a map. -/
theorem withCapacity_eq (less : α → α → Bool) {capacity : Nat} (small : capacity ≤ maxCapacity) :
    (withCapacity less capacity : Except Refusal (Map α β)) =
      .ok (ofPool less (Pool.fresh capacity)) := by
  have allocated : (Pool.allocateFrom .ample capacity : Except Refusal (Pool α β)) =
      .ok (.fresh capacity) := Pool.allocate_eq small
  rw [withCapacity, withCapacityFrom, allocated]

/-- A capacity that handles cannot name is refused. -/
theorem withCapacity_of_large (less : α → α → Bool) {capacity : Nat}
    (large : maxCapacity < capacity) : (withCapacity less capacity : Except Refusal (Map α β)) =
      .error (.capacityOverflow capacity maxCapacity) := by
  have refused : (Pool.allocateFrom .ample capacity : Except Refusal (Pool α β)) =
      .error (.capacityOverflow capacity maxCapacity) := Pool.allocate_of_large large
  rw [withCapacity, withCapacityFrom, refused]

/-- Memory decides whether there is a new map, and not which one. -/
theorem withCapacity_of_withCapacityFrom {memory : Memory} {capacity : Nat}
    (built : withCapacityFrom memory less capacity = .ok m) :
    withCapacity less capacity = .ok m := by
  unfold withCapacityFrom at built
  split at built
  · rename_i pool allocated
    have same : Pool.allocateFrom .ample capacity = .ok pool :=
      Pool.allocate_of_allocateFrom allocated
    rw [withCapacity, withCapacityFrom, same]
    exact built
  · cases built

theorem follows_of_withCapacity {memory : Memory} {capacity : Nat}
    (built : withCapacityFrom memory less capacity = .ok m) :
    capacity ≤ maxCapacity ∧ m.Follows (Chart.empty less capacity) := by
  have ample := withCapacity_of_withCapacityFrom built
  by_cases small : capacity ≤ maxCapacity
  · rw [withCapacity_eq less small] at ample
    obtain rfl := Except.ok.inj ample
    exact ⟨small, follows_ofPool less small⟩
  · rw [withCapacity_of_large less (Nat.lt_of_not_le small)] at ample
    cases ample

/-- What is built from entries follows what inserting them makes of an empty chart. -/
theorem follows_of_ofEntries {hint : Option Nat} {entries : List (α × β)}
    (built : ofEntries less hint entries = .ok m) :
    ∃ capacity pairs, m.Follows ((Chart.empty less capacity).insertMany pairs).2 := by
  simp only [ofEntries] at built
  generalize gather hint entries = gathered at built
  cases allocated : (withCapacity less gathered.size : Except Refusal (Map α β)) with
  | error why =>
    rw [allocated] at built
    cases built
  | ok start =>
    rw [allocated] at built
    obtain ⟨-, follows⟩ := follows_of_withCapacity allocated
    have inserted := insertMany_run follows gathered.toList
    refine ⟨gathered.size, gathered.toList, ?_⟩
    cases outcome : (Chart.empty less gathered.size).insertMany gathered.toList with
    | mk result b =>
      rw [outcome] at inserted
      cases result with
      | ok done =>
        obtain ⟨n, run, follows'⟩ := inserted
        simp only [run] at built
        obtain rfl := Except.ok.inj built
        exact follows'
      | error why =>
        obtain ⟨n, run, -⟩ := inserted
        simp only [run] at built
        cases built

/-- Every reachable map follows a chart that requests have made of an empty one. -/
theorem Reachable.follows_run (reachable : Reachable less m) :
    ∃ capacity requests, m.Follows ((Chart.empty less capacity).run requests).2 := by
  induction reachable with
  | @withCapacity memory capacity m built =>
    exact ⟨capacity, [], (follows_of_withCapacity built).2⟩
  | empty => exact ⟨defaultCapacity, [], follows_ofPool less (by decide)⟩
  | ofEntries built =>
    obtain ⟨capacity, pairs, follows⟩ := follows_of_ofEntries built
    refine ⟨capacity, [.insertMany pairs], ?_⟩
    rwa [Chart.run, Chart.perform, Chart.settle_snd]
  | @perform m n request answer _ done ih =>
    obtain ⟨capacity, requests, follows⟩ := ih
    -- a request has one outcome, so the map it led to is the one that follows
    obtain ⟨n', done', follows'⟩ := perform_run follows request
    rw [done] at done'
    obtain ⟨-, rfl⟩ := EStateM.Result.ok.inj done'
    refine ⟨capacity, requests ++ [request], ?_⟩
    rwa [Chart.run_concat]

/-- Every reachable map follows a chart under the same predicate. -/
theorem Reachable.follows (reachable : Reachable less m) : ∃ a, m.Follows a ∧ a.less = less := by
  obtain ⟨capacity, requests, follows⟩ := reachable.follows_run
  exact ⟨_, follows, (Chart.alike_run (a := Chart.empty less capacity) requests).less⟩

theorem Reachable.less_eq (reachable : Reachable less m) : m.less = less := by
  obtain ⟨a, follows, same⟩ := reachable.follows
  exact follows.less.trans same

/-- A map that was reached under a strict weak order follows a chart in which keys ascend. -/
theorem Reachable.follows_sorted (reachable : Reachable less m) (order : StrictWeak less) :
    ∃ a, m.Follows a ∧ a.Sorted := by
  obtain ⟨capacity, requests, follows⟩ := reachable.follows_run
  exact ⟨_, follows, Chart.sorted_run (Chart.sorted_empty order capacity) requests⟩

/-- Under a strict weak order the keys of every chart that shows a reachable map ascend. -/
theorem Follows.sorted {a : Chart α β} (follows : m.Follows a) (reachable : Reachable less m)
    (order : StrictWeak less) : a.Sorted := by
  obtain ⟨b, follows', sorted⟩ := reachable.follows_sorted order
  have same : b.less = a.less := follows'.less.symm.trans follows.less
  have tree : b.tree = a.tree := follows'.spells.unique follows.spells
  exact ⟨same ▸ sorted.order, same ▸ tree ▸ sorted.ascending⟩

/-- A run leads from a reachable map to one that is reachable and follows the run of its
chart. -/
theorem Reachable.run {a : Chart α β} (reachable : Reachable less m) (follows : m.Follows a)
    (requests : List (Request α β)) : ∃ n, Map.run requests m = .ok (a.run requests).1 n ∧
      Reachable less n ∧ n.Follows (a.run requests).2 := by
  induction requests generalizing m a with
  | nil => exact ⟨m, rfl, reachable, follows⟩
  | cons request rest ih =>
    obtain ⟨k, answered, follows'⟩ := perform_run follows request
    obtain ⟨n, finished, reachable', follows''⟩ := ih (.perform reachable answered) follows'
    exact ⟨n, run_cons_iff.2 ⟨k, answered, finished⟩, reachable', follows''⟩

/-- A map that follows a chart has the shape that every request keeps. -/
theorem Follows.wellFormed {a : Chart α β} (follows : m.Follows a) : m.WellFormed where
  pool := follows.pool_wellFormed
  tree := by
    refine ⟨a.tree, follows.spells, follows.valid.nodup_labels, fun h => ?_,
      follows.valid.avl.heights, follows.valid.avl.balanced, follows.len.symm⟩
    exact ⟨follows.spells.read_of_mem, fun ⟨n, live⟩ => follows.mem_labels_of_read live⟩

/-- What requests make of a new map is reachable, and follows what they make of the empty
chart. -/
theorem run_ofPool (less : α → α → Bool) {capacity : Nat} (small : capacity ≤ maxCapacity)
    (requests : List (Request α β)) :
    ∃ n, Map.run requests (ofPool less (Pool.fresh capacity)) =
        .ok ((Chart.empty less capacity).run requests).1 n ∧
      Reachable less n ∧ n.Follows ((Chart.empty less capacity).run requests).2 :=
  Reachable.run (.withCapacity (withCapacity_eq less small)) (follows_ofPool less small) requests

/-- What one request makes of a new map is reachable, and follows what the request makes of
the empty chart. -/
theorem perform_ofPool (less : α → α → Bool) {capacity : Nat} (small : capacity ≤ maxCapacity)
    (request : Request α β) :
    ∃ n, perform request (ofPool less (Pool.fresh capacity)) =
        .ok ((Chart.empty less capacity).perform request).1 n ∧
      Reachable less n ∧ n.Follows ((Chart.empty less capacity).perform request).2 := by
  obtain ⟨n, done, follows⟩ := perform_run (follows_ofPool less small) request
  exact ⟨n, done, .perform (.withCapacity (withCapacity_eq less small)) done, follows⟩

end Map

end BoundedMap
