import BoundedMap.Proofs.Chart.Basic
import BoundedMap.Proofs.Model.SortedList
/-!
# Charts under a strict weak order

Once the predicate is a strict weak order, the entries of a chart are an ascending
list, and the chart answers every request as the `SortedList` of its entries does
(`list_perform`, `list_run`).
-/

namespace BoundedMap.Chart

variable {α β γ : Type} {a : Chart α β}

/-- The entries of a chart as a bounded list. -/
def list (a : Chart α β) : SortedList α β :=
  ⟨a.less, a.capacity, a.tree.entries⟩

/-- A chart whose keys ascend under a strict weak order. -/
structure Sorted (a : Chart α β) : Prop where
  order : StrictWeak a.less
  ascending : a.tree.Ascending a.less

theorem sorted_empty {less : α → α → Bool} (order : StrictWeak less) (capacity : Nat) :
    (empty less capacity : Chart α β).Sorted :=
  ⟨order, .nil⟩

namespace Sorted

variable (sorted : a.Sorted) (key : α)

include sorted

theorem lower : ∀ e ∈ (a.tree.before a.less key).map Cell.entry, a.less e.1 key = true := by
  intro e member
  obtain ⟨c, inBefore, rfl⟩ := List.mem_map.1 member
  exact Tree.less_of_mem_before sorted.order key sorted.ascending c inBefore

theorem upper : ∀ e ∈ (a.tree.after a.less key).map Cell.entry, a.less key e.1 = true := by
  intro e member
  obtain ⟨c, inAfter, rfl⟩ := List.mem_map.1 member
  exact Tree.less_of_mem_after sorted.order key sorted.ascending c inAfter

end Sorted

theorem same_of_find? {key : α} {c : Cell Handle α β}
    (found : a.tree.find? a.less key = some c) : SortedList.same a.less key c.key = true :=
  SortedList.same_iff.2 (Tree.turn_of_find? found)

/-! ## Each operation -/

/-- A descent finds the entry that the list has for the key. -/
theorem list_find? (sorted : a.Sorted) (key : α) :
    a.list.find? key = (a.tree.find? a.less key).map Cell.entry := by
  rw [SortedList.find?]
  show a.tree.entries.find? (fun e => SortedList.same a.less key e.1) = _
  cases found : a.tree.find? a.less key with
  | none =>
    rw [Tree.entries_of_absent a.less key found]
    exact SortedList.find?_gap (sorted.lower key) (sorted.upper key)
  | some c =>
    rw [Tree.entries_of_find? a.less key found]
    exact SortedList.find?_match (sorted.lower key) (same_of_find? found)

theorem bind_of_find? (sorted : a.Sorted) {key : α} {c : Cell Handle α β}
    (found : a.tree.find? a.less key = some c) (label : Handle) (value : β) :
    SortedList.bind a.less key value a.tree.entries =
      (a.tree.insert a.less label key value).1.entries := by
  rw [Tree.entries_insert_of_find? a.less key found, Tree.entries_of_find? a.less key found]
  exact SortedList.bind_match (sorted.lower key) sorted.order (same_of_find? found)

theorem bind_of_absent (sorted : a.Sorted) {key : α}
    (absent : a.tree.find? a.less key = none) (label : Handle) (value : β) :
    SortedList.bind a.less key value a.tree.entries =
      (a.tree.insert a.less label key value).1.entries := by
  rw [Tree.entries_insert_of_absent a.less key absent, Tree.entries_of_absent a.less key absent]
  exact SortedList.bind_gap (sorted.lower key) (sorted.upper key) sorted.order

theorem list_insert (valid : a.Valid) (sorted : a.Sorted) (key : α) (value : β) :
    a.list.insert key value = ((a.insert key value).1, (a.insert key value).2.list) := by
  rw [SortedList.insert, list_find? sorted]
  cases found : a.tree.find? a.less key with
  | some c =>
    rw [insert_of_find? found]
    simp only [Option.map_some, list, bind_of_find? sorted found c.label]
    rfl
  | none =>
    -- the list counts its entries, the chart looks at its free slots
    have full : a.list.isFull = true ↔ a.free = [] := by
      rw [valid.free_eq_nil_iff, SortedList.isFull, beq_iff_eq, list, Tree.length_entries]
    cases order : a.free with
    | nil =>
      rw [insert_of_full found order, Option.map_none]
      show (if a.list.isFull = true then _ else _) = _
      rw [if_pos (full.2 order)]
      rfl
    | cons h rest =>
      rw [insert_of_free found order, Option.map_none]
      show (if a.list.isFull = true then _ else _) = _
      rw [if_neg (by simp [full, order])]
      simp only [list, bind_of_absent sorted found h]

theorem list_removeEntry (sorted : a.Sorted) (key : α) :
    (a.removeEntry key).1 = a.list.find? key ∧
      (a.removeEntry key).2.list = a.list.erase key := by
  rw [list_find? sorted, SortedList.erase]
  cases found : a.tree.find? a.less key with
  | none =>
    have kept := SortedList.filter_gap (sorted.lower key) (sorted.upper key)
    rw [← Tree.entries_of_absent a.less key found] at kept
    rw [removeEntry_of_absent found]
    refine ⟨rfl, ?_⟩
    show a.list = ⟨a.less, a.capacity,
      a.tree.entries.filter fun e => !SortedList.same a.less key e.1⟩
    rw [kept]
    rfl
  | some c =>
    have cut := SortedList.filter_match (sorted.lower key) (sorted.upper key)
      (e := c.entry) (same_of_find? found)
    rw [← Tree.entries_of_find? a.less key found, ← Tree.entries_remove] at cut
    rw [removeEntry_of_find? found]
    refine ⟨rfl, ?_⟩
    show _ = (⟨a.less, a.capacity,
      a.tree.entries.filter fun e => !SortedList.same a.less key e.1⟩ : SortedList α β)
    rw [cut]
    rfl

theorem list_replace (sorted : a.Sorted) (key : α) (value : β) :
    (a.replace key value).1 = (a.list.find? key).map (·.2) ∧
      (a.replace key value).2.list = a.list.replace key value := by
  rw [SortedList.replace, list_find? sorted]
  cases found : a.tree.find? a.less key with
  | none =>
    rw [replace_of_absent found]
    exact ⟨rfl, rfl⟩
  | some c =>
    rw [replace_of_find? found]
    refine ⟨rfl, ?_⟩
    simp only [Option.map_some, Option.isSome_some, if_pos, list,
      bind_of_find? sorted found c.label]

/-! ## The keys stay in order -/

theorem sorted_insert (sorted : a.Sorted) (key : α) (value : β) :
    (a.insert key value).2.Sorted := by
  have ascending := fun label => Tree.ascending_insert sorted.order sorted.ascending label key value
  cases found : a.tree.find? a.less key with
  | some c =>
    rw [insert_of_find? found]
    exact ⟨sorted.order, ascending c.label⟩
  | none =>
    cases order : a.free with
    | nil =>
      rw [insert_of_full found order]
      exact sorted
    | cons h rest =>
      rw [insert_of_free found order]
      exact ⟨sorted.order, ascending h⟩

theorem sorted_insertMany (sorted : a.Sorted) (pairs : List (α × β)) :
    (a.insertMany pairs).2.Sorted := by
  induction pairs generalizing a with
  | nil => exact sorted
  | cons pair rest ih =>
    have next := sorted_insert sorted pair.1 pair.2
    rw [insertMany]
    split <;> rename_i result <;> rw [result] at next
    · exact ih next
    · exact next

theorem sorted_removeEntry (sorted : a.Sorted) (key : α) : (a.removeEntry key).2.Sorted := by
  cases found : a.tree.find? a.less key with
  | none =>
    rw [removeEntry_of_absent found]
    exact sorted
  | some c =>
    rw [removeEntry_of_find? found]
    exact ⟨sorted.order, Tree.ascending_remove sorted.ascending key⟩

theorem sorted_perform (sorted : a.Sorted) (request : Request α β) :
    (a.perform request).2.Sorted := by
  cases request with
  | insert key value =>
    rw [perform, settle_snd]
    exact sorted_insert sorted key value
  | insertMany pairs =>
    rw [perform, settle_snd]
    exact sorted_insertMany sorted pairs
  | remove key => exact sorted_removeEntry sorted key
  | removeEntry key => exact sorted_removeEntry sorted key
  | replace key value =>
    show (a.replace key value).2.Sorted
    cases found : a.tree.find? a.less key with
    | none =>
      rw [replace_of_absent found]
      exact sorted
    | some c =>
      rw [replace_of_find? found]
      exact ⟨sorted.order, Tree.ascending_insert sorted.order sorted.ascending c.label key value⟩
  | clear => exact ⟨sorted.order, .nil⟩
  | _ => exact sorted

/-! ## Requests -/

theorem list_insertMany (valid : a.Valid) (sorted : a.Sorted) (pairs : List (α × β)) :
    a.list.insertMany pairs = ((a.insertMany pairs).1, (a.insertMany pairs).2.list) := by
  induction pairs generalizing a with
  | nil => rfl
  | cons pair rest ih =>
    obtain ⟨key, value⟩ := pair
    have first := list_insert valid sorted key value
    have valid' := valid_insert valid key value
    have sorted' := sorted_insert sorted key value
    rw [SortedList.insertMany, insertMany, first]
    cases outcome : a.insert key value with
    | mk result b =>
      rw [outcome] at valid' sorted'
      cases result with
      | ok old => exact ih valid' sorted'
      | error why => rfl

theorem list_settle (answer : γ → Answer α β) (outcome : Except Refusal γ × Chart α β) :
    SortedList.settle answer (outcome.1, outcome.2.list) =
      ((settle answer outcome).1, (settle answer outcome).2.list) := by
  obtain ⟨_ | _, _⟩ := outcome <;> rfl

/-- Under a strict weak order a chart answers as the list of its entries does. -/
theorem list_perform (valid : a.Valid) (sorted : a.Sorted) (request : Request α β) :
    a.list.perform request = ((a.perform request).1, (a.perform request).2.list) := by
  cases request with
  | insert key value =>
    rw [SortedList.perform, list_insert valid sorted, list_settle]
    rfl
  | insertMany pairs =>
    rw [SortedList.perform, list_insertMany valid sorted, list_settle]
    rfl
  | remove key =>
    obtain ⟨answered, remaining⟩ := list_removeEntry sorted key
    rw [SortedList.perform, perform, answered, remaining]
  | removeEntry key =>
    obtain ⟨answered, remaining⟩ := list_removeEntry sorted key
    rw [SortedList.perform, perform, answered, remaining]
  | replace key value =>
    obtain ⟨answered, remaining⟩ := list_replace sorted key value
    rw [SortedList.perform, perform, answered, remaining]
  | get key =>
    rw [SortedList.perform, list_find? sorted]
    cases found : a.tree.find? a.less key <;> simp [perform, found, Cell.entry]
  | getEntry key =>
    rw [SortedList.perform, list_find? sorted]
    rfl
  | contains key =>
    rw [SortedList.perform, list_find? sorted, Option.isSome_map]
    rfl
  | len => simp [SortedList.perform, perform, list]
  | isEmpty =>
    rw [SortedList.perform, perform, ← Tree.length_entries, list]
    cases a.tree.entries <;> rfl
  | isFull => simp [SortedList.perform, perform, list, SortedList.isFull]
  | _ => rfl

theorem list_run (valid : a.Valid) (sorted : a.Sorted) (requests : List (Request α β)) :
    a.list.run requests = ((a.run requests).1, (a.run requests).2.list) := by
  induction requests generalizing a with
  | nil => rfl
  | cons request rest ih =>
    rw [SortedList.run, list_perform valid sorted]
    simp only [ih (valid_perform valid request) (sorted_perform sorted request)]
    rfl

theorem sorted_run (sorted : a.Sorted) (requests : List (Request α β)) :
    (a.run requests).2.Sorted := by
  induction requests generalizing a with
  | nil => exact sorted
  | cons request rest ih => exact ih (sorted_perform sorted request)

/-- The list of a chart is ascending and fits its capacity. -/
theorem list_valid (valid : a.Valid) (sorted : a.Sorted) : a.list.Valid where
  ascending := Tree.ascending_iff_entries.1 sorted.ascending
  length_le := by
    show a.tree.entries.length ≤ a.capacity
    rw [Tree.length_entries]
    exact valid.size_le

end BoundedMap.Chart
