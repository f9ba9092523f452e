import BoundedMap.Model.SortedList
import BoundedMap.Proofs.Order.Classes
import Mathlib.Data.List.Sort
/-!
# Sorted lists, cut at a key

A key cuts an ascending list into the entries below it, at most one that matches,
and those above it. Every operation of `SortedList` is an edit at the cut.
-/

namespace BoundedMap.SortedList

variable {α β : Type} {less : α → α → Bool} {key : α} {value : β} {e : α × β}
  {below above : List (α × β)}

theorem same_iff {a b : α} : same less a b = true ↔ turn less a b = none := by
  rw [turn_eq_none_iff, same]
  simp

theorem same_eq_false_of_less {a b : α} (lower : less a b = true) : same less a b = false := by
  simp [same, lower]

theorem same_eq_false_of_less' {a b : α} (upper : less b a = true) : same less a b = false := by
  simp [same, upper]

section Cut

variable (lower : ∀ e ∈ below, less e.1 key = true) (upper : ∀ e ∈ above, less key e.1 = true)

include lower upper

theorem find?_gap : (below ++ above).find? (fun e => same less key e.1) = none := by
  rw [List.find?_eq_none]
  intro e member
  rw [Bool.not_eq_true]
  rcases List.mem_append.1 member with inBelow | inAbove
  · exact same_eq_false_of_less' (lower e inBelow)
  · exact same_eq_false_of_less (upper e inAbove)

theorem filter_gap :
    (below ++ above).filter (fun e => !same less key e.1) = below ++ above := by
  rw [List.filter_eq_self]
  intro e member
  rw [Bool.not_eq_true']
  rcases List.mem_append.1 member with inBelow | inAbove
  · exact same_eq_false_of_less' (lower e inBelow)
  · exact same_eq_false_of_less (upper e inAbove)

theorem filter_match (here : same less key e.1 = true) :
    (below ++ e :: above).filter (fun e => !same less key e.1) = below ++ above := by
  rw [← filter_gap lower upper, List.filter_append, List.filter_append, List.filter_cons, here]
  rfl

omit upper in
theorem find?_match (here : same less key e.1 = true) :
    (below ++ e :: above).find? (fun e => same less key e.1) = some e := by
  have passed : below.find? (fun e => same less key e.1) = none := by
    rw [List.find?_eq_none]
    intro e inBelow
    rw [Bool.not_eq_true]
    exact same_eq_false_of_less' (lower e inBelow)
  rw [List.find?_append, passed, Option.none_or]
  exact List.find?_cons_of_pos (p := fun (e : α × β) => same less key e.1) here

omit upper in
/-- Entries below the key are passed on the way to its place. -/
theorem bind_append (order : StrictWeak less) (rest : List (α × β)) :
    bind less key value (below ++ rest) = below ++ bind less key value rest := by
  induction below with
  | nil => rfl
  | cons d below ih =>
    have passed := lower d List.mem_cons_self
    rw [List.cons_append, bind, if_neg (by simp [order.asymm passed]), if_pos passed,
      ih fun e member => lower e (List.mem_cons_of_mem _ member)]
    rfl

theorem bind_gap (order : StrictWeak less) :
    bind less key value (below ++ above) = below ++ (key, value) :: above := by
  rw [bind_append lower order]
  cases above with
  | nil => rfl
  | cons d above => rw [bind, if_pos (upper d List.mem_cons_self)]

omit upper in
theorem bind_match (order : StrictWeak less) (here : same less key e.1 = true) :
    bind less key value (below ++ e :: above) = below ++ (e.1, value) :: above := by
  obtain ⟨notBelow, notAbove⟩ := turn_eq_none_iff.1 (same_iff.1 here)
  rw [bind_append lower order, bind, if_neg (by simp [notBelow]), if_neg (by simp [notAbove])]

end Cut

/-- An ascending list has one entry at most that matches a key, and a look-up
answers it. -/
theorem find?_eq_some_iff {s : SortedList α β} (order : StrictWeak s.less)
    (ascending : s.entries.Pairwise fun a b => s.less a.1 b.1 = true) {probe : α} :
    s.find? probe = some e ↔ e ∈ s.entries ∧ same s.less probe e.1 = true := by
  constructor
  · intro found
    have here := List.find?_some (p := fun (e : α × β) => same s.less probe e.1) found
    exact ⟨List.mem_of_find?_eq_some found, here⟩
  · rintro ⟨member, here⟩
    obtain ⟨below, above, cut⟩ := List.append_of_mem member
    obtain ⟨notBelow, -⟩ := turn_eq_none_iff.1 (same_iff.1 here)
    rw [cut, List.pairwise_append] at ascending
    rw [find?, cut]
    refine find?_match (fun d inBelow => ?_) here
    exact order.less_of_less_of_not (ascending.2.2 d inBelow e List.mem_cons_self) notBelow

/-- Ascending lists with the same members are one list. -/
theorem eq_of_mem_iff (order : StrictWeak less) {xs ys : List (α × β)}
    (hx : xs.Pairwise fun a b => less a.1 b.1 = true)
    (hy : ys.Pairwise fun a b => less a.1 b.1 = true) (same : ∀ e, e ∈ xs ↔ e ∈ ys) :
    xs = ys := by
  have : Std.Irrefl fun a b : α × β => less a.1 b.1 = true :=
    ⟨fun e below => by simp [order.irrefl] at below⟩
  have : Std.Antisymm fun a b : α × β => less a.1 b.1 = true :=
    ⟨fun a b below above => by simp [order.asymm below] at above⟩
  exact hx.eq_of_mem_iff hy same

/-- Ascending lists in which all look-ups answer alike are one list. -/
theorem eq_of_find? {s t : SortedList α β} (order : StrictWeak s.less) (alike : t.less = s.less)
    (hs : s.entries.Pairwise fun a b => s.less a.1 b.1 = true)
    (ht : t.entries.Pairwise fun a b => t.less a.1 b.1 = true)
    (answers : ∀ probe, s.find? probe = t.find? probe) : s.entries = t.entries := by
  refine eq_of_mem_iff order hs (alike ▸ ht) fun e => ?_
  -- an entry is stored when the look-up of its own key answers it
  have here : same s.less e.1 e.1 = true := by simp [same, order.irrefl]
  have inS : s.find? e.1 = some e ↔ e ∈ s.entries := by
    rw [find?_eq_some_iff order hs, here]
    simp
  have inT : t.find? e.1 = some e ↔ e ∈ t.entries := by
    rw [find?_eq_some_iff (alike ▸ order) ht, alike, here]
    simp
  rw [← inS, ← inT, answers e.1]

end BoundedMap.SortedList
