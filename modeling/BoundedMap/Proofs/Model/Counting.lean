import Mathlib.Data.Set.Card
import BoundedMap.Proofs.Model.Updates
/-!
# How many entries bindings take

Under a strict weak order a list of entries has one for each class of keys that was bound in it, so
what room a sequence of pairs takes is a number of classes (`load`), and independent of the order
in which they come. Insertions in turn succeed while this number is within the capacity
(`insertMany_of_room`), and the first pair that makes it too large is refused (`insert_of_crowded`).
-/

namespace BoundedMap.SortedList

variable {α β : Type} {less : α → α → Bool} {key : α} {value : β} {es pairs before : List (α × β)}
  {s : SortedList α β}

/-! ## Classes as sets -/

/-- The keys that the order does not tell apart from this one. -/
def classOf (less : α → α → Bool) (key : α) : Set α :=
  {a | same less key a = true}

/-- The classes of the keys in a list. -/
def classes (less : α → α → Bool) (keys : List α) : Set (Set α) :=
  classOf less '' {key | key ∈ keys}

theorem classOf_eq_iff (order : StrictWeak less) {a b : α} :
    classOf less a = classOf less b ↔ same less a b = true := by
  constructor
  · intro alike
    have member : b ∈ classOf less b := same_self order b
    rwa [← alike] at member
  · intro here
    ext c
    show same less a c = true ↔ same less b c = true
    rw [same_congr order here]

theorem finite_classes (less : α → α → Bool) (keys : List α) : (classes less keys).Finite :=
  (List.finite_toSet keys).image _

theorem classes_mono {keys more : List α} (within : keys ⊆ more) :
    classes less keys ⊆ classes less more :=
  Set.image_mono within

theorem classes_cons (key : α) (keys : List α) :
    classes less (key :: keys) = {classOf less key} ∪ classes less keys := by
  ext c
  simp [classes, eq_comm]

theorem classes_append (keys more : List α) :
    classes less (keys ++ more) = classes less keys ∪ classes less more := by
  ext c
  simp [classes, or_and_right, exists_or]

/-- Keys that the order tells apart have a class each. -/
theorem ncard_classes (order : StrictWeak less) {keys : List α}
    (apart : keys.Pairwise fun a b => same less a b = false) :
    (classes less keys).ncard = keys.length := by
  induction keys with
  | nil => simp [classes]
  | cons key keys ih =>
    obtain ⟨first, apart⟩ := List.pairwise_cons.1 apart
    have new : classOf less key ∉ classes less keys := by
      rintro ⟨other, member, alike⟩
      have here := (classOf_eq_iff order).1 alike.symm
      rw [first other member] at here
      cases here
    rw [classes_cons, Set.singleton_union,
      Set.ncard_insert_of_notMem new (finite_classes less keys), ih apart, List.length_cons]

/-! ## Entries and classes -/

/-- The number of classes among the keys of the entries and those of the pairs. -/
noncomputable def load (less : α → α → Bool) (es pairs : List (α × β)) : Nat :=
  (classes less ((es ++ pairs).map (·.1))).ncard

/-- The entries after pairs were bound one after another. -/
def bindOnto (less : α → α → Bool) (es pairs : List (α × β)) : List (α × β) :=
  pairs.foldl (fun es d => bind less d.1 d.2 es) es

theorem pairwise_bindOnto (order : StrictWeak less)
    (ascending : es.Pairwise fun a b => less a.1 b.1 = true) (pairs : List (α × β)) :
    (bindOnto less es pairs).Pairwise fun a b => less a.1 b.1 = true := by
  induction pairs generalizing es with
  | nil => exact ascending
  | cons d pairs ih => exact ih (pairwise_bind order ascending)

/-- A binding adds the class of its key to the classes of the entries. -/
theorem classes_bind (order : StrictWeak less)
    (ascending : es.Pairwise fun a b => less a.1 b.1 = true) (key : α) (value : β) :
    classes less ((bind less key value es).map (·.1)) =
      {classOf less key} ∪ classes less (es.map (·.1)) := by
  obtain ⟨below, above, lower, upper, rfl | ⟨e, here, rfl⟩⟩ := exists_cut order key ascending
  · rw [bind_gap lower upper order, ← classes_cons]
    apply Set.Subset.antisymm
    · exact classes_mono (by simp)
    · exact classes_mono (by simp)
  · rw [bind_match lower order here]
    have kept : classOf less key ∈ classes less ((below ++ e :: above).map (·.1)) :=
      ⟨e.1, by simp, ((classOf_eq_iff order).2 here).symm⟩
    rw [Set.union_eq_right.2 (Set.singleton_subset_iff.2 kept)]
    simp

theorem classes_bindOnto (order : StrictWeak less)
    (ascending : es.Pairwise fun a b => less a.1 b.1 = true) (pairs : List (α × β)) :
    classes less ((bindOnto less es pairs).map (·.1)) = classes less ((es ++ pairs).map (·.1)) := by
  induction pairs generalizing es with
  | nil => simp [bindOnto]
  | cons d pairs ih =>
    have ascending' : (bind less d.1 d.2 es).Pairwise fun a b => less a.1 b.1 = true :=
      pairwise_bind order ascending
    have step := ih ascending'
    rw [List.map_append, classes_append, classes_bind order ascending] at step
    rw [List.map_append, List.map_cons, classes_append, classes_cons, Set.union_left_comm,
      ← Set.union_assoc]
    exact step

/-- There is one entry for each class. -/
theorem length_bindOnto (order : StrictWeak less)
    (ascending : es.Pairwise fun a b => less a.1 b.1 = true) (pairs : List (α × β)) :
    (bindOnto less es pairs).length = load less es pairs := by
  have apart := (pairwise_bindOnto order ascending pairs).imp
    fun {d e} below => same_eq_false_of_less below
  rw [load, ← classes_bindOnto order ascending, ncard_classes order (List.pairwise_map.2 apart),
    List.length_map]

/-- Pairs that are bound already have taken their room. -/
theorem load_bindOnto (order : StrictWeak less)
    (ascending : es.Pairwise fun a b => less a.1 b.1 = true) (before pairs : List (α × β)) :
    load less (bindOnto less es before) pairs = load less es (before ++ pairs) := by
  rw [← length_bindOnto order (pairwise_bindOnto order ascending before),
    ← length_bindOnto order ascending, bindOnto, bindOnto, bindOnto, List.foldl_append]

/-- More pairs do not take less room. -/
theorem load_mono (less : α → α → Bool) (es : List (α × β)) (within : before ⊆ pairs) :
    load less es before ≤ load less es pairs := by
  apply Set.ncard_le_ncard (classes_mono _) (finite_classes less _)
  apply List.map_subset
  exact List.append_subset.2
    ⟨List.subset_append_left _ _, List.subset_append_of_subset_right _ within⟩

/-! ## Insertions in turn -/

/-- The list after pairs were bound one after another. -/
def bound (s : SortedList α β) (pairs : List (α × β)) : SortedList α β :=
  { s with entries := bindOnto s.less s.entries pairs }

/-- A pair takes room when no key of its class is bound. -/
theorem load_one (order : StrictWeak s.less) (ascending : s.Ascending) (d : α × β) :
    load s.less s.entries [d] =
      if (s.find? d.1).isSome then s.entries.length else s.entries.length + 1 := by
  rw [← length_bindOnto order ascending]
  exact length_bind order ascending

/-- An insertion binds its pair if there is room for the entries that this makes. -/
theorem insert_of_room (order : StrictWeak s.less) (valid : s.Valid) (d : α × β)
    (room : load s.less s.entries [d] ≤ s.capacity) :
    ∃ old, s.insert d.1 d.2 = (.ok old, s.bound [d]) ∧ (s.bound [d]).Valid := by
  have valid' : (s.bound [d]).Valid := ⟨pairwise_bindOnto order valid.ascending [d],
    (length_bindOnto order valid.ascending [d]).trans_le room⟩
  rw [load_one order valid.ascending] at room
  cases found : s.find? d.1 with
  | some e =>
    refine ⟨some e.2, ?_, valid'⟩
    rw [insert, found]
    rfl
  | none =>
    rw [found, Option.isSome_none, if_neg Bool.false_ne_true] at room
    have roomy : s.isFull = false := by
      rw [isFull, beq_eq_false_iff_ne]
      omega
    refine ⟨none, ?_, valid'⟩
    rw [insert, found]
    simp only [roomy]
    rfl

/-- Otherwise it is refused, and the list is full. -/
theorem insert_of_crowded (order : StrictWeak s.less) (valid : s.Valid) (d : α × β)
    (crowded : s.capacity < load s.less s.entries [d]) :
    s.insert d.1 d.2 = (.error (.exhausted s.capacity), s) ∧ s.isFull = true := by
  have few := valid.length_le
  rw [load_one order valid.ascending] at crowded
  cases found : s.find? d.1 with
  | some e =>
    rw [found, Option.isSome_some, if_pos rfl] at crowded
    omega
  | none =>
    rw [found, Option.isSome_none, if_neg Bool.false_ne_true] at crowded
    have full : s.isFull = true := by
      rw [isFull, beq_iff_eq]
      omega
    refine ⟨?_, full⟩
    rw [insert, found]
    simp only [full]
    rfl

/-- Pairs for which there is room are bound. -/
theorem insertMany_of_room (order : StrictWeak s.less) (valid : s.Valid)
    (room : load s.less s.entries pairs ≤ s.capacity) :
    s.insertMany pairs = (.ok (), s.bound pairs) := by
  induction pairs generalizing s with
  | nil => rfl
  | cons d pairs ih =>
    have first : load s.less s.entries [d] ≤ load s.less s.entries (d :: pairs) :=
      load_mono s.less s.entries (by simp)
    obtain ⟨old, inserted, valid'⟩ := insert_of_room order valid d (Nat.le_trans first room)
    have rest : load s.less (bindOnto s.less s.entries [d]) pairs =
        load s.less s.entries (d :: pairs) :=
      load_bindOnto order valid.ascending [d] pairs
    rw [insertMany, inserted]
    exact ih order valid' (rest.trans_le room)

/-- Among pairs for which there is no room there is a first one with which the room ends. -/
theorem exists_first_crowded {capacity : Nat} (fits : load less es [] ≤ capacity)
    (crowded : capacity < load less es pairs) :
    ∃ before d after, pairs = before ++ d :: after ∧ load less es before ≤ capacity ∧
      capacity < load less es (before ++ [d]) := by
  induction pairs using List.reverseRecOn with
  | nil => omega
  | append_singleton pairs d ih =>
    by_cases here : load less es pairs ≤ capacity
    · exact ⟨pairs, d, [], rfl, here, crowded⟩
    · obtain ⟨before, e, after, rfl, room, first⟩ := ih (by omega)
      exact ⟨before, e, after ++ [d], by simp, room, first⟩

end BoundedMap.SortedList
