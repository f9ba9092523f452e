import BoundedMap.Map.Request
import BoundedMap.Proofs.Pool.Slots
import BoundedMap.Proofs.Tree.Edits
import BoundedMap.Proofs.Tree.Height
/-!
# Charts

A chart says where everything in a map lies: the tree, labelled with slots, and
the slots that are free, the next one to be handed out first. It answers the
requests to a map by the balanced-tree algorithm alone. Nothing in it can be
inconsistent in the way links can, so what a sequence of requests does is seen
on charts first.

`Valid` is what every request keeps (`valid_perform`), whatever the predicate.
-/

namespace BoundedMap

/-- The tree of a map by slots, and its free slots in order. -/
structure Chart (α β : Type) where
  less : α → α → Bool
  capacity : Nat
  tree : Tree Handle α β
  free : List Handle

namespace Chart

variable {α β γ : Type}

/-- The chart of a map that was built with room for `capacity` entries. -/
def empty (less : α → α → Bool) (capacity : Nat) : Chart α β :=
  ⟨less, capacity, .nil, (List.range capacity).map .ofIndex⟩

/-- Bind a key. A match keeps its slot; a new key gets the first free one. -/
def insert (a : Chart α β) (key : α) (value : β) :
    Except Refusal (Option β) × Chart α β :=
  match a.tree.find? a.less key with
  | some c => (.ok (some c.value), { a with tree := (a.tree.insert a.less c.label key value).1 })
  | none =>
    match a.free with
    | [] => (.error (.exhausted a.capacity), a)
    | h :: rest =>
      (.ok none, { a with tree := (a.tree.insert a.less h key value).1, free := rest })

/-- Bind keys in turn, up to the first that is refused. -/
def insertMany (a : Chart α β) : List (α × β) → Except Refusal Unit × Chart α β
  | [] => (.ok (), a)
  | (key, value) :: rest =>
    match a.insert key value with
    | (.ok _, a) => insertMany a rest
    | (.error why, a) => (.error why, a)

/-- Remove a binding. The slot of the removed entry is the next to be handed out. -/
def removeEntry (a : Chart α β) (probe : α) : Option (α × β) × Chart α β :=
  match a.tree.find? a.less probe with
  | none => (none, a)
  | some c =>
    (some c.entry, { a with tree := (a.tree.remove a.less probe).1, free := c.label :: a.free })

/-- Write a value where a key is bound. -/
def replace (a : Chart α β) (probe : α) (value : β) : Option β × Chart α β :=
  match a.tree.find? a.less probe with
  | none => (none, a)
  | some c => (some c.value, { a with tree := (a.tree.insert a.less c.label probe value).1 })

/-- Free all slots, each after those below it. -/
def clear (a : Chart α β) : Chart α β :=
  { a with tree := .nil, free := a.tree.postorder.reverse ++ a.free }

/-- A result, or its refusal as an answer. -/
def settle (answer : γ → Answer α β) :
    Except Refusal γ × Chart α β → Answer α β × Chart α β
  | (.ok result, a) => (answer result, a)
  | (.error why, a) => (.refused why, a)

/-- Answer one request. -/
def perform (a : Chart α β) : Request α β → Answer α β × Chart α β
  | .insert key value => settle .value (a.insert key value)
  | .insertMany pairs => settle (fun _ => .done) (a.insertMany pairs)
  | .remove key => (.value ((a.removeEntry key).1.map (·.2)), (a.removeEntry key).2)
  | .removeEntry key => (.entry (a.removeEntry key).1, (a.removeEntry key).2)
  | .replace key value => (.value (a.replace key value).1, (a.replace key value).2)
  | .clear => (.done, a.clear)
  | .get key => (.value ((a.tree.find? a.less key).map Cell.value), a)
  | .getEntry key => (.entry ((a.tree.find? a.less key).map Cell.entry), a)
  | .contains key => (.flag (a.tree.find? a.less key).isSome, a)
  | .first => (.entry a.tree.entries.head?, a)
  | .last => (.entry a.tree.entries.getLast?, a)
  | .entries => (.entries a.tree.entries, a)
  | .entriesDown => (.entries a.tree.entries.reverse, a)
  | .keys => (.keys (a.tree.entries.map (·.1)), a)
  | .values => (.values (a.tree.entries.map (·.2)), a)
  | .inorder => (.entries a.tree.entries, a)
  | .len => (.count a.tree.size, a)
  | .isEmpty => (.flag (a.tree.size == 0), a)
  | .isFull => (.flag (a.tree.size == a.capacity), a)

/-- Answer requests one after another. -/
def run (a : Chart α β) : List (Request α β) → List (Answer α β) × Chart α β
  | [] => ([], a)
  | request :: rest =>
    (((a.perform request).1 :: ((a.perform request).2.run rest).1),
      ((a.perform request).2.run rest).2)

/-- One more request at the end of a run. -/
theorem run_concat (a : Chart α β) (requests : List (Request α β)) (request : Request α β) :
    (a.run (requests ++ [request])).2 = ((a.run requests).2.perform request).2 := by
  induction requests generalizing a with
  | nil => rfl
  | cons earlier rest ih => exact ih (a.perform earlier).2

/-! ## The outcomes of an update -/

section Outcomes

variable {a : Chart α β} {key : α} {c : Cell Handle α β}

theorem insert_of_find? (found : a.tree.find? a.less key = some c) (value : β) :
    a.insert key value =
      (.ok (some c.value), { a with tree := (a.tree.insert a.less c.label key value).1 }) := by
  rw [insert, found]

theorem insert_of_full (absent : a.tree.find? a.less key = none) (full : a.free = [])
    (value : β) : a.insert key value = (.error (.exhausted a.capacity), a) := by
  rw [insert, absent, full]

theorem insert_of_free {h : Handle} {rest : List Handle}
    (absent : a.tree.find? a.less key = none) (order : a.free = h :: rest) (value : β) :
    a.insert key value =
      (.ok none, { a with tree := (a.tree.insert a.less h key value).1, free := rest }) := by
  rw [insert, absent, order]

/-- An insertion is refused when the key is not bound and no slot is free. -/
theorem insert_error_iff {value : β} : (∃ why b, a.insert key value = (.error why, b)) ↔
    a.tree.find? a.less key = none ∧ a.free = [] := by
  constructor
  · rintro ⟨why, b, refused⟩
    cases found : a.tree.find? a.less key with
    | some c =>
      rw [insert_of_find? found] at refused
      cases refused
    | none =>
      cases order : a.free with
      | nil => exact ⟨rfl, rfl⟩
      | cons h rest =>
        rw [insert_of_free found order] at refused
        cases refused
  · rintro ⟨absent, full⟩
    exact ⟨_, _, insert_of_full absent full value⟩

theorem removeEntry_of_find? (found : a.tree.find? a.less key = some c) :
    a.removeEntry key =
      (some c.entry,
        { a with tree := (a.tree.remove a.less key).1, free := c.label :: a.free }) := by
  rw [removeEntry, found]

theorem removeEntry_of_absent (absent : a.tree.find? a.less key = none) :
    a.removeEntry key = (none, a) := by
  rw [removeEntry, absent]

theorem replace_of_find? (found : a.tree.find? a.less key = some c) (value : β) :
    a.replace key value =
      (some c.value, { a with tree := (a.tree.insert a.less c.label key value).1 }) := by
  rw [replace, found]

theorem replace_of_absent (absent : a.tree.find? a.less key = none) (value : β) :
    a.replace key value = (none, a) := by
  rw [replace, absent]

end Outcomes

/-! ## Valid charts -/

/-- The tree is balanced, and it and the free list share out the slots. -/
structure Valid (a : Chart α β) : Prop where
  avl : a.tree.Avl
  slots : (a.tree.labels ++ a.free).Perm ((List.range a.capacity).map .ofIndex)
  capacity_le : a.capacity ≤ maxCapacity

namespace Valid

variable {a : Chart α β}

theorem nodup (valid : a.Valid) : (a.tree.labels ++ a.free).Nodup :=
  valid.slots.symm.nodup (Handle.nodup_below valid.capacity_le)

theorem nodup_labels (valid : a.Valid) : a.tree.labels.Nodup :=
  (List.nodup_append.1 valid.nodup).1

theorem nodup_free (valid : a.Valid) : a.free.Nodup :=
  (List.nodup_append.1 valid.nodup).2.1

theorem not_mem_free (valid : a.Valid) {h : Handle} (live : h ∈ a.tree.labels) : h ∉ a.free :=
  fun unused => (List.nodup_append.1 valid.nodup).2.2 h live h unused rfl

theorem not_mem_labels (valid : a.Valid) {h : Handle} (unused : h ∈ a.free) :
    h ∉ a.tree.labels :=
  fun live => valid.not_mem_free live unused

/-- A slot is in the tree or free if it is there at all. -/
theorem mem_iff (valid : a.Valid) {h : Handle} :
    h ∈ a.tree.labels ∨ h ∈ a.free ↔ h.index < a.capacity := by
  rw [← Handle.mem_below valid.capacity_le, ← valid.slots.mem_iff, List.mem_append]

theorem size_add_length (valid : a.Valid) : a.tree.size + a.free.length = a.capacity := by
  have counted := valid.slots.length_eq
  simpa [Tree.labels] using counted

theorem size_le (valid : a.Valid) : a.tree.size ≤ a.capacity :=
  Nat.le.intro valid.size_add_length

/-- There are no more entries than handles. -/
theorem length_entries_le (valid : a.Valid) : a.tree.entries.length ≤ maxCapacity := by
  rw [Tree.length_entries]
  exact Nat.le_trans valid.size_le valid.capacity_le

theorem free_eq_nil_iff (valid : a.Valid) : a.free = [] ↔ a.tree.size = a.capacity := by
  rw [← List.length_eq_zero_iff, ← valid.size_add_length]
  omega

/-- No path of the tree has more nodes than the pool has slots. -/
theorem depth_le (valid : a.Valid) : a.tree.depth ≤ a.capacity := by
  rw [← valid.avl.heights.height_eq_depth]
  exact Nat.le_trans (Tree.height_le_size a.tree valid.avl) valid.size_le

theorem height_le (valid : a.Valid) : a.tree.height ≤ 45 :=
  Tree.height_le_of_nodup valid.avl valid.nodup_labels

end Valid

theorem valid_empty {capacity : Nat} (less : α → α → Bool) (small : capacity ≤ maxCapacity) :
    (empty less capacity : Chart α β).Valid :=
  ⟨Tree.avl_nil, .refl _, small⟩

/-! ## Requests keep charts valid -/

section Keep

variable {a : Chart α β}

/-- Another value for a cell leaves every slot where it is. -/
theorem valid_overwrite (valid : a.Valid) {key : α} {c : Cell Handle α β}
    (found : a.tree.find? a.less key = some c) (label : Handle) (value : β) :
    Valid { a with tree := (a.tree.insert a.less label key value).1 } where
  avl := (Tree.insert_avl a.less label key value valid.avl).1
  slots := by
    rw [Tree.labels_insert_of_find? a.less key found]
    exact valid.slots
  capacity_le := valid.capacity_le

theorem valid_insert (valid : a.Valid) (key : α) (value : β) :
    (a.insert key value).2.Valid := by
  cases found : a.tree.find? a.less key with
  | some c =>
    rw [insert_of_find? found]
    exact valid_overwrite valid found c.label value
  | none =>
    cases order : a.free with
    | nil =>
      rw [insert_of_full found order]
      exact valid
    | cons h rest =>
      rw [insert_of_free found order]
      refine ⟨(Tree.insert_avl a.less h key value valid.avl).1, ?_, valid.capacity_le⟩
      -- the first free slot becomes a label, the rest stays free
      have moved := (Tree.labels_insert_of_absent a.less key found h value).append_right rest
      have slots := valid.slots
      rw [order] at slots
      exact (moved.trans List.perm_middle.symm).trans slots

theorem valid_insertMany (valid : a.Valid) (pairs : List (α × β)) :
    (a.insertMany pairs).2.Valid := by
  induction pairs generalizing a with
  | nil => exact valid
  | cons pair rest ih =>
    have next := valid_insert valid pair.1 pair.2
    rw [insertMany]
    split <;> rename_i result <;> rw [result] at next
    · exact ih next
    · exact next

theorem valid_removeEntry (valid : a.Valid) (probe : α) : (a.removeEntry probe).2.Valid := by
  cases found : a.tree.find? a.less probe with
  | none =>
    rw [removeEntry_of_absent found]
    exact valid
  | some c =>
    rw [removeEntry_of_find? found]
    refine ⟨(Tree.remove_avl a.less probe valid.avl).1, ?_, valid.capacity_le⟩
    -- the label of the match goes from the tree to the free list
    have moved := (Tree.labels_remove_of_find? a.less probe found).append_right a.free
    exact (List.perm_middle.trans moved).trans valid.slots

theorem valid_replace (valid : a.Valid) (probe : α) (value : β) :
    (a.replace probe value).2.Valid := by
  cases found : a.tree.find? a.less probe with
  | none =>
    rw [replace_of_absent found]
    exact valid
  | some c =>
    rw [replace_of_find? found]
    exact valid_overwrite valid found c.label value

theorem valid_clear (valid : a.Valid) : a.clear.Valid := by
  refine ⟨Tree.avl_nil, ?_, valid.capacity_le⟩
  have released := (List.reverse_perm a.tree.postorder).trans (Tree.postorder_perm a.tree)
  exact (released.append_right a.free).trans valid.slots

theorem settle_snd (answer : γ → Answer α β) (result : Except Refusal γ × Chart α β) :
    (settle answer result).2 = result.2 := by
  obtain ⟨_ | _, _⟩ := result <;> rfl

theorem valid_perform (valid : a.Valid) (request : Request α β) :
    (a.perform request).2.Valid := by
  cases request with
  | insert key value =>
    rw [perform, settle_snd]
    exact valid_insert valid key value
  | insertMany pairs =>
    rw [perform, settle_snd]
    exact valid_insertMany valid pairs
  | remove key => exact valid_removeEntry valid key
  | removeEntry key => exact valid_removeEntry valid key
  | replace key value => exact valid_replace valid key value
  | clear => exact valid_clear valid
  | _ => exact valid

end Keep

/-! ## Order and capacity are fixed -/

section Fixed

variable {a : Chart α β}

/-- The charts that differ in their contents only. -/
structure Alike (a b : Chart α β) : Prop where
  less : b.less = a.less
  capacity : b.capacity = a.capacity

theorem Alike.trans {a b c : Chart α β} (first : Alike a b) (second : Alike b c) : Alike a c :=
  ⟨second.less.trans first.less, second.capacity.trans first.capacity⟩

theorem alike_insert (key : α) (value : β) : Alike a (a.insert key value).2 := by
  unfold insert
  split
  · exact ⟨rfl, rfl⟩
  · split <;> exact ⟨rfl, rfl⟩

theorem alike_insertMany (pairs : List (α × β)) : Alike a (a.insertMany pairs).2 := by
  induction pairs generalizing a with
  | nil => exact ⟨rfl, rfl⟩
  | cons pair rest ih =>
    have first := alike_insert (a := a) pair.1 pair.2
    rw [insertMany]
    split <;> rename_i result <;> rw [result] at first
    · exact first.trans ih
    · exact first

theorem alike_perform (request : Request α β) : Alike a (a.perform request).2 := by
  have removed : ∀ probe, Alike a (a.removeEntry probe).2 := by
    intro probe
    unfold removeEntry
    split <;> exact ⟨rfl, rfl⟩
  cases request with
  | insert key value =>
    rw [perform, settle_snd]
    exact alike_insert key value
  | insertMany pairs =>
    rw [perform, settle_snd]
    exact alike_insertMany pairs
  | remove key => exact removed key
  | removeEntry key => exact removed key
  | replace key value =>
    show Alike a (a.replace key value).2
    unfold replace
    split <;> exact ⟨rfl, rfl⟩
  | _ => exact ⟨rfl, rfl⟩

theorem alike_run (requests : List (Request α β)) : Alike a (a.run requests).2 := by
  induction requests generalizing a with
  | nil => exact ⟨rfl, rfl⟩
  | cons request rest ih => exact (alike_perform request).trans ih

end Fixed

end Chart

end BoundedMap
