import BoundedMap.Proofs.Chart.Reachable
import Mathlib.Logic.Function.Basic
/-!
# Entries stay in their slots

Updates write links and heights all along a path, and a removal puts the next cell in the
place of the one that it takes out. All of that is relinking. `held` reads the entry of a slot
off the pool, and an update changes it at one slot: that of the match, or the first free one
(`placement_of_reachable`). A slot is freed exactly when the entry that it holds is removed, so
taking out what was put in last restores the free list.

On a list of cells an update is an edit in the middle, which `holding_middle` describes.
-/

namespace BoundedMap

namespace Cell

variable {σ α β : Type} [DecidableEq σ] {cells xs ys : List (Cell σ α β)} {c : Cell σ α β}

/-- The entry of the cell with this label. -/
def holding (cells : List (Cell σ α β)) (h : σ) : Option (α × β) :=
  (cells.find? fun c => c.label = h).map entry

theorem holding_of_not_mem {h : σ} (absent : h ∉ cells.map label) : holding cells h = none := by
  rw [holding, Option.map_eq_none_iff, List.find?_eq_none]
  intro c member here
  exact absent (of_decide_eq_true here ▸ List.mem_map_of_mem member)

/-- A cell in the middle decides what its own label holds and nothing else. -/
theorem holding_middle (apart : c.label ∉ (xs ++ ys).map label) :
    holding (xs ++ c :: ys) = Function.update (holding (xs ++ ys)) c.label (some c.entry) := by
  funext h
  rw [List.map_append, List.mem_append, not_or] at apart
  by_cases here : h = c.label
  · have passed : xs.find? (fun d => d.label = c.label) = none := by
      rw [List.find?_eq_none]
      intro d member same
      exact apart.1 (of_decide_eq_true same ▸ List.mem_map_of_mem member)
    subst here
    rw [Function.update_self, holding, List.find?_append, passed]
    simp
  · have skipped : ¬ c.label = h := fun same => here same.symm
    rw [Function.update_of_ne here, holding, holding, List.find?_append, List.find?_append,
      List.find?_cons_of_neg (by simpa using skipped)]

theorem holding_of_mem (nodup : (cells.map label).Nodup) (member : c ∈ cells) :
    holding cells c.label = some c.entry := by
  obtain ⟨xs, ys, rfl⟩ := List.append_of_mem member
  rw [List.map_append, List.map_cons, List.nodup_middle, ← List.map_append] at nodup
  rw [holding_middle (List.nodup_cons.1 nodup).1, Function.update_self]

end Cell

namespace Tree

variable {σ α β : Type} {less : α → α → Bool} {key : α} {t : Tree σ α β} {c : Cell σ α β}

/-- The label of a match occurs neither before nor after it. -/
theorem label_apart (nodup : t.labels.Nodup) (found : t.find? less key = some c) :
    c.label ∉ (t.before less key ++ t.after less key).map Cell.label := by
  rw [labels, cells_eq less key t, found, Option.toList_some, List.append_assoc,
    List.singleton_append, List.map_append, List.map_cons, List.nodup_middle,
    ← List.map_append] at nodup
  exact (List.nodup_cons.1 nodup).1

variable [DecidableEq σ]

theorem holding_insert_of_find? (nodup : t.labels.Nodup) (found : t.find? less key = some c)
    (label : σ) (value : β) : Cell.holding (t.insert less label key value).1.cells =
      Function.update (Cell.holding t.cells) c.label (some (c.key, value)) := by
  have apart := label_apart nodup found
  have before := Cell.holding_middle apart
  have after := Cell.holding_middle (c := { c with value }) apart
  rw [cells_insert, found, Option.elim_some, after, cells_eq less key t, found,
    Option.toList_some, List.append_assoc, List.singleton_append, before, Function.update_idem]
  rfl

theorem holding_insert_of_absent (absent : t.find? less key = none) {label : σ}
    (fresh : label ∉ t.labels) (value : β) :
    Cell.holding (t.insert less label key value).1.cells =
      Function.update (Cell.holding t.cells) label (some (key, value)) := by
  rw [labels, cells_eq less key t, absent, Option.toList_none, List.append_nil] at fresh
  have after := Cell.holding_middle (c := ⟨label, key, value⟩) fresh
  rw [cells_insert, absent, Option.elim_none, after, cells_eq less key t, absent,
    Option.toList_none, List.append_nil]
  rfl

theorem holding_remove_of_find? (nodup : t.labels.Nodup) (found : t.find? less key = some c) :
    Cell.holding (t.remove less key).1.cells =
      Function.update (Cell.holding t.cells) c.label none := by
  have apart := label_apart nodup found
  rw [cells_remove, cells_eq less key t, found, Option.toList_some, List.append_assoc,
    List.singleton_append, Cell.holding_middle apart, Function.update_idem,
    ← Cell.holding_of_not_mem apart, Function.update_eq_self]

end Tree

namespace Map

variable {α β : Type} {m n : Map α β} {less : α → α → Bool}

/-- The entry in a slot, if the slot is live. -/
def held (m : Map α β) (h : Handle) : Option (α × β) :=
  match m.pool.read h with
  | .ok n => some (n.key, n.value)
  | .error _ => none

/-- The free slots in the order in which they will be handed out, and the entries in the
live ones. -/
structure Stores (m : Map α β) (free : List Handle) (held : Handle → Option (α × β)) : Prop where
  lists : m.pool.Lists m.pool.free free
  held : m.held = held

/-- Where a key is bound, in slot `h`, updates with it write the value in that slot or free
that slot. The free list is `free` before. -/
structure PlacesMatch (m : Map α β) (key : α) (free : List Handle) (h : Handle)
    (e : α × β) : Prop where
  locate : m.locate key = .ok (some h)
  held : m.held h = some e
  replace : ∀ value, ∃ n, replace key value m = .ok (some e.2) n ∧
    n.Stores free (Function.update m.held h (some (e.1, value)))
  insert : ∀ value, ∃ n, insert key value m = .ok (some e.2) n ∧
    n.Stores free (Function.update m.held h (some (e.1, value)))
  removeEntry : ∃ n, removeEntry key m = .ok (some e) n ∧
    n.Stores (h :: free) (Function.update m.held h none)
  remove : ∃ n, remove key m = .ok (some e.2) n ∧
    n.Stores (h :: free) (Function.update m.held h none)

/-- Where a key is not bound, an insertion puts the entry into the first free slot, and all
other updates, and an insertion that finds no free slot, leave every slot as it was. -/
structure PlacesGap (m : Map α β) (key : α) (free : List Handle) : Prop where
  locate : m.locate key = .ok none
  replace : ∀ value, ∃ n, replace key value m = .ok none n ∧ n.Stores free m.held
  insert : ∀ h rest, free = h :: rest → m.held h = none ∧ ∀ value, ∃ n,
    insert key value m = .ok none n ∧
      n.Stores rest (Function.update m.held h (some (key, value)))
  exhausted : free = [] → ∀ value,
    Map.insert key value m = .error (.refused (.exhausted m.capacity)) m
  removeEntry : ∃ n, removeEntry key m = .ok none n ∧ n.Stores free m.held
  remove : ∃ n, remove key m = .ok none n ∧ n.Stores free m.held

namespace Follows

variable {a : Chart α β} {key : α}

/-- The slots of a map hold the entries of the cells that they label. -/
theorem held_eq (follows : m.Follows a) : m.held = Cell.holding a.tree.cells := by
  funext h
  by_cases inTree : h ∈ a.tree.labels
  · obtain ⟨c, member, rfl⟩ := List.mem_map.1 inTree
    obtain ⟨d, live, keyEq, valueEq⟩ := follows.spells.read_of_mem_cells member
    rw [Cell.holding_of_mem follows.valid.nodup_labels member, held, live]
    simp only [keyEq, valueEq, Cell.entry]
  · rw [Cell.holding_of_not_mem inTree, held]
    cases read : m.pool.read h with
    | ok d => exact absurd (follows.mem_labels_of_read read) inTree
    | error what => rfl

theorem stores (follows : m.Follows a) : m.Stores a.free (Cell.holding a.tree.cells) :=
  ⟨follows.lists, follows.held_eq⟩

/-- What an update of a bound key leaves holds the new value in the slot of the match. -/
theorem stores_overwrite {c : Cell Handle α β} {value : β} (follows : m.Follows a)
    (found : a.tree.find? a.less key = some c)
    (follows' : n.Follows { a with tree := (a.tree.insert a.less c.label key value).1 }) :
    n.Stores a.free (Function.update m.held c.label (some (c.key, value))) := by
  rw [follows.held_eq, ← Tree.holding_insert_of_find? follows.valid.nodup_labels found c.label]
  exact follows'.stores

/-- What a removal leaves holds nothing in the slot of the match, which is free. -/
theorem stores_remove {c : Cell Handle α β} (follows : m.Follows a)
    (found : a.tree.find? a.less key = some c)
    (follows' : n.Follows
      { a with tree := (a.tree.remove a.less key).1, free := c.label :: a.free }) :
    n.Stores (c.label :: a.free) (Function.update m.held c.label none) := by
  rw [follows.held_eq, ← Tree.holding_remove_of_find? follows.valid.nodup_labels found]
  exact follows'.stores

/-- An update without effect leaves every slot as it was. -/
theorem stores_same (follows : m.Follows a) (follows' : n.Follows a) :
    n.Stores a.free m.held := by
  rw [follows.held_eq]
  exact follows'.stores

theorem placesMatch (follows : m.Follows a) {c : Cell Handle α β}
    (found : a.tree.find? a.less key = some c) :
    m.PlacesMatch key a.free c.label c.entry where
  locate := by rw [locate_run follows, found, Option.map_some]
  held := by
    rw [follows.held_eq]
    exact Cell.holding_of_mem follows.valid.nodup_labels (Tree.mem_cells_of_find? found)
  replace := by
    intro value
    obtain ⟨n, done, follows'⟩ := replace_run follows key value
    rw [Chart.replace_of_find? found] at done follows'
    exact ⟨n, done, follows.stores_overwrite found follows'⟩
  insert := by
    intro value
    have ran := insert_run follows key value
    rw [Chart.insert_of_find? found] at ran
    obtain ⟨n, done, follows'⟩ := ran
    exact ⟨n, done, follows.stores_overwrite found follows'⟩
  removeEntry := by
    obtain ⟨n, done, follows'⟩ := removeEntry_run follows key
    rw [Chart.removeEntry_of_find? found] at done follows'
    exact ⟨n, done, follows.stores_remove found follows'⟩
  remove := by
    obtain ⟨n, done, follows'⟩ := remove_run follows key
    rw [Chart.removeEntry_of_find? found] at done follows'
    exact ⟨n, done, follows.stores_remove found follows'⟩

theorem placesGap (follows : m.Follows a) (absent : a.tree.find? a.less key = none) :
    m.PlacesGap key a.free where
  locate := by rw [locate_run follows, absent, Option.map_none]
  replace := by
    intro value
    obtain ⟨n, done, follows'⟩ := replace_run follows key value
    rw [Chart.replace_of_absent absent] at done follows'
    exact ⟨n, done, follows.stores_same follows'⟩
  insert := by
    intro h rest order
    have fresh : h ∉ a.tree.labels :=
      follows.valid.not_mem_labels (order ▸ List.mem_cons_self)
    rw [follows.held_eq]
    refine ⟨Cell.holding_of_not_mem fresh, fun value => ?_⟩
    have ran := insert_run follows key value
    rw [Chart.insert_of_free absent order] at ran
    obtain ⟨n, done, follows'⟩ := ran
    refine ⟨n, done, ?_⟩
    rw [← Tree.holding_insert_of_absent absent fresh]
    exact follows'.stores
  exhausted full value := insert_of_refused follows (Chart.insert_of_full absent full value)
  removeEntry := by
    obtain ⟨n, done, follows'⟩ := removeEntry_run follows key
    rw [Chart.removeEntry_of_absent absent] at done follows'
    exact ⟨n, done, follows.stores_same follows'⟩
  remove := by
    obtain ⟨n, done, follows'⟩ := remove_run follows key
    rw [Chart.removeEntry_of_absent absent] at done follows'
    exact ⟨n, done, follows.stores_same follows'⟩

/-- What is put into the first free slot is taken out of it by any key that finds the slot, and
then the slots are as they were. -/
theorem insert_undone (follows : m.Follows a) {h : Handle} {rest : List Handle} {value : β}
    (absent : a.tree.find? a.less key = none) (order : a.free = h :: rest)
    (inserted : Map.insert key value m = .ok none n) :
    n.Follows { a with tree := (a.tree.insert a.less h key value).1, free := rest } ∧
      n.held h = some (key, value) ∧
      ∀ probe, n.locate probe = .ok (some h) →
        ∃ n', Map.removeEntry probe n = .ok (some (key, value)) n' ∧ n'.Stores a.free m.held := by
  obtain ⟨vacant, fills⟩ := (follows.placesGap absent).insert h rest order
  obtain ⟨k, done, stores⟩ := fills value
  obtain ⟨-, rfl⟩ := EStateM.Result.ok.inj (done.symm.trans inserted)
  have ran := insert_run follows key value
  rw [Chart.insert_of_free absent order] at ran
  obtain ⟨k', done', follows'⟩ := ran
  obtain ⟨-, rfl⟩ := EStateM.Result.ok.inj (done.symm.trans done')
  have here : k.held h = some (key, value) := by rw [stores.held, Function.update_self]
  refine ⟨follows', here, fun probe located => ?_⟩
  have found := located
  rw [locate_run follows', Except.ok.injEq, Option.map_eq_some_iff] at found
  obtain ⟨c, found, label⟩ := found
  have places := follows'.placesMatch found
  rw [label] at places
  have entry : c.entry = (key, value) := Option.some.inj (places.held.symm.trans here)
  obtain ⟨n', removed, stores'⟩ := places.removeEntry
  rw [stores.held, Function.update_idem, ← vacant, Function.update_eq_self] at stores'
  rw [entry] at removed
  exact ⟨n', removed, order ▸ stores'⟩

end Follows

/-- The look-up of a key in a reachable map ends at a slot or finds none, and all updates with
the key are confined to that slot, or to the first free one. An entry that was put in under a
new key may be removed by that key, if the order is a strict weak one, or by whatever else finds
its slot: the free list and all slots are then as they were before it was put in. -/
theorem placement_of_reachable (reachable : Reachable less m) :
    ∃ free, m.pool.Lists m.pool.free free ∧
      (∀ key, (∃ h e, m.PlacesMatch key free h e) ∨ m.PlacesGap key free) ∧
      ∀ key value n, insert key value m = .ok none n →
        ∃ h rest, free = h :: rest ∧ n.held h = some (key, value) ∧
          (StrictWeak less → n.locate key = .ok (some h)) ∧
          ∀ probe, n.locate probe = .ok (some h) →
            ∃ n', removeEntry probe n = .ok (some (key, value)) n' ∧ n'.Stores free m.held := by
  obtain ⟨a, follows, rfl⟩ := reachable.follows
  refine ⟨a.free, follows.lists, ?_, ?_⟩
  · intro key
    cases found : a.tree.find? a.less key with
    | some c => exact .inl ⟨c.label, c.entry, follows.placesMatch found⟩
    | none => exact .inr (follows.placesGap found)
  · intro key value n inserted
    have ran := insert_run follows key value
    cases found : a.tree.find? a.less key with
    | some c =>
      -- the key was bound, so that the answer is the old value
      rw [Chart.insert_of_find? found] at ran
      obtain ⟨k, done, -⟩ := ran
      rw [inserted] at done
      cases done
    | none =>
      cases order : a.free with
      | nil =>
        rw [insert_of_refused follows (Chart.insert_of_full found order value)] at inserted
        cases inserted
      | cons h rest =>
        obtain ⟨follows', here, undone⟩ := follows.insert_undone found order inserted
        refine ⟨h, rest, rfl, here, fun lawful => ?_, order ▸ undone⟩
        have sorted := follows.sorted reachable lawful
        rw [locate_run follows',
          Tree.find?_insert_of_absent sorted.order sorted.ascending found h value]
        rfl

/-- The root of three nodes has two children and lies in slot 0: removing it frees that slot,
though its successor takes its place in the tree. A fourth entry goes to slot 3, and when it is
removed again everything lies where it did. -/
theorem placement_below_root :
    ∃ m n n' : Map Nat Nat,
      perform (.insertMany [(2, 20), (1, 10), (3, 30)]) (ofPool Order.ascending (.fresh 4)) =
        .ok .done m ∧
      Reachable Order.ascending m ∧ m.root = some (.ofIndex 0) ∧
      m.PlacesMatch 2 [.ofIndex 3] (.ofIndex 0) (2, 20) ∧
      insert 5 50 m = .ok none n ∧ n.held (.ofIndex 3) = some (5, 50) ∧
      removeEntry 5 n = .ok (some (5, 50)) n' ∧ n'.Stores [.ofIndex 3] m.held := by
  obtain ⟨m, done, reachable, follows⟩ := perform_ofPool (β := Nat)
    (Order.ascending : Nat → Nat → Bool) (show 4 ≤ maxCapacity by decide)
    (.insertMany [(2, 20), (1, 10), (3, 30)])
  obtain ⟨n, inserted, -⟩ := insert_run follows 5 50
  obtain ⟨free, lists, places, undone⟩ := placement_of_reachable reachable
  obtain rfl : free = [.ofIndex 3] := lists.unique follows.lists
  have located : m.locate 2 = .ok (some (.ofIndex 0)) := locate_run follows 2
  have held : m.held (.ofIndex 0) = some (2, 20) := by rw [follows.held_eq]; rfl
  obtain ⟨h, rest, order, here, again, restored⟩ := undone 5 50 n inserted
  obtain ⟨rfl, -⟩ := List.cons.inj order
  obtain ⟨n', removed, stores⟩ := restored 5 (again Order.strictWeak_ascending)
  refine ⟨m, n, n', done, reachable, follows.spells.eq_linkTo, ?_, inserted, here, removed, stores⟩
  rcases places 2 with ⟨h, e, found⟩ | absent
  · obtain rfl := Option.some.inj (Except.ok.inj (found.locate.symm.trans located))
    obtain rfl := Option.some.inj (found.held.symm.trans held)
    exact found
  · have nothing := Except.ok.inj (absent.locate.symm.trans located)
    cases nothing

end Map

end BoundedMap
