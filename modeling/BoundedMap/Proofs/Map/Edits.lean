import BoundedMap.Proofs.Chart.Reachable
import BoundedMap.Proofs.Subtree.Trail
/-!
# Updates edit one place

Whatever the predicate answers, all look-ups for a key and all updates with it end at the
same place of a map: at one node, or in the gap where the descent falls off the tree. An
update edits the sequence of the cells there and moves nothing else
(`edits_of_reachable`). When several keys match, or none does that a law would make match,
it is still the one descent that decides.

The sequence is one of cells, so it tells the slot of every entry too.
-/

namespace BoundedMap.Map

variable {α β : Type} {m : Map α β} {less : α → α → Bool}

/-- The map holds these cells from left to right: its links spell them out, and a walk
answers their entries. -/
structure InOrder (m : Map α β) (cells : List (Cell Handle α β)) : Prop where
  tree : ∃ t, m.toTree = .ok t ∧ t.cells = cells
  entries : m.entries = .ok (cells.map Cell.entry)

/-- All look-ups for `key` find the cell `c` at position `p`, and all updates with it edit
that position: a write keeps the key and the slot, a removal takes the cell out. -/
structure EditsMatch (m : Map α β) (key : α) (cells : List (Cell Handle α β)) (p : Nat)
    (c : Cell Handle α β) : Prop where
  position : cells[p]? = some c
  locate : m.locate key = .ok (some c.label)
  get : m.get? key = .ok (some c.value)
  lookup : m.lookup? key = .ok (some c.entry)
  contains : m.contains key = .ok true
  replace : ∀ value, ∃ n, replace key value m = .ok (some c.value) n ∧
    n.InOrder (cells.set p { c with value })
  insert : ∀ value, ∃ n, insert key value m = .ok (some c.value) n ∧
    n.InOrder (cells.set p { c with value })
  removeEntry : ∃ n, removeEntry key m = .ok (some c.entry) n ∧ n.InOrder (cells.eraseIdx p)
  remove : ∃ n, remove key m = .ok (some c.value) n ∧ n.InOrder (cells.eraseIdx p)

/-- All look-ups for `key` find nothing. The nodes passed leave one gap, at position `p`. An
insertion puts a cell there, in a slot that was free, unless all slots are in use; other
updates do nothing. -/
structure EditsGap (m : Map α β) (key : α) (cells : List (Cell Handle α β))
    (passed : List (Handle × Side)) (p : Nat) : Prop where
  gap : ∀ q, Tree.Cuts passed (cells.map Cell.label) q ↔ q = p
  locate : m.locate key = .ok none
  get : m.get? key = .ok none
  lookup : m.lookup? key = .ok none
  contains : m.contains key = .ok false
  replace : ∀ value, ∃ n, replace key value m = .ok none n ∧ n.InOrder cells
  insert : ∀ value,
    (m.len = m.capacity ∧ insert key value m = .error (.refused (.exhausted m.capacity)) m) ∨
    ∃ h n, h ∉ cells.map Cell.label ∧ insert key value m = .ok none n ∧
      n.InOrder (cells.insertIdx p ⟨h, key, value⟩)
  removeEntry : ∃ n, removeEntry key m = .ok none n ∧ n.InOrder cells
  remove : ∃ n, remove key m = .ok none n ∧ n.InOrder cells

namespace Follows

variable {a : Chart α β} {key : α}

theorem inOrder (follows : m.Follows a) : m.InOrder a.tree.cells :=
  ⟨⟨a.tree, toTree_run follows, rfl⟩, entries_run follows⟩

/-- What an update of a bound key leaves holds the cells with one of them changed. -/
theorem inOrder_overwrite {n : Map α β} {c : Cell Handle α β} {value : β}
    (found : a.tree.find? a.less key = some c)
    (follows : n.Follows { a with tree := (a.tree.insert a.less c.label key value).1 }) :
    n.InOrder (a.tree.cells.set (a.tree.rank a.less key) { c with value }) := by
  rw [← Tree.cells_insert_of_find? found c.label value]
  exact follows.inOrder

theorem editsMatch (follows : m.Follows a) {c : Cell Handle α β}
    (found : a.tree.find? a.less key = some c) :
    m.EditsMatch key a.tree.cells (a.tree.rank a.less key) c where
  position := Tree.getElem?_rank_of_find? found
  locate := by rw [locate_run follows, found, Option.map_some]
  get := by rw [get?_run follows, found, Option.map_some]
  lookup := by rw [lookup?_run follows, found, Option.map_some]
  contains := by rw [contains_run follows, found, Option.isSome_some]
  replace := by
    intro value
    obtain ⟨n, done, follows'⟩ := replace_run follows key value
    rw [Chart.replace_of_find? found] at done follows'
    exact ⟨n, done, inOrder_overwrite found follows'⟩
  insert := by
    intro value
    have ran := insert_run follows key value
    rw [Chart.insert_of_find? found] at ran
    obtain ⟨n, done, follows'⟩ := ran
    exact ⟨n, done, inOrder_overwrite found follows'⟩
  removeEntry := by
    obtain ⟨n, done, follows'⟩ := removeEntry_run follows key
    rw [Chart.removeEntry_of_find? found] at done follows'
    rw [← Tree.cells_remove_of_find? found]
    exact ⟨n, done, follows'.inOrder⟩
  remove := by
    obtain ⟨n, done, follows'⟩ := remove_run follows key
    rw [Chart.removeEntry_of_find? found] at done follows'
    rw [← Tree.cells_remove_of_find? found]
    exact ⟨n, done, follows'.inOrder⟩

theorem editsGap (follows : m.Follows a) (absent : a.tree.find? a.less key = none) :
    m.EditsGap key a.tree.cells (a.tree.trail a.less key) (a.tree.rank a.less key) where
  gap q := Tree.cuts_trail_iff follows.valid.nodup_labels absent
  locate := by rw [locate_run follows, absent, Option.map_none]
  get := by rw [get?_run follows, absent, Option.map_none]
  lookup := by rw [lookup?_run follows, absent, Option.map_none]
  contains := by rw [contains_run follows, absent, Option.isSome_none]
  replace := by
    intro value
    obtain ⟨n, done, follows'⟩ := replace_run follows key value
    rw [Chart.replace_of_absent absent] at done follows'
    exact ⟨n, done, follows'.inOrder⟩
  insert := by
    intro value
    cases order : a.free with
    | nil =>
      left
      refine ⟨?_, insert_of_refused follows (Chart.insert_of_full absent order value)⟩
      rw [follows.len, follows.valid.free_eq_nil_iff.1 order]
      exact follows.capacity.symm
    | cons h rest =>
      right
      have ran := insert_run follows key value
      rw [Chart.insert_of_free absent order] at ran
      obtain ⟨n, done, follows'⟩ := ran
      refine ⟨h, n, follows.valid.not_mem_labels (order ▸ List.mem_cons_self), done, ?_⟩
      rw [← Tree.cells_insert_of_absent absent h value]
      exact follows'.inOrder
  removeEntry := by
    obtain ⟨n, done, follows'⟩ := removeEntry_run follows key
    rw [Chart.removeEntry_of_absent absent] at done follows'
    exact ⟨n, done, follows'.inOrder⟩
  remove := by
    obtain ⟨n, done, follows'⟩ := remove_run follows key
    rw [Chart.removeEntry_of_absent absent] at done follows'
    exact ⟨n, done, follows'.inOrder⟩

end Follows

/-- The look-up of a key in a reachable map ends at one node or falls off the tree. Every
other look-up and every update with that key ends there too, and the update edits the
cells at that one position. -/
theorem edits_of_reachable (reachable : Reachable less m) (key : α) :
    ∃ cells passed p, m.InOrder cells ∧ (cells.map Cell.label).Nodup ∧
      ((∃ c, Subtree.Descends m.pool less key m.root passed (some c.label) ∧
          m.EditsMatch key cells p c) ∨
        Subtree.Descends m.pool less key m.root passed none ∧
          m.EditsGap key cells passed p) := by
  obtain ⟨a, follows, rfl⟩ := reachable.follows
  have descends := Subtree.descends_run a.less key follows.spells
  refine ⟨a.tree.cells, a.tree.trail a.less key, a.tree.rank a.less key, follows.inOrder,
    follows.valid.nodup_labels, ?_⟩
  cases found : a.tree.find? a.less key with
  | some c =>
    rw [found] at descends
    exact .inl ⟨c, descends, follows.editsMatch found⟩
  | none =>
    rw [found] at descends
    exact .inr ⟨descends, follows.editsGap found⟩

/-- Keys count as the same when they are at most two apart, which is no equivalence. The
probe `2` matches `0` and `3`; the descent ends at `3`, and there the edit is made. -/
theorem edits_under_tolerance :
    ∃ n : Map Nat Nat,
      perform (.insertMany [(0, 10), (3, 11), (6, 12)])
        (ofPool (fun a b => decide (a + 2 < b)) (.fresh 3)) = .ok .done n ∧
      Reachable (fun a b => decide (a + 2 < b)) n ∧
      ∃ cells p c, n.InOrder cells ∧ cells.map Cell.entry = [(0, 10), (3, 11), (6, 12)] ∧
        c.entry = (3, 11) ∧ n.EditsMatch 2 cells p c := by
  obtain ⟨n, done, reachable, follows⟩ := perform_ofPool (β := Nat)
    (fun a b => decide (a + 2 < b)) (show 3 ≤ maxCapacity by decide)
    (.insertMany [(0, 10), (3, 11), (6, 12)])
  have listed : n.entries = .ok [(0, 10), (3, 11), (6, 12)] := entries_run follows
  have looked : n.lookup? 2 = .ok (some (3, 11)) := lookup?_run follows 2
  refine ⟨n, done, reachable, ?_⟩
  obtain ⟨cells, passed, p, inOrder, -, ⟨c, -, edits⟩ | ⟨-, edits⟩⟩ :=
    edits_of_reachable reachable 2
  · have entry := Except.ok.inj (edits.lookup.symm.trans looked)
    exact ⟨cells, p, c, inOrder, Except.ok.inj (inOrder.entries.symm.trans listed),
      Option.some.inj entry, edits⟩
  · have nothing := Except.ok.inj (edits.lookup.symm.trans looked)
    cases nothing

end BoundedMap.Map
