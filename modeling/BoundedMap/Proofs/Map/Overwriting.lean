import BoundedMap.Proofs.Chart.Layout
import BoundedMap.Proofs.Chart.Reachable
/-!
# Overwrites and misses restructure nothing

An insertion and a removal write a link and rebalance at every node on their way back, also when
the one has only overwritten a value and the other has found nothing. In a balanced tree with exact
heights all of these writes put back what was there. What is left is equal to the map before, in
every link, height and slot, but for the value that was overwritten (`overwriting_of_reachable`).
-/

namespace BoundedMap.Map

variable {α β : Type} {m n : Map α β} {a : Chart α β} {less : α → α → Bool}

/-- A removal that answers with the value alone says the same about a miss. -/
theorem remove_eq_none_iff {probe : α} :
    remove probe m = .ok none n ↔ removeEntry probe m = .ok none n := by
  rw [remove]
  cases outcome : removeEntry probe m with
  | error e k =>
    rw [bind_of_error outcome]
    constructor <;> intro done <;> cases done
  | ok removed k =>
    rw [bind_of_ok outcome]
    cases removed with
    | none =>
      constructor <;> intro done <;> cases done <;> rfl
    | some e =>
      constructor <;> intro done <;> cases done

namespace Follows

/-- An insertion that finds a match changes its value in place. -/
theorem insert_in_place (follows : m.Follows a) {key : α} {c : Cell Handle α β} {d : Node α β}
    (found : a.tree.find? a.less key = some c) (live : m.pool.read c.label = .ok d) (value : β) :
    insert key value m =
      .ok (some d.value) { m with pool := m.pool.put c.label (.occupied { d with value }) } := by
  have ran := insert_run follows key value
  rw [Chart.insert_of_find? found] at ran
  obtain ⟨n, done, follows'⟩ := ran
  obtain rfl := (follows_overwrite follows found live c.label value).unique follows'
  obtain ⟨e, live', -, valueEq⟩ :=
    follows.spells.read_of_mem_cells (Tree.mem_cells_of_find? found)
  obtain rfl := Except.ok.inj (live.symm.trans live')
  rw [done, valueEq]

/-- An insertion does not answer an old value if it finds no match. -/
theorem insert_ne_of_absent (follows : m.Follows a) {key : α}
    (absent : a.tree.find? a.less key = none) (value old : β) :
    insert key value m ≠ .ok (some old) n := by
  intro replaced
  obtain ⟨b, outcome, -⟩ := insert_answered follows replaced
  cases order : a.free with
  | nil =>
    rw [Chart.insert_of_full absent order] at outcome
    cases outcome
  | cons h rest =>
    rw [Chart.insert_of_free absent order] at outcome
    cases outcome

/-- A removal finds nothing where the look-up does not, and then the map stays as it is. -/
theorem removeEntry_eq_none_iff (follows : m.Follows a) {probe : α} :
    removeEntry probe m = .ok none n ↔ m.locate probe = .ok none ∧ n = m := by
  rw [locate_run follows]
  obtain ⟨k, done, follows'⟩ := removeEntry_run follows probe
  cases found : a.tree.find? a.less probe with
  | none =>
    rw [Chart.removeEntry_of_absent found] at done follows'
    obtain rfl := follows.unique follows'
    rw [done]
    constructor
    · intro vain
      exact ⟨rfl, (EStateM.Result.ok.inj vain).2.symm⟩
    · rintro ⟨-, rfl⟩
      rfl
  | some c =>
    rw [Chart.removeEntry_of_find? found] at done
    rw [done]
    constructor
    · intro vain
      cases vain
    · rintro ⟨located, -⟩
      cases located

end Follows

/-- In a reachable map, whatever the predicate: when the look-up of a key finds a slot, an
insertion answers the value in that slot and leaves the map with that value replaced and nothing
else; it answers an old value in no other case. A removal answers that there is nothing when the
look-up finds no slot, and then it leaves the very same map. -/
theorem overwriting_of_reachable (reachable : Reachable less m) :
    (∀ key x, m.locate key = .ok (some x) → ∃ node, m.pool.read x = .ok node ∧
      ∀ value, insert key value m =
        .ok (some node.value) { m with pool := m.pool.put x (.occupied { node with value }) }) ∧
    (∀ key value old n, insert key value m = .ok (some old) n →
      ∃ x, m.locate key = .ok (some x)) ∧
    (∀ probe n, removeEntry probe m = .ok none n ↔ m.locate probe = .ok none ∧ n = m) ∧
    (∀ probe n, remove probe m = .ok none n ↔ m.locate probe = .ok none ∧ n = m) := by
  obtain ⟨a, follows, rfl⟩ := reachable.follows
  refine ⟨fun key x located => ?_, fun key value old n replaced => ?_,
    fun probe n => follows.removeEntry_eq_none_iff,
    fun probe n => remove_eq_none_iff.trans follows.removeEntry_eq_none_iff⟩
  · rw [locate_run follows] at located
    obtain ⟨c, found, rfl⟩ := Option.map_eq_some_iff.1 (Except.ok.inj located)
    obtain ⟨d, live, -⟩ := follows.spells.read_of_mem_cells (Tree.mem_cells_of_find? found)
    exact ⟨d, live, follows.insert_in_place found live⟩
  · rw [locate_run follows]
    cases found : a.tree.find? a.less key with
    | none => exact absurd replaced (follows.insert_ne_of_absent found value old)
    | some c => exact ⟨c.label, rfl⟩

/-- On a circle of 10 a key comes before those less than half a turn ahead, and keys that are
half a turn apart are the same. The key 7 is found where 2 is bound, at the root of a tree of
height 3, and only the value there changes. A removal of 1 goes past 2 and 9, finds nothing and
changes nothing. -/
theorem overwriting_on_circle :
    ∃ m : Map Int Nat,
      perform (.insertMany [(2, 20), (6, 60), (9, 90), (4, 40)])
        (ofPool (fun a b => decide (0 < (b - a) % 10) && decide (2 * ((b - a) % 10) < 10))
          (.fresh 6)) = .ok .done m ∧
      Reachable (fun a b => decide (0 < (b - a) % 10) && decide (2 * ((b - a) % 10) < 10)) m ∧
      m.height = .ok 3 ∧
      insert 7 70 m = .ok (some 20)
        { m with
          pool := m.pool.put (.ofIndex 0)
            (.occupied ⟨2, 70, some (.ofIndex 2), some (.ofIndex 1), 3⟩) } ∧
      removeEntry 1 m = .ok none m ∧ remove 1 m = .ok none m := by
  obtain ⟨m, done, reachable, follows⟩ := perform_ofPool (β := Nat)
    (fun a b : Int => decide (0 < (b - a) % 10) && decide (2 * ((b - a) % 10) < 10))
    (show 6 ≤ maxCapacity by decide) (.insertMany [(2, 20), (6, 60), (9, 90), (4, 40)])
  obtain ⟨overwrites, -, removedEntry, removed⟩ := overwriting_of_reachable reachable
  have located : m.locate 7 = .ok (some (.ofIndex 0)) := locate_run follows 7
  have missed : m.locate 1 = .ok none := locate_run follows 1
  have live : m.pool.read (.ofIndex 0) =
      .ok ⟨2, 20, some (.ofIndex 2), some (.ofIndex 1), 3⟩ :=
    follows.spells.read_of_mem_nodes (by decide +kernel)
  obtain ⟨node, live', overwritten⟩ := overwrites 7 _ located
  obtain rfl := Except.ok.inj (live.symm.trans live')
  exact ⟨m, done, reachable, height_run follows, overwritten 70,
    (removedEntry 1 m).2 ⟨missed, rfl⟩, (removed 1 m).2 ⟨missed, rfl⟩⟩

end BoundedMap.Map
