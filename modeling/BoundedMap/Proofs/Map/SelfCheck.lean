import BoundedMap.Proofs.Chart.Listing
import BoundedMap.Proofs.Chart.Reachable
import BoundedMap.Proofs.Map.Survey
/-!
# The self-check of a map is sound and complete

The check only marks and counts. It walks the tree and the free list, and compares what it
has counted. `Consistent` spells out what a map should be, and the check passes exactly the
maps that are (`check_eq_ok_iff`), among all states that slots, links and counters can be in.
That no live slot is left out of the tree is not looked for either: there are as many live
slots as nodes in the tree, and these are distinct (`Consistent.mem_labels`).

On the maps that requests lead to it can find fault with the order of two keys only, and not
even that under a strict weak order (`check_sound_complete`).
-/

namespace BoundedMap.Map

open Pool (Lists)
open Subtree (Spells Stands)

variable {α β : Type} {m : Map α β} {a : Chart α β} {t : Tree Handle α β} {less : α → α → Bool}
  {v : Violation α}

/-- A map as it should be, over this tree. -/
structure Consistent (m : Map α β) (t : Tree Handle α β) : Prop where
  /-- The links from the root form this tree, over occupied slots. -/
  spells : Spells m.pool m.root t
  /-- No slot is linked into the tree twice. -/
  nodup : t.labels.Nodup
  heights : t.HeightsExact
  balanced : t.Balanced
  /-- Every key lies between those of the nearest ancestors on its left and on its right. -/
  bounded : t.Bounded m.less none none
  len : m.len = t.size
  live : m.pool.live = t.size
  occupied : m.pool.occupied = t.size
  /-- The free list meets every free slot once and nothing else. -/
  free : ∃ hs, Lists m.pool m.pool.free hs ∧ hs.Nodup ∧
    ∀ h, h ∈ hs ↔ ∃ next, m.pool.slot h = .ok (.free next)

namespace Consistent

theorem stands (consistent : m.Consistent t) : Stands m.pool m.root t :=
  ⟨consistent.spells, consistent.nodup, consistent.heights, consistent.balanced⟩

theorem pool_wellFormed (consistent : m.Consistent t) (small : m.capacity ≤ maxCapacity) :
    m.pool.WellFormed :=
  ⟨small, consistent.live.trans consistent.occupied.symm, consistent.free⟩

/-- No occupied slot is left out of the tree. -/
theorem mem_labels (consistent : m.Consistent t) (small : m.capacity ≤ maxCapacity) {h : Handle}
    {n : Node α β} (found : m.pool.read h = .ok n) : h ∈ t.labels := by
  refine Pool.mem_of_length_eq_occupied small consistent.nodup
    (fun g member => consistent.spells.read_of_mem member) ?_ found
  rw [consistent.occupied, Tree.labels, List.length_map, Tree.length_cells]

end Consistent

/-! ## The check -/

/-- After the walk the counts are compared, and then the pool is checked. -/
theorem check_eq (m : Map α β) : m.check =
    match survey m.less m.pool (m.capacity + 1) m.root none none
        (Array.replicate m.capacity false) with
    | .error v => .error v
    | .ok found =>
      if found.count ≠ m.len then .error (.wrongLen m.len found.count)
      else if m.pool.live ≠ m.len then .error (.wrongLive m.pool.live m.len)
      else
        match m.pool.check with
        | .ok () => .ok ()
        | .error what => .error (.pool what) := by
  rw [check]
  cases survey m.less m.pool (m.capacity + 1) m.root none none
    (Array.replicate m.capacity false) with
  | error v => rfl
  | ok found =>
    simp only [bind, Except.bind]
    split
    · rfl
    · split <;> rfl

/-- The check ends, whatever the links are: neither walk comes to its limit. -/
theorem check_ends (failed : m.check = .error v) : ¬ v.Endless := by
  rw [check_eq] at failed
  split at failed
  · rename_i v' walked
    cases failed
    exact survey_ends (by simp) walked
  · split at failed
    · cases failed
      exact id
    · split at failed
      · cases failed
        exact id
      · split at failed
        · cases failed
        · rename_i what checked
          cases failed
          rintro rfl
          exact m.pool.check_ends checked

/-- Over a tree of the right shape, with the right counts, the check fails only when some
key is on the wrong side of a bound. -/
theorem check_fails (stands : Stands m.pool m.root t) (pool : m.pool.WellFormed)
    (len : m.len = t.size) (live : m.pool.live = t.size) (failed : m.check = .error v) :
    Misordered m.less (t.cells.map Cell.key) v ∧ ¬ t.Bounded m.less none none := by
  have small := pool.capacity_le
  have fits : t.depth ≤ m.capacity + 1 := by
    have counted := Pool.length_freeSlots_add_occupied small
    have low := Tree.height_le_size t stands.avl
    have occupied := pool.live_eq
    rw [stands.avl.heights.height_eq_depth] at low
    show t.depth ≤ m.pool.capacity + 1
    omega
  have unmarked : ∀ h ∈ t.labels, Pool.Unmarked (Array.replicate m.capacity false) h := by
    intro h member
    obtain ⟨n, found⟩ := stands.spells.read_of_mem member
    exact Pool.unmarked_replicate.2 (Pool.index_lt_of_read found)
  rw [check_eq] at failed
  split at failed
  · rename_i v' walked
    obtain rfl := Except.error.inj failed
    exact survey_fails stands unmarked fits nofun nofun
      (fun c member => List.mem_map_of_mem member) walked
  · rename_i found walked
    obtain ⟨t', met⟩ := surveyed walked
    obtain rfl := met.stands.spells.unique stands.spells
    rw [if_neg (by rw [met.count, len]; simp), if_neg (by rw [live, len]; simp),
      (Pool.check_eq_ok_iff_wellFormed small).2 pool] at failed
    cases failed

/-- The check passes the maps that are as they should be, and no others. -/
theorem check_eq_ok_iff (small : m.capacity ≤ maxCapacity) :
    m.check = .ok () ↔ ∃ t, m.Consistent t := by
  constructor
  · intro passed
    rw [check_eq] at passed
    split at passed
    · cases passed
    · rename_i found walked
      obtain ⟨t, met⟩ := surveyed walked
      split at passed
      · cases passed
      · rename_i len
        split at passed
        · cases passed
        · rename_i live
          split at passed
          · rename_i checked
            obtain ⟨-, counted, free⟩ := (Pool.check_eq_ok_iff_wellFormed small).1 checked
            have count := met.count
            exact ⟨t, met.stands.spells, met.stands.nodup, met.stands.avl.heights,
              met.stands.avl.balanced, met.bounded, by omega, by omega, by omega, free⟩
          · cases passed
  · rintro ⟨t, consistent⟩
    cases checked : m.check with
    | ok done => rfl
    | error v =>
      obtain ⟨-, off⟩ := check_fails consistent.stands (consistent.pool_wellFormed small)
        consistent.len consistent.live checked
      exact absurd consistent.bounded off

/-! ## Reachable maps -/

theorem keys_run (follows : m.Follows a) : m.keys = .ok (a.tree.cells.map Cell.key) := by
  rw [keys, entries_run follows, Tree.entries]
  show Except.ok _ = _
  rw [List.map_map]
  rfl

/-- A map whose keys ascend under a strict weak order passes the check. -/
theorem check_run (follows : m.Follows a) (sorted : a.Sorted) : m.check = .ok () := by
  cases checked : m.check with
  | ok done => rfl
  | error v =>
    obtain ⟨-, off⟩ := check_fails follows.stands follows.pool_wellFormed follows.len
      follows.live checked
    rw [follows.less, Tree.bounded_iff sorted.order.trans] at off
    exact absurd ⟨sorted.ascending, nofun, nofun⟩ off

/-- The self-check ends on every map that handles can name the slots of, and passes exactly the
maps that are as they should be. In these no occupied slot is left out of the tree, and
under a strict weak order their keys ascend. A map that requests have led to can fail only
for two of its keys that are not in order, and under a strict weak order it does not. -/
theorem check_sound_complete (small : m.capacity ≤ maxCapacity) :
    (∀ v, m.check = .error v → ¬ v.Endless) ∧
      (m.check = .ok () ↔ ∃ t, m.Consistent t) ∧
      (∀ t, m.Consistent t → ∀ h n, m.pool.read h = .ok n → h ∈ t.labels) ∧
      (StrictWeak m.less → ∀ t : Tree Handle α β, t.Bounded m.less none none ↔
        (t.cells.map Cell.key).Pairwise fun k l => m.less k l = true) ∧
      ∀ less, Reachable less m → (StrictWeak less → m.check = .ok ()) ∧
        ∀ v, m.check = .error v →
          ∃ keys, m.keys = .ok keys ∧ Misordered less keys v := by
  have ascending : StrictWeak m.less → ∀ t : Tree Handle α β, t.Bounded m.less none none ↔
      t.Ascending m.less := by
    intro order t
    simp [Tree.bounded_iff order.trans]
  refine ⟨fun v => check_ends, check_eq_ok_iff small, fun t consistent h n found => ?_, ?_, ?_⟩
  · exact consistent.mem_labels small found
  · intro order t
    rw [ascending order, Tree.ascending_iff_keys]
  · intro less reachable
    obtain rfl := reachable.less_eq
    constructor
    · intro order
      obtain ⟨a, follows, sorted⟩ := reachable.follows_sorted order
      exact check_run follows sorted
    · intro v failed
      obtain ⟨a, follows, -⟩ := reachable.follows
      obtain ⟨named, -⟩ := check_fails follows.stands follows.pool_wellFormed follows.len
        follows.live failed
      exact ⟨_, keys_run follows, named⟩

/-- A map whose only node is its own left child. -/
def looped : Map Nat Nat :=
  ⟨Order.ascending, some (.ofIndex 0),
    ⟨#[.occupied ⟨5, 50, some (.ofIndex 0), none, 1⟩], none, 1⟩, 1⟩

/-- Ascending numbers, except that 1 is not put before 4. -/
def ascendingBut (k l : Nat) : Bool :=
  k < l && !(k == 1 && l == 4)

/-- A node that is its own child does not pass. Nor does a map of which the key 2 was removed
that stood between 1 and 4, which the predicate does not put in order: 1 comes below 4. -/
theorem check_of_looped :
    looped.capacity ≤ maxCapacity ∧ looped.check = .error (.linkedTwice (.ofIndex 0)) ∧
      (¬ ∃ t, looped.Consistent t) ∧
      ∃ (answers : List (Answer Nat Nat)) (n : Map Nat Nat) (v : Violation Nat),
        run [.insertMany [(2, 20), (1, 10), (4, 40), (3, 30), (5, 50), (6, 60)], .remove 3,
          .remove 2] (ofPool ascendingBut (.fresh 6)) = .ok answers n ∧
        n.check = .error v ∧ Misordered ascendingBut [1, 4, 5, 6] v := by
  have small : looped.capacity ≤ maxCapacity := show 1 ≤ maxCapacity by decide
  have failed : looped.check = .error (.linkedTwice (.ofIndex 0)) := rfl
  refine ⟨small, failed, ?_, ?_⟩
  · rw [← (check_sound_complete small).2.1, failed]
    exact nofun
  · obtain ⟨n, ran, reachable, follows⟩ := run_ofPool ascendingBut
      (show 6 ≤ maxCapacity by decide)
      [.insertMany [(2, 20), (1, 10), (4, 40), (3, 30), (5, 50), (6, 60)], .remove 3, .remove 2]
    have small : n.capacity ≤ maxCapacity := by
      rw [capacity, follows.capacity]
      exact follows.valid.capacity_le
    have listed : n.keys = .ok [1, 4, 5, 6] := by
      rw [keys_run follows]
      decide +kernel
    obtain ⟨-, sound, -, -, reached⟩ := check_sound_complete small
    cases checked : n.check with
    | ok done =>
      obtain ⟨t, consistent⟩ := sound.1 checked
      obtain rfl := consistent.spells.unique follows.spells
      have bounded := consistent.bounded
      rw [reachable.less_eq] at bounded
      exact absurd bounded (by decide +kernel)
    | error v =>
      obtain ⟨keys, read, named⟩ := (reached ascendingBut reachable).2 v checked
      obtain rfl := Except.ok.inj (listed.symm.trans read)
      exact ⟨_, n, v, ran, checked, named⟩

end BoundedMap.Map
