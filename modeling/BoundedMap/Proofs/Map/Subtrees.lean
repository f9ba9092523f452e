import BoundedMap.Proofs.Chart.Reachable
import BoundedMap.Proofs.Subtree.Calls
import BoundedMap.Proofs.Subtree.Nodes
/-!
# Updates at the subtrees of a map

The recursions of an update are at home at every subtree of a reachable map, whatever the predicate
(`updates_below_of_reachable`): they end, they leave a balanced subtree that is at most one higher,
or one lower, than before, they write no slot elsewhere but the one that is acquired, and they call
for rebalancing only where two subtrees differ by at most two in height.
-/

namespace BoundedMap.Map

open Subtree (Cut Detached Grown StandsIn Stands)

variable {α β : Type} {m : Map α β} {t : Option Handle} {less : α → α → Bool}

/-- A link to a subtree of the map, which may be empty: the root or a link of a live node. -/
def IsLink (m : Map α β) (t : Option Handle) : Prop :=
  t = m.root ∨ ∃ x n s, m.pool.read x = .ok n ∧ t = n.child s

/-- What the three recursions do at the link `t` to the subtree `a`, within any limit that the
paths of the subtree keep. -/
structure UpdatesBelow (m : Map α β) (t : Option Handle) (a : Tree Handle α β) : Prop where
  stands : Stands m.pool t a
  /-- An insertion makes the subtree grow, or it is refused with nothing written. -/
  insert : ∀ key value,
    (∃ q y label, (∀ limit, a.depth ≤ limit →
        Subtree.insert m.less key value limit t m.pool =
          .ok (y, (a.find? m.less key).map Cell.value) q) ∧
      Grown m.pool a ((a.find? m.less key).map Cell.value) q y
        (a.insert m.less label key value).1) ∨
    a.find? m.less key = none ∧ m.pool.free = none ∧ ∀ limit, a.depth ≤ limit →
      Subtree.insert m.less key value limit t m.pool =
        .error (.refused (.exhausted m.capacity)) m.pool
  remove : ∀ probe, ∃ q link, (∀ limit, a.depth ≤ limit →
      Subtree.remove m.less probe limit t m.pool =
        .ok (link, (a.find? m.less probe).map Cell.entry) q) ∧
    Cut m.pool a ((a.find? m.less probe).map Cell.entry) q link (a.remove m.less probe).1
  removeMin : ∀ x, t = some x → ∃ q link y b, (∀ limit, a.depth ≤ limit →
      Subtree.removeMin limit x m.pool = .ok (link, y) q) ∧ Detached m.pool a q link y b
  /-- Every call of `balance` is at a node over balanced subtrees that differ by at most two: what
  a step does elsewhere that stands in for it is never seen. -/
  calls : ∀ bal, StandsIn bal → ∀ limit, a.depth ≤ limit →
    (∀ key value, Subtree.insertWith bal m.less key value limit t m.pool =
      Subtree.insert m.less key value limit t m.pool) ∧
    (∀ probe, Subtree.removeWith bal m.less probe limit t m.pool =
      Subtree.remove m.less probe limit t m.pool) ∧
    ∀ x, t = some x →
      Subtree.removeMinWith bal limit x m.pool = Subtree.removeMin limit x m.pool

namespace Follows

variable {a : Chart α β}

/-- The free list of a map can be popped. -/
theorem pops (follows : m.Follows a) : m.pool.Pops := by
  intro h start
  cases order : a.free with
  | nil =>
    rw [follows.free_eq_none order] at start
    cases start
  | cons g rest =>
    obtain ⟨next, start', unused, -⟩ := follows.head order
    obtain rfl : g = h := Option.some.inj (start'.symm.trans start)
    refine ⟨⟨next, unused⟩, ?_⟩
    rw [follows.live, ← follows.len]
    exact follows.len_lt

/-- A balanced tree hangs from every link of a map. -/
theorem stands_of_isLink (follows : m.Follows a) (isLink : m.IsLink t) :
    ∃ b, Stands m.pool t b ∧ b.depth ≤ m.capacity ∧ b.size ≤ m.pool.live := by
  rcases isLink with rfl | ⟨x, n, s, live, rfl⟩
  · exact ⟨a.tree, follows.stands, follows.room, follows.live.ge⟩
  · obtain ⟨b, stands, lower, fewer⟩ :=
      follows.stands.child_of_mem (follows.mem_labels_of_read live) live s
    exact ⟨b, stands, Nat.le_trans (Nat.le_of_lt lower) follows.room,
      Nat.le_trans (Nat.le_of_lt fewer) follows.live.ge⟩

end Follows

/-- The updates at every subtree of a reachable map, whatever the predicate. -/
theorem updates_below_of_reachable (reachable : Reachable less m) (isLink : m.IsLink t) :
    ∃ a, a.depth ≤ m.capacity ∧ m.UpdatesBelow t a := by
  obtain ⟨c, follows, -⟩ := reachable.follows
  obtain ⟨a, stands, room, counted⟩ := follows.stands_of_isLink isLink
  refine ⟨a, room, stands, ?_, ?_, ?_, ?_⟩
  · intro key value
    exact Subtree.insert_outcome stands follows.pops m.less key value
  · intro probe
    exact Subtree.remove_outcome stands counted m.less probe
  · rintro x rfl
    exact Subtree.removeMin_outcome stands
  · intro bal standsIn limit enough
    refine ⟨fun key value => ?_, fun probe => ?_, ?_⟩
    · exact Subtree.insertWith_eq standsIn stands follows.pops m.less key value enough
    · exact Subtree.removeWith_eq standsIn stands counted m.less probe enough
    · rintro x rfl
      exact Subtree.removeMinWith_eq standsIn stands enough

/-- Seven keys in a full tree, and the subtree of three that hangs on its left. -/
theorem updates_below_left_child :
    ∃ n : Map Nat Nat,
      perform (.insertMany [(40, 0), (20, 1), (60, 2), (10, 3), (30, 4), (50, 5), (70, 6)])
        (ofPool Order.ascending (.fresh 8)) = .ok .done n ∧
      Reachable Order.ascending n ∧ n.root = some (.ofIndex 0) ∧ n.IsLink (some (.ofIndex 1)) ∧
      ∃ a, n.UpdatesBelow (some (.ofIndex 1)) a ∧ a.height = 2 := by
  obtain ⟨n, done, reachable, follows⟩ := perform_ofPool (β := Nat)
    (Order.ascending : Nat → Nat → Bool) (show 8 ≤ maxCapacity by decide)
    (.insertMany [(40, 0), (20, 1), (60, 2), (10, 3), (30, 4), (50, 5), (70, 6)])
  have top := follows.spells.read_of_mem_nodes (x := .ofIndex 0)
    (n := ⟨40, 0, some (.ofIndex 1), some (.ofIndex 2), 3⟩) (by decide +kernel)
  have left := follows.spells.read_of_mem_nodes (x := .ofIndex 1)
    (n := ⟨20, 1, some (.ofIndex 3), some (.ofIndex 4), 2⟩) (by decide +kernel)
  have isLink : n.IsLink (some (.ofIndex 1)) := .inr ⟨_, _, .left, top, rfl⟩
  obtain ⟨a, -, below⟩ := updates_below_of_reachable reachable isLink
  refine ⟨n, done, reachable, follows.spells.eq_linkTo, isLink, a, below, ?_⟩
  cases below.stands.spells with
  | node found _ _ =>
    obtain rfl := Except.ok.inj (found.symm.trans left)
    rfl

end BoundedMap.Map
