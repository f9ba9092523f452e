import BoundedMap.Proofs.Chart.Reachable
import BoundedMap.Proofs.Subtree.Locality
/-!
# Insertions rebalance at one place

An insertion goes back over every node that its descent has passed and rebalances each of them. In
a reachable map, whatever the predicate, this changes links in one place only
(`insertion_is_local`): at the nodes of one rotation and the node above them. The new leaf adds one
node, to which it is linked. All other nodes of the path get at most another height, and nodes off
the path are not written at all, or with what they held.
-/

namespace BoundedMap.Map

variable {α β : Type} {m n : Map α β} {a b : Chart α β} {less : α → α → Bool}

/-- A live node of `m` has another link in `n`, if it is still there. -/
def Relinked (m n : Map α β) (h : Handle) : Prop :=
  ∃ d, m.pool.read h = .ok d ∧
    ∀ d', n.pool.read h = .ok d' → d'.left ≠ d.left ∨ d'.right ≠ d.right

/-- Trees that keep their nodes are trees of maps that do. -/
theorem Follows.keeps {touched relinked : Handle → Prop} (follows : m.Follows a)
    (follows' : n.Follows b) (keeps : Subtree.Keeps touched relinked a.tree b.tree) {h : Handle}
    {d : Node α β} (live : m.pool.read h = .ok d) :
    ∃ d', n.pool.read h = .ok d' ∧ (¬ touched h → d' = d) ∧
      (¬ relinked h → ∀ s, d'.child s = d.child s) := by
  have member := follows.spells.mem_nodes_of_read (follows.mem_labels_of_read live) live
  obtain ⟨d', member', same⟩ := keeps h d member
  exact ⟨d', follows'.spells.read_of_mem_nodes member', same⟩

/-- Trees with different links at one slot are trees of maps that differ there. -/
theorem Follows.relinked (follows : m.Follows a) (follows' : n.Follows b) {h : Handle}
    (moved : ∃ e ∈ Subtree.nodes a.tree, ∃ e' ∈ Subtree.nodes b.tree, e.1 = h ∧ e'.1 = h ∧
      (e'.2.left ≠ e.2.left ∨ e'.2.right ≠ e.2.right)) : m.Relinked n h := by
  obtain ⟨⟨_, d⟩, member, ⟨_, d'⟩, member', rfl, rfl, differ⟩ := moved
  refine ⟨d, follows.spells.read_of_mem_nodes member, fun d'' live => ?_⟩
  obtain rfl := Except.ok.inj ((follows'.spells.read_of_mem_nodes member').symm.trans live)
  exact differ

/-- An insertion of a new key into a reachable map, whatever the predicate. A live node that its
descent has not passed is the same afterwards, with its entry, links and height. At most five live
nodes have other links than before, and all of them were passed: the last one, to which the new leaf
is linked, and those in one stretch of four, which are the node above a rotation and its two or
three nodes. -/
theorem insertion_is_local (reachable : Reachable less m) {key : α} {value : β}
    (inserted : insert key value m = .ok none n) :
    ∃ passed hs, Subtree.Descends m.pool less key m.root passed none ∧
      (∀ h d, m.pool.read h = .ok d → h ∉ passed.map Prod.fst → n.pool.read h = .ok d) ∧
      (∀ h, m.Relinked n h → h ∈ hs) ∧ hs.length ≤ 5 ∧
      ∃ i, hs = ((passed.map Prod.fst).drop i).take 4 ++ (passed.map Prod.fst).getLast?.toList := by
  obtain ⟨a, follows, rfl⟩ := reachable.follows
  obtain ⟨b, outcome, follows'⟩ := insert_answered follows inserted
  cases found : a.tree.find? a.less key with
  | some c =>
    rw [Chart.insert_of_find? found] at outcome
    cases outcome
  | none =>
    cases order : a.free with
    | nil =>
      rw [Chart.insert_of_full found order] at outcome
      cases outcome
    | cons y rest =>
      rw [Chart.insert_of_free found order] at outcome
      obtain ⟨-, rfl⟩ := Prod.mk.inj outcome
      have fresh : y ∉ a.tree.labels :=
        follows.valid.not_mem_labels (order ▸ List.mem_cons_self)
      obtain ⟨i, keeps⟩ := Subtree.keeps_of_insert follows.valid.avl found fresh value
      have descends := Subtree.descends_run a.less key follows.spells
      rw [found] at descends
      refine ⟨_, _, descends, fun h d live off => ?_, fun h relinked => ?_, ?_, i, rfl⟩
      · obtain ⟨d', live', same, -⟩ := follows.keeps follows' keeps live
        exact same off ▸ live'
      · obtain ⟨d, live, moved⟩ := relinked
        obtain ⟨d', live', -, links⟩ := follows.keeps follows' keeps live
        by_contra outside
        rw [List.mem_append, Option.mem_toList] at outside
        have kept := links outside
        rcases moved d' live' with left | right
        · exact left (kept .left)
        · exact right (kept .right)
      · have stretch := List.length_take_le 4 (((a.tree.trail a.less key).map Prod.fst).drop i)
        have last := Option.length_toList_le
          (o := ((a.tree.trail a.less key).map Prod.fst).getLast?)
        rw [List.length_append]
        omega

/-- Fourteen keys in the order in which they fill a tree level by level. The new key 27 goes below
25, and on the way back the node of 50 is rotated twice: 30 takes its place below 100. The nodes of
100, 50, 20, 30 and 25 get other links, which makes five. -/
theorem insertion_is_local_at_five :
    ∃ m n : Map Nat Nat,
      perform (.insertMany [(100, 0), (50, 1), (150, 2), (20, 3), (70, 4), (120, 5), (180, 6),
        (10, 7), (30, 8), (80, 9), (190, 10), (5, 11), (25, 12), (40, 13)])
          (ofPool Order.ascending (.fresh 15)) = .ok .done m ∧
      Reachable Order.ascending m ∧ insert 27 14 m = .ok none n ∧
      (∃ hs : List Handle, hs.length ≤ 5 ∧ ∀ h, m.Relinked n h → h ∈ hs) ∧
      ∀ i ∈ [0, 1, 3, 8, 12], m.Relinked n (.ofIndex i) := by
  obtain ⟨m, done, reachable, follows⟩ := perform_ofPool (β := Nat)
    (Order.ascending : Nat → Nat → Bool) (show 15 ≤ maxCapacity by decide)
    (.insertMany [(100, 0), (50, 1), (150, 2), (20, 3), (70, 4), (120, 5), (180, 6),
      (10, 7), (30, 8), (80, 9), (190, 10), (5, 11), (25, 12), (40, 13)])
  obtain ⟨n, inserted, follows'⟩ := insert_run follows 27 14
  obtain ⟨-, hs, -, -, all, few, -⟩ := insertion_is_local reachable inserted
  refine ⟨m, n, done, reachable, inserted, ⟨hs, few, all⟩, fun i listed => ?_⟩
  refine follows.relinked follows' ?_
  revert i
  decide +kernel

end BoundedMap.Map
