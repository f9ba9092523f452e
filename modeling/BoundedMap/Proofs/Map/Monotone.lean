import BoundedMap.Proofs.Chart.Planting
import BoundedMap.Proofs.Map.RoundTrip
import BoundedMap.Proofs.Tree.Combed
/-!
# Maps filled in order

Keys in ascending or in descending order are each inserted at one end of the tree. A map that is
filled like this is as low as its number of entries allows (`lowest_of_monotone`), where the bound
for arbitrary histories leaves room for almost half as much again. Entries are written in ascending
order, and so a map that is read back from its text is as low as possible, whatever the shape of
the one that was written.
-/

namespace BoundedMap

namespace Chart

open Request (inserts)

variable {α β : Type} {a : Chart α β} {pairs : List (α × β)} {s : Side}

/-- Keys that all go to one side of those before them leave the tree combed to that side. -/
theorem run_combed (empty : a.tree = .nil) (room : pairs.length ≤ a.free.length)
    (oneWay : pairs.Pairwise fun d e => turn a.less e.1 d.1 = some s) :
    ∃ b, a.run (inserts pairs) = (List.replicate pairs.length (.value none), b) ∧
      b.tree.Combed s ∧ b.tree.size = pairs.length := by
  obtain ⟨cs, later, rest, rfl, slots, ended⟩ := exists_cells pairs a.free
  obtain rfl : later = [] := by
    rcases ended with rfl | rfl
    · rfl
    · simpa [slots] using room
  rw [List.append_nil] at oneWay ⊢
  have turns : Tree.Turns (· = some s) a.less a.tree cs := by
    rw [empty]
    exact .start (List.pairwise_map.1 oneWay)
  have apart : Tree.Turns (· ≠ none) a.less a.tree cs := turns.mono (by simp)
  refine ⟨{ a with tree := a.tree.plant a.less cs, free := rest }, ?_, ?_, ?_⟩
  · rw [List.length_map]
    exact run_plant slots apart
  · apply Tree.combed_plant _ _ turns
    · rw [empty]
      trivial
    · rw [empty]
      exact Tree.avl_nil
  · show (a.tree.plant a.less cs).size = _
    rw [Tree.size_plant apart, empty, List.length_map]
    exact Nat.zero_add _

end Chart

namespace Map

open Request (inserts)

variable {α β : Type} {m : Map α β} {a : Chart α β} {less : α → α → Bool} {s : Side}

/-- A map whose tree is as low as its number of entries allows. -/
structure Lowest (m : Map α β) (t : Tree Handle α β) : Prop where
  tree : m.toTree = .ok t
  size : t.size = m.len
  height : m.height = .ok t.depth
  depth : m.len ≠ 0 → t.depth = m.len.log2 + 1
  /-- No binary tree of so many nodes is less deep, whatever its nodes hold. -/
  least : ∀ {σ γ δ : Type} (u : Tree σ γ δ), u.size = m.len → t.depth ≤ u.depth
  perfect : ∀ j, m.len = 2 ^ j - 1 → t.Perfect ∧ t.depth = j

theorem Follows.lowest (follows : m.Follows a) (combed : a.tree.Combed s) : m.Lowest a.tree := by
  have avl := follows.valid.avl
  have len := follows.len
  refine ⟨toTree_run follows, len.symm, ?_, ?_, ?_, ?_⟩
  · rw [height_run follows, avl.heights.height_eq_depth]
  · intro some
    rw [len] at some ⊢
    rw [← avl.heights.height_eq_depth]
    exact combed.height_eq avl some
  · intro σ γ δ u same
    exact combed.depth_le avl (same.trans len)
  · intro j exact
    have some := Nat.two_pow_pos j
    exact combed.perfect avl (by omega)

theorem Follows.tree_eq_nil (follows : m.Follows a) (none : m.len = 0) : a.tree = .nil := by
  rw [follows.len] at none
  cases tree : a.tree with
  | nil => rfl
  | node c h l r => simp [tree, Tree.size] at none

/-- Keys in order go to one side of those before them. -/
theorem exists_side (order : StrictWeak less) {pairs : List (α × β)}
    (sorted : (pairs.Pairwise fun d e => less d.1 e.1 = true) ∨
      pairs.Pairwise fun d e => less e.1 d.1 = true) :
    ∃ s, pairs.Pairwise fun d e => turn less e.1 d.1 = some s := by
  rcases sorted with upward | downward
  · refine ⟨.right, upward.imp ?_⟩
    intro d e below
    exact turn_eq_right_iff.2 ⟨order.asymm below, below⟩
  · refine ⟨.left, downward.imp ?_⟩
    intro d e below
    exact turn_eq_left_iff.2 below

/-- Keys inserted in order into a map without entries leave a map that is as low as possible. -/
theorem inserts_run (follows : m.Follows a) (vacant : m.len = 0) {pairs : List (α × β)}
    (room : pairs.length ≤ m.capacity)
    (oneWay : pairs.Pairwise fun d e => turn a.less e.1 d.1 = some s) :
    ∃ n t, run (inserts pairs) m = .ok (List.replicate pairs.length (.value none)) n ∧
      n.len = pairs.length ∧ n.Lowest t := by
  have empty := follows.tree_eq_nil vacant
  rw [← follows.length_free empty] at room
  obtain ⟨b, answered, combed, size⟩ := Chart.run_combed empty room oneWay
  obtain ⟨n, ran, follows'⟩ := run_run follows (inserts pairs)
  rw [answered] at ran follows'
  exact ⟨n, b.tree, ran, follows'.len.trans size, follows'.lowest combed⟩

/-- Entries in order make a map that is as low as possible. -/
theorem ofEntries_combed (less : α → α → Bool) {es : List (α × β)}
    (few : es.length ≤ maxCapacity)
    (oneWay : es.Pairwise fun d e => turn less e.1 d.1 = some s) :
    ∃ n t, (∀ hint, ofEntries less hint es = .ok n) ∧ n.len = es.length ∧ n.Lowest t := by
  obtain ⟨t, inserted⟩ := Chart.insertMany_empty less es
  obtain ⟨free, ran⟩ := inserted es.length (Nat.le_refl _)
  obtain ⟨n, built, follows⟩ := ofEntries_run less few ran
  obtain ⟨b, answered, combed, size⟩ :=
    Chart.run_combed (a := Chart.empty less es.length) rfl (by simp [Chart.empty]) oneWay
  -- the bindings go where the insertions go
  have same := Chart.run_of_insertMany ran
  rw [answered] at same
  obtain rfl : b = _ := same
  exact ⟨n, t, built, follows.len.trans size, follows.lowest combed⟩

/-- Under a strict weak order, keys inserted in ascending or in descending order into a map
without entries, each of them new, leave it as low as its number of entries allows, and perfect
whenever that number is one below a power of two. A map that is built from the entries of another
is as low as possible too, and it is the one that is read back from the text of the other, for every
library that does what is documented of it. -/
theorem lowest_of_monotone (order : StrictWeak less) (reachable : Reachable less m) :
    (m.len = 0 → ∀ pairs : List (α × β), pairs.length ≤ m.capacity →
      ((pairs.Pairwise fun d e => less d.1 e.1 = true) ∨
        pairs.Pairwise fun d e => less e.1 d.1 = true) →
      ∃ n t, run (inserts pairs) m = .ok (List.replicate pairs.length (.value none)) n ∧
        n.len = pairs.length ∧ n.Lowest t) ∧
    ∃ es n t, m.entries = .ok es ∧ (∀ hint, ofEntries less hint es = .ok n) ∧ n.len = m.len ∧
      n.Lowest t ∧
      ∀ {δ ε : Type} (c : Json.Codec δ ε α β) (key : α → String) (value : β → String),
        c.Lawful key value → ∃ text, m.toJson c = .ok (.ok text) ∧ ofJson c less text = .ok n := by
  obtain ⟨a, follows, rfl⟩ := reachable.follows
  have sorted := follows.sorted reachable order
  constructor
  · intro vacant pairs room inOrder
    obtain ⟨s, oneWay⟩ := exists_side order inOrder
    exact inserts_run follows vacant room oneWay
  · have upward := Tree.ascending_iff_entries.1 sorted.ascending
    obtain ⟨s, oneWay⟩ := exists_side order (.inl upward)
    obtain ⟨n, t, built, len, lowest⟩ :=
      ofEntries_combed a.less follows.valid.length_entries_le oneWay
    refine ⟨_, n, t, entries_run follows, built, len.trans follows.len_entries.symm, lowest, ?_⟩
    intro δ ε c key value lawful
    exact ⟨_, toJson_run lawful follows, ofJson_run lawful built⟩

/-- Seven keys in descending order make a perfect tree. The same keys in an order that makes every
node lean make one that is higher by one, until the map is read back from its text. -/
theorem lowest_of_leaning :
    StrictWeak (Order.through Int64.toInt) ∧
    (∃ (n : Map Int64 Int64) (t : Tree Handle Int64 Int64),
      run (inserts [(7, 0), (6, 0), (5, 0), (4, 0), (3, 0), (2, 0), (1, 0)])
        (ofPool (Order.through Int64.toInt) (.fresh 7)) =
          .ok (List.replicate 7 (.value none)) n ∧
      n.len = 7 ∧ n.Lowest t ∧ n.height = .ok 3 ∧ t.Perfect) ∧
    ∃ (m n : Map Int64 Int64) (t : Tree Handle Int64 Int64) (text : String),
      perform (.insertMany [(5, 0), (3, 0), (7, 0), (2, 0), (4, 0), (6, 0), (1, 0)])
        (ofPool (Order.through Int64.toInt) (.fresh 7)) = .ok .done m ∧
      Reachable (Order.through Int64.toInt) m ∧ m.height = .ok 4 ∧
      m.toJson Json.codec = .ok (.ok text) ∧
      ofJson Json.codec (Order.through Int64.toInt) text = .ok n ∧
      n.len = 7 ∧ n.Lowest t ∧ n.height = .ok 3 ∧ t.Perfect := by
  have order : StrictWeak (Order.through Int64.toInt) := Order.strictWeak_through _
  have small : 7 ≤ maxCapacity := by decide
  refine ⟨order, ?_, ?_⟩
  · obtain ⟨filled, -⟩ := lowest_of_monotone (α := Int64) (β := Int64) order
      (.withCapacity (withCapacity_eq _ small))
    obtain ⟨n, t, ran, len, lowest⟩ := filled rfl
      [(7, 0), (6, 0), (5, 0), (4, 0), (3, 0), (2, 0), (1, 0)] (by decide) (.inr (by decide))
    obtain ⟨perfect, depth⟩ := lowest.perfect 3 len
    exact ⟨n, t, ran, len, lowest, depth ▸ lowest.height, perfect⟩
  · obtain ⟨m, done, reachable, follows⟩ := perform_ofPool (Order.through Int64.toInt) small
      (.insertMany [(5, (0 : Int64)), (3, 0), (7, 0), (2, 0), (4, 0), (6, 0), (1, 0)])
    obtain ⟨-, es, n, t, -, -, len, lowest, readable⟩ := lowest_of_monotone order reachable
    obtain ⟨text, written, read⟩ := readable Json.codec Json.quotedInteger Json.integer
      (Json.lawful_codec Json.faithfulKey_quotedInteger Json.faithfulValue_integer)
    have seven : n.len = 7 := len.trans follows.len
    obtain ⟨perfect, depth⟩ := lowest.perfect 3 seven
    exact ⟨m, n, t, text, done, reachable, height_run follows, written, read, seven, lowest,
      depth ▸ lowest.height, perfect⟩

end Map

end BoundedMap
