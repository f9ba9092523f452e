import BoundedMap.Proofs.Subtree.Relinking
/-!
# The contract of rebalancing

`balance` is called at a node that is `Ready`: its two subtrees are balanced and differ by at most
two in height, while its own height may be whatever an earlier place in the tree has left there. It
always ends with a node, and what hangs from that node is `Rebalanced`: the same cells in the same
order, balanced again, at most one higher than the higher subtree. Nothing else in the pool has
changed (`balance_restores`).

Where the subtrees differ by at most one, the height of the node is all that is written
(`balance_run_of_close`).
-/

namespace BoundedMap.Subtree

open Pool (Rewrites)

variable {α β : Type} {p q : Pool α β} {x y : Handle} {n : Node α β} {l r t : Tree Handle α β}

/-- Two pools that spell out the same cells, in whatever shape, hold the same entries in them. -/
theorem Spells.entry_eq {t u : Option Handle} {a b : Tree Handle α β} {h : Handle} {d : Node α β}
    (spells : Spells p t a) (spells' : Spells q u b) (same : b.cells = a.cells)
    (member : h ∈ a.labels) (live : p.read h = .ok d) :
    ∃ d', q.read h = .ok d' ∧ d'.key = d.key ∧ d'.value = d.value := by
  obtain ⟨c, inTree, rfl⟩ := List.mem_map.1 member
  obtain ⟨e, found, key, value⟩ := spells.read_of_mem_cells inTree
  obtain rfl : d = e := Except.ok.inj (live.symm.trans found)
  obtain ⟨d', found', key', value'⟩ := spells'.read_of_mem_cells (same ▸ inTree)
  exact ⟨d', found', key'.trans key.symm, value'.trans value.symm⟩

/-- What rebalancing leaves of the node `x` over `l` and `r`: the tree `t`, with `y` at its head. -/
structure Rebalanced (p : Pool α β) (x : Handle) (n : Node α β) (l r : Tree Handle α β)
    (q : Pool α β) (y : Handle) (t : Tree Handle α β) : Prop where
  stands : Stands q (some y) t
  /-- The slots and their entries follow each other as before. -/
  cells : t.cells = l.cells ++ ⟨x, n.key, n.value⟩ :: r.cells
  least : max l.height r.height ≤ t.height
  most : t.height ≤ max l.height r.height + 1
  /-- No slot elsewhere was written, and neither the head of the free list nor the count. -/
  rewrites : Rewrites p q (x :: (l.labels ++ r.labels))
  entries : ∀ h d, p.read h = .ok d → ∃ d', q.read h = .ok d' ∧ d'.key = d.key ∧ d'.value = d.value
  unused : ∀ h next, p.slot h = .ok (.free next) → q.slot h = .ok (.free next)
  /-- Subtrees that differ by at most one stay where they are, and only a height is written. -/
  close : l.height ≤ r.height + 1 → r.height ≤ l.height + 1 →
    y = x ∧ t = .node ⟨x, n.key, n.value⟩ (1 + max l.height r.height) l r ∧
      q = p.put x (.occupied { n with height := 1 + max l.height r.height })

/-- Over subtrees that differ by at most one, rebalancing records the height and returns. -/
theorem balance_run_of_close (ready : Ready p .left x n l r) (low : l.height ≤ r.height + 1)
    (high : r.height ≤ l.height + 1) : balance x p =
      .ok x (p.put x (.occupied { n with height := 1 + max l.height r.height })) := by
  have shortLeft := Tree.height_le_of_nodup ready.standsNear.avl ready.standsNear.nodup
  have shortRight := Tree.height_le_of_nodup ready.standsFar.avl ready.standsFar.nodup
  have recorded := reheight_run ready.live ready.standsNear.spells ready.standsFar.spells
    (by unfold maxHeight; omega)
  -- the subtrees are read once more, in the pool with the new height
  have agree := (Rewrites.put p x
    (.occupied { n with height := 1 + max l.height r.height })).toAgreeOff
  have left := ready.standsNear.spells.frame_one agree ready.notNear
  have right := ready.standsFar.spells.frame_one agree ready.notFar
  have lean := excess_run (s := .left) (Pool.read_put_self ready.live
    { n with height := 1 + max l.height r.height }) left right
  unfold balance
  rw [bind_of_ok recorded, bind_of_ok lean, if_neg (by omega), if_neg (by omega)]
  rfl

/-- Rebalancing a node that is ready, in whatever pool, ends with the head of a balanced tree over
the same cells, and changes nothing else. -/
theorem balance_restores (ready : Ready p .left x n l r) :
    ∃ q y t, balance x p = .ok y q ∧ Rebalanced p x n l r q y t := by
  have before : Spells p (some x) (.node ⟨x, n.key, n.value⟩ n.height l r) :=
    .node ready.live ready.standsNear.spells ready.standsFar.spells
  obtain ⟨q, y, run, stands, rewrites⟩ := balance_stands ready
  have cells := Tree.cells_rebalance .left ⟨x, n.key, n.value⟩ n.height l r
  obtain ⟨-, least, most⟩ := Tree.rebalance_spec (s := .left) (c := ⟨x, n.key, n.value⟩)
    ready.standsNear.avl ready.standsFar.avl ready.low ready.high
  have written : Rewrites p q (Tree.node ⟨x, n.key, n.value⟩ n.height l r).labels := by
    refine rewrites.mono fun h member => ?_
    rw [List.mem_cons, List.mem_append] at member
    rw [Tree.labels_node, List.mem_append, List.mem_cons]
    exact or_left_comm.1 member
  refine ⟨q, y, _, run, stands, cells, least, most, rewrites, ?_, ?_, ?_⟩
  · intro h d live
    by_cases inside : h ∈ (Tree.node ⟨x, n.key, n.value⟩ n.height l r).labels
    · exact before.entry_eq stands.spells cells inside live
    · exact ⟨d, (written.read inside).trans live, rfl, rfl⟩
  · intro h next unused
    -- all slots that are written held a node
    have outside : h ∉ (Tree.node ⟨x, n.key, n.value⟩ n.height l r).labels := by
      intro inside
      obtain ⟨d, live⟩ := before.read_of_mem inside
      exact Pool.ne_of_read_of_slot live unused rfl
    exact (written.slot h outside).trans unused
  · intro low high
    obtain ⟨rfl, rfl⟩ := EStateM.Result.ok.inj
      (run.symm.trans (balance_run_of_close ready low high))
    exact ⟨rfl, Tree.rebalance_of_close .left _ low high, rfl⟩

/-- Three nodes in a chain and one free slot. The node above the others was moved here and still
records the height of its old place; its left child leans to the right. -/
def staleChain : Pool Nat Nat where
  slots := #[.occupied ⟨10, 0, none, some (.ofIndex 1), 2⟩, .occupied ⟨20, 1, none, none, 1⟩,
    .occupied ⟨30, 2, some (.ofIndex 0), none, 77⟩, .free none]
  free := some (.ofIndex 3)
  live := 3

/-- The left subtree of the chain. -/
def staleChild : Tree Handle Nat Nat :=
  .node ⟨.ofIndex 0, 10, 0⟩ 2 .nil (.node ⟨.ofIndex 1, 20, 1⟩ 1 .nil .nil)

/-- Two rotations bring the lowest node of the chain up, and no height is left over. -/
theorem balance_of_staleChain :
    Ready staleChain .left (.ofIndex 2) ⟨30, 2, some (.ofIndex 0), none, 77⟩ staleChild .nil ∧
      ∃ q t, balance (.ofIndex 2) staleChain = .ok (.ofIndex 1) q ∧
        Rebalanced staleChain (.ofIndex 2) ⟨30, 2, some (.ofIndex 0), none, 77⟩ staleChild .nil
          q (.ofIndex 1) t := by
  have leaf : Spells staleChain (some (.ofIndex 1)) (.node ⟨.ofIndex 1, 20, 1⟩ 1 .nil .nil) :=
    .node (n := ⟨20, 1, none, none, 1⟩) rfl .nil .nil
  have child : Spells staleChain (some (.ofIndex 0)) staleChild :=
    .node (n := ⟨10, 0, none, some (.ofIndex 1), 2⟩) rfl .nil leaf
  have ready : Ready staleChain .left (.ofIndex 2) ⟨30, 2, some (.ofIndex 0), none, 77⟩
      staleChild .nil :=
    { live := rfl
      standsNear := ⟨child, by decide, by simp [staleChild, Tree.HeightsExact],
        by simp [staleChild, Tree.Balanced]⟩
      standsFar := .nil
      notNear := by decide
      notFar := by decide
      apart := by decide
      low := by decide
      high := by decide }
  obtain ⟨q, y, t, run, rebalanced⟩ := balance_restores ready
  -- the same run, seen as that of the tree
  obtain ⟨q', y', run', stands, -⟩ := balance_stands ready
  obtain ⟨rfl, rfl⟩ := EStateM.Result.ok.inj (run.symm.trans run')
  have head : linkTo (.rebalance .left ⟨.ofIndex 2, 30, 2⟩ staleChild .nil) =
      some (.ofIndex 1) := by decide
  obtain rfl : y = .ofIndex 1 := Option.some.inj (stands.spells.eq_linkTo.trans head)
  exact ⟨ready, q, t, run, rebalanced⟩

end BoundedMap.Subtree
