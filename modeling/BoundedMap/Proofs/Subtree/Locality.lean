import BoundedMap.Proofs.Subtree.Nodes
import BoundedMap.Proofs.Subtree.Trail
import BoundedMap.Proofs.Tree.Avl
/-!
# Where an insertion rebalances

An insertion rebalances at every node that it passed, from the new leaf upwards. As long as the
subtrees at a node were even, the node has grown and no rotation was needed (`Grows`). At the first
node where they were not, the growth comes to an end: the node is even now, or it is rotated, and
its height is as before in both cases. All that is left to do above is to link to the head of a
rotation where the old one was (`Settles`).

So links change in the node above the new leaf, in the two or three nodes of one rotation, and in
the node above that. `Keeps` compares the nodes of two trees one by one.
-/

namespace BoundedMap

namespace Tree

variable {σ α β : Type} {y : Cell σ α β} {t t' : Tree σ α β} {path : List σ}

/-- What becomes of a tree when a new leaf is put below a path on which all nodes are even. -/
inductive Grows (y : Cell σ α β) : Tree σ α β → List σ → Tree σ α β → Prop
  | leaf : Grows y nil [] (node y 1 nil nil)
  | step {s : Side} {c : Cell σ α β} {near far near' : Tree σ α β} {path : List σ} :
    Grows y near path near' → near.height = far.height →
      Grows y (fork s c near far) (c.label :: path) (fork s c near' far)

theorem Grows.height (grows : Grows y t path t') : t'.height = t.height + 1 := by
  induction grows with
  | leaf => rfl
  | step _ even ih =>
    rw [height_fork, height_fork, ih]
    omega

end Tree

namespace Subtree

variable {α β : Type} {t t' u v near near' far : Tree Handle α β} {s : Side}
  {c d e y : Cell Handle α β} {h : Nat} {x : Handle} {path : List Handle}
  {touched relinked touched' relinked' : Handle → Prop}

/-! ## Nodes of two trees -/

/-- Every node of the one tree is one of the other. It is the same there unless it was touched, and
has the same links unless it was relinked. -/
def Keeps (touched relinked : Handle → Prop) (t u : Tree Handle α β) : Prop :=
  ∀ x n, (x, n) ∈ nodes t → ∃ n', (x, n') ∈ nodes u ∧ (¬ touched x → n' = n) ∧
    (¬ relinked x → ∀ s, n'.child s = n.child s)

namespace Keeps

theorem trans (first : Keeps touched relinked t u) (second : Keeps touched relinked u v) :
    Keeps touched relinked t v := by
  intro x n member
  obtain ⟨n', member', same, links⟩ := first x n member
  obtain ⟨n'', member'', same', links'⟩ := second x n' member'
  exact ⟨n'', member'', fun off => (same' off).trans (same off),
    fun kept s => (links' kept s).trans (links kept s)⟩

theorem mono (keeps : Keeps touched relinked t u) (wider : ∀ x ∈ t.labels, touched x → touched' x)
    (wider' : ∀ x ∈ t.labels, relinked x → relinked' x) : Keeps touched' relinked' t u := by
  intro x n member
  obtain ⟨n', member', same, links⟩ := keeps x n member
  have inTree := mem_labels_of_mem_nodes member
  exact ⟨n', member', fun off => same fun here => off (wider x inTree here),
    fun kept => links fun here => kept (wider' x inTree here)⟩

/-- Nodes that are not the same were touched and relinked. -/
theorem of_mem (kept : ∀ x n, (x, n) ∈ nodes t →
    (x, n) ∈ nodes u ∨ (x ∈ u.labels ∧ touched x ∧ relinked x)) : Keeps touched relinked t u := by
  intro x n member
  rcases kept x n member with member' | ⟨inTree, here, here'⟩
  · exact ⟨n, member', fun _ => rfl, fun _ _ => rfl⟩
  · obtain ⟨n', member'⟩ := exists_mem_nodes inTree
    exact ⟨n', member', fun off => absurd here off, fun off => absurd here' off⟩

/-- A node over a changed subtree is touched, and it is relinked if that has another head. -/
theorem branch (keeps : Keeps touched relinked near near') (h' : Nat) (here : touched c.label)
    (linked : linkTo near' = linkTo near ∨ relinked c.label) :
    Keeps touched relinked (.branch s c h near far) (.branch s c h' near' far) := by
  intro x n member
  rcases mem_nodes_branch.1 member with ⟨rfl, rfl⟩ | inNear | inFar
  · refine ⟨_, mem_nodes_branch.2 (.inl ⟨rfl, rfl⟩), fun off => absurd here off, fun kept i => ?_⟩
    rcases Side.eq_or_eq_other s i with rfl | rfl
    · rw [child_nodeOver, child_nodeOver, linked.resolve_right kept]
    · rw [child_other_nodeOver, child_other_nodeOver]
  · obtain ⟨n', member', same⟩ := keeps x n inNear
    exact ⟨n', mem_nodes_branch.2 (.inr (.inl member')), same⟩
  · exact ⟨n, mem_nodes_branch.2 (.inr (.inr inFar)), fun _ => rfl, fun _ _ => rfl⟩

/-- A single rotation relinks two nodes. -/
theorem single (outer inner far : Tree Handle α β)
    (moved : ∀ x ∈ [c.label, d.label], touched x ∧ relinked x) :
    Keeps touched relinked (.fork s c (.fork s d outer inner) far)
      (.fork s d outer (.fork s c inner far)) := by
  refine of_mem fun x n member => ?_
  simp only [List.forall_mem_cons] at moved
  simp only [Tree.fork_eq_branch, mem_nodes_branch, Tree.mem_labels_branch] at member ⊢
  rcases member with ⟨rfl, -⟩ | (⟨rfl, -⟩ | inOuter | inInner) | inFar
  · exact .inr ⟨.inr (.inr (.inl rfl)), moved.1⟩
  · exact .inr ⟨.inl rfl, moved.2.1⟩
  · exact .inl (.inr (.inl inOuter))
  · exact .inl (.inr (.inr (.inr (.inl inInner))))
  · exact .inl (.inr (.inr (.inr (.inr inFar))))

/-- A double rotation relinks three nodes. -/
theorem double {k : Nat} (outer a b far : Tree Handle α β)
    (moved : ∀ x ∈ [c.label, d.label, e.label], touched x ∧ relinked x) :
    Keeps touched relinked (.fork s c (.fork s d outer (.branch s e k a b)) far)
      (.fork s e (.fork s d outer a) (.fork s c b far)) := by
  refine of_mem fun x n member => ?_
  simp only [List.forall_mem_cons] at moved
  simp only [Tree.fork_eq_branch, mem_nodes_branch, Tree.mem_labels_branch] at member ⊢
  rcases member with ⟨rfl, -⟩ | (⟨rfl, -⟩ | inOuter | ⟨rfl, -⟩ | inA | inB) | inFar
  · exact .inr ⟨.inr (.inr (.inl rfl)), moved.1⟩
  · exact .inr ⟨.inr (.inl (.inl rfl)), moved.2.1⟩
  · exact .inl (.inr (.inl (.inr (.inl inOuter))))
  · exact .inr ⟨.inl rfl, moved.2.2.1⟩
  · exact .inl (.inr (.inl (.inr (.inr inA))))
  · exact .inl (.inr (.inr (.inr (.inl inB))))
  · exact .inl (.inr (.inr (.inr (.inr inFar))))

end Keeps

/-! ## Growth -/

section Growth

theorem linkTo_of_grows (grows : Tree.Grows y t path t') :
    linkTo t' = (path ++ [y.label]).head? := by
  cases grows with
  | leaf => rfl
  | step => rw [Tree.fork_eq_branch, linkTo_branch, List.cons_append, List.head?_cons]

/-- A tree that grows keeps its root, if it has one. -/
theorem linkTo_eq_of_grows (grows : Tree.Grows y t path t') : linkTo t' = linkTo t ∨ path = [] := by
  cases grows with
  | leaf => exact .inr rfl
  | step => simp only [Tree.fork_eq_branch, linkTo_branch, true_or]

/-- Growth relinks no node but the one above the new leaf. -/
theorem keeps_of_grows (grows : Tree.Grows y t path t') :
    Keeps (· ∈ path) (path.getLast? = some ·) t t' := by
  induction grows with
  | leaf => exact fun x n member => by cases member
  | @step s c near far near' path below even ih =>
    rw [Tree.fork_eq_branch, Tree.fork_eq_branch]
    refine (ih.mono (fun x _ => List.mem_cons_of_mem _) fun x _ last => ?_).branch _
      List.mem_cons_self ?_
    · rw [List.getLast?_cons, last, Option.getD_some]
    · rcases linkTo_eq_of_grows below with same | rfl
      · exact .inl same
      · exact .inr rfl

end Growth

/-! ## Where growth ends -/

/-- The nodes that an insertion may relink: those in one stretch of the path, and the last one, to
which it links the new leaf. -/
def Relinkable (path stretch : List Handle) (x : Handle) : Prop :=
  x ∈ stretch ∨ path.getLast? = some x

/-- What becomes of a tree in which growth has come to an end, where `y` is the slot of the new
leaf: it is as high as before, and the nodes that were relinked lie in a short stretch of the path.
Either the tree keeps its root, and the stretch has the node above the rotation in it; or the
rotation was at the root, and that node is still to come. -/
structure Settles (y : Handle) (path : List Handle) (t t' : Tree Handle α β) : Prop where
  height : t'.height = t.height
  stretch : (linkTo t' = linkTo t ∧ ∃ i, Keeps (· ∈ path ++ [y])
      (Relinkable path (((path ++ [y]).drop i).take 4)) t t') ∨
    Keeps (· ∈ path ++ [y]) (Relinkable path ((path ++ [y]).take 3)) t t'

theorem Relinkable.cons {stretch stretch' : List Handle} (wider : stretch ⊆ stretch')
    (relinkable : Relinkable path stretch x) (z : Handle) : Relinkable (z :: path) stretch' x := by
  rcases relinkable with inside | last
  · exact .inl (wider inside)
  · refine .inr ?_
    rw [List.getLast?_cons, last, Option.getD_some]

/-- Counting the new leaf makes no difference to the nodes that were there. -/
theorem Relinkable.of_concat {y : Handle} {i k : Nat} (few : k ≤ 4) (other : x ≠ y)
    (relinkable : Relinkable path (((path ++ [y]).drop i).take k) x) :
    Relinkable path ((path.drop i).take 4) x := by
  rcases relinkable with inside | last
  · rw [List.drop_append, List.take_append, List.mem_append] at inside
    rcases inside with inside | leaf
    · exact .inl (List.take_subset_take_left _ few inside)
    · exact absurd (List.mem_singleton.1 (List.mem_of_mem_drop (List.mem_of_mem_take leaf))) other
  · exact .inr last

/-- A node above a subtree that grows is relinked if it is the one above the new leaf. -/
theorem keeps_fork_of_grows (grows : Tree.Grows y near path near') (s : Side)
    (far : Tree Handle α β) {stretch : List Handle} (here : c.label ∈ stretch) :
    Keeps (· ∈ c.label :: path ++ [y.label]) (Relinkable (c.label :: path) stretch)
      (.fork s c near far) (.fork s c near' far) := by
  rw [Tree.fork_eq_branch, Tree.fork_eq_branch]
  refine ((keeps_of_grows grows).mono (fun x _ member => ?_) fun x _ last => ?_).branch _
    List.mem_cons_self (.inr (.inl here))
  · exact List.mem_cons_of_mem _ (List.mem_append_left _ member)
  · exact Relinkable.cons (List.nil_subset _) (.inr last) _

namespace Settles

/-- Above a tree that has settled, nothing is rebalanced. -/
theorem step {y : Handle} (settles : Settles y path near near')
    (avl : (Tree.branch s c h near far).Avl) :
    Settles y (c.label :: path) (.branch s c h near far) (.rebalance s c near' far) := by
  obtain ⟨heightEq, low, high, -, -⟩ := Tree.avl_branch_iff.1 avl
  have height := settles.height
  have after : Tree.rebalance s c near' far = .branch s c h near' far := by
    rw [Tree.rebalance_of_close s c (by omega) (by omega), Tree.fork_eq_branch, height, ← heightEq]
  rw [after]
  refine ⟨by rw [Tree.height_branch, Tree.height_branch], .inl ⟨by simp only [linkTo_branch], ?_⟩⟩
  rcases settles.stretch with ⟨same, i, keeps⟩ | keeps
  · -- the rotation lies further below, and so does the stretch
    refine ⟨i + 1, (keeps.mono (fun x _ => List.mem_cons_of_mem _) fun x _ relinkable =>
      relinkable.cons ?_ _).branch h List.mem_cons_self (.inl same)⟩
    exact List.Subset.refl _
  · -- the rotation is right below, and this is the node that is linked to its head
    refine ⟨0, (keeps.mono (fun x _ => List.mem_cons_of_mem _) fun x _ relinkable =>
      relinkable.cons ?_ _).branch h List.mem_cons_self (.inr (.inl List.mem_cons_self))⟩
    exact List.subset_cons_self _ _

/-- Where the other subtree was higher, growth ends without a rotation. -/
theorem of_lower (grows : Tree.Grows y near path near') (lower : near.height + 1 = far.height) :
    Settles y.label (c.label :: path) (.fork s c near far) (.fork s c near' far) where
  height := by
    rw [Tree.height_fork, Tree.height_fork, grows.height]
    omega
  stretch := by
    refine .inl ⟨?_, 0, keeps_fork_of_grows grows s far List.mem_cons_self⟩
    rw [Tree.fork_eq_branch, Tree.fork_eq_branch, linkTo_branch, linkTo_branch]

/-- Where the subtree that has grown was higher already, growth ends with a rotation. Its nodes are
the first ones of the path, counting the new leaf. -/
theorem of_higher (grows : Tree.Grows y near path near') (avl : near'.Avl)
    (higher : near.height = far.height + 1) :
    Settles y.label (c.label :: path) (.fork s c near far)
      (Tree.settle s (.fork s c near' far)) := by
  have here : c.label ∈ (c.label :: path ++ [y.label]).take 3 := List.mem_cons_self
  have grow := keeps_fork_of_grows grows s far here
  cases grows with
  | leaf => cases higher
  | @step s' d near far₂ near' path below even =>
    have grown := below.height
    rw [Tree.height_fork] at higher
    rcases Side.eq_or_eq_other s s' with rfl | rfl
    · rw [Tree.settle_fork_single _ _ _ (by omega)]
      refine ⟨?_, .inr (grow.trans (.single _ _ _ ?_))⟩
      · simp only [Tree.height_fork]
        omega
      · simp [Relinkable]
    · obtain ⟨e, k, a, b, rfl⟩ := Tree.exists_branch_of_height_pos (t := near') s (by omega)
      -- the head of the subtree that has grown is the next node of the path, or the new leaf
      obtain ⟨rest, next⟩ : ∃ rest, path ++ [y.label] = e.label :: rest := by
        have head := linkTo_of_grows below
        rw [linkTo_branch] at head
        exact List.head?_eq_some_iff.1 head.symm
      rw [Tree.height_branch] at grown
      rw [Tree.fork_eq_branch, Tree.avl_branch_iff, Tree.avl_branch_iff] at avl
      obtain ⟨-, -, -, ⟨heightEq, -⟩, -⟩ := avl
      simp only [Tree.fork_other] at grow ⊢
      rw [Tree.settle_fork_double _ _ _ _ (by omega)]
      refine ⟨?_, .inr (grow.trans (.double _ _ _ _ ?_))⟩
      · simp only [Tree.height_fork]
        omega
      · simp [Relinkable, next]

end Settles

/-- A node above a subtree that has grown grows itself if its subtrees were even. -/
theorem grows_or_settles_step (avl : (Tree.branch s c h near far).Avl)
    (grows : Tree.Grows y near path near') (avlNew : near'.Avl) :
    Tree.Grows y (.branch s c h near far) (c.label :: path) (.rebalance s c near' far) ∨
      Settles y.label (c.label :: path) (.branch s c h near far) (.rebalance s c near' far) := by
  obtain ⟨heightEq, low, high, -, -⟩ := Tree.avl_branch_iff.1 avl
  have grown := grows.height
  rw [heightEq, ← Tree.fork_eq_branch]
  by_cases higher : near.height = far.height + 1
  · rw [Tree.rebalance_eq, if_pos (by omega)]
    exact .inr (.of_higher grows avlNew higher)
  · rw [Tree.rebalance_of_close s c (by omega) (by omega)]
    by_cases even : near.height = far.height
    · exact .inl (.step grows even)
    · exact .inr (.of_lower grows (by omega))

section Insertion

variable {less : α → α → Bool} {key : α}

/-- An insertion that finds no match lets a balanced tree grow all along the path of the descent, or
growth ends somewhere on it. -/
theorem grows_or_settles (avl : t.Avl) (absent : t.find? less key = none) (label : Handle)
    (value : β) :
    Tree.Grows ⟨label, key, value⟩ t ((t.trail less key).map Prod.fst)
        (t.insert less label key value).1 ∨
      Settles label ((t.trail less key).map Prod.fst) t (t.insert less label key value).1 := by
  induction t using Tree.bySides with
  | nil => exact .inl .leaf
  | node c h l r ih =>
    cases turned : turn less key c.key with
    | none =>
      rw [Tree.find?_of_match _ _ _ turned] at absent
      cases absent
    | some s =>
      have sides := avl.sides s
      obtain ⟨-, -, -, avlNear, -⟩ := Tree.avl_branch_iff.1 sides
      rw [Tree.find?_of_turn _ _ _ turned] at absent
      rw [Tree.trail_of_turn _ _ _ turned, Tree.insert_of_turn _ _ _ _ _ turned, List.map_cons]
      rcases ih s avlNear absent with grows | settles
      · have stepped := grows_or_settles_step sides grows
          (Tree.insert_avl less label key value avlNear).1
        rwa [← Tree.node_eq_branch] at stepped
      · have stepped := settles.step sides
        rw [← Tree.node_eq_branch] at stepped
        exact .inr stepped

/-- Nodes off the path of an insertion are the same afterwards. Relinked are only nodes in a stretch
of four on the path, and the last one of the path. -/
theorem keeps_of_insert (avl : t.Avl) (absent : t.find? less key = none) {label : Handle}
    (fresh : label ∉ t.labels) (value : β) :
    ∃ i, Keeps (· ∈ (t.trail less key).map Prod.fst)
      (Relinkable ((t.trail less key).map Prod.fst)
        ((((t.trail less key).map Prod.fst).drop i).take 4))
      t (t.insert less label key value).1 := by
  have other : ∀ x ∈ t.labels, x ≠ label := fun x inTree same => fresh (same ▸ inTree)
  have onPath : ∀ x ∈ t.labels, x ∈ (t.trail less key).map Prod.fst ++ [label] →
      x ∈ (t.trail less key).map Prod.fst := fun x inTree member =>
    (List.mem_append.1 member).resolve_right fun leaf => other x inTree (List.mem_singleton.1 leaf)
  rcases grows_or_settles avl absent label value with grows | ⟨-, ⟨-, i, keeps⟩ | keeps⟩
  · exact ⟨0, (keeps_of_grows grows).mono (fun _ _ member => member) fun _ _ last => .inr last⟩
  · exact ⟨i, keeps.mono onPath fun x inTree relinkable =>
      relinkable.of_concat (Nat.le_refl 4) (other x inTree)⟩
  · refine ⟨0, keeps.mono onPath fun x inTree relinkable => ?_⟩
    exact relinkable.of_concat (i := 0) (by decide : 3 ≤ 4) (other x inTree)

end Insertion

end Subtree

end BoundedMap
