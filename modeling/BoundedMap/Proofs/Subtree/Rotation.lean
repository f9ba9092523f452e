import BoundedMap.Proofs.Subtree.Spelling
import BoundedMap.Proofs.Tree.Height
import BoundedMap.Subtree.Rotation
/-!
# Rebalancing of linked nodes

Each step on linked nodes does to the tree that they spell out what the
operation of the same name does to a tree, and writes nothing but its nodes.
`balance_run` is the contract of the whole: the node may record any height, its
two subtrees are balanced and differ by at most two.

A lift is run with the lifted child already taken apart, so that each of the
three trees that hang from the two nodes is carried through the writes by name.
-/

namespace BoundedMap.Subtree

open Pool (AgreeOff Rewrites)

variable {α β : Type} {p q : Pool α β} {t : Option Handle} {s : Side}
  {near far : Tree Handle α β}

/-! ## Reading heights -/

theorem height_run {a : Tree Handle α β} (spells : Spells p t a) :
    height t p = .ok a.height p := by
  cases spells with
  | nil => rfl
  | @node x n l r found _ _ =>
    show (Pool.node x >>= fun n => pure n.height) p = .ok n.height p
    rw [bind_of_ok (Pool.node_of_read found)]
    rfl

theorem excess_run {x : Handle} {n : Node α β} (found : p.read x = .ok n)
    (spellsNear : Spells p (n.child s) near) (spellsFar : Spells p (n.child s.other) far) :
    excess s x p = .ok ((near.height : Int) - far.height) p := by
  unfold excess
  rw [bind_of_ok (Pool.node_of_read found), bind_of_ok (height_run spellsNear),
    bind_of_ok (height_run spellsFar)]
  rfl

theorem heightOver_of_le {l r : Nat} (fits : 1 + max l r ≤ maxHeight) :
    heightOver l r = .ok (1 + max l r) :=
  if_pos fits

/-- A node's height is recorded from those of its two trees. -/
theorem reheight_run {x : Handle} {n : Node α β} (found : p.read x = .ok n)
    (spellsNear : Spells p (n.child s) near) (spellsFar : Spells p (n.child s.other) far)
    (fits : 1 + max near.height far.height ≤ maxHeight) :
    reheight x p = .ok ()
      (p.put x (.occupied { n with height := 1 + max near.height far.height })) := by
  cases s with
  | left =>
    have left : height n.left p = .ok near.height p := height_run spellsNear
    have right : height n.right p = .ok far.height p := height_run spellsFar
    unfold reheight
    rw [bind_of_ok (Pool.node_of_read found), bind_of_ok left, bind_of_ok right,
      heightOver_of_le fits]
    exact Pool.update_of_read found _
  | right =>
    have left : height n.left p = .ok far.height p := height_run spellsFar
    have right : height n.right p = .ok near.height p := height_run spellsNear
    rw [Nat.max_comm] at fits ⊢
    unfold reheight
    rw [bind_of_ok (Pool.node_of_read found), bind_of_ok left, bind_of_ok right,
      heightOver_of_le fits]
    exact Pool.update_of_read found _

/-! ## Writing one node -/

/-- Another node in the slot at the head of a tree: it spells out a branch of
whatever its links led to before. -/
theorem put_spells {x : Handle} {n m : Node α β} (found : p.read x = .ok n)
    (spellsNear : Spells p (m.child s) near) (spellsFar : Spells p (m.child s.other) far)
    (notNear : x ∉ near.labels) (notFar : x ∉ far.labels) :
    Spells (p.put x (.occupied m)) (some x) (.branch s ⟨x, m.key, m.value⟩ m.height near far) := by
  have agree := (Rewrites.put p x (.occupied m)).toAgreeOff
  exact Spells.branch (Pool.read_put_self found m) (spellsNear.frame_one agree notNear)
    (spellsFar.frame_one agree notFar)

/-- Recording the height of a node makes it exact. -/
theorem reheight_spells {x : Handle} {n : Node α β} (found : p.read x = .ok n)
    (spellsNear : Spells p (n.child s) near) (spellsFar : Spells p (n.child s.other) far)
    (notNear : x ∉ near.labels) (notFar : x ∉ far.labels)
    (fits : 1 + max near.height far.height ≤ maxHeight) :
    ∃ q, reheight x p = .ok () q ∧
      Spells q (some x) (.fork s ⟨x, n.key, n.value⟩ near far) ∧ Rewrites p q [x] := by
  refine ⟨_, reheight_run found spellsNear spellsFar fits, ?_, Rewrites.put p x _⟩
  rw [Tree.fork_eq_branch]
  cases s <;> exact put_spells (m := { n with height := _ }) found spellsNear spellsFar
    notNear notFar

/-- Linking a node to another tree on one side. -/
theorem setChild_spells {x : Handle} {n : Node α β} (found : p.read x = .ok n)
    (spellsNear : Spells p t near) (spellsFar : Spells p (n.child s.other) far)
    (notNear : x ∉ near.labels) (notFar : x ∉ far.labels) :
    ∃ q, Pool.setChild x s t p = .ok () q ∧
      Spells q (some x) (.branch s ⟨x, n.key, n.value⟩ n.height near far) ∧
      Rewrites p q [x] := by
  refine ⟨_, Pool.update_of_read found _, ?_, Rewrites.put p x _⟩
  have written := put_spells (s := s) (m := n.withChild s t) found (by simpa using spellsNear)
    (by simpa using spellsFar) notNear notFar
  simpa using written

/-! ## Rotations -/

/-- A lift raises the child over its parent and rewrites these two nodes only. -/
theorem lift_run {c d : Cell Handle α β} {h g : Nat} {inner : Tree Handle α β}
    (spells : Spells p t (.branch s c h (.branch s d g near inner) far))
    (nodup : (Tree.branch s c h (.branch s d g near inner) far).labels.Nodup)
    (fits : (Tree.fork s d near (.fork s c inner far)).height ≤ maxHeight) :
    ∃ q, lift s c.label p = .ok d.label q ∧
      Spells q (some d.label) (.fork s d near (.fork s c inner far)) ∧
      Rewrites p q [c.label, d.label] := by
  obtain ⟨rfl, n, readX, key, value, -, spellsChild, spellsFar⟩ := spells_branch_iff.1 spells
  obtain ⟨linkY, m, readY, key', value', -, spellsNear, spellsInner⟩ :=
    spells_branch_iff.1 spellsChild
  simp only [Tree.nodup_labels_branch, Tree.mem_labels_branch, not_or] at nodup
  obtain ⟨⟨-, -, yNear, yInner, -⟩, -, ⟨xy, xNear, xInner⟩, xFar, apart⟩ := nodup
  have yFar : d.label ∉ far.labels := apart d.label (.inl rfl)
  obtain ⟨x, k, v⟩ := c
  obtain ⟨y, k', v'⟩ := d
  subst key value key' value'
  simp only [Tree.height_fork] at fits
  -- the parent takes over the inner tree
  obtain ⟨p₁, run₁, spells₁, rewrites₁⟩ := setChild_spells readX spellsInner spellsFar xInner xFar
  have readY₁ : p₁.read y = .ok m := by
    rw [rewrites₁.read_of_ne (Ne.symm xy)]
    exact readY
  -- the child takes over the parent
  have spellsNear₁ : Spells p₁ (m.child s.other.other) near := by
    rw [Side.other_other]
    exact spellsNear.frame_one rewrites₁.toAgreeOff xNear
  obtain ⟨p₂, run₂, spells₂, rewrites₂⟩ := setChild_spells readY₁ spells₁ spellsNear₁
    (by simp [Ne.symm xy, yInner, yFar]) yNear
  rw [Tree.branch_other] at spells₂
  obtain ⟨-, m₂, readY₂, key₂, value₂, -, spellsNear₂, spellsX₂⟩ := spells_branch_iff.1 spells₂
  obtain ⟨linkX₂, n₂, readX₂, key₂', value₂', -, spellsInner₂, spellsFar₂⟩ :=
    spells_branch_iff.1 spellsX₂
  -- both record their heights, the lower one first
  obtain ⟨p₃, run₃, spells₃, rewrites₃⟩ :=
    reheight_spells readX₂ spellsInner₂ spellsFar₂ xInner xFar (by omega)
  have readY₃ : p₃.read y = .ok m₂ := by
    rw [rewrites₃.read_of_ne (Ne.symm xy)]
    exact readY₂
  obtain ⟨p₄, run₄, spells₄, rewrites₄⟩ :=
    reheight_spells readY₃ (spellsNear₂.frame_one rewrites₃.toAgreeOff xNear)
      (linkX₂ ▸ spells₃) yNear (by simp [Ne.symm xy, yInner, yFar])
      (by simpa using fits)
  rw [key₂, value₂, key₂', value₂'] at spells₄
  refine ⟨p₄, ?_, spells₄, ?_⟩
  · unfold lift
    rw [bind_of_ok (Pool.node_of_read readX), linkY]
    show (Pool.node y >>= _) p = _
    rw [bind_of_ok (Pool.node_of_read readY), bind_of_ok run₁, bind_of_ok run₂,
      bind_of_ok run₃, bind_of_ok run₄]
    rfl
  · exact (((rewrites₁.mono (by simp)).trans (rewrites₂.mono (by simp))).trans
      (rewrites₃.mono (by simp))).trans (rewrites₄.mono (by simp))

/-- A child that does not lean inwards is lifted at once. -/
theorem settle_single_run {c d : Cell Handle α β} {h g : Nat} {inner : Tree Handle α β}
    (spells : Spells p t (.branch s c h (.branch s d g near inner) far))
    (nodup : (Tree.branch s c h (.branch s d g near inner) far).labels.Nodup)
    (outwards : inner.height ≤ near.height)
    (fits : (Tree.fork s d near (.fork s c inner far)).height ≤ maxHeight) :
    ∃ q, settle s c.label p = .ok d.label q ∧
      Spells q (some d.label) (.fork s d near (.fork s c inner far)) ∧
      Rewrites p q [c.label, d.label] := by
  obtain ⟨q, run, spells', rewrites⟩ := lift_run spells nodup fits
  obtain ⟨-, n, readX, -, -, -, spellsChild, -⟩ := spells_branch_iff.1 spells
  obtain ⟨linkY, m, readY, -, -, -, spellsNear, spellsInner⟩ := spells_branch_iff.1 spellsChild
  refine ⟨q, ?_, spells', rewrites⟩
  unfold settle
  rw [bind_of_ok (Pool.node_of_read readX), linkY]
  show (excess s d.label >>= _) p = _
  rw [bind_of_ok (excess_run readY spellsNear spellsInner), if_neg (by omega)]
  exact run

/-- A child that leans inwards is brought below its own inner child, which is
then lifted: three nodes are rewritten. -/
theorem settle_double_run {c d e : Cell Handle α β} {h g k : Nat} {a b : Tree Handle α β}
    (spells : Spells p t (.branch s c h (.branch s d g near (.branch s e k a b)) far))
    (nodup : (Tree.branch s c h (.branch s d g near (.branch s e k a b)) far).labels.Nodup)
    (inwards : near.height < k)
    (fits : (Tree.fork s e (.fork s d near a) (.fork s c b far)).height ≤ maxHeight)
    (fits' : (Tree.fork s e (.fork s d near a) b).height ≤ maxHeight) :
    ∃ q, settle s c.label p = .ok e.label q ∧
      Spells q (some e.label) (.fork s e (.fork s d near a) (.fork s c b far)) ∧
      Rewrites p q [c.label, d.label, e.label] := by
  obtain ⟨-, n, readX, key, value, -, spellsChild, spellsFar⟩ := spells_branch_iff.1 spells
  obtain ⟨linkY, m, readY, -, -, -, spellsNear, spellsInner⟩ := spells_branch_iff.1 spellsChild
  obtain ⟨distinctNear, -, xNear, xFar, apart⟩ := Tree.nodup_labels_branch.1 nodup
  -- seen from the other side, the child is a node whose near subtree is too high
  have spellsTurned : Spells p (n.child s)
      (.branch s.other d g (.branch s.other e k b a) near) := by
    rw [Tree.branch_other, Tree.branch_other]
    exact spellsChild
  obtain ⟨p₁, run₁, spells₁, rewrites₁⟩ := lift_run spellsTurned
    (by rw [Tree.branch_other, Tree.branch_other]; exact distinctNear)
    (by rw [Tree.fork_other, Tree.fork_other]; exact fits')
  rw [Tree.fork_other, Tree.fork_other] at spells₁
  simp only [Tree.mem_labels_branch, not_or] at xNear
  obtain ⟨xd, xOuter, xe, xa, xb⟩ := xNear
  have readX₁ : p₁.read c.label = .ok n := by
    rw [rewrites₁.read (by simp [xd, xe])]
    exact readX
  have spellsFar₁ : Spells p₁ (n.child s.other) far := by
    refine spellsFar.frame rewrites₁.toAgreeOff fun x member here => ?_
    simp only [List.mem_cons, List.not_mem_nil, or_false] at here
    rcases here with rfl | rfl
    · exact apart _ (by simp) member
    · exact apart _ (by simp) member
  obtain ⟨p₂, run₂, spells₂, rewrites₂⟩ := setChild_spells readX₁ spells₁ spellsFar₁
    (by simp [xd, xOuter, xe, xa, xb]) xFar
  rw [key, value] at spells₂
  have nodup₂ : (Tree.branch s c n.height (.fork s e (.fork s d near a) b) far).labels.Nodup := by
    rw [Tree.labels_rotated (i := h) (g := g) (k := k)]
    exact nodup
  rw [Tree.fork_eq_branch s e] at spells₂ nodup₂
  obtain ⟨p₃, run₃, spells₃, rewrites₃⟩ := lift_run spells₂ nodup₂ fits
  refine ⟨p₃, ?_, spells₃, ?_⟩
  · unfold settle
    rw [bind_of_ok (Pool.node_of_read readX), linkY]
    show (excess s d.label >>= _) p = _
    rw [bind_of_ok (excess_run readY spellsNear spellsInner),
      if_pos (by rw [Tree.height_branch]; omega)]
    show (lift s.other d.label >>= _) p = _
    rw [bind_of_ok run₁]
    show (Pool.setChild c.label s (some e.label) >>= _) p₁ = _
    rw [bind_of_ok run₂]
    exact run₃
  · exact ((rewrites₁.mono (by simp)).trans (rewrites₂.mono (by simp))).trans
      (rewrites₃.mono (by simp))

/-- Where one subtree is too high by one, two linked nodes or three are rotated. -/
theorem settle_run {c : Cell Handle α β} {h : Nat}
    (spells : Spells p t (.branch s c h near far))
    (nodup : (Tree.branch s c h near far).labels.Nodup) (avl : near.Avl)
    (gap : near.height = far.height + 2) (fits : near.height < maxHeight) :
    ∃ q y, settle s c.label p = .ok y q ∧
      Spells q (some y) (.settle s (.branch s c h near far)) ∧
      Rewrites p q (Tree.branch s c h near far).labels := by
  obtain ⟨d, g, outer, inner, rfl⟩ := Tree.exists_branch_of_height_pos (t := near) s (by omega)
  obtain ⟨heightEq, low, high, -, avlInner⟩ := Tree.avl_branch_iff.1 avl
  rw [Tree.height_branch] at gap fits
  by_cases outwards : inner.height ≤ outer.height
  · rw [Tree.settle_single _ _ _ _ _ _ _ _ outwards]
    obtain ⟨q, run, spells', rewrites⟩ := settle_single_run spells nodup outwards
      (by simp only [Tree.height_fork]; omega)
    exact ⟨q, d.label, run, spells', rewrites.mono (by simp)⟩
  · obtain ⟨e, k, a, b, rfl⟩ := Tree.exists_branch_of_height_pos (t := inner) s (by omega)
    obtain ⟨heightEq', -, -, -, -⟩ := Tree.avl_branch_iff.1 avlInner
    rw [Tree.height_branch] at heightEq low high outwards
    have inwards : outer.height < k := Nat.lt_of_not_le outwards
    rw [Tree.settle_double _ _ _ _ _ _ _ _ _ _ _ inwards]
    obtain ⟨q, run, spells', rewrites⟩ := settle_double_run spells nodup inwards
      (by simp only [Tree.height_fork]; omega) (by simp only [Tree.height_fork]; omega)
    exact ⟨q, e.label, run, spells', rewrites.mono (by simp)⟩

/-! ## Rebalancing -/

/-- `balance_run` with the subtrees given from left to right. -/
theorem balance_run_left {x : Handle} {n : Node α β} {l r : Tree Handle α β}
    (found : p.read x = .ok n) (spellsLeft : Spells p n.left l)
    (spellsRight : Spells p n.right r)
    (nodup : (Tree.node ⟨x, n.key, n.value⟩ 0 l r).labels.Nodup)
    (avlLeft : l.Avl) (avlRight : r.Avl)
    (low : l.height ≤ r.height + 2) (high : r.height ≤ l.height + 2) :
    ∃ q y, balance x p = .ok y q ∧
      Spells q (some y) (.balance ⟨x, n.key, n.value⟩ l r) ∧
      Rewrites p q (x :: (l.labels ++ r.labels)) := by
  obtain ⟨distinctLeft, distinctRight, xLeft, xRight, -⟩ :=
    Tree.nodup_labels_branch (s := .left).1 nodup
  have shortLeft := Tree.height_le_of_nodup avlLeft distinctLeft
  have shortRight := Tree.height_le_of_nodup avlRight distinctRight
  obtain ⟨p₁, run₁, spells₁, rewrites₁⟩ := reheight_spells (s := .left) found spellsLeft
    spellsRight xLeft xRight (by unfold maxHeight; omega)
  have rewrites₁' : Rewrites p p₁ (x :: (l.labels ++ r.labels)) := rewrites₁.mono (by simp)
  obtain ⟨-, n₁, found₁, -, -, -, spellsLeft₁, spellsRight₁⟩ :=
    spells_branch_iff (s := .left).1 spells₁
  have lean : excess .left x p₁ = .ok ((l.height : Int) - r.height) p₁ :=
    excess_run found₁ spellsLeft₁ spellsRight₁
  have start {y : Handle} {q : Pool α β}
      (rest : (if (l.height : Int) - r.height > 1 then settle .left x
        else if (l.height : Int) - r.height < -1 then settle .right x else return x) p₁ = .ok y q) :
      balance x p = .ok y q := by
    unfold balance
    rw [bind_of_ok run₁, bind_of_ok lean]
    exact rest
  show ∃ q y, balance x p = .ok y q ∧ Spells q (some y) (.rebalance .left ⟨x, n.key, n.value⟩ l r) ∧
    Rewrites p q (x :: (l.labels ++ r.labels))
  rw [Tree.rebalance_eq]
  by_cases leftHigh : l.height > r.height + 1
  · rw [if_pos leftHigh]
    rw [Tree.fork_eq_branch] at spells₁ ⊢
    obtain ⟨q, y, run, spells, rewrites⟩ := settle_run spells₁ nodup avlLeft (by omega)
      (by unfold maxHeight; omega)
    refine ⟨q, y, start ?_, spells,
      rewrites₁'.trans (rewrites.mono (Tree.labels_branch_subset ..))⟩
    rw [if_pos (by omega)]
    exact run
  · rw [if_neg leftHigh]
    by_cases rightHigh : r.height > l.height + 1
    · rw [if_pos rightHigh]
      rw [← Tree.fork_other, Tree.fork_eq_branch] at spells₁ ⊢
      obtain ⟨q, y, run, spells, rewrites⟩ := settle_run (s := .right) spells₁ nodup avlRight
        (by omega) (by unfold maxHeight; omega)
      refine ⟨q, y, start ?_, spells, rewrites₁'.trans (rewrites.mono (List.Subset.trans
        (Tree.labels_branch_subset ..) (List.cons_subset_cons _ List.perm_append_comm.subset)))⟩
      rw [if_neg (by omega), if_pos (by omega)]
      exact run
    · rw [if_neg rightHigh]
      refine ⟨p₁, x, start ?_, spells₁, rewrites₁'⟩
      rw [if_neg (by omega), if_neg (by omega)]
      rfl

/-- Rebalancing a node over two balanced trees that differ by at most two spells
out the rebalanced tree and writes no slot but theirs. -/
theorem balance_run {x : Handle} {n : Node α β} (found : p.read x = .ok n)
    (spellsNear : Spells p (n.child s) near) (spellsFar : Spells p (n.child s.other) far)
    (nodup : (Tree.branch s ⟨x, n.key, n.value⟩ 0 near far).labels.Nodup)
    (avlNear : near.Avl) (avlFar : far.Avl)
    (low : near.height ≤ far.height + 2) (high : far.height ≤ near.height + 2) :
    ∃ q y, balance x p = .ok y q ∧
      Spells q (some y) (.rebalance s ⟨x, n.key, n.value⟩ near far) ∧
      Rewrites p q (x :: (near.labels ++ far.labels)) := by
  cases s with
  | left => exact balance_run_left found spellsNear spellsFar nodup avlNear avlFar low high
  | right =>
    obtain ⟨q, y, run, spells, rewrites⟩ :=
      balance_run_left found spellsFar spellsNear nodup avlFar avlNear high low
    exact ⟨q, y, run, spells,
      rewrites.mono (List.cons_subset_cons _ List.perm_append_comm.subset)⟩

end BoundedMap.Subtree
