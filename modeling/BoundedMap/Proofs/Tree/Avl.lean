import BoundedMap.Proofs.Tree.Sides
/-!
# Balance is kept

`Avl` joins the two conditions that every stored tree meets. Rebalancing
restores it whenever the two subtrees meet it and differ by at most two in
height (`rebalance_spec`), and each update changes the height of a tree by at
most one (`insert_avl`, `remove_avl`), so that the next rebalancing on the way
back finds what it needs. No order of the keys is assumed.
-/

namespace BoundedMap.Tree

variable {σ α β : Type}

/-- Heights are recorded correctly, and at every node the two subtrees differ by
at most one in height. -/
structure Avl (t : Tree σ α β) : Prop where
  heights : t.HeightsExact
  balanced : t.Balanced

theorem avl_nil : (nil : Tree σ α β).Avl :=
  ⟨trivial, trivial⟩

theorem avl_branch_iff {s : Side} {c : Cell σ α β} {h : Nat} {near far : Tree σ α β} :
    (branch s c h near far).Avl ↔
      h = 1 + max near.height far.height ∧ near.height ≤ far.height + 1 ∧
        far.height ≤ near.height + 1 ∧ near.Avl ∧ far.Avl := by
  constructor
  · rintro ⟨heights, balanced⟩
    cases s with
    | left =>
      obtain ⟨heightEq, hn, hf⟩ := heights
      obtain ⟨low, high, bn, bf⟩ := balanced
      exact ⟨heightEq, low, high, ⟨hn, bn⟩, ⟨hf, bf⟩⟩
    | right =>
      obtain ⟨heightEq, hf, hn⟩ := heights
      obtain ⟨low, high, bf, bn⟩ := balanced
      exact ⟨by omega, high, low, ⟨hn, bn⟩, ⟨hf, bf⟩⟩
  · rintro ⟨heightEq, low, high, avlNear, avlFar⟩
    cases s with
    | left =>
      exact ⟨⟨heightEq, avlNear.heights, avlFar.heights⟩,
        ⟨low, high, avlNear.balanced, avlFar.balanced⟩⟩
    | right =>
      refine ⟨⟨?_, avlFar.heights, avlNear.heights⟩,
        ⟨high, low, avlFar.balanced, avlNear.balanced⟩⟩
      rw [Nat.max_comm]
      exact heightEq

theorem avl_node_iff {c : Cell σ α β} {h : Nat} {l r : Tree σ α β} :
    (node c h l r).Avl ↔
      h = 1 + max l.height r.height ∧ l.height ≤ r.height + 1 ∧
        r.height ≤ l.height + 1 ∧ l.Avl ∧ r.Avl :=
  avl_branch_iff (s := .left)

theorem Avl.sides {c : Cell σ α β} {h : Nat} {l r : Tree σ α β}
    (avl : (node c h l r).Avl) (s : Side) :
    (branch s c h ((node c h l r).child s) ((node c h l r).child s.other)).Avl := by
  rwa [← node_eq_branch]

theorem avl_fork {s : Side} {c : Cell σ α β} {near far : Tree σ α β} (avlNear : near.Avl)
    (avlFar : far.Avl) (low : near.height ≤ far.height + 1)
    (high : far.height ≤ near.height + 1) : (fork s c near far).Avl := by
  rw [fork_eq_branch, avl_branch_iff]
  exact ⟨rfl, low, high, avlNear, avlFar⟩

/-! ## Rebalancing -/

/-- Where the near subtree is too high by one, rotations make the node balanced. -/
theorem settle_avl {s : Side} {c : Cell σ α β} {near far : Tree σ α β} (avlNear : near.Avl)
    (avlFar : far.Avl) (gap : near.height = far.height + 2) :
    (settle s (fork s c near far)).Avl ∧
      near.height ≤ (settle s (fork s c near far)).height ∧
      (settle s (fork s c near far)).height ≤ near.height + 1 := by
  obtain ⟨d, g, outer, inner, rfl⟩ := exists_branch_of_height_pos (t := near) s (by omega)
  obtain ⟨hg, low, high, avlOuter, avlInner⟩ := avl_branch_iff.1 avlNear
  rw [height_branch] at gap ⊢
  rw [fork_eq_branch]
  by_cases outwards : inner.height ≤ outer.height
  · rw [settle_single _ _ _ _ _ _ _ _ outwards]
    have below : (fork s c inner far).Avl :=
      avl_fork avlInner avlFar (by omega) (by omega)
    refine ⟨avl_fork avlOuter below ?_ ?_, ?_, ?_⟩ <;> simp only [height_fork] <;> omega
  · obtain ⟨e, k, a, b, rfl⟩ := exists_branch_of_height_pos (t := inner) s (by omega)
    obtain ⟨hk, lowA, highA, avlA, avlB⟩ := avl_branch_iff.1 avlInner
    rw [height_branch] at hg low high outwards
    rw [settle_double _ _ _ _ _ _ _ _ _ _ _ (by omega)]
    have outerFork : (fork s d outer a).Avl := avl_fork avlOuter avlA (by omega) (by omega)
    have innerFork : (fork s c b far).Avl := avl_fork avlB avlFar (by omega) (by omega)
    refine ⟨avl_fork outerFork innerFork ?_ ?_, ?_, ?_⟩ <;> simp only [height_fork] <;> omega

/-- Subtrees that differ by at most one stay where they are. -/
theorem rebalance_of_close (s : Side) (c : Cell σ α β) {near far : Tree σ α β}
    (low : near.height ≤ far.height + 1) (high : far.height ≤ near.height + 1) :
    rebalance s c near far = fork s c near far := by
  rw [rebalance_eq, if_neg (by omega), if_neg (by omega)]

/-- Rebalancing restores balance wherever the subtrees differ by at most two. -/
theorem rebalance_spec {s : Side} {c : Cell σ α β} {near far : Tree σ α β}
    (avlNear : near.Avl) (avlFar : far.Avl) (low : near.height ≤ far.height + 2)
    (high : far.height ≤ near.height + 2) :
    (rebalance s c near far).Avl ∧
      max near.height far.height ≤ (rebalance s c near far).height ∧
      (rebalance s c near far).height ≤ max near.height far.height + 1 := by
  rw [rebalance_eq]
  split
  · obtain ⟨avl, least, most⟩ :=
      settle_avl (s := s) (c := c) avlNear avlFar (by omega)
    exact ⟨avl, by omega, by omega⟩
  · split
    · obtain ⟨avl, least, most⟩ :=
        settle_avl (s := s.other) (c := c) avlFar avlNear (by omega)
      rw [fork_other] at avl least most
      exact ⟨avl, by omega, by omega⟩
    · refine ⟨avl_fork avlNear avlFar (by omega) (by omega), ?_, ?_⟩ <;>
        simp only [height_fork] <;> omega

/-- A node whose subtrees have not changed is its own rebalancing. -/
theorem rebalance_self {s : Side} {c : Cell σ α β} {h : Nat} {near far : Tree σ α β}
    (avl : (branch s c h near far).Avl) :
    rebalance s c near far = branch s c h near far := by
  obtain ⟨heightEq, low, high, -, -⟩ := avl_branch_iff.1 avl
  rw [rebalance_of_close s c low high, fork_eq_branch, heightEq]

/-- When one subtree of a balanced node has changed its height by at most one,
rebalancing answers a balanced tree whose height has changed by at most one, and
in the same direction. -/
theorem rebalance_changed {s : Side} {c : Cell σ α β} {h : Nat} {near far new : Tree σ α β}
    (avl : (branch s c h near far).Avl) (avlNew : new.Avl)
    (step : new.height ≤ near.height + 1) (step' : near.height ≤ new.height + 1) :
    (rebalance s c new far).Avl ∧
      (near.height ≤ new.height → h ≤ (rebalance s c new far).height ∧
        (rebalance s c new far).height ≤ h + 1) ∧
      (new.height ≤ near.height → (rebalance s c new far).height ≤ h ∧
        h ≤ (rebalance s c new far).height + 1) := by
  obtain ⟨heightEq, low, high, -, avlFar⟩ := avl_branch_iff.1 avl
  obtain ⟨avlAfter, least, most⟩ :=
    rebalance_spec (s := s) (c := c) avlNew avlFar (by omega) (by omega)
  refine ⟨avlAfter, fun grown => ?_, fun shrunk => ?_⟩
  · by_cases close : new.height ≤ far.height + 1
    · rw [rebalance_of_close s c close (by omega), height_fork]
      omega
    · omega
  · by_cases close : far.height ≤ new.height + 1
    · rw [rebalance_of_close s c (by omega) close, height_fork]
      omega
    · omega

/-! ## Insertion -/

/-- An insertion keeps a tree balanced, and its height or one more. -/
theorem insert_avl (less : α → α → Bool) (label : σ) (key : α) (value : β)
    {t : Tree σ α β} (avl : t.Avl) :
    (t.insert less label key value).1.Avl ∧
      t.height ≤ (t.insert less label key value).1.height ∧
      (t.insert less label key value).1.height ≤ t.height + 1 := by
  induction t using bySides with
  | nil => exact ⟨⟨⟨rfl, trivial, trivial⟩, by simp [insert, Balanced]⟩, by simp [insert, height]⟩
  | node c h l r ih =>
    cases turned : turn less key c.key with
    | none =>
      rw [insert_of_match _ _ _ _ _ turned]
      exact ⟨⟨avl.heights, avl.balanced⟩, Nat.le_refl h, Nat.le_succ h⟩
    | some s =>
      rw [insert_of_turn _ _ _ _ _ turned]
      have sides := avl.sides s
      obtain ⟨-, -, -, avlNear, -⟩ := avl_branch_iff.1 sides
      obtain ⟨avlNew, grown, most⟩ := ih s avlNear
      obtain ⟨avlAfter, up, -⟩ := rebalance_changed sides avlNew most (by omega)
      exact ⟨avlAfter, up grown⟩

/-- Overwriting a value keeps the height of a balanced tree. -/
theorem height_insert_of_find? {less : α → α → Bool} {key : α} {t : Tree σ α β}
    {c : Cell σ α β} (avl : t.Avl) (found : t.find? less key = some c) (label : σ) (value : β) :
    (t.insert less label key value).1.height = t.height := by
  induction t using bySides with
  | nil => cases found
  | node d h l r ih =>
    cases turned : turn less key d.key with
    | none =>
      rw [insert_of_match _ _ _ _ _ turned]
      rfl
    | some s =>
      rw [find?_of_turn _ _ _ turned] at found
      obtain ⟨heightEq, low, high, avlNear, -⟩ := avl_branch_iff.1 (avl.sides s)
      have same := ih s avlNear found
      rw [insert_of_turn _ _ _ _ _ turned]
      show (rebalance s d (((node d h l r).child s).insert less label key value).1 _).height = h
      rw [rebalance_of_close _ _ (by omega) (by omega), height_fork, same]
      exact heightEq.symm

/-- Overwriting a value below a node rebuilds the node as it was. -/
theorem rebalance_insert_of_find? {less : α → α → Bool} {key : α} {s : Side} {d : Cell σ α β}
    {h : Nat} {near far : Tree σ α β} {c : Cell σ α β} (avl : (branch s d h near far).Avl)
    (found : near.find? less key = some c) (label : σ) (value : β) :
    rebalance s d (near.insert less label key value).1 far =
      branch s d h (near.insert less label key value).1 far := by
  obtain ⟨heightEq, low, high, avlNear, avlFar⟩ := avl_branch_iff.1 avl
  have same := height_insert_of_find? avlNear found label value
  apply rebalance_self
  rw [avl_branch_iff, same]
  exact ⟨heightEq, low, high, (insert_avl less label key value avlNear).1, avlFar⟩

/-! ## Removal -/

/-- Detaching the leftmost cell keeps a tree balanced, and its height or one less. -/
theorem removeMin_avl {c : Cell σ α β} {h : Nat} {l r : Tree σ α β}
    (avl : (node c h l r).Avl) :
    (removeMin c l r).1.Avl ∧ (removeMin c l r).1.height ≤ h ∧
      h ≤ (removeMin c l r).1.height + 1 := by
  induction l generalizing c h r with
  | nil =>
    obtain ⟨heightEq, low, high, -, avlRight⟩ := avl_node_iff.1 avl
    rw [height_nil] at heightEq low high
    show r.Avl ∧ r.height ≤ h ∧ h ≤ r.height + 1
    exact ⟨avlRight, by omega, by omega⟩
  | node d g dl dr ihl _ =>
    obtain ⟨-, -, -, avlLeft, -⟩ := avl_node_iff.1 avl
    obtain ⟨avlNew, shrunk, least⟩ := ihl avlLeft
    obtain ⟨avlAfter, -, down⟩ :=
      rebalance_changed (avl.sides .left) avlNew (Nat.le_succ_of_le shrunk) least
    exact ⟨avlAfter, down shrunk⟩

/-- What takes the place of a removed cell is balanced and one lower than the
node was, or as high. -/
theorem merge_avl {l r : Tree σ α β} (avlLeft : l.Avl) (avlRight : r.Avl)
    (low : l.height ≤ r.height + 1) (high : r.height ≤ l.height + 1) :
    (merge l r).Avl ∧ max l.height r.height ≤ (merge l r).height ∧
      (merge l r).height ≤ max l.height r.height + 1 := by
  cases r with
  | nil =>
    rw [height_nil] at low high ⊢
    exact ⟨avlLeft, Nat.max_le.2 ⟨Nat.le_refl _, Nat.zero_le _⟩, by rw [merge]; omega⟩
  | node c h rl rr =>
    obtain ⟨avlRest, shrunk, least⟩ := removeMin_avl avlRight
    rw [height_node] at low high ⊢
    show (rebalance .left (removeMin c rl rr).2 l (removeMin c rl rr).1).Avl ∧
      _ ≤ (rebalance .left (removeMin c rl rr).2 l (removeMin c rl rr).1).height ∧
      (rebalance .left (removeMin c rl rr).2 l (removeMin c rl rr).1).height ≤ _
    obtain ⟨avlAfter, least', most⟩ := rebalance_spec (s := .left)
      (c := (removeMin c rl rr).2) avlLeft avlRest (by omega) (by omega)
    refine ⟨avlAfter, ?_, by omega⟩
    by_cases even : (removeMin c rl rr).1.height = l.height
    · rw [rebalance_of_close .left _ (by omega) (by omega), height_fork]
      omega
    · omega

/-- A removal keeps a tree balanced, and its height or one less. -/
theorem remove_avl (less : α → α → Bool) (probe : α) {t : Tree σ α β} (avl : t.Avl) :
    (t.remove less probe).1.Avl ∧ (t.remove less probe).1.height ≤ t.height ∧
      t.height ≤ (t.remove less probe).1.height + 1 := by
  induction t using bySides with
  | nil => exact ⟨avl, Nat.le_refl _, Nat.le_succ _⟩
  | node c h l r ih =>
    cases turned : turn less probe c.key with
    | none =>
      rw [remove_of_match _ _ _ turned]
      obtain ⟨heightEq, low, high, avlLeft, avlRight⟩ := avl_node_iff.1 avl
      obtain ⟨avlAfter, least, most⟩ := merge_avl avlLeft avlRight low high
      show (merge l r).Avl ∧ (merge l r).height ≤ h ∧ h ≤ (merge l r).height + 1
      exact ⟨avlAfter, by omega, by omega⟩
    | some s =>
      rw [remove_of_turn _ _ _ turned]
      have sides := avl.sides s
      obtain ⟨-, -, -, avlNear, -⟩ := avl_branch_iff.1 sides
      obtain ⟨avlNew, shrunk, least⟩ := ih s avlNear
      obtain ⟨avlAfter, -, down⟩ :=
        rebalance_changed sides avlNew (Nat.le_succ_of_le shrunk) least
      exact ⟨avlAfter, down shrunk⟩

/-- A removal that finds nothing changes nothing. -/
theorem remove_of_find?_eq_none {less : α → α → Bool} {probe : α} {t : Tree σ α β}
    (avl : t.Avl) (absent : t.find? less probe = none) : t.remove less probe = (t, none) := by
  induction t using bySides with
  | nil => rfl
  | node c h l r ih =>
    cases turned : turn less probe c.key with
    | none =>
      rw [find?_of_match _ _ _ turned] at absent
      cases absent
    | some s =>
      rw [find?_of_turn _ _ _ turned] at absent
      have sides := avl.sides s
      obtain ⟨-, -, -, avlNear, -⟩ := avl_branch_iff.1 sides
      rw [remove_of_turn _ _ _ turned, ih s avlNear absent, rebalance_self sides,
        ← node_eq_branch]

end BoundedMap.Tree
