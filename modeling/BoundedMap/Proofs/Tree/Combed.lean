import Mathlib.Algebra.Ring.Nat
import BoundedMap.Proofs.Tree.Avl
import BoundedMap.Proofs.Tree.Planting
/-!
# Trees that grow at one end

A tree of `n` nodes is at least `log2 n + 1` deep, and perfect when it has as many nodes as its
depth allows. Insertions at one end of a balanced tree reach the least depth: they keep it
`Combed`, which is to say that only perfect subtrees hang from its spine on that side, none higher
than the rest of the spine. When the rest outgrows the perfect subtree beside it by two, a single
rotation joins that one with the next of the same height to a perfect subtree, as a carry does in
a binary counter. The height of a combed tree is therefore a function of its size
(`Combed.height_eq`).
-/

namespace BoundedMap.Tree

variable {σ α β : Type}

/-! ## Depth and size -/

/-- At every node both subtrees are equally deep. -/
def Perfect : Tree σ α β → Prop
  | nil => True
  | node _ _ l r => l.depth = r.depth ∧ l.Perfect ∧ r.Perfect

theorem size_lt_two_pow_depth (t : Tree σ α β) : t.size < 2 ^ t.depth := by
  induction t with
  | nil => simp [size, depth]
  | node c h l r ihl ihr =>
    have left : 2 ^ l.depth ≤ 2 ^ max l.depth r.depth :=
      Nat.pow_le_pow_right (by decide) (Nat.le_max_left ..)
    have right : 2 ^ r.depth ≤ 2 ^ max l.depth r.depth :=
      Nat.pow_le_pow_right (by decide) (Nat.le_max_right ..)
    rw [size, depth, Nat.add_comm 1, Nat.pow_succ]
    omega

/-- A tree is perfect when it has as many nodes as its depth allows. -/
theorem perfect_iff {t : Tree σ α β} : t.Perfect ↔ t.size + 1 = 2 ^ t.depth := by
  induction t with
  | nil => simp [Perfect, size, depth]
  | node c h l r ihl ihr =>
    have roomLeft := size_lt_two_pow_depth l
    have roomRight := size_lt_two_pow_depth r
    have left : 2 ^ l.depth ≤ 2 ^ max l.depth r.depth :=
      Nat.pow_le_pow_right (by decide) (Nat.le_max_left ..)
    have right : 2 ^ r.depth ≤ 2 ^ max l.depth r.depth :=
      Nat.pow_le_pow_right (by decide) (Nat.le_max_right ..)
    rw [Perfect, ihl, ihr, size, depth, Nat.add_comm 1, Nat.pow_succ]
    constructor
    · rintro ⟨level, fullLeft, fullRight⟩
      rw [← level, Nat.max_self]
      rw [← level] at fullRight
      omega
    · intro full
      -- both subtrees are as large as the deeper one may be, so neither is less deep
      have deepLeft : l.depth = max l.depth r.depth :=
        Nat.pow_right_injective (Nat.le_refl 2) (show 2 ^ _ = 2 ^ _ by omega)
      have deepRight : r.depth = max l.depth r.depth :=
        Nat.pow_right_injective (Nat.le_refl 2) (show 2 ^ _ = 2 ^ _ by omega)
      exact ⟨deepLeft.trans deepRight.symm, by omega, by omega⟩

/-- No binary tree of so many nodes is less deep. -/
theorem log2_lt_depth {t : Tree σ α β} (some : t.size ≠ 0) : t.size.log2 + 1 ≤ t.depth :=
  (Nat.log2_lt some).2 (size_lt_two_pow_depth t)

/-! ## Combed trees -/

/-- Perfect subtrees hang from the spine on side `s`, none of them higher than the rest of the
spine. -/
def Combed (s : Side) : Tree σ α β → Prop
  | nil => True
  | node _ _ l r =>
    match s with
    | .left => r.size + 1 = 2 ^ r.height ∧ r.height ≤ l.height ∧ l.Combed .left
    | .right => l.size + 1 = 2 ^ l.height ∧ l.height ≤ r.height ∧ r.Combed .right

theorem combed_branch_iff {s : Side} {c : Cell σ α β} {h : Nat} {near far : Tree σ α β} :
    (branch s c h near far).Combed s ↔
      far.size + 1 = 2 ^ far.height ∧ far.height ≤ near.height ∧ near.Combed s := by
  cases s <;> rfl

section Combed

variable {s : Side} {t : Tree σ α β}

/-- A combed tree is more than half as large as its height allows. -/
theorem Combed.two_pow_height_le (combed : t.Combed s) (avl : t.Avl) :
    2 ^ t.height ≤ 2 * t.size + 1 := by
  induction t using bySides with
  | nil => simp [size]
  | node c h l r ih =>
    have near_le := ih s
    rw [node_eq_branch s] at combed avl ⊢
    generalize (node c h l r).child s = near at *
    generalize (node c h l r).child s.other = far at *
    obtain ⟨full, low, combedNear⟩ := combed_branch_iff.1 combed
    obtain ⟨heightEq, high, -, avlNear, -⟩ := avl_branch_iff.1 avl
    have half := near_le combedNear avlNear
    rw [height_branch, size_branch, heightEq, Nat.max_eq_left low, Nat.add_comm 1, Nat.pow_succ]
    by_cases level : near.height = far.height
    · rw [level]
      omega
    · have above : near.height = far.height + 1 := by omega
      rw [above, Nat.pow_succ] at half ⊢
      omega

/-- A combed tree has the least height for its size. -/
theorem Combed.height_eq (combed : t.Combed s) (avl : t.Avl) (some : t.size ≠ 0) :
    t.height = t.size.log2 + 1 := by
  have least := log2_lt_depth some
  have half := combed.two_pow_height_le avl
  rw [← avl.heights.height_eq_depth] at least
  obtain ⟨k, hk⟩ : ∃ k, t.height = k + 1 := ⟨t.height - 1, by omega⟩
  rw [hk, Nat.pow_succ] at half
  have most := (Nat.le_log2 some (k := k)).2 (by omega)
  omega

/-- No binary tree of so many nodes is less deep, whatever its nodes hold. -/
theorem Combed.depth_le {τ γ δ : Type} {u : Tree τ γ δ} (combed : t.Combed s) (avl : t.Avl)
    (same : u.size = t.size) : t.depth ≤ u.depth := by
  cases t with
  | nil => exact Nat.zero_le _
  | node c h l r =>
    have some : (node c h l r).size ≠ 0 := by simp [size]
    rw [← avl.heights.height_eq_depth, combed.height_eq avl some, ← same]
    exact log2_lt_depth (same ▸ some)

/-- A combed tree is perfect whenever a tree of so many nodes can be. -/
theorem Combed.perfect {j : Nat} (combed : t.Combed s) (avl : t.Avl)
    (exact : t.size + 1 = 2 ^ j) : t.Perfect ∧ t.depth = j := by
  have room := size_lt_two_pow_depth t
  have half := combed.two_pow_height_le avl
  rw [avl.heights.height_eq_depth] at half
  have above : 2 ^ j ≤ 2 ^ t.depth := by omega
  have below : 2 ^ t.depth < 2 ^ (j + 1) := by
    rw [Nat.pow_succ]
    omega
  have least := (Nat.pow_le_pow_iff_right (by decide)).1 above
  have most := (Nat.pow_lt_pow_iff_right (by decide)).1 below
  have level : t.depth = j := by omega
  refine ⟨?_, level⟩
  rw [perfect_iff, level]
  exact exact

/-- Rebalancing keeps a node combed when the rest of its spine has grown by one node. Where the rest
is two higher than the subtree beside it, that one and the first of the rest have the same
height. -/
theorem combed_rebalance {c : Cell σ α β} {near far new : Tree σ α β}
    (full : far.size + 1 = 2 ^ far.height) (low : far.height ≤ near.height)
    (high : near.height ≤ far.height + 1) (avlNear : near.Avl) (combedNew : new.Combed s)
    (avlNew : new.Avl) (grown : near.height ≤ new.height) (most : new.height ≤ near.height + 1)
    (one_more : new.size = near.size + 1) : (rebalance s c new far).Combed s := by
  by_cases close : new.height ≤ far.height + 1
  · rw [rebalance_of_close s c close (by omega), fork_eq_branch, combed_branch_iff]
    exact ⟨full, by omega, combedNew⟩
  · obtain ⟨d, g, outer, inner, rfl⟩ := exists_branch_of_height_pos (t := new) s (by omega)
    obtain ⟨fullInner, lowInner, combedOuter⟩ := combed_branch_iff.1 combedNew
    obtain ⟨heightEq, highInner, -, avlOuter, -⟩ := avl_branch_iff.1 avlNew
    rw [height_branch] at grown most close
    rw [size_branch] at one_more
    -- the rest had room for no further node at its height, so its first subtree is the lower one
    have level : inner.height = far.height := by
      have room := size_lt_two_pow_depth near
      rw [← avlNear.heights.height_eq_depth] at room
      have half := combedOuter.two_pow_height_le avlOuter
      have some : 2 ^ 1 ≤ 2 ^ outer.height := Nat.pow_le_pow_right (by decide) (by omega)
      have lower : 2 ^ inner.height < 2 ^ near.height := by omega
      have below := (Nat.pow_lt_pow_iff_right (by decide)).1 lower
      omega
    have tooHigh : far.height + 1 < (branch s d g outer inner).height := by
      rw [height_branch]
      omega
    rw [rebalance_eq, if_pos tooHigh, fork_eq_branch,
      settle_single s c d _ g outer inner far lowInner, fork_eq_branch, combed_branch_iff]
    refine ⟨?_, ?_, combedOuter⟩
    · rw [fork_eq_branch, size_branch, height_branch, level, Nat.max_self, Nat.add_comm 1,
        Nat.pow_succ]
      rw [level] at fullInner
      omega
    · rw [height_fork]
      omega

/-- An insertion at one end keeps a tree combed to that side, whatever the predicate. -/
theorem combed_insert {less : α → α → Bool} {key : α} (combed : t.Combed s) (avl : t.Avl)
    (outside : ∀ d ∈ t.cells, turn less key d.key = some s) (label : σ) (value : β) :
    (t.insert less label key value).1.Combed s := by
  induction t using bySides with
  | nil => cases s <;> simp [insert, Combed, size]
  | node c h l r ih =>
    have turned : turn less key c.key = some s := outside c (by simp [cells])
    have outsideNear : ∀ d ∈ ((node c h l r).child s).cells, turn less key d.key = some s := by
      intro d member
      refine outside d ?_
      cases s <;> simp only [cells, List.mem_append, List.mem_cons]
      · exact .inl member
      · exact .inr (.inr member)
    have absent : ((node c h l r).child s).find? less key = none := by
      apply find?_eq_none_of_apart
      intro d member
      simp [outsideNear d member]
    rw [node_eq_branch s] at combed avl
    obtain ⟨full, low, combedNear⟩ := combed_branch_iff.1 combed
    obtain ⟨-, high, -, avlNear, -⟩ := avl_branch_iff.1 avl
    obtain ⟨avlNew, grown, most⟩ := insert_avl less label key value avlNear
    rw [insert_of_turn _ _ _ _ _ turned]
    exact combed_rebalance full low high avlNear (ih s combedNear avlNear outsideNear) avlNew grown
      most (size_insert_of_absent less key absent label value)

theorem combed_plant {less : α → α → Bool} {cs : List (Cell σ α β)} (combed : t.Combed s)
    (avl : t.Avl) (turns : Turns (· = some s) less t cs) : (plant less t cs).Combed s := by
  induction cs generalizing t with
  | nil => exact combed
  | cons c cs ih =>
    apply ih
    · exact combed_insert combed avl (turns.stored c List.mem_cons_self) c.label c.value
    · exact (insert_avl less c.label c.key c.value avl).1
    · exact turns.tail (by simp)

end Combed

end BoundedMap.Tree
