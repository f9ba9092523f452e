import BoundedMap.Tree.Balance
/-!
# Trees seen from one side

`branch s` builds a node from its near subtree, on side `s`, and its far one,
so that whatever holds on the left and on the right is stated once.

Main statements: `settle_single` and `settle_double`, what the two shapes of a
rotation build; `insert_of_turn` and `remove_of_turn`, one step of a descent.
-/

namespace BoundedMap.Tree

variable {σ α β : Type}

/-- A node with its near subtree on side `s`. -/
def branch (s : Side) (c : Cell σ α β) (h : Nat) (near far : Tree σ α β) : Tree σ α β :=
  match s with
  | .left => node c h near far
  | .right => node c h far near

/-- `balance` with the subtrees given as the near one, on side `s`, and the far one. -/
def rebalance (s : Side) (c : Cell σ α β) (near far : Tree σ α β) : Tree σ α β :=
  match s with
  | .left => balance c near far
  | .right => balance c far near

/-- Induction over a tree that has the hypothesis for the subtree on any side. -/
theorem bySides {motive : Tree σ α β → Prop} (nil : motive .nil)
    (node : ∀ c h l r, (∀ s, motive ((Tree.node c h l r).child s)) → motive (.node c h l r))
    (t : Tree σ α β) : motive t := by
  induction t with
  | nil => exact nil
  | node c h l r ihl ihr =>
    refine node c h l r fun s => ?_
    cases s with
    | left => exact ihl
    | right => exact ihr

/-! ## Near and far -/

@[simp] theorem height_nil : (nil : Tree σ α β).height = 0 :=
  rfl

@[simp] theorem height_node (c : Cell σ α β) (h : Nat) (l r : Tree σ α β) :
    (node c h l r).height = h :=
  rfl

@[simp] theorem child_branch_near (s : Side) (c : Cell σ α β) (h : Nat)
    (near far : Tree σ α β) : (branch s c h near far).child s = near := by
  cases s <;> rfl

@[simp] theorem child_branch_far (s : Side) (c : Cell σ α β) (h : Nat)
    (near far : Tree σ α β) : (branch s c h near far).child s.other = far := by
  cases s <;> rfl

@[simp] theorem height_branch (s : Side) (c : Cell σ α β) (h : Nat) (near far : Tree σ α β) :
    (branch s c h near far).height = h := by
  cases s <;> rfl

@[simp] theorem size_branch (s : Side) (c : Cell σ α β) (h : Nat) (near far : Tree σ α β) :
    (branch s c h near far).size = near.size + 1 + far.size := by
  cases s <;> simp [branch, size]
  omega

theorem branch_other (s : Side) (c : Cell σ α β) (h : Nat) (near far : Tree σ α β) :
    branch s.other c h near far = branch s c h far near := by
  cases s <;> rfl

@[simp] theorem withChild_branch (s : Side) (c : Cell σ α β) (h : Nat)
    (near far t : Tree σ α β) : (branch s c h near far).withChild s t = branch s c h t far := by
  cases s <;> rfl

theorem node_eq_branch (s : Side) (c : Cell σ α β) (h : Nat) (l r : Tree σ α β) :
    node c h l r = branch s c h ((node c h l r).child s) ((node c h l r).child s.other) := by
  cases s <;> rfl

/-- Whatever has a height is a node. -/
theorem exists_branch_of_height_pos {t : Tree σ α β} (s : Side) (pos : 0 < t.height) :
    ∃ c h near far, t = branch s c h near far := by
  cases t with
  | nil => exact absurd pos (Nat.lt_irrefl 0)
  | node c h l r => exact ⟨c, h, _, _, node_eq_branch s c h l r⟩

theorem fork_eq_branch (s : Side) (c : Cell σ α β) (near far : Tree σ α β) :
    fork s c near far = branch s c (1 + max near.height far.height) near far := by
  cases s with
  | left => rfl
  | right => simp [fork, join, branch, Nat.max_comm]

@[simp] theorem height_fork (s : Side) (c : Cell σ α β) (near far : Tree σ α β) :
    (fork s c near far).height = 1 + max near.height far.height := by
  rw [fork_eq_branch, height_branch]

@[simp] theorem fork_other (s : Side) (c : Cell σ α β) (near far : Tree σ α β) :
    fork s.other c near far = fork s c far near := by
  cases s <;> rfl

/-! ## Labels -/

theorem labels_node (c : Cell σ α β) (h : Nat) (l r : Tree σ α β) :
    (node c h l r).labels = l.labels ++ c.label :: r.labels := by
  simp [labels, cells]

@[simp] theorem mem_labels_branch {s : Side} {c : Cell σ α β} {h : Nat}
    {near far : Tree σ α β} {x : σ} :
    x ∈ (branch s c h near far).labels ↔ x = c.label ∨ x ∈ near.labels ∨ x ∈ far.labels := by
  cases s <;> simp only [branch, labels_node, List.mem_append, List.mem_cons]
  · exact or_left_comm
  · rw [or_left_comm, or_comm (a := x ∈ far.labels)]

@[simp] theorem mem_labels_fork {s : Side} {c : Cell σ α β} {near far : Tree σ α β} {x : σ} :
    x ∈ (fork s c near far).labels ↔ x = c.label ∨ x ∈ near.labels ∨ x ∈ far.labels := by
  rw [fork_eq_branch, mem_labels_branch]

theorem labels_branch_subset (s : Side) (c : Cell σ α β) (h : Nat) (near far : Tree σ α β) :
    (branch s c h near far).labels ⊆ c.label :: (near.labels ++ far.labels) := by
  intro x member
  rw [mem_labels_branch] at member
  rwa [List.mem_cons, List.mem_append]

/-- No label occurs twice at a node if neither subtree repeats one, shares one
with the other, or holds that of the node. -/
theorem nodup_labels_branch {s : Side} {c : Cell σ α β} {h : Nat} {near far : Tree σ α β} :
    (branch s c h near far).labels.Nodup ↔
      near.labels.Nodup ∧ far.labels.Nodup ∧ c.label ∉ near.labels ∧ c.label ∉ far.labels ∧
        ∀ x ∈ near.labels, x ∉ far.labels := by
  cases s with
  | left =>
    simp only [branch, labels_node, List.nodup_append, List.nodup_cons, List.mem_cons]
    constructor
    · rintro ⟨distinctNear, ⟨notFar, distinctFar⟩, apart⟩
      exact ⟨distinctNear, distinctFar, fun member => apart _ member _ (.inl rfl) rfl, notFar,
        fun x inNear inFar => apart x inNear x (.inr inFar) rfl⟩
    · rintro ⟨distinctNear, distinctFar, notNear, notFar, apart⟩
      refine ⟨distinctNear, ⟨notFar, distinctFar⟩, fun a ha b hb same => ?_⟩
      rcases hb with rfl | hb
      · exact notNear (same ▸ ha)
      · exact apart a ha (same ▸ hb)
  | right =>
    simp only [branch, labels_node, List.nodup_append, List.nodup_cons, List.mem_cons]
    constructor
    · rintro ⟨distinctFar, ⟨notNear, distinctNear⟩, apart⟩
      exact ⟨distinctNear, distinctFar, notNear, fun member => apart _ member _ (.inl rfl) rfl,
        fun x inNear inFar => apart x inFar x (.inr inNear) rfl⟩
    · rintro ⟨distinctNear, distinctFar, notNear, notFar, apart⟩
      refine ⟨distinctFar, ⟨notNear, distinctNear⟩, fun a ha b hb same => ?_⟩
      rcases hb with rfl | hb
      · exact notFar (same ▸ ha)
      · exact apart b hb (same ▸ ha)

/-- A rotation keeps the labels in their order. -/
theorem labels_rotated (s : Side) (c d e : Cell σ α β) (h i g k : Nat)
    (near a b far : Tree σ α β) :
    (branch s c h (fork s e (fork s d near a) b) far).labels =
      (branch s c i (branch s d g near (branch s e k a b)) far).labels := by
  cases s <;> simp [branch, fork, join, labels_node]

/-! ## Rotations -/

theorem lift_branch (s : Side) (c d : Cell σ α β) (h g : Nat) (near inner far : Tree σ α β) :
    lift s (branch s c h (branch s d g near inner) far) =
      fork s d near (fork s c inner far) := by
  cases s <;> rfl

theorem excess_branch (s : Side) (c : Cell σ α β) (h : Nat) (near far : Tree σ α β) :
    excess s (branch s c h near far) = near.height - far.height := by
  simp [excess]

/-- A child that does not lean inwards is raised at once. -/
theorem settle_single (s : Side) (c d : Cell σ α β) (h g : Nat) (near inner far : Tree σ α β)
    (outwards : inner.height ≤ near.height) :
    settle s (branch s c h (branch s d g near inner) far) =
      fork s d near (fork s c inner far) := by
  have stays : ¬ excess s (branch s d g near inner) < 0 := by
    rw [excess_branch]
    omega
  rw [settle, child_branch_near, if_neg stays, lift_branch]

/-- A child that leans inwards gives way to its own inner child first. -/
theorem settle_double (s : Side) (c d e : Cell σ α β) (h g k : Nat)
    (near a b far : Tree σ α β) (inwards : near.height < k) :
    settle s (branch s c h (branch s d g near (branch s e k a b)) far) =
      fork s e (fork s d near a) (fork s c b far) := by
  have leans : excess s (branch s d g near (branch s e k a b)) < 0 := by
    rw [excess_branch, height_branch]
    omega
  have raised : lift s.other (branch s d g near (branch s e k a b)) =
      branch s e (1 + max (fork s d near a).height b.height) (fork s d near a) b := by
    rw [← branch_other s d, ← branch_other s e, lift_branch, fork_other, fork_other,
      fork_eq_branch]
  rw [settle, child_branch_near, if_pos leans, raised, withChild_branch, lift_branch]

theorem settle_fork_single (s : Side) (c d : Cell σ α β) {outer inner far : Tree σ α β}
    (outwards : inner.height ≤ outer.height) :
    settle s (fork s c (fork s d outer inner) far) = fork s d outer (fork s c inner far) := by
  rw [fork_eq_branch s c, fork_eq_branch s d outer]
  exact settle_single s c d _ _ outer inner far outwards

theorem settle_fork_double (s : Side) (c d e : Cell σ α β) {k : Nat}
    {outer a b far : Tree σ α β} (inwards : outer.height < k) :
    settle s (fork s c (fork s d outer (branch s e k a b)) far) =
      fork s e (fork s d outer a) (fork s c b far) := by
  rw [fork_eq_branch s c (fork s d outer _), fork_eq_branch s d outer (branch s e k a b)]
  exact settle_double s c d e _ _ k outer a b far inwards

theorem rebalance_eq (s : Side) (c : Cell σ α β) (near far : Tree σ α β) :
    rebalance s c near far =
      if near.height > far.height + 1 then settle s (fork s c near far)
      else if far.height > near.height + 1 then settle s.other (fork s c near far)
      else fork s c near far := by
  have nearHigh : (near.height : Int) - far.height > 1 ↔ near.height > far.height + 1 := by omega
  have farHigh : (far.height : Int) - near.height > 1 ↔ far.height > near.height + 1 := by omega
  cases s with
  | left => simp only [rebalance, balance, excess, fork, join, child, Side.other, nearHigh, farHigh]
  | right =>
    simp only [rebalance, balance, excess, fork, join, child, Side.other, nearHigh, farHigh]
    by_cases tooNear : near.height > far.height + 1
    · rw [if_neg (by omega), if_pos tooNear, if_pos tooNear]
    · rw [if_neg tooNear, if_neg tooNear]

/-- Rebalancing keeps the cells in their order. -/
theorem cells_rebalance (s : Side) (c : Cell σ α β) (h : Nat) (near far : Tree σ α β) :
    (rebalance s c near far).cells = (branch s c h near far).cells := by
  cases s <;> simp [rebalance, branch, cells]

theorem labels_rebalance (s : Side) (c : Cell σ α β) (h : Nat) (near far : Tree σ α β) :
    (rebalance s c near far).labels = (branch s c h near far).labels := by
  rw [labels, labels, cells_rebalance s c h]

/-! ## One step of a descent -/

section Descent

variable {less : α → α → Bool} {probe : α} {c : Cell σ α β} {s : Side}

theorem find?_of_turn (h : Nat) (l r : Tree σ α β) (turned : turn less probe c.key = some s) :
    (node c h l r).find? less probe = ((node c h l r).child s).find? less probe := by
  rw [find?, turned]
  cases s <;> rfl

theorem find?_of_match (h : Nat) (l r : Tree σ α β) (here : turn less probe c.key = none) :
    (node c h l r).find? less probe = some c := by
  rw [find?, here]

/-- An insertion that goes on to side `s` rebuilds the node around the new subtree. -/
theorem insert_of_turn (label : σ) (value : β) (h : Nat) (l r : Tree σ α β)
    (turned : turn less probe c.key = some s) :
    (node c h l r).insert less label probe value =
      (rebalance s c (((node c h l r).child s).insert less label probe value).1
        ((node c h l r).child s.other),
       (((node c h l r).child s).insert less label probe value).2) := by
  rw [insert, turned]
  cases s <;> rfl

theorem insert_of_match (label : σ) (value : β) (h : Nat) (l r : Tree σ α β)
    (here : turn less probe c.key = none) :
    (node c h l r).insert less label probe value =
      (node { c with value } h l r, some c.value) := by
  rw [insert, here]

/-- A removal that goes on to side `s` rebuilds the node around what remains. -/
theorem remove_of_turn (h : Nat) (l r : Tree σ α β)
    (turned : turn less probe c.key = some s) :
    (node c h l r).remove less probe =
      (rebalance s c (((node c h l r).child s).remove less probe).1
        ((node c h l r).child s.other),
       (((node c h l r).child s).remove less probe).2) := by
  rw [remove, turned]
  cases s <;> rfl

theorem remove_of_match (h : Nat) (l r : Tree σ α β) (here : turn less probe c.key = none) :
    (node c h l r).remove less probe = (merge l r, some c) := by
  rw [remove, here]

end Descent

end BoundedMap.Tree
