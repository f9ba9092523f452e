import BoundedMap.Proofs.Order.Classes
import BoundedMap.Proofs.Tree.Edits
/-!
# Reflected trees

Left and right play the same part in rebalancing: what it does on one side of a tree it does on
the other side of its reflection (`rebalance_reflect`). A descent under the reverse of an order
takes the opposite side at every node, so insertions keep a tree and its reflection together
(`insert_reflect`). This takes an order in which no two keys are below each other, because a
descent asks for one side first.

Removals do not: the cell that moves up is the successor of the one removed, whatever the order.
-/

namespace BoundedMap

variable {σ α β : Type} {less : α → α → Bool}

/-- Under the reverse of an order a descent takes the opposite side. -/
theorem turn_flip (order : StrictWeak less) (probe key : α) :
    turn (fun a b => less b a) probe key = (turn less probe key).map Side.other := by
  cases turned : turn less probe key with
  | none =>
    obtain ⟨notBelow, notAbove⟩ := turn_eq_none_iff.1 turned
    exact turn_eq_none_iff.2 ⟨notAbove, notBelow⟩
  | some s =>
    cases s with
    | left =>
      have below := turn_eq_left_iff.1 turned
      exact turn_eq_right_iff.2 ⟨order.asymm below, below⟩
    | right => exact turn_eq_left_iff.2 (turn_eq_right_iff.1 turned).2

namespace Tree

/-! ## Rebalancing -/

@[simp] theorem child_reflect (s : Side) (t : Tree σ α β) :
    t.reflect.child s = (t.child s.other).reflect := by
  cases t with
  | nil => rfl
  | node c h l r => cases s <;> rfl

theorem branch_reflect (s : Side) (c : Cell σ α β) (h : Nat) (near far : Tree σ α β) :
    (branch s c h near far).reflect = branch s.other c h near.reflect far.reflect := by
  cases s <;> rfl

theorem fork_reflect (s : Side) (c : Cell σ α β) (near far : Tree σ α β) :
    (fork s c near far).reflect = fork s.other c near.reflect far.reflect := by
  rw [fork_eq_branch, fork_eq_branch, branch_reflect, height_reflect, height_reflect]

theorem withChild_reflect (s : Side) (t u : Tree σ α β) :
    (t.withChild s u).reflect = t.reflect.withChild s.other u.reflect := by
  cases t with
  | nil => rfl
  | node c h l r => cases s <;> rfl

theorem excess_reflect (s : Side) (t : Tree σ α β) :
    excess s t.reflect = excess s.other t := by
  simp [excess]

theorem lift_reflect (s : Side) (t : Tree σ α β) :
    (lift s t).reflect = lift s.other t.reflect := by
  cases t with
  | nil => rfl
  | node c h l r =>
    rw [node_eq_branch s c h l r]
    cases (node c h l r).child s with
    | nil => cases s <;> rfl
    | node d g dl dr =>
      rw [node_eq_branch s d g dl dr, lift_branch, fork_reflect, fork_reflect, branch_reflect,
        branch_reflect, lift_branch]

theorem settle_reflect (s : Side) (t : Tree σ α β) :
    (settle s t).reflect = settle s.other t.reflect := by
  rw [settle, settle, child_reflect, excess_reflect, Side.other_other]
  split
  · rw [lift_reflect, withChild_reflect, lift_reflect, Side.other_other]
  · rw [lift_reflect]

/-- Rebalancing a reflected node reflects the rebalanced one. -/
theorem rebalance_reflect (s : Side) (c : Cell σ α β) (near far : Tree σ α β) :
    (rebalance s c near far).reflect = rebalance s.other c near.reflect far.reflect := by
  rw [rebalance_eq, rebalance_eq, height_reflect, height_reflect]
  split
  · rw [settle_reflect, fork_reflect]
  · split
    · rw [settle_reflect, fork_reflect]
    · rw [fork_reflect]

/-! ## Descents -/

section Descents

variable (order : StrictWeak less) (probe : α)

include order

theorem find?_reflect (t : Tree σ α β) :
    t.reflect.find? (fun a b => less b a) probe = t.find? less probe := by
  induction t using bySides with
  | nil => rfl
  | node c h l r ih =>
    have turned' := turn_flip order probe c.key
    cases turned : turn less probe c.key with
    | none =>
      rw [turned] at turned'
      rw [find?_of_match _ _ _ turned]
      exact find?_of_match h r.reflect l.reflect turned'
    | some s =>
      rw [turned] at turned'
      rw [find?_of_turn _ _ _ turned, ← ih s, reflect, find?_of_turn _ _ _ turned', ← reflect,
        child_reflect, Side.other_other]

/-- Inserting into a reflected tree reflects the insertion. -/
theorem insert_reflect (label : σ) (value : β) (t : Tree σ α β) :
    t.reflect.insert (fun a b => less b a) label probe value =
      ((t.insert less label probe value).1.reflect, (t.insert less label probe value).2) := by
  induction t using bySides with
  | nil => rfl
  | node c h l r ih =>
    have turned' := turn_flip order probe c.key
    cases turned : turn less probe c.key with
    | none =>
      rw [turned] at turned'
      rw [insert_of_match _ _ _ _ _ turned]
      exact insert_of_match label value h r.reflect l.reflect turned'
    | some s =>
      rw [turned] at turned'
      rw [insert_of_turn _ _ _ _ _ turned, reflect, insert_of_turn _ _ _ _ _ turned', ← reflect,
        child_reflect, child_reflect, Side.other_other, ih s, rebalance_reflect]

end Descents

end Tree

end BoundedMap
