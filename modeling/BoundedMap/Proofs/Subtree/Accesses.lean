import BoundedMap.Proofs.Pool.Accesses
import BoundedMap.Subtree.Update
/-!
# What the steps on a tree ask of the pool

Rotations and rebalancing only read and write nodes that are live. An insertion gives no slot
back, and a removal takes none, on any pool and whatever the links in it are. The proofs
follow the text of the steps.
-/

namespace BoundedMap.Subtree

open Pool (Request Uses uses_acquire uses_link uses_node uses_release uses_setChild
  uses_setHeight uses_setValue)

variable {α β : Type}

/-! ## Rotations -/

/-- A step that takes no slot and gives none back. -/
abbrev Rearranges {γ : Type} (step : PoolM α β γ) : Prop :=
  Uses (α := α) (β := β) id (·.keeps = true) step

theorem height_rearranges (t : Option Handle) : Rearranges (height (α := α) (β := β) t) := by
  cases t with
  | none => exact .pure 0
  | some h => exact .bind (uses_node h) fun n => .pure n.height

theorem reheight_rearranges (x : Handle) : Rearranges (reheight (α := α) (β := β) x) :=
  .bind (uses_node x) fun n =>
    .bind (height_rearranges n.left) fun _ =>
      .bind (height_rearranges n.right) fun _ =>
        .bind (.lift _) fun _ => uses_setHeight rfl

theorem excess_rearranges (s : Side) (x : Handle) :
    Rearranges (excess (α := α) (β := β) s x) :=
  .bind (uses_node x) fun n =>
    .bind (height_rearranges (n.child s)) fun _ =>
      .bind (height_rearranges (n.child s.other)) fun _ => .pure _

theorem lift_rearranges (s : Side) (x : Handle) : Rearranges (lift (α := α) (β := β) s x) := by
  refine .bind (uses_node x) fun n => ?_
  cases n.child s with
  | none => exact .throw _
  | some y =>
    exact .bind (uses_node y) fun m =>
      .bind (uses_setChild fun _ _ => rfl) fun _ =>
        .bind (uses_setChild fun _ _ => rfl) fun _ =>
          .bind (reheight_rearranges x) fun _ =>
            .bind (reheight_rearranges y) fun _ => .pure y

theorem settle_rearranges (s : Side) (x : Handle) :
    Rearranges (settle (α := α) (β := β) s x) := by
  refine .bind (uses_node x) fun n => ?_
  cases n.child s with
  | none => exact lift_rearranges s x
  | some y =>
    refine .bind (excess_rearranges s y) fun lean => ?_
    dsimp only
    split
    · exact .bind (lift_rearranges s.other y) fun _ =>
        .bind (uses_setChild fun _ _ => rfl) fun _ => lift_rearranges s x
    · exact lift_rearranges s x

theorem balance_rearranges (x : Handle) : Rearranges (balance (α := α) (β := β) x) := by
  refine .bind (reheight_rearranges x) fun _ => .bind (excess_rearranges .left x) fun lean => ?_
  split
  · exact settle_rearranges .left x
  · split
    · exact settle_rearranges .right x
    · exact .pure x

/-! ## Updates -/

theorem removeMin_rearranges (limit : Nat) (x : Handle) :
    Rearranges (removeMin (α := α) (β := β) limit x) := by
  induction limit generalizing x with
  | zero => exact .throw _
  | succ limit ih =>
    refine .bind (uses_node x) fun n => ?_
    cases n.left with
    | none => exact .pure _
    | some l =>
      exact .bind (ih l) fun _ =>
        .bind (uses_setChild fun _ _ => rfl) fun _ =>
          .bind (balance_rearranges x) fun _ => .pure _

theorem merge_rearranges (limit : Nat) (l r : Option Handle) :
    Rearranges (merge (α := α) (β := β) limit l r) := by
  cases r with
  | none => exact .pure l
  | some r =>
    exact .bind (removeMin_rearranges limit r) fun found =>
      .bind (uses_link rfl) fun _ =>
        .bind (balance_rearranges found.2) fun _ => .pure _

/-- An insertion gives no slot back. -/
theorem insert_uses (less : α → α → Bool) (key : α) (value : β) (limit : Nat)
    (t : Option Handle) : Uses id (·.gives = false) (insert less key value limit t) := by
  have at_end : ∀ limit, Uses id (·.gives = false) (insert less key value limit none) := by
    intro limit
    rw [insert, insertWith.eq_def]
    refine .bind (uses_acquire rfl) fun got => ?_
    cases got with
    | none => exact .bind .get fun _ => .throw _
    | some x => exact .pure (x, none)
  induction limit generalizing t with
  | zero =>
    cases t with
    | none => exact at_end 0
    | some x => exact .throw _
  | succ limit ih =>
    cases t with
    | none => exact at_end (limit + 1)
    | some x =>
      refine .bind (uses_node x) fun n => ?_
      cases turn less key n.key with
      | none => exact .bind (uses_setValue rfl) fun _ => .pure _
      | some s =>
        exact .bind (ih (n.child s)) fun _ =>
          .bind (uses_setChild fun _ _ => rfl) fun _ =>
            .bind ((balance_rearranges x).mono fun _ => Request.gives_of_keeps) fun _ => .pure _

/-- A removal takes no slot. -/
theorem remove_uses (less : α → α → Bool) (probe : α) (limit : Nat) (t : Option Handle) :
    Uses (β := β) id (·.takes = false) (remove less probe limit t) := by
  induction limit generalizing t with
  | zero =>
    cases t with
    | none => exact .pure _
    | some x => exact .throw _
  | succ limit ih =>
    cases t with
    | none => exact .pure _
    | some x =>
      refine .bind (uses_node x) fun n => ?_
      cases turn less probe n.key with
      | none =>
        exact .bind ((merge_rearranges limit n.left n.right).mono fun _ =>
            Request.takes_of_keeps) fun _ =>
          .bind (uses_release rfl) fun _ => .pure _
      | some s =>
        exact .bind (ih (n.child s)) fun _ =>
          .bind (uses_setChild fun _ _ => rfl) fun _ =>
            .bind ((balance_rearranges x).mono fun _ => Request.takes_of_keeps) fun _ => .pure _

/-- Giving back a whole tree takes no slot. -/
theorem releaseAll_uses (limit : Nat) (t : Option Handle) :
    Uses (α := α) (β := β) id (·.takes = false) (releaseAll limit t) := by
  induction limit generalizing t with
  | zero =>
    cases t with
    | none => exact .pure _
    | some x => exact .throw _
  | succ limit ih =>
    cases t with
    | none => exact .pure _
    | some x =>
      exact .bind (uses_node x) fun n =>
        .bind (ih n.left) fun _ =>
          .bind (ih n.right) fun _ => .bind (uses_release rfl) fun _ => .pure _

end BoundedMap.Subtree
