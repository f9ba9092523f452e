import BoundedMap.Tree.Balance
/-!
# Labels play no part

No operation on trees looks at a label. Each of them commutes with any relabelling,
so a map's tree changes in the same way wherever its cells happen to lie.
-/

namespace BoundedMap

variable {σ τ α β : Type}

/-- The same cell under another label. -/
def Cell.relabel (f : σ → τ) (c : Cell σ α β) : Cell τ α β :=
  ⟨f c.label, c.key, c.value⟩

@[simp] theorem Cell.key_relabel (f : σ → τ) (c : Cell σ α β) : (c.relabel f).key = c.key :=
  rfl

@[simp] theorem Cell.value_relabel (f : σ → τ) (c : Cell σ α β) :
    (c.relabel f).value = c.value :=
  rfl

@[simp] theorem Cell.entry_relabel (f : σ → τ) (c : Cell σ α β) :
    (c.relabel f).entry = c.entry :=
  rfl

namespace Tree

variable (f : σ → τ)

@[simp] theorem relabel_nil : (nil : Tree σ α β).relabel f = nil :=
  rfl

@[simp] theorem relabel_node (c : Cell σ α β) (h : Nat) (l r : Tree σ α β) :
    (node c h l r).relabel f = node (c.relabel f) h (l.relabel f) (r.relabel f) :=
  rfl

@[simp] theorem child_relabel (s : Side) (t : Tree σ α β) :
    (t.relabel f).child s = (t.child s).relabel f := by
  cases t with
  | nil => rfl
  | node c h l r => cases s <;> rfl

@[simp] theorem size_relabel (t : Tree σ α β) : (t.relabel f).size = t.size := by
  rw [← length_entries, entries_relabel, length_entries]

/-! ## Rebalancing -/

theorem fork_relabel (s : Side) (c : Cell σ α β) (near far : Tree σ α β) :
    fork s (c.relabel f) (near.relabel f) (far.relabel f) = (fork s c near far).relabel f := by
  cases s <;> simp [fork, join]

theorem lift_relabel (s : Side) (t : Tree σ α β) :
    lift s (t.relabel f) = (lift s t).relabel f := by
  cases t with
  | nil => rfl
  | node c h l r =>
    have below := child_relabel f s (node c h l r)
    have beyond := child_relabel f s.other (node c h l r)
    rw [relabel_node] at below beyond ⊢
    rw [lift, lift, below, beyond]
    cases (node c h l r).child s with
    | nil => rfl
    | node d g dl dr =>
      have outer := child_relabel f s (node d g dl dr)
      have inner := child_relabel f s.other (node d g dl dr)
      rw [relabel_node] at outer inner ⊢
      simp only [outer, inner, fork_relabel]

theorem excess_relabel (s : Side) (t : Tree σ α β) : excess s (t.relabel f) = excess s t := by
  simp [excess]

theorem withChild_relabel (s : Side) (t u : Tree σ α β) :
    (t.relabel f).withChild s (u.relabel f) = (t.withChild s u).relabel f := by
  cases t with
  | nil => rfl
  | node c h l r => cases s <;> rfl

theorem settle_relabel (s : Side) (t : Tree σ α β) :
    settle s (t.relabel f) = (settle s t).relabel f := by
  rw [settle, settle, child_relabel, excess_relabel]
  split
  · rw [lift_relabel, withChild_relabel, lift_relabel]
  · rw [lift_relabel]

theorem balance_relabel (c : Cell σ α β) (l r : Tree σ α β) :
    balance (c.relabel f) (l.relabel f) (r.relabel f) = (balance c l r).relabel f := by
  have joined : join (c.relabel f) (l.relabel f) (r.relabel f) = (join c l r).relabel f :=
    fork_relabel f .left c l r
  rw [balance, balance, joined, excess_relabel, excess_relabel]
  split
  · exact settle_relabel f .left _
  · split
    · exact settle_relabel f .right _
    · rfl

/-! ## Descents -/

variable (less : α → α → Bool) (probe : α)

theorem find?_relabel (t : Tree σ α β) :
    (t.relabel f).find? less probe = (t.find? less probe).map (Cell.relabel f) := by
  induction t with
  | nil => rfl
  | node c h l r ihl ihr =>
    rw [relabel_node, find?, find?, Cell.key_relabel]
    cases turned : turn less probe c.key with
    | none => rfl
    | some s =>
      cases s with
      | left => exact ihl
      | right => exact ihr

/-- Inserting under the new label for the new cell. -/
theorem insert_relabel (label : σ) (value : β) (t : Tree σ α β) :
    (t.relabel f).insert less (f label) probe value =
      ((t.insert less label probe value).1.relabel f, (t.insert less label probe value).2) := by
  induction t with
  | nil => rfl
  | node c h l r ihl ihr =>
    rw [relabel_node, insert, insert, Cell.key_relabel]
    cases turned : turn less probe c.key with
    | none => rfl
    | some s =>
      cases s with
      | left => simp only [ihl, balance_relabel]
      | right => simp only [ihr, balance_relabel]

theorem removeMin_relabel (c : Cell σ α β) (l r : Tree σ α β) :
    removeMin (c.relabel f) (l.relabel f) (r.relabel f) =
      ((removeMin c l r).1.relabel f, (removeMin c l r).2.relabel f) := by
  induction l generalizing c r with
  | nil => rfl
  | node d g dl dr ihl _ =>
    rw [relabel_node, removeMin, removeMin, ihl]
    simp only [balance_relabel]

theorem merge_relabel (l r : Tree σ α β) :
    merge (l.relabel f) (r.relabel f) = (merge l r).relabel f := by
  cases r with
  | nil => rfl
  | node c h rl rr =>
    rw [relabel_node, merge, merge, removeMin_relabel]
    simp only [balance_relabel]

theorem remove_relabel (t : Tree σ α β) :
    (t.relabel f).remove less probe = ((t.remove less probe).1.relabel f,
      (t.remove less probe).2.map (Cell.relabel f)) := by
  induction t with
  | nil => rfl
  | node c h l r ihl ihr =>
    rw [relabel_node, remove, remove, Cell.key_relabel]
    cases turned : turn less probe c.key with
    | none => simp only [merge_relabel, Option.map_some]
    | some s =>
      cases s with
      | left => simp only [ihl, balance_relabel]
      | right => simp only [ihr, balance_relabel]

end Tree

end BoundedMap
