import BoundedMap.Proofs.Cursor.Walk
/-!
# The room on the stacks of a walk

A stack can only overflow at a push, so its bound is stated push by push. `Pushed` tells
what a stack holds after any of the pushes along a spine, and `pushSpine` reports a full
stack exactly when one of them goes beyond the room (`pushSpine_eq_stackFull_iff`).

`StacksWithin c h` says that neither stack holds more than `h` handles, now or after any
push that the next entry at its end asks for. A walk keeps within the room that its
`Walks` names, which is the height of the tree.
-/

namespace BoundedMap

namespace Cursor

open Subtree (Spells)

variable {α β : Type} {p : Pool α β} {s : Side} {room h : Nat} {t : Option Handle}
  {a : Tree Handle α β} {stack full : List Handle} {items : List (α × β)} {c : Cursor α β}

/-- One of the pushes along the spine at a link turns `stack` into `full`. -/
inductive Pushed (p : Pool α β) (s : Side) : Option Handle → List Handle → List Handle → Prop
  | first {x : Handle} {stack : List Handle} : Pushed p s (some x) stack (x :: stack)
  | later {x : Handle} {n : Node α β} {stack full : List Handle} :
    p.read x = .ok n → Pushed p s (n.child s) (x :: stack) full → Pushed p s (some x) stack full

/-- Every push along the spine of a tree leaves room for what the tree has left below. -/
theorem Pushed.length_le (pushed : Pushed p s t stack full) (spells : Spells p t a) :
    full.length ≤ stack.length + a.depth := by
  induction a using Tree.bySides generalizing t stack with
  | nil =>
    obtain rfl := Subtree.spells_nil_iff.1 spells
    cases pushed
  | node c h l r ih =>
    obtain ⟨rfl, n, found, -, -, -, spellsNear, -⟩ := (Subtree.spells_node_iff s).1 spells
    have lower := Tree.depth_child_lt c h l r s
    cases pushed with
    | first =>
      rw [List.length_cons]
      omega
    | later found' further =>
      obtain rfl := Except.ok.inj (found.symm.trans found')
      have deeper := ih s further spellsNear
      rw [List.length_cons] at deeper
      omega

/-- A stack is reported full exactly when some push goes beyond its room. -/
theorem pushSpine_eq_stackFull_iff : pushSpine p s room t stack = .error .stackFull ↔
    ∃ full, Pushed p s t stack full ∧ stack.length + room < full.length := by
  induction room generalizing t stack with
  | zero =>
    cases t with
    | none =>
      simp only [pushSpine, reduceCtorEq, false_iff]
      rintro ⟨_, ⟨⟩, _⟩
    | some x =>
      simp only [pushSpine, true_iff]
      exact ⟨x :: stack, .first, by simp⟩
  | succ room ih =>
    cases t with
    | none =>
      simp only [pushSpine, reduceCtorEq, false_iff]
      rintro ⟨_, ⟨⟩, _⟩
    | some x =>
      have once : ¬ stack.length + (room + 1) < (x :: stack).length := by simp
      cases found : p.read x with
      | error what =>
        simp only [pushSpine, found]
        constructor
        · rintro ⟨⟩
          rcases Pool.fault_of_read found with ⟨⟨⟩⟩ | ⟨⟨⟩⟩
        · rintro ⟨_, _ | ⟨found', -⟩, past⟩
          · exact absurd past once
          · cases found.symm.trans found'
      | ok n =>
        simp only [pushSpine, found, ih]
        have order : (x :: stack).length + room = stack.length + (room + 1) := by
          rw [List.length_cons]
          omega
        rw [order]
        constructor
        · rintro ⟨full, further, past⟩
          exact ⟨full, .later found further, past⟩
        · rintro ⟨full, _ | ⟨found', further⟩, past⟩
          · exact absurd past once
          · obtain rfl := Except.ok.inj (found.symm.trans found')
            exact ⟨full, further, past⟩

/-- Neither stack holds more than `h` handles, nor will it after any push for the next
entry at its end. -/
structure StacksWithin (c : Cursor α β) (h : Nat) : Prop where
  pending : ∀ s, (c.pending s).length ≤ h
  /-- The next node is popped, and the spine on its far side pushed onto the rest. -/
  next : ∀ s x rest n full, c.pending s = x :: rest → c.pool.read x = .ok n →
    Pushed c.pool s (n.child s.other) rest full → full.length ≤ h

theorem Walks.pending (walks : c.Walks room items) (s : Side) :
    ∃ all, Pending c.pool s room (c.pending s) all := by
  cases s with
  | left =>
    obtain ⟨beyond, pending⟩ := walks.front
    exact ⟨_, pending⟩
  | right =>
    obtain ⟨beyond, pending⟩ := walks.back
    exact ⟨_, pending⟩

/-- A walk keeps within its room. -/
theorem Walks.stacksWithin (walks : c.Walks room items) : c.StacksWithin room where
  pending s := by
    obtain ⟨all, pending⟩ := walks.pending s
    exact pending.length_le
  next s x rest n full order found pushed := by
    obtain ⟨all, pending⟩ := walks.pending s
    rw [order] at pending
    -- the far tree of the popped node is what the bound on its place left room for
    cases pending with
    | cons found' spellsFar fits _ =>
      obtain rfl := Except.ok.inj (found.symm.trans found')
      have bound := pushed.length_le spellsFar
      omega

/-- Within the room that a stack has, the next entry at an end never finds it full. -/
theorem StacksWithin.pull_ne_stackFull (within : c.StacksWithin h) (small : h ≤ maxDepth)
    (s : Side) : c.pull s ≠ .error .stackFull := by
  intro overflows
  rw [pull] at overflows
  split at overflows
  · cases overflows
  · split at overflows
    · cases overflows
    · rename_i x rest order
      split at overflows
      · rename_i what failed
        rw [Except.error.inj overflows] at failed
        rcases Pool.fault_of_read failed with ⟨⟨⟩⟩ | ⟨⟨⟩⟩
      · rename_i n found
        split at overflows
        · rename_i what failed
          rw [Except.error.inj overflows, push, pushSpine_eq_stackFull_iff] at failed
          obtain ⟨full, pushed, past⟩ := failed
          have bound := within.next s x rest n full order found pushed
          omega
        · cases overflows

end Cursor

end BoundedMap
