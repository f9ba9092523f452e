import BoundedMap.Proofs.Subtree.Descent
import BoundedMap.Proofs.Subtree.Relinking
import BoundedMap.Proofs.Tree.Edits
import BoundedMap.Subtree.Update
/-!
# Insertion into linked nodes

An insertion ends in one of three ways. It overwrites the value of a match
(`insert_run_of_find?`), builds a leaf in the slot that is acquired
(`insert_run_of_acquired`), or is refused before anything is written
(`insert_run_of_exhausted`). The first two leave the tree that `Tree.insert`
builds. `limit` may be anything from the depth of the tree on.
-/

namespace BoundedMap.Subtree

open Pool (AgreeOff Rewrites)

variable {α β : Type} {p q : Pool α β} {t : Option Handle} {less : α → α → Bool}
  {key : α} {value : β}

/-! ## One step of the recursion -/

section Steps

variable {limit : Nat} {x : Handle} {n : Node α β}

theorem insert_of_turn {s : Side} {c y : Handle} {old : Option β} {p₁ q₁ : Pool α β}
    (found : p.read x = .ok n) (turned : turn less key n.key = some s)
    (below : insert less key value limit (n.child s) p = .ok (c, old) q)
    (linked : Pool.setChild x s (some c) q = .ok () p₁) (balanced : balance x p₁ = .ok y q₁) :
    insert less key value (limit + 1) (some x) p = .ok (y, old) q₁ := by
  rw [insert, insertWith, bind_of_ok (Pool.node_of_read found), turned]
  show (insert less key value limit (n.child s) >>= _) p = _
  rw [bind_of_ok below]
  show (Pool.setChild x s (some c) >>= _) q = _
  rw [bind_of_ok linked, bind_of_ok balanced]
  rfl

theorem insert_error_of_turn {s : Side} {e : Failure} (found : p.read x = .ok n)
    (turned : turn less key n.key = some s)
    (below : insert less key value limit (n.child s) p = .error e q) :
    insert less key value (limit + 1) (some x) p = .error e q := by
  rw [insert, insertWith, bind_of_ok (Pool.node_of_read found), turned]
  show (insert less key value limit (n.child s) >>= _) p = _
  rw [bind_of_error below]

theorem insert_of_match (found : p.read x = .ok n) (here : turn less key n.key = none) :
    insert less key value (limit + 1) (some x) p =
      .ok (x, some n.value) (p.put x (.occupied { n with value })) := by
  have written : Pool.setValue x value p = .ok () (p.put x (.occupied { n with value })) :=
    Pool.update_of_read found _
  rw [insert, insertWith, bind_of_ok (Pool.node_of_read found), here]
  show (Pool.setValue x value >>= _) p = _
  rw [bind_of_ok written]
  rfl

theorem insert_of_acquired {y : Handle} (acquired : Pool.acquire key value p = .ok (some y) q) :
    insert less key value limit none p = .ok (y, none) q := by
  cases limit <;>
  · rw [insert, insertWith, bind_of_ok acquired]
    rfl

theorem insert_of_exhausted (exhausted : Pool.acquire key value p = .ok none p) :
    insert less key value limit none p = .error (.refused (.exhausted p.capacity)) p := by
  cases limit <;>
  · rw [insert, insertWith, bind_of_ok exhausted]
    rfl

end Steps

/-! ## The whole insertion -/

/-- Inserting a key that is bound writes its value and answers the old one. -/
theorem insert_run_of_find? {a : Tree Handle α β} {d : Cell Handle α β} (stands : Stands p t a)
    (found : a.find? less key = some d) (label : Handle) (value : β) :
    ∃ q y, (∀ limit, a.depth ≤ limit →
        insert less key value limit t p = .ok (y, some d.value) q) ∧
      Stands q (some y) (a.insert less label key value).1 ∧ Rewrites p q a.labels := by
  induction a using Tree.bySides generalizing t with
  | nil => cases found
  | node c h l r ih =>
    cases turned : turn less key c.key with
    | none =>
      rw [Tree.find?_of_match _ _ _ turned] at found
      obtain rfl : c = d := Option.some.inj found
      have branch := stands.sides .left
      obtain ⟨rfl, n, read, keyEq, valueEq, heightEq, standsLeft, standsRight⟩ := branch.node
      have written := put_spells (s := .left) (m := { n with value }) read standsLeft.spells
        standsRight.spells branch.head_not_near branch.head_not_far
      rw [Tree.insert_of_match _ _ _ _ _ turned]
      refine ⟨_, c.label, ?_, ⟨?_, ?_, ?_⟩,
        (Rewrites.put p c.label (.occupied { n with value })).mono (by simp [Tree.labels_node])⟩
      · intro limit room
        obtain ⟨limit, rfl, -⟩ := Tree.limit_below room
        rw [insert_of_match read (keyEq ▸ turned), valueEq]
      · have same : Tree.branch .left ⟨c.label, n.key, value⟩ n.height l r =
            .node { c with value } h l r := by
          rw [keyEq, heightEq]
          rfl
        exact same ▸ written
      · simpa [Tree.labels_node] using stands.nodup
      · exact ⟨stands.avl.heights, stands.avl.balanced⟩
    | some s =>
      have branch := stands.sides s
      obtain ⟨rfl, n, read, keyEq, -, -, standsNear, -⟩ := branch.node
      rw [Tree.find?_of_turn _ _ _ turned] at found
      rw [Tree.insert_of_turn _ _ _ _ _ turned]
      have labelsNew := Tree.labels_insert_of_find? less key found label value
      obtain ⟨-, grown, most⟩ := Tree.insert_avl less label key value standsNear.avl
      obtain ⟨q, y, run, standsNew, rewrites⟩ := ih s standsNear found
      obtain ⟨p₁, q₁, z, linked, balanced, standsAfter, rewrites'⟩ :=
        relink_after branch standsNew rewrites.toAgreeOff (by rw [labelsNew]; simp)
          branch.head_not_near branch.far_not_near most (by omega)
      refine ⟨q₁, z, ?_, standsAfter, ?_⟩
      · intro limit room
        obtain ⟨limit, rfl, left⟩ := Tree.limit_below room
        exact insert_of_turn read (keyEq ▸ turned) (run limit (left s)) linked balanced
      · rw [Tree.node_eq_branch s]
        rw [labelsNew] at rewrites'
        exact (rewrites.mono fun x member => by simp [member]).trans
          (rewrites'.mono fun x member => by simpa using member)

/-- Inserting a key that is not bound builds a leaf in the slot acquired for it. -/
theorem insert_run_of_acquired {a : Tree Handle α β} {y : Handle} {p₀ : Pool α β}
    (stands : Stands p t a) (absent : a.find? less key = none)
    (acquired : Pool.acquire key value p = .ok (some y) p₀) (agree : AgreeOff p p₀ [y])
    (leaf : p₀.read y = .ok (.leaf key value)) (fresh : y ∉ a.labels) :
    ∃ q z, (∀ limit, a.depth ≤ limit → insert less key value limit t p = .ok (z, none) q) ∧
      Stands q (some z) (a.insert less y key value).1 ∧ Rewrites p₀ q (y :: a.labels) := by
  induction a using Tree.bySides generalizing t with
  | nil =>
    obtain rfl := spells_nil_iff.1 stands.spells
    refine ⟨p₀, y, fun limit _ => insert_of_acquired acquired, ⟨?_, ?_, ?_⟩, .refl p₀ _⟩
    · exact Spells.node (n := .leaf key value) leaf .nil .nil
    · simp [Tree.insert, Tree.labels, Tree.cells]
    · exact (Tree.insert_avl less y key value Tree.avl_nil).1
  | node c h l r ih =>
    cases turned : turn less key c.key with
    | none =>
      rw [Tree.find?_of_match _ _ _ turned] at absent
      cases absent
    | some s =>
      have branch := stands.sides s
      obtain ⟨rfl, n, read, keyEq, -, -, standsNear, -⟩ := branch.node
      rw [Tree.find?_of_turn _ _ _ turned] at absent
      rw [Tree.insert_of_turn _ _ _ _ _ turned]
      rw [Tree.node_eq_branch s, Tree.mem_labels_branch, not_or, not_or] at fresh
      obtain ⟨notHead, freshNear, freshFar⟩ := fresh
      have labelsNew := Tree.labels_insert_of_absent less key absent y value
      obtain ⟨-, grown, most⟩ := Tree.insert_avl less y key value standsNear.avl
      obtain ⟨q, z, run, standsNew, rewrites⟩ := ih s standsNear absent freshNear
      -- so far the acquired slot and the near subtree were written, nothing else
      have written : AgreeOff p q (y :: ((Tree.node c h l r).child s).labels) :=
        (agree.mono (by simp)).trans rewrites.toAgreeOff
      have headOff : c.label ∉ y :: ((Tree.node c h l r).child s).labels := by
        rw [List.mem_cons, not_or]
        exact ⟨Ne.symm notHead, branch.head_not_near⟩
      have farOff : ∀ x ∈ ((Tree.node c h l r).child s.other).labels,
          x ∉ y :: ((Tree.node c h l r).child s).labels := by
        intro x inFar
        rw [List.mem_cons, not_or]
        exact ⟨fun same => freshFar (same ▸ inFar), branch.far_not_near x inFar⟩
      obtain ⟨p₁, q₁, w, linked, balanced, standsAfter, rewrites'⟩ :=
        relink_after branch standsNew written labelsNew.subset headOff farOff most (by omega)
      refine ⟨q₁, w, ?_, standsAfter, ?_⟩
      · intro limit room
        obtain ⟨limit, rfl, left⟩ := Tree.limit_below room
        exact insert_of_turn read (keyEq ▸ turned) (run limit (left s)) linked balanced
      · rw [Tree.node_eq_branch s]
        refine (rewrites.mono fun x member => ?_).trans (rewrites'.mono fun x member => ?_)
        · simp only [List.mem_cons, Tree.mem_labels_branch] at member ⊢
          tauto
        · simp only [List.mem_cons, List.mem_append, labelsNew.mem_iff,
            Tree.mem_labels_branch] at member ⊢
          tauto

/-- Inserting a key that is not bound is refused when no slot is free, and then
no slot was written. -/
theorem insert_run_of_exhausted {a : Tree Handle α β} {limit : Nat} (stands : Stands p t a)
    (absent : a.find? less key = none) (exhausted : Pool.acquire key value p = .ok none p)
    (room : a.depth ≤ limit) :
    insert less key value limit t p = .error (.refused (.exhausted p.capacity)) p := by
  induction a using Tree.bySides generalizing t limit with
  | nil =>
    obtain rfl := spells_nil_iff.1 stands.spells
    exact insert_of_exhausted exhausted
  | node c h l r ih =>
    cases turned : turn less key c.key with
    | none =>
      rw [Tree.find?_of_match _ _ _ turned] at absent
      cases absent
    | some s =>
      obtain ⟨rfl, n, read, keyEq, -, -, standsNear, -⟩ := (stands.sides s).node
      rw [Tree.find?_of_turn _ _ _ turned] at absent
      obtain ⟨limit, rfl, left⟩ := Tree.limit_below room
      exact insert_error_of_turn read (keyEq ▸ turned) (ih s standsNear absent (left s))

/-! ## Overwriting in place -/

/-- Writing the value of the node that a descent finds leaves the tree that
`Tree.insert` builds for a match. -/
theorem overwrite_spells {a : Tree Handle α β} {d : Cell Handle α β} {n : Node α β}
    (stands : Stands p t a) (found : a.find? less key = some d) (live : p.read d.label = .ok n)
    (label : Handle) (value : β) :
    Spells (p.put d.label (.occupied { n with value })) t (a.insert less label key value).1 := by
  induction a using Tree.bySides generalizing t with
  | nil => cases found
  | node c h l r ih =>
    cases turned : turn less key c.key with
    | none =>
      rw [Tree.find?_of_match _ _ _ turned] at found
      obtain rfl : c = d := Option.some.inj found
      have branch := stands.sides .left
      obtain ⟨rfl, m, read, keyEq, -, heightEq, standsLeft, standsRight⟩ := branch.node
      obtain rfl : n = m := Except.ok.inj (live.symm.trans read)
      have written := put_spells (s := .left) (m := { n with value }) read standsLeft.spells
        standsRight.spells branch.head_not_near branch.head_not_far
      have same : Tree.branch .left ⟨c.label, n.key, value⟩ n.height l r =
          .node { c with value } h l r := by
        rw [keyEq, heightEq]
        rfl
      rw [Tree.insert_of_match _ _ _ _ _ turned]
      exact same ▸ written
    | some s =>
      have branch := stands.sides s
      obtain ⟨rfl, m, read, keyEq, valueEq, heightEq, standsNear, standsFar⟩ := branch.node
      rw [Tree.find?_of_turn _ _ _ turned] at found
      -- the written slot lies in the near tree, so the node and its far tree stay as they are
      have below := ih s standsNear found
      have inNear := Tree.label_mem_of_find? found
      have agree := (Rewrites.put p d.label (.occupied { n with value })).toAgreeOff
      have differ : c.label ≠ d.label := fun same => branch.head_not_near (same ▸ inNear)
      have far' := standsFar.spells.frame_one agree fun inFar => branch.far_not_near _ inFar inNear
      rw [Tree.insert_of_turn _ _ _ _ _ turned, Tree.rebalance_insert_of_find? branch.avl found]
      exact spells_branch_iff.2 ⟨rfl, m, (agree.read_of_ne differ).trans read, keyEq, valueEq,
        heightEq, below, far'⟩

end BoundedMap.Subtree
