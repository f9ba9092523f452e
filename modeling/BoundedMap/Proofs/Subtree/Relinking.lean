import BoundedMap.Proofs.Subtree.Rotation
/-!
# The way back of an update

An update goes down one side per node and makes the same step on its way back:
the node takes over the new subtree and is rebalanced, whatever was written
below. `relink_after` is that step, stated once for every update.

`Stands` is what an update needs of the nodes it works on, and what it leaves:
a balanced tree in slots that do not repeat. In between, a node that was linked
to a new subtree is `Ready` to be rebalanced (`relink_ready`).
-/

namespace BoundedMap.Subtree

open Pool (AgreeOff Rewrites)

variable {α β : Type} {p q : Pool α β} {t : Option Handle} {hs ks : List Handle}

/-- A link leads to a balanced tree whose nodes lie in distinct slots. -/
structure Stands (p : Pool α β) (t : Option Handle) (a : Tree Handle α β) : Prop where
  spells : Spells p t a
  nodup : a.labels.Nodup
  avl : a.Avl

namespace Stands

theorem nil : Stands p none .nil :=
  ⟨.nil, .nil, Tree.avl_nil⟩

theorem frame {a : Tree Handle α β} (stands : Stands p t a) (agree : AgreeOff p q ks)
    (apart : ∀ h ∈ a.labels, h ∉ ks) : Stands q t a :=
  ⟨stands.spells.frame agree apart, stands.nodup, stands.avl⟩

section Branch

variable {s : Side} {c : Cell Handle α β} {h : Nat} {near far : Tree Handle α β}

/-- The node at the head of a standing branch. -/
theorem node (stands : Stands p t (.branch s c h near far)) :
    t = some c.label ∧ ∃ n, p.read c.label = .ok n ∧ n.key = c.key ∧ n.value = c.value ∧
      n.height = h ∧ Stands p (n.child s) near ∧ Stands p (n.child s.other) far := by
  obtain ⟨link, n, found, key, value, height, spellsNear, spellsFar⟩ :=
    spells_branch_iff.1 stands.spells
  obtain ⟨-, -, -, avlNear, avlFar⟩ := Tree.avl_branch_iff.1 stands.avl
  obtain ⟨distinctNear, distinctFar, -, -, -⟩ := Tree.nodup_labels_branch.1 stands.nodup
  exact ⟨link, n, found, key, value, height, ⟨spellsNear, distinctNear, avlNear⟩,
    ⟨spellsFar, distinctFar, avlFar⟩⟩

theorem head_not_near (stands : Stands p t (.branch s c h near far)) :
    c.label ∉ near.labels :=
  (Tree.nodup_labels_branch.1 stands.nodup).2.2.1

theorem head_not_far (stands : Stands p t (.branch s c h near far)) :
    c.label ∉ far.labels :=
  (Tree.nodup_labels_branch.1 stands.nodup).2.2.2.1

theorem far_not_near (stands : Stands p t (.branch s c h near far)) :
    ∀ x ∈ far.labels, x ∉ near.labels :=
  fun x inFar inNear => (Tree.nodup_labels_branch.1 stands.nodup).2.2.2.2 x inNear inFar

end Branch

/-- A standing node, seen from any side. -/
theorem sides {c : Cell Handle α β} {h : Nat} {l r : Tree Handle α β}
    (stands : Stands p t (.node c h l r)) (s : Side) :
    Stands p t (.branch s c h ((Tree.node c h l r).child s)
      ((Tree.node c h l r).child s.other)) := by
  rwa [← Tree.node_eq_branch]

end Stands

/-- What rebalancing asks for: a live node over two standing trees that differ by at most two in
height, share no slot and do not hold the node. The node may record any height. -/
structure Ready (p : Pool α β) (s : Side) (x : Handle) (n : Node α β)
    (near far : Tree Handle α β) : Prop where
  live : p.read x = .ok n
  standsNear : Stands p (n.child s) near
  standsFar : Stands p (n.child s.other) far
  notNear : x ∉ near.labels
  notFar : x ∉ far.labels
  apart : ∀ h ∈ near.labels, h ∉ far.labels
  low : near.height ≤ far.height + 2
  high : far.height ≤ near.height + 2

section Ready

variable {s : Side} {x : Handle} {n : Node α β} {near far : Tree Handle α β}

/-- The slots below a node that is ready, and its own, are distinct. -/
theorem Ready.nodup (ready : Ready p s x n near far) :
    (Tree.branch s ⟨x, n.key, n.value⟩ 0 near far).labels.Nodup :=
  Tree.nodup_labels_branch.2 ⟨ready.standsNear.nodup, ready.standsFar.nodup, ready.notNear,
    ready.notFar, ready.apart⟩

/-- A node is ready as seen from either side. -/
theorem Ready.flip (ready : Ready p s x n near far) : Ready p s.other x n far near where
  live := ready.live
  standsNear := ready.standsFar
  standsFar := by
    rw [Side.other_other]
    exact ready.standsNear
  notNear := ready.notFar
  notFar := ready.notNear
  apart h inFar inNear := ready.apart h inNear inFar
  low := ready.high
  high := ready.low

/-- Rebalancing a node that is ready. -/
theorem balance_stands (ready : Ready p s x n near far) :
    ∃ q y, balance x p = .ok y q ∧
      Stands q (some y) (.rebalance s ⟨x, n.key, n.value⟩ near far) ∧
      Rewrites p q (x :: (near.labels ++ far.labels)) := by
  have avlNear := ready.standsNear.avl
  have avlFar := ready.standsFar.avl
  obtain ⟨q, y, run, spells, rewrites⟩ := balance_run ready.live ready.standsNear.spells
    ready.standsFar.spells ready.nodup avlNear avlFar ready.low ready.high
  refine ⟨q, y, run, ⟨spells, ?_, ?_⟩, rewrites⟩
  · rw [Tree.labels_rebalance s _ 0]
    exact ready.nodup
  · exact (Tree.rebalance_spec avlNear avlFar ready.low ready.high).1

end Ready

section Relinking

variable {s : Side} {c : Cell Handle α β} {h : Nat} {link : Option Handle}
  {near far new : Tree Handle α β}

/-- Below a node, the tree on side `s` has given way to `new` by writes to `ks`, among which are
neither the node nor any slot of its other tree. Linked to `new`, the node is ready. -/
theorem relink_ready (stands : Stands p t (.branch s c h near far))
    (standsNew : Stands q link new) (agree : AgreeOff p q ks) (within : new.labels ⊆ ks)
    (off : c.label ∉ ks) (offFar : ∀ x ∈ far.labels, x ∉ ks)
    (most : new.height ≤ near.height + 1) (least : near.height ≤ new.height + 1) :
    ∃ p₁ n, Pool.setChild c.label s link q = .ok () p₁ ∧ Ready p₁ s c.label n new far ∧
      n.key = c.key ∧ n.value = c.value ∧ Rewrites q p₁ [c.label] := by
  obtain ⟨-, n, found, key, value, -, -, standsFar⟩ := stands.node
  obtain ⟨-, low, high, -, avlFar⟩ := Tree.avl_branch_iff.1 stands.avl
  have notNew : c.label ∉ new.labels := fun member => off (within member)
  have notFar := stands.head_not_far
  have apart : ∀ x ∈ new.labels, x ∉ far.labels :=
    fun x inNew inFar => offFar x inFar (within inNew)
  have standsFar' : Stands q (n.child s.other) far := standsFar.frame agree offFar
  have found' : q.read c.label = .ok n := by
    rw [agree.read off]
    exact found
  obtain ⟨p₁, linked, spells₁, rewrites₁⟩ :=
    setChild_spells found' standsNew.spells standsFar'.spells notNew notFar
  obtain ⟨-, m, found₁, key₁, value₁, -, spellsNew₁, spellsFar₁⟩ := spells_branch_iff.1 spells₁
  have ready : Ready p₁ s c.label m new far :=
    { live := found₁
      standsNear := ⟨spellsNew₁, standsNew.nodup, standsNew.avl⟩
      standsFar := ⟨spellsFar₁, standsFar.nodup, avlFar⟩
      notNear := notNew
      notFar := notFar
      apart := apart
      low := by omega
      high := by omega }
  exact ⟨p₁, m, linked, ready, key₁.trans key, value₁.trans value, rewrites₁⟩

/-- One step on the way back of an update: the node takes over the new tree and is rebalanced. -/
theorem relink_after (stands : Stands p t (.branch s c h near far))
    (standsNew : Stands q link new) (agree : AgreeOff p q ks) (within : new.labels ⊆ ks)
    (off : c.label ∉ ks) (offFar : ∀ x ∈ far.labels, x ∉ ks)
    (most : new.height ≤ near.height + 1) (least : near.height ≤ new.height + 1) :
    ∃ p₁ q₁ y, Pool.setChild c.label s link q = .ok () p₁ ∧ balance c.label p₁ = .ok y q₁ ∧
      Stands q₁ (some y) (.rebalance s c new far) ∧
      Rewrites q q₁ (c.label :: (new.labels ++ far.labels)) := by
  obtain ⟨p₁, n, linked, ready, key, value, rewrites₁⟩ :=
    relink_ready stands standsNew agree within off offFar most least
  obtain ⟨q₁, y, balanced, standsAfter, rewrites⟩ := balance_stands ready
  rw [key, value] at standsAfter
  exact ⟨p₁, q₁, y, linked, balanced, standsAfter, (rewrites₁.mono (by simp)).trans rewrites⟩

end Relinking

end BoundedMap.Subtree
