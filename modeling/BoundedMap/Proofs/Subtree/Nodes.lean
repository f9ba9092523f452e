import BoundedMap.Proofs.Subtree.Spelling
/-!
# The nodes of a spelled tree

A tree says of every node that spells it out what it holds: the entry of its cell, the height
beside it, and links to the cells at the heads of its two subtrees. `nodes` lists them by slot, and
a pool spells out the tree exactly when it has them (`Spells.read_of_mem_nodes`).
-/

namespace BoundedMap.Subtree

variable {α β : Type} {p q : Pool α β} {t u : Option Handle} {a : Tree Handle α β}
  {x : Handle} {n : Node α β}

/-- The nodes that spell out a tree, each with its slot, from left to right. -/
def nodes : Tree Handle α β → List (Handle × Node α β)
  | .nil => []
  | .node c h l r => nodes l ++ (c.label, ⟨c.key, c.value, linkTo l, linkTo r, h⟩) :: nodes r

theorem map_fst_nodes (a : Tree Handle α β) : (nodes a).map Prod.fst = a.labels := by
  induction a with
  | nil => rfl
  | node c h l r ihl ihr => simp [nodes, Tree.labels_node, ihl, ihr]

/-- The node of a branch, seen from any side. -/
def nodeOver (s : Side) (c : Cell Handle α β) (h : Nat) (near far : Tree Handle α β) :
    Node α β :=
  match s with
  | .left => ⟨c.key, c.value, linkTo near, linkTo far, h⟩
  | .right => ⟨c.key, c.value, linkTo far, linkTo near, h⟩

section NodeOver

variable (s : Side) (c : Cell Handle α β) (h : Nat) (near far : Tree Handle α β)

@[simp] theorem child_nodeOver : (nodeOver s c h near far).child s = linkTo near := by
  cases s <;> rfl

@[simp] theorem child_other_nodeOver :
    (nodeOver s c h near far).child s.other = linkTo far := by
  cases s <;> rfl

end NodeOver

theorem mem_nodes_branch {s : Side} {c : Cell Handle α β} {h : Nat}
    {near far : Tree Handle α β} : (x, n) ∈ nodes (.branch s c h near far) ↔
      (x = c.label ∧ n = nodeOver s c h near far) ∨ (x, n) ∈ nodes near ∨ (x, n) ∈ nodes far := by
  cases s with
  | left =>
    simp only [Tree.branch, nodes, nodeOver, List.mem_append, List.mem_cons, Prod.mk.injEq]
    exact or_left_comm
  | right =>
    simp only [Tree.branch, nodes, nodeOver, List.mem_append, List.mem_cons, Prod.mk.injEq]
    rw [or_left_comm, or_comm (a := (x, n) ∈ nodes far)]

theorem mem_labels_of_mem_nodes (member : (x, n) ∈ nodes a) : x ∈ a.labels := by
  rw [← map_fst_nodes]
  exact List.mem_map_of_mem member

theorem exists_mem_nodes (member : x ∈ a.labels) : ∃ n, (x, n) ∈ nodes a := by
  rw [← map_fst_nodes, List.mem_map] at member
  obtain ⟨⟨x, n⟩, member, rfl⟩ := member
  exact ⟨n, member⟩

/-- A pool holds the nodes of every tree that it spells out. -/
theorem Spells.read_of_mem_nodes (spells : Spells p t a) (member : (x, n) ∈ nodes a) :
    p.read x = .ok n := by
  induction spells with
  | nil => cases member
  | @node y d l r found spellsLeft spellsRight ihl ihr =>
    rcases List.mem_append.1 member with inLeft | member
    · exact ihl inLeft
    · rcases List.mem_cons.1 member with here | inRight
      · obtain ⟨rfl, rfl⟩ := Prod.mk.inj here
        rw [← spellsLeft.eq_linkTo, ← spellsRight.eq_linkTo]
        exact found
      · exact ihr inRight

theorem Spells.mem_nodes_of_read (spells : Spells p t a) (member : x ∈ a.labels)
    (found : p.read x = .ok n) : (x, n) ∈ nodes a := by
  obtain ⟨d, here⟩ := exists_mem_nodes member
  obtain rfl := Except.ok.inj (found.symm.trans (spells.read_of_mem_nodes here))
  exact here

/-- Pools that spell out one tree hold the same nodes in its slots. -/
theorem Spells.read_eq (spells : Spells p t a) (spells' : Spells q u a) (member : x ∈ a.labels) :
    q.read x = p.read x := by
  obtain ⟨n, here⟩ := exists_mem_nodes member
  rw [spells.read_of_mem_nodes here, spells'.read_of_mem_nodes here]

end BoundedMap.Subtree
