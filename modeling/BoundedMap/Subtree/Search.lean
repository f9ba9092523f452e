import BoundedMap.Pool.Basic
import BoundedMap.Tree.Basic
/-!
# Descents and the tree that links spell out

A descent follows one link per node. Its steps are counted by `limit`: links
that form a tree never visit a slot twice, so a path through a pool has at most
as many nodes as the pool has slots, and a longer one is a circle, which is a
fault.

`toTree` reads the whole tree below a link. `Spells` is the same relation
without a limit, and without an answer for links that form no tree.
-/

namespace BoundedMap.Subtree

variable {α β : Type}

/-- The handle of the node where a descent for `probe` ends with a match. -/
def locate (p : Pool α β) (less : α → α → Bool) (probe : α) :
    (limit : Nat) → Option Handle → Except Fault (Option Handle)
  | _, none => .ok none
  | 0, some _ => .error .endlessPath
  | limit + 1, some x =>
    match p.read x with
    | .error what => .error what
    | .ok n =>
      match turn less probe n.key with
      | none => .ok (some x)
      | some s => locate p less probe limit (n.child s)

/-- The last node on the way from `x` that always takes the link on side `s`. -/
def outermost (p : Pool α β) (s : Side) : (limit : Nat) → Handle → Except Fault (Node α β)
  | 0, _ => .error .endlessPath
  | limit + 1, x =>
    match p.read x with
    | .error what => .error what
    | .ok n =>
      match n.child s with
      | none => .ok n
      | some c => outermost p s limit c

/-- The tree below a link, labelled with the handles of its nodes. -/
def toTree (p : Pool α β) :
    (limit : Nat) → Option Handle → Except Fault (Tree Handle α β)
  | _, none => .ok .nil
  | 0, some _ => .error .endlessPath
  | limit + 1, some x => do
    let n ← p.read x
    let l ← toTree p limit n.left
    let r ← toTree p limit n.right
    return .node ⟨x, n.key, n.value⟩ n.height l r

/-- The nodes reached from a link form exactly this tree. -/
inductive Spells (p : Pool α β) : Option Handle → Tree Handle α β → Prop
  | nil : Spells p none .nil
  | node {x : Handle} {n : Node α β} {l r : Tree Handle α β} :
    p.read x = .ok n → Spells p n.left l → Spells p n.right r →
      Spells p (some x) (.node ⟨x, n.key, n.value⟩ n.height l r)

/-- A link spells out at most one tree. -/
theorem Spells.unique {p : Pool α β} {t : Option Handle} {a b : Tree Handle α β}
    (ha : Spells p t a) (hb : Spells p t b) : a = b := by
  induction ha generalizing b with
  | nil => cases hb; rfl
  | node found _ _ ihl ihr =>
    cases hb with
    | node found' hl hr =>
      cases found.symm.trans found'
      rw [ihl hl, ihr hr]

end BoundedMap.Subtree
