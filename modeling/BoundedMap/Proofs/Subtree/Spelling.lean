import BoundedMap.Proofs.Pool.Frame
import BoundedMap.Proofs.Tree.Sides
import BoundedMap.Subtree.Search
/-!
# Trees that links spell out

A spelled tree is a claim about the slots of its labels and no others: writes
elsewhere keep it (`Spells.frame`). `spells_branch_iff` takes one node apart
from either side, and `Spells.branch` puts one together again.
-/

namespace BoundedMap.Subtree

variable {α β : Type} {p q : Pool α β} {t : Option Handle} {a : Tree Handle α β}
  {hs : List Handle}

/-- The link that leads to a tree. -/
def linkTo : Tree Handle α β → Option Handle
  | .nil => none
  | .node c _ _ _ => some c.label

@[simp] theorem linkTo_branch (s : Side) (c : Cell Handle α β) (h : Nat)
    (near far : Tree Handle α β) : linkTo (.branch s c h near far) = some c.label := by
  cases s <;> rfl

namespace Spells

theorem eq_linkTo (spells : Spells p t a) : t = linkTo a := by
  cases spells <;> rfl

theorem congr (spells : Spells p t a) (same : ∀ h ∈ a.labels, q.read h = p.read h) :
    Spells q t a := by
  induction spells with
  | nil => exact .nil
  | @node x n l r found _ _ ihl ihr =>
    simp only [Tree.labels_node, List.mem_append, List.mem_cons] at same
    refine .node ?_ (ihl fun h member => same h (.inl member))
      (ihr fun h member => same h (.inr (.inr member)))
    rw [same x (.inr (.inl rfl))]
    exact found

/-- Writes off a tree leave it as it is. -/
theorem frame (spells : Spells p t a) (agree : Pool.AgreeOff p q hs)
    (apart : ∀ h ∈ a.labels, h ∉ hs) : Spells q t a :=
  spells.congr fun h member => agree.read (apart h member)

theorem frame_one {x : Handle} (spells : Spells p t a) (agree : Pool.AgreeOff p q [x])
    (off : x ∉ a.labels) : Spells q t a :=
  spells.congr fun _ member => agree.read_of_ne fun same => off (same ▸ member)

/-- Every cell of a spelled tree is that of a live node. -/
theorem read_of_mem_cells (spells : Spells p t a) {c : Cell Handle α β} (member : c ∈ a.cells) :
    ∃ n, p.read c.label = .ok n ∧ n.key = c.key ∧ n.value = c.value := by
  induction spells with
  | nil => cases member
  | @node x n l r found _ _ ihl ihr =>
    rcases List.mem_append.1 member with inLeft | here
    · exact ihl inLeft
    · rcases List.mem_cons.1 here with rfl | inRight
      · exact ⟨n, found, rfl, rfl⟩
      · exact ihr inRight

theorem read_of_mem (spells : Spells p t a) {h : Handle} (member : h ∈ a.labels) :
    ∃ n, p.read h = .ok n := by
  obtain ⟨c, inTree, rfl⟩ := List.mem_map.1 member
  obtain ⟨n, found, -⟩ := spells.read_of_mem_cells inTree
  exact ⟨n, found⟩

/-- A live node over two spelled trees spells out their branch. -/
theorem branch {s : Side} {x : Handle} {n : Node α β} {near far : Tree Handle α β}
    (found : p.read x = .ok n) (spellsNear : Spells p (n.child s) near)
    (spellsFar : Spells p (n.child s.other) far) :
    Spells p (some x) (.branch s ⟨x, n.key, n.value⟩ n.height near far) := by
  cases s with
  | left => exact .node found spellsNear spellsFar
  | right => exact .node found spellsFar spellsNear

end Spells

/-- What a spelled branch says of its node. -/
theorem spells_branch_iff {s : Side} {c : Cell Handle α β} {h : Nat}
    {near far : Tree Handle α β} :
    Spells p t (.branch s c h near far) ↔
      t = some c.label ∧ ∃ n, p.read c.label = .ok n ∧ n.key = c.key ∧ n.value = c.value ∧
        n.height = h ∧ Spells p (n.child s) near ∧ Spells p (n.child s.other) far := by
  constructor
  · intro spells
    cases s with
    | left =>
      cases spells with
      | node found spellsLeft spellsRight =>
        exact ⟨rfl, _, found, rfl, rfl, rfl, spellsLeft, spellsRight⟩
    | right =>
      cases spells with
      | node found spellsLeft spellsRight =>
        exact ⟨rfl, _, found, rfl, rfl, rfl, spellsRight, spellsLeft⟩
  · rintro ⟨rfl, n, found, key, value, height, spellsNear, spellsFar⟩
    obtain ⟨label, k, v⟩ := c
    cases key
    cases value
    cases height
    exact Spells.branch found spellsNear spellsFar

/-- A node and its two trees, from any side. -/
theorem spells_node_iff (s : Side) {c : Cell Handle α β} {h : Nat} {l r : Tree Handle α β} :
    Spells p t (.node c h l r) ↔
      t = some c.label ∧ ∃ n, p.read c.label = .ok n ∧ n.key = c.key ∧ n.value = c.value ∧
        n.height = h ∧ Spells p (n.child s) ((Tree.node c h l r).child s) ∧
          Spells p (n.child s.other) ((Tree.node c h l r).child s.other) := by
  rw [← spells_branch_iff, ← Tree.node_eq_branch]

theorem spells_nil_iff : Spells p t .nil ↔ t = none := by
  constructor
  · rintro ⟨⟩
    rfl
  · rintro rfl
    exact .nil

end BoundedMap.Subtree
