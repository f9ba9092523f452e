import BoundedMap.Side
/-!
# Labelled binary trees

`Tree` is the shape that linked nodes spell out once the pool is forgotten:
cells in a binary tree, each with the height recorded beside it. A cell carries
a label. With slot numbers for labels a tree shows the complete layout of a
map; with labels of type `Unit` it is the tree alone.

The views are `cells` (in order, from left to right) and `entries` (the same
without labels); `reflect` exchanges the two sides throughout.
-/

namespace BoundedMap

/-- An entry and the label of the place that holds it. -/
structure Cell (σ α β : Type) where
  label : σ
  key : α
  value : β
  deriving DecidableEq, Repr

/-- The key and the value of a cell. -/
def Cell.entry {σ α β : Type} (c : Cell σ α β) : α × β :=
  (c.key, c.value)

/-- A binary tree of cells, a recorded height beside each. -/
inductive Tree (σ α β : Type)
  | nil
  | node (cell : Cell σ α β) (height : Nat) (left right : Tree σ α β)
  deriving DecidableEq, Repr

namespace Tree

variable {σ τ α β : Type}

/-- The recorded height; nothing has height 0. -/
def height : Tree σ α β → Nat
  | nil => 0
  | node _ h _ _ => h

/-- The length of the longest path, whatever heights are recorded. -/
def depth : Tree σ α β → Nat
  | nil => 0
  | node _ _ l r => 1 + max l.depth r.depth

/-- The number of cells. -/
def size : Tree σ α β → Nat
  | nil => 0
  | node _ _ l r => l.size + 1 + r.size

/-- The cells from left to right. -/
def cells : Tree σ α β → List (Cell σ α β)
  | nil => []
  | node c _ l r => l.cells ++ c :: r.cells

/-- The entries from left to right. -/
def entries (t : Tree σ α β) : List (α × β) :=
  t.cells.map Cell.entry

/-- The labels from left to right. -/
def labels (t : Tree σ α β) : List σ :=
  t.cells.map Cell.label

/-- The labels with every subtree's own after those below it. -/
def postorder : Tree σ α β → List σ
  | nil => []
  | node c _ l r => l.postorder ++ r.postorder ++ [c.label]

/-- The subtree on one side. -/
def child : Tree σ α β → Side → Tree σ α β
  | nil, _ => nil
  | node _ _ l _, .left => l
  | node _ _ _ r, .right => r

/-- The tree with the subtree on one side replaced, the recorded height kept. -/
def withChild : Tree σ α β → Side → Tree σ α β → Tree σ α β
  | nil, _, _ => nil
  | node c h _ r, .left, t => node c h t r
  | node c h l _, .right, t => node c h l t

/-- The same tree under other labels. -/
def relabel (f : σ → τ) : Tree σ α β → Tree τ α β
  | nil => nil
  | node c h l r => node ⟨f c.label, c.key, c.value⟩ h (l.relabel f) (r.relabel f)

/-- The tree without its labels. -/
def erase (t : Tree σ α β) : Tree Unit α β :=
  t.relabel fun _ => ()

/-- The tree with left and right exchanged throughout. -/
def reflect : Tree σ α β → Tree σ α β
  | nil => nil
  | node c h l r => node c h r.reflect l.reflect

/-! ## Conditions -/

/-- Every recorded height is one more than the greater of the two below it. -/
def HeightsExact : Tree σ α β → Prop
  | nil => True
  | node _ h l r => h = 1 + max l.height r.height ∧ l.HeightsExact ∧ r.HeightsExact

/-- At every node the recorded heights of the two subtrees differ by at most one. -/
def Balanced : Tree σ α β → Prop
  | nil => True
  | node _ _ l r =>
    l.height ≤ r.height + 1 ∧ r.height ≤ l.height + 1 ∧ l.Balanced ∧ r.Balanced

/-- Every key lies between its bounds: above the cell that was last passed on
the way to the right, below the one last passed on the way to the left. Absent
bounds hold everything. -/
def Bounded (less : α → α → Bool) : Tree σ α β → Option α → Option α → Prop
  | nil, _, _ => True
  | node c _ l r, lower, upper =>
    (∀ b ∈ lower, less b c.key = true) ∧ (∀ b ∈ upper, less c.key b = true) ∧
      l.Bounded less lower (some c.key) ∧ r.Bounded less (some c.key) upper

/-! ## Views of each operation -/

@[simp] theorem reflect_reflect (t : Tree σ α β) : t.reflect.reflect = t := by
  induction t with
  | nil => rfl
  | node c h l r ihl ihr => simp [reflect, ihl, ihr]

@[simp] theorem cells_reflect (t : Tree σ α β) : t.reflect.cells = t.cells.reverse := by
  induction t with
  | nil => rfl
  | node c h l r ihl ihr => simp [reflect, cells, ihl, ihr]

@[simp] theorem height_reflect (t : Tree σ α β) : t.reflect.height = t.height := by
  cases t <;> rfl

@[simp] theorem length_cells (t : Tree σ α β) : t.cells.length = t.size := by
  induction t with
  | nil => rfl
  | node c h l r ihl ihr => simp [cells, size, ihl, ihr]; omega

@[simp] theorem length_entries (t : Tree σ α β) : t.entries.length = t.size := by
  simp [entries]

@[simp] theorem entries_relabel (f : σ → τ) (t : Tree σ α β) :
    (t.relabel f).entries = t.entries := by
  induction t with
  | nil => rfl
  | node c h l r ihl ihr =>
    simp only [entries] at ihl ihr
    simp [relabel, entries, cells, ihl, ihr, Cell.entry]

@[simp] theorem height_relabel (f : σ → τ) (t : Tree σ α β) :
    (t.relabel f).height = t.height := by
  cases t <;> rfl

@[simp] theorem child_withChild_cell (c : Cell σ α β) (h : Nat) (l r t : Tree σ α β)
    (s : Side) : ((node c h l r).withChild s t).child s = t := by
  cases s <;> rfl

/-- Exact heights are the lengths of the longest paths. -/
theorem HeightsExact.height_eq_depth {t : Tree σ α β} (exact : t.HeightsExact) :
    t.height = t.depth := by
  induction t with
  | nil => rfl
  | node c h l r ihl ihr =>
    obtain ⟨here, hl, hr⟩ := exact
    simp [height, depth, here, ← ihl hl, ← ihr hr]

end Tree

end BoundedMap
