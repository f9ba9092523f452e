import BoundedMap.Tree.Basic
/-!
# Height-balanced trees

The balanced search tree as an algorithm on values: rotations, rebalancing,
look-up, insertion and removal of `Tree`s. Nothing here knows of pools and
slots; the label of a new cell is passed in. Labels travel with their cells, so
the same definitions say which place holds which entry afterwards.

`lift` is a rotation: it raises the child on one side above its parent.
`balance` restores the balance of one node whose subtrees differ by at most two
in height, by one lift or two.
-/

namespace BoundedMap.Tree

variable {σ α β : Type}

/-- A node over two subtrees, its height computed. -/
def join (c : Cell σ α β) (l r : Tree σ α β) : Tree σ α β :=
  node c (1 + max l.height r.height) l r

/-- `join` with the subtrees given as the near one, which goes to side `s`, and
the far one. -/
def fork (s : Side) (c : Cell σ α β) (near far : Tree σ α β) : Tree σ α β :=
  match s with
  | .left => join c near far
  | .right => join c far near

/-- Raise the child on side `s` above its parent. The child's subtree on the
other side moves under the parent. Without such a child nothing changes. -/
def lift (s : Side) : Tree σ α β → Tree σ α β
  | nil => nil
  | node c h l r =>
    match (node c h l r).child s with
    | nil => node c h l r
    | node d g dl dr =>
      fork s d ((node d g dl dr).child s)
        (fork s c ((node d g dl dr).child s.other) ((node c h l r).child s.other))

/-- How much higher the subtree on side `s` is than the one opposite. -/
def excess (s : Side) (t : Tree σ α β) : Int :=
  (t.child s).height - (t.child s.other).height

/-- Lower the side `s` of a tree that is too high there. A child that itself
leans to the opposite side is first brought to lean outwards. -/
def settle (s : Side) (t : Tree σ α β) : Tree σ α β :=
  if excess s (t.child s) < 0 then lift s (t.withChild s (lift s.other (t.child s)))
  else lift s t

/-- The balanced tree over a cell and two subtrees whose heights differ by at
most two. -/
def balance (c : Cell σ α β) (l r : Tree σ α β) : Tree σ α β :=
  if excess .left (join c l r) > 1 then settle .left (join c l r)
  else if excess .right (join c l r) > 1 then settle .right (join c l r)
  else join c l r

/-- The cell where a descent for `probe` ends with a match. -/
def find? (less : α → α → Bool) (probe : α) : Tree σ α β → Option (Cell σ α β)
  | nil => none
  | node c _ l r =>
    match turn less probe c.key with
    | some .left => l.find? less probe
    | some .right => r.find? less probe
    | none => some c

/-- The labels that a descent for `probe` meets, from the root on. -/
def path (less : α → α → Bool) (probe : α) : Tree σ α β → List σ
  | nil => []
  | node c _ l r =>
    match turn less probe c.key with
    | some .left => c.label :: l.path less probe
    | some .right => c.label :: r.path less probe
    | none => [c.label]

/-- How many cells lie to the left of the place where a descent for `probe`
ends, which is a matching cell or the gap where one would go. -/
def rank (less : α → α → Bool) (probe : α) : Tree σ α β → Nat
  | nil => 0
  | node c _ l r =>
    match turn less probe c.key with
    | some .left => l.rank less probe
    | some .right => l.size + 1 + r.rank less probe
    | none => l.size

/-- Bind `key` to `value`. A match keeps its cell and its key, takes the value
and answers the old one; otherwise a new cell goes where the descent ends. -/
def insert (less : α → α → Bool) (label : σ) (key : α) (value : β) :
    Tree σ α β → Tree σ α β × Option β
  | nil => (node ⟨label, key, value⟩ 1 nil nil, none)
  | node c h l r =>
    match turn less key c.key with
    | some .left =>
      let (l', old) := l.insert less label key value
      (balance c l' r, old)
    | some .right =>
      let (r', old) := r.insert less label key value
      (balance c l r', old)
    | none => (node { c with value } h l r, some c.value)

/-- Detach the leftmost cell of the tree that has `c` above `l` and `r`. -/
def removeMin (c : Cell σ α β) : (l r : Tree σ α β) → Tree σ α β × Cell σ α β
  | nil, r => (r, c)
  | node d _ dl dr, r =>
    let (l', least) := removeMin d dl dr
    (balance c l' r, least)

/-- What takes the place of a removed cell: its in-order successor, or the left
subtree when there is none. -/
def merge (l : Tree σ α β) : Tree σ α β → Tree σ α β
  | nil => l
  | node c _ rl rr =>
    let (r', least) := removeMin c rl rr
    balance least l r'

/-- Remove the cell where a descent for `probe` ends, and answer it. -/
def remove (less : α → α → Bool) (probe : α) :
    Tree σ α β → Tree σ α β × Option (Cell σ α β)
  | nil => (nil, none)
  | node c _ l r =>
    match turn less probe c.key with
    | some .left =>
      let (l', removed) := l.remove less probe
      (balance c l' r, removed)
    | some .right =>
      let (r', removed) := r.remove less probe
      (balance c l r', removed)
    | none => (merge l r, some c)

/-! ## The order of the cells -/

@[simp] theorem cells_join (c : Cell σ α β) (l r : Tree σ α β) :
    (join c l r).cells = l.cells ++ c :: r.cells :=
  rfl

@[simp] theorem cells_lift (s : Side) (t : Tree σ α β) : (lift s t).cells = t.cells := by
  cases t with
  | nil => rfl
  | node c h l r =>
    cases s
    · cases l <;> simp [lift, child, fork, cells, Side.other]
    · cases r <;> simp [lift, child, fork, cells, Side.other]

@[simp] theorem cells_settle (s : Side) (t : Tree σ α β) : (settle s t).cells = t.cells := by
  unfold settle
  split
  · cases t with
    | nil => cases s <;> rfl
    | node c h l r => cases s <;> simp [withChild, child, cells]
  · simp

/-- Rebalancing moves nothing past anything else. -/
@[simp] theorem cells_balance (c : Cell σ α β) (l r : Tree σ α β) :
    (balance c l r).cells = l.cells ++ c :: r.cells := by
  unfold balance
  split
  · simp
  · split <;> simp

end BoundedMap.Tree
