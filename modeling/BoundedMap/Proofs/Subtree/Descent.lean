import BoundedMap.Proofs.Subtree.Spelling
/-!
# Descents through linked nodes

A descent through links ends where the descent through the spelled tree does,
and its length is bounded by the depth of the tree: `limit` may be anything from
there on.
-/

namespace BoundedMap

namespace Tree

variable {σ α β : Type}

theorem depth_child_lt (c : Cell σ α β) (h : Nat) (l r : Tree σ α β) (s : Side) :
    ((node c h l r).child s).depth < (node c h l r).depth := by
  cases s with
  | left =>
    show l.depth < 1 + max l.depth r.depth
    omega
  | right =>
    show r.depth < 1 + max l.depth r.depth
    omega

theorem size_child_lt (c : Cell σ α β) (h : Nat) (l r : Tree σ α β) (s : Side) :
    ((node c h l r).child s).size < (node c h l r).size := by
  cases s with
  | left =>
    show l.size < l.size + 1 + r.size
    omega
  | right =>
    show r.size < l.size + 1 + r.size
    omega

/-- A limit that a tree keeps leaves one that its subtrees keep. -/
theorem limit_below {c : Cell σ α β} {h : Nat} {l r : Tree σ α β} {limit : Nat}
    (room : (node c h l r).depth ≤ limit) :
    ∃ k, limit = k + 1 ∧ ∀ s, ((node c h l r).child s).depth ≤ k := by
  obtain ⟨k, rfl⟩ : ∃ k, limit = k + 1 := by
    rw [depth] at room
    exact ⟨limit - 1, by omega⟩
  refine ⟨k, rfl, ?_⟩
  intro s
  exact Nat.le_of_lt_succ (Nat.lt_of_lt_of_le (depth_child_lt c h l r s) room)

/-- The cells in the order in which a walk from side `s` meets them. -/
def cellsFrom (s : Side) (t : Tree σ α β) : List (Cell σ α β) :=
  match s with
  | .left => t.cells
  | .right => t.cells.reverse

@[simp] theorem cellsFrom_nil (s : Side) : (nil : Tree σ α β).cellsFrom s = [] := by
  cases s <;> rfl

theorem cellsFrom_node (s : Side) (c : Cell σ α β) (h : Nat) (l r : Tree σ α β) :
    (node c h l r).cellsFrom s = ((node c h l r).child s).cellsFrom s ++
      c :: ((node c h l r).child s.other).cellsFrom s := by
  cases s with
  | left => rfl
  | right => simp [cellsFrom, cells, child, Side.other]

@[simp] theorem length_cellsFrom (s : Side) (t : Tree σ α β) :
    (t.cellsFrom s).length = t.size := by
  cases s <;> simp [cellsFrom]

end Tree

namespace Subtree

variable {α β : Type} {p : Pool α β} {t : Option Handle} {a : Tree Handle α β}

/-- Below every node of a spelled tree hang spelled trees that are less deep. -/
theorem Spells.child_of_mem (spells : Spells p t a) {x : Handle} {n : Node α β}
    (member : x ∈ a.labels) (found : p.read x = .ok n) (s : Side) :
    ∃ b, Spells p (n.child s) b ∧ b.depth < a.depth := by
  induction a using Tree.bySides generalizing t with
  | nil => cases member
  | node c h l r ih =>
    obtain ⟨rfl, m, live, -, -, -, spellsNear, spellsFar⟩ := (spells_node_iff s).1 spells
    rw [Tree.node_eq_branch s, Tree.mem_labels_branch] at member
    rcases member with rfl | inNear | inFar
    · obtain rfl : m = n := Except.ok.inj (live.symm.trans found)
      exact ⟨_, spellsNear, Tree.depth_child_lt c h l r s⟩
    · obtain ⟨b, spells', lower⟩ := ih s spellsNear inNear
      exact ⟨b, spells', Nat.lt_trans lower (Tree.depth_child_lt c h l r s)⟩
    · obtain ⟨b, spells', lower⟩ := ih s.other spellsFar inFar
      exact ⟨b, spells', Nat.lt_trans lower (Tree.depth_child_lt c h l r s.other)⟩

/-- The whole tree is read within any limit from its depth on. -/
theorem toTree_run {limit : Nat} (spells : Spells p t a) (room : a.depth ≤ limit) :
    toTree p limit t = .ok a := by
  induction spells generalizing limit with
  | nil => cases limit <;> rfl
  | @node x n l r found _ _ ihl ihr =>
    obtain ⟨limit, rfl, below⟩ := Tree.limit_below room
    rw [toTree, found]
    show (toTree p limit n.left >>= fun l => toTree p limit n.right >>= fun r => _) = _
    rw [ihl (below .left)]
    show (toTree p limit n.right >>= fun r => _) = _
    rw [ihr (below .right)]
    rfl

/-- A descent for `probe` ends at the node of the cell that the tree holds for it. -/
theorem locate_run (less : α → α → Bool) (probe : α) {limit : Nat} (spells : Spells p t a)
    (room : a.depth ≤ limit) :
    locate p less probe limit t = .ok ((a.find? less probe).map Cell.label) := by
  induction a using Tree.bySides generalizing t limit with
  | nil =>
    obtain rfl := spells_nil_iff.1 spells
    cases limit <;> rfl
  | node c h l r ih =>
    obtain ⟨limit, rfl, below⟩ := Tree.limit_below room
    cases turned : turn less probe c.key with
    | none =>
      obtain ⟨rfl, n, found, key, -⟩ := (spells_node_iff .left).1 spells
      rw [Tree.find?_of_match _ _ _ turned]
      simp only [locate, found, key, turned]
      rfl
    | some s =>
      obtain ⟨rfl, n, found, key, -, -, spellsNear, -⟩ := (spells_node_iff s).1 spells
      rw [Tree.find?_of_turn _ _ _ turned]
      simp only [locate, found, key, turned]
      exact ih s spellsNear (below s)

/-- The outermost node of a tree is the first one that a walk from that side meets. -/
theorem outermost_run (s : Side) {x : Handle} (spells : Spells p (some x) a) :
    ∃ n, (∀ limit, a.depth ≤ limit → outermost p s limit x = .ok n) ∧
      (a.cellsFrom s).head?.map Cell.entry = some (n.key, n.value) := by
  induction a using Tree.bySides generalizing x with
  | nil => cases spells
  | node c h l r ih =>
    obtain ⟨link, n, found, key, value, -, spellsNear, -⟩ := (spells_node_iff s).1 spells
    obtain rfl : x = c.label := Option.some.inj link
    rw [Tree.cellsFrom_node]
    cases below : n.child s with
    | none =>
      rw [below] at spellsNear
      have ended : (Tree.node c h l r).child s = .nil := spellsNear.unique .nil
      refine ⟨n, ?_, ?_⟩
      · intro limit room
        obtain ⟨limit, rfl, -⟩ := Tree.limit_below room
        simp only [outermost, found, below]
      · simp [ended, Cell.entry, key, value]
    | some y =>
      rw [below] at spellsNear
      obtain ⟨m, run, outer⟩ := ih s spellsNear
      refine ⟨m, ?_, ?_⟩
      · intro limit room
        obtain ⟨limit, rfl, left⟩ := Tree.limit_below room
        simp only [outermost, found, below, run limit (left s)]
      · rw [List.head?_append]
        cases first : (((Tree.node c h l r).child s).cellsFrom s).head? with
        | none => simp [first] at outer
        | some d => simpa [first] using outer

end Subtree

end BoundedMap
