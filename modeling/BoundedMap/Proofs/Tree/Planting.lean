import BoundedMap.Proofs.Tree.Edits
/-!
# Cells inserted one after another

`plant` inserts the cells of a list in turn. When none of them matches a cell of the tree or one
that came before it, no descent ends with a match, whatever the predicate, and so the tree has the
new cells besides its own afterwards (`cells_plant`).
-/

namespace BoundedMap.Tree

variable {σ α β : Type} {less : α → α → Bool} {t : Tree σ α β} {c : Cell σ α β}
  {cs : List (Cell σ α β)} {allowed : Option Side → Prop}

/-- The tree after cells were inserted one after another. -/
def plant (less : α → α → Bool) (t : Tree σ α β) : List (Cell σ α β) → Tree σ α β
  | [] => t
  | c :: cs => plant less (t.insert less c.label c.key c.value).1 cs

/-- Where the key of each cell goes at the cells of the tree and at those that come before it. -/
structure Turns (allowed : Option Side → Prop) (less : α → α → Bool) (t : Tree σ α β)
    (cs : List (Cell σ α β)) : Prop where
  stored : ∀ c ∈ cs, ∀ d ∈ t.cells, allowed (turn less c.key d.key)
  earlier : cs.Pairwise fun d c => allowed (turn less c.key d.key)

namespace Turns

theorem mono {weaker : Option Side → Prop} (turns : Turns allowed less t cs)
    (implied : ∀ s, allowed s → weaker s) : Turns weaker less t cs where
  stored c member d stored := implied _ (turns.stored c member d stored)
  earlier := turns.earlier.imp fun here => implied _ here

/-- An empty tree has no cells for the others to meet. -/
theorem start (earlier : cs.Pairwise fun d c => allowed (turn less c.key d.key)) :
    Turns allowed less .nil cs := by
  refine ⟨?_, earlier⟩
  intro c _ d stored
  cases stored

/-- The first of the cells is not there yet. -/
theorem head_absent (turns : Turns allowed less t (c :: cs)) (apart : ¬ allowed none) :
    t.find? less c.key = none := by
  apply find?_eq_none_of_apart
  intro d member here
  have turned := turns.stored c List.mem_cons_self d member
  rw [here] at turned
  exact apart turned

/-- Once the first of the cells is inserted, it is one that the others meet in the tree. -/
theorem tail (turns : Turns allowed less t (c :: cs)) (apart : ¬ allowed none) :
    Turns allowed less (t.insert less c.label c.key c.value).1 cs := by
  obtain ⟨stored, earlier⟩ := turns
  rw [List.pairwise_cons] at earlier
  refine ⟨?_, earlier.2⟩
  intro b member d stands
  rw [mem_cells_insert_of_absent (head_absent ⟨stored, List.pairwise_cons.2 earlier⟩ apart)]
    at stands
  rcases stands with rfl | before
  · exact earlier.1 b member
  · exact stored b (List.mem_cons_of_mem _ member) d before

end Turns

/-- Planting adds the cells. -/
theorem cells_plant (turns : Turns (· ≠ none) less t cs) :
    (plant less t cs).cells.Perm (t.cells ++ cs) := by
  induction cs generalizing t with
  | nil => simp [plant]
  | cons c cs ih =>
    have apart : ¬ (none : Option Side) ≠ none := by simp
    have absent := turns.head_absent apart
    have added : (t.insert less c.label c.key c.value).1.cells.Perm (c :: t.cells) := by
      rw [cells_insert, cells_eq less c.key t, absent]
      simp
    have planted := (ih (turns.tail apart)).trans (added.append_right cs)
    exact planted.trans List.perm_middle.symm

theorem size_plant (turns : Turns (· ≠ none) less t cs) :
    (plant less t cs).size = t.size + cs.length := by
  rw [← length_cells, (cells_plant turns).length_eq, List.length_append, length_cells]

end BoundedMap.Tree
