import Mathlib.Data.Nat.Fib.Basic
import BoundedMap.Handle
import BoundedMap.Proofs.Tree.Avl
/-!
# How high a balanced tree can be

A balanced tree of height `h` has at least as many cells as the `h`-th
Fibonacci tree (`fib_height_le`). Handles have 32 bits, so a tree whose nodes
lie in distinct slots is at most `45` high (`height_le_of_nodup`), whatever pool
holds it. That is what keeps heights within 16 bits and the stacks of a cursor
within their room.
-/

namespace BoundedMap.Tree

variable {σ α β : Type}

/-- The least number of cells for a height is a Fibonacci number, less one. -/
theorem fib_height_le {t : Tree σ α β} (avl : t.Avl) :
    Nat.fib (t.height + 2) ≤ t.size + 1 := by
  induction t with
  | nil => exact Nat.le_refl 1
  | node c h l r ihl ihr =>
    obtain ⟨heightEq, low, high, avlLeft, avlRight⟩ := avl_node_iff.1 avl
    have left := ihl avlLeft
    have right := ihr avlRight
    -- the higher subtree has height `h - 1`, the lower one at least `h - 2`
    obtain ⟨k, hk⟩ : ∃ k, h = k + 1 := ⟨max l.height r.height, by omega⟩
    have step : Nat.fib (k + 3) = Nat.fib (k + 1) + Nat.fib (k + 2) := Nat.fib_add_two
    rw [height_node, hk, size]
    show Nat.fib (k + 3) ≤ _
    by_cases leftHigher : r.height ≤ l.height
    · have taller : Nat.fib (k + 2) ≤ Nat.fib (l.height + 2) := Nat.fib_mono (by omega)
      have lower : Nat.fib (k + 1) ≤ Nat.fib (r.height + 2) := Nat.fib_mono (by omega)
      omega
    · have taller : Nat.fib (k + 2) ≤ Nat.fib (r.height + 2) := Nat.fib_mono (by omega)
      have lower : Nat.fib (k + 1) ≤ Nat.fib (l.height + 2) := Nat.fib_mono (by omega)
      omega

/-- So many cells as handles can tell apart make a tree of height 45 at most. -/
theorem height_le_of_size_le {t : Tree σ α β} (avl : t.Avl) (few : t.size ≤ 4294967296) :
    t.height ≤ 45 := by
  by_contra high
  have least := fib_height_le avl
  have grown : Nat.fib 48 ≤ Nat.fib (t.height + 2) := Nat.fib_mono (by omega)
  have value : Nat.fib 48 = 4807526976 := by decide
  omega

/-- There are no more distinct handles than 32 bits can tell apart. -/
theorem length_le_of_nodup {hs : List Handle} (nodup : hs.Nodup) : hs.length ≤ 4294967296 := by
  have distinct : (hs.map Handle.index).Nodup :=
    nodup.map fun g h same => Handle.index_inj.1 same
  have within : hs.map Handle.index ⊆ List.range 4294967296 := by
    intro i member
    obtain ⟨h, -, rfl⟩ := List.mem_map.1 member
    exact List.mem_range.2 h.index_lt
  simpa using (distinct.subperm within).length_le

theorem height_le_of_nodup {t : Tree Handle α β} (avl : t.Avl) (nodup : t.labels.Nodup) :
    t.height ≤ 45 := by
  refine height_le_of_size_le avl ?_
  have few := length_le_of_nodup nodup
  rwa [labels, List.length_map, length_cells] at few

theorem height_le_size (t : Tree σ α β) (avl : t.Avl) : t.height ≤ t.size := by
  induction t with
  | nil => exact Nat.le_refl 0
  | node c h l r ihl ihr =>
    obtain ⟨heightEq, low, high, avlLeft, avlRight⟩ := avl_node_iff.1 avl
    have left := ihl avlLeft
    have right := ihr avlRight
    rw [height_node, size]
    omega

end BoundedMap.Tree
