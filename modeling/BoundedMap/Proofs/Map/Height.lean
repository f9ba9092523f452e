import BoundedMap.Proofs.Chart.Reachable
import BoundedMap.Proofs.Tree.Logarithm
/-!
# The height that a map reports

A map of `n` entries is at most `1.4405 * log₂ (n + 2) - 0.3277` high, however it came
about and whatever its predicate (`height_bound_of_reachable`). The constants are
rounded and the bound is exact all the same: it is stated between natural numbers too.
-/

namespace BoundedMap.Map

variable {α β : Type} {m : Map α β} {less : α → α → Bool}

/-- The height that a reachable map reports is bounded by its number of entries: as the
index of a Fibonacci number, by an inequality between powers, and by a logarithm. -/
theorem height_bound_of_reachable (reachable : Reachable less m) :
    ∃ h, m.height = .ok h ∧ Nat.fib (h + 2) ≤ m.len + 1 ∧
      2 ^ (10000 * h + 3277) ≤ (m.len + 2) ^ 14405 ∧
      (h : ℝ) ≤ 1.4405 * Real.logb 2 (m.len + 2) - 0.3277 := by
  obtain ⟨a, follows, -⟩ := reachable.follows
  have avl := follows.valid.avl
  refine ⟨a.tree.height, height_run follows, ?_⟩
  rw [follows.len]
  exact ⟨Tree.fib_height_le avl, Tree.two_pow_height_le avl, Tree.height_le_logb avl⟩

/-- Seven keys in an order that makes every node lean: no balanced tree of that height has
fewer, so the bound by Fibonacci numbers is met exactly. -/
theorem height_bound_of_leaning :
    ∃ n : Map Nat Nat,
      perform (.insertMany [(5, 0), (3, 0), (7, 0), (2, 0), (4, 0), (6, 0), (1, 0)])
        (ofPool Order.ascending (.fresh 7)) = .ok .done n ∧
      Reachable Order.ascending n ∧ n.height = .ok 4 ∧ n.len = 7 ∧
      Nat.fib (4 + 2) = 7 + 1 ∧ Nat.fib (4 + 2) ≤ n.len + 1 ∧
      2 ^ (10000 * 4 + 3277) ≤ (n.len + 2) ^ 14405 := by
  obtain ⟨n, done, reachable, follows⟩ := perform_ofPool (β := Nat)
    (Order.ascending : Nat → Nat → Bool) (show 7 ≤ maxCapacity by decide)
    (.insertMany [(5, 0), (3, 0), (7, 0), (2, 0), (4, 0), (6, 0), (1, 0)])
  have four : n.height = .ok 4 := height_run follows
  obtain ⟨h, reported, least, bound, -⟩ := height_bound_of_reachable reachable
  obtain rfl : h = 4 := Except.ok.inj (reported.symm.trans four)
  exact ⟨n, done, reachable, four, follows.len, by decide, least, bound⟩

end BoundedMap.Map
