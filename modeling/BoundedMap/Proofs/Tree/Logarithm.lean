import Mathlib.Analysis.SpecialFunctions.Log.Base
import Mathlib.NumberTheory.Real.GoldenRatio
import BoundedMap.Proofs.Tree.Height
/-!
# The height against the logarithm of the size

Fibonacci numbers grow like powers of the golden ratio, so a balanced tree is
lower than a multiple of the logarithm of its size. The factor `1.4405` and the
summand `0.3277` are rounded values of `1 / log₂ φ` and of `log₂ (φ² / √5) / log₂ φ`;
that they lie on the right side of those comes down to two inequalities between
powers, `two_pow_le_goldenRatio_pow` and `two_pow_mul_sqrt_pow_le`.

Main statements: `height_le_logb`, and `two_pow_height_le`, the same without
logarithms.
-/

namespace BoundedMap.Tree

open Real (logb goldenRatio goldenConj)

variable {σ α β : Type}

/-! ## Powers of the golden ratio -/

/-- The binary logarithm of the golden ratio is at least `84 / 121`. -/
theorem two_pow_le_goldenRatio_pow : (2 : ℝ) ^ 84 ≤ goldenRatio ^ 121 := by
  have root : (2.234 : ℝ) ≤ √5 := Real.le_sqrt_of_sq_le (by norm_num)
  have ratio : (1.617 : ℝ) ≤ goldenRatio := by
    rw [goldenRatio]
    linarith
  have split := Real.goldenRatio_mul_fib_succ_add_fib 120
  norm_num at split
  rw [← split]
  linarith

/-- The binary logarithm of `φ ^ 2 / √5` is at least `43 / 189`. -/
theorem two_pow_mul_sqrt_pow_le : (2 : ℝ) ^ 43 * √5 ^ 189 ≤ goldenRatio ^ 378 := by
  have positive : (0 : ℝ) < √5 := Real.sqrt_pos.2 (by norm_num)
  have binet := Real.coe_fib_eq 378
  have small : (0 : ℝ) ≤ goldenConj ^ 378 := Even.pow_nonneg (by decide) _
  have counted : (2 : ℝ) ^ 43 * 5 ^ 94 ≤ (Nat.fib 378 : ℝ) := by norm_num
  have square : √5 ^ 189 = 5 ^ 94 * √5 := by
    rw [show 189 = 2 * 94 + 1 from rfl, pow_succ, pow_mul, Real.sq_sqrt (by norm_num)]
  calc (2 : ℝ) ^ 43 * √5 ^ 189 = 2 ^ 43 * 5 ^ 94 * √5 := by rw [square, mul_assoc]
    _ ≤ (Nat.fib 378 : ℝ) * √5 := mul_le_mul_of_nonneg_right counted positive.le
    _ = goldenRatio ^ 378 - goldenConj ^ 378 := by
      rw [binet, div_mul_cancel₀ _ positive.ne']
    _ ≤ goldenRatio ^ 378 := sub_le_self _ small

/-- A power of the golden ratio is a Fibonacci number and a rest below one, up to
the factor of Binet's formula. -/
theorem goldenRatio_pow_le (n : Nat) : goldenRatio ^ n ≤ √5 * (Nat.fib n + 1) := by
  have root : (1 : ℝ) ≤ √5 := Real.one_le_sqrt.2 (by norm_num)
  have rest : goldenConj ^ n ≤ 1 := by
    have bounded : |goldenConj| ≤ 1 := by
      rw [abs_of_neg Real.goldenConj_neg]
      linarith [Real.neg_one_lt_goldenConj]
    calc goldenConj ^ n ≤ |goldenConj ^ n| := le_abs_self _
      _ = |goldenConj| ^ n := abs_pow _ _
      _ ≤ 1 := pow_le_one₀ (abs_nonneg _) bounded
  have binet : √5 * (Nat.fib n : ℝ) = goldenRatio ^ n - goldenConj ^ n := by
    rw [Real.coe_fib_eq, mul_div_cancel₀ _ (by positivity)]
  rw [mul_add, binet, mul_one]
  linarith

/-! ## Logarithms -/

theorem le_logb_goldenRatio : 84 ≤ 121 * logb 2 goldenRatio := by
  have taken := Real.logb_le_logb_of_le (b := 2) (by norm_num) (by positivity)
    two_pow_le_goldenRatio_pow
  rw [Real.logb_pow, Real.logb_pow, Real.logb_self_eq_one (by norm_num)] at taken
  norm_num at taken
  exact taken

theorem logb_sqrt_le : 43 + 189 * logb 2 √5 ≤ 378 * logb 2 goldenRatio := by
  have taken := Real.logb_le_logb_of_le (b := 2) (by norm_num) (by positivity)
    two_pow_mul_sqrt_pow_le
  rw [Real.logb_mul (by positivity) (by positivity), Real.logb_pow, Real.logb_pow, Real.logb_pow,
    Real.logb_self_eq_one (by norm_num)] at taken
  norm_num at taken
  exact taken

/-- The documented constants bound the index of a Fibonacci number. -/
theorem le_logb_fib (h : Nat) :
    (h : ℝ) ≤ 1.4405 * logb 2 (Nat.fib (h + 2) + 1) - 0.3277 := by
  have taken := Real.logb_le_logb_of_le (b := 2) (by norm_num)
    (pow_pos Real.goldenRatio_pos _) (goldenRatio_pow_le (h + 2))
  rw [Real.logb_pow, Real.logb_mul (by positivity) (by positivity)] at taken
  push_cast at taken
  have slope := le_logb_goldenRatio
  have offset := logb_sqrt_le
  have scaled : (h : ℝ) * 84 ≤ h * (121 * logb 2 goldenRatio) := by gcongr
  linarith

/-! ## Heights -/

/-- A balanced tree is at most `1.4405 * log₂ (n + 2) - 0.3277` high. -/
theorem height_le_logb {t : Tree σ α β} (avl : t.Avl) :
    (t.height : ℝ) ≤ 1.4405 * logb 2 (t.size + 2) - 0.3277 := by
  have least : (Nat.fib (t.height + 2) : ℝ) ≤ t.size + 1 := by
    exact_mod_cast fib_height_le avl
  have grown : logb 2 (Nat.fib (t.height + 2) + 1) ≤ logb 2 (t.size + 2) := by
    apply Real.logb_le_logb_of_le (by norm_num) (by positivity)
    linarith
  have bound := le_logb_fib t.height
  linarith

/-- The bound on the height as an inequality between natural numbers. -/
theorem two_pow_height_le {t : Tree σ α β} (avl : t.Avl) :
    2 ^ (10000 * t.height + 3277) ≤ (t.size + 2) ^ 14405 := by
  have bound := height_le_logb avl
  have powers : (2 : ℝ) ^ (10000 * t.height + 3277) ≤ ((t.size : ℝ) + 2) ^ 14405 := by
    rw [← Real.logb_le_logb (b := 2) (by norm_num) (by positivity) (by positivity),
      Real.logb_pow, Real.logb_pow, Real.logb_self_eq_one (by norm_num)]
    push_cast
    linarith
  have cast : ((2 ^ (10000 * t.height + 3277) : Nat) : ℝ) ≤ ((t.size + 2) ^ 14405 : Nat) := by
    rw [Nat.cast_pow, Nat.cast_pow, Nat.cast_add]
    exact powers
  exact Nat.cast_le.1 cast

end BoundedMap.Tree
