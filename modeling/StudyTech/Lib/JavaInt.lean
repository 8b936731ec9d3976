import Mathlib.Algebra.Order.Ring.Nat
import Mathlib.Algebra.Ring.Int.Defs
import Mathlib.Tactic.Common

/-!
# Java's `int`

An `int` is an integer from `-2 ^ 31` on, below `2 ^ 31`. `toInt` is what is left of the result
of a computation.
-/

namespace Lib

/-- The `int` that a computation gives. -/
def toInt (n : ℤ) : ℤ := n.bmod (2 ^ 32)

/-- A computation that stays an `int`. -/
theorem toInt_of_lt {n : ℤ} (hlo : -2 ^ 31 ≤ n) (hhi : n < 2 ^ 31) : toInt n = n := by
  unfold toInt
  rw [Int.bmod_eq_emod]
  split <;> omega

theorem toInt_natCast {n : ℕ} (h : n < 2 ^ 31) : toInt n = n := toInt_of_lt (by omega) (by omega)

/-- A computation that overflows once. -/
theorem toInt_overflow {n : ℤ} (hlo : 2 ^ 31 ≤ n) (hhi : n < 2 ^ 32) : toInt n = n - 2 ^ 32 := by
  unfold toInt
  rw [Int.bmod_eq_emod]
  split <;> omega

theorem toInt_toInt_add (n m : ℤ) : toInt (toInt n + m) = toInt (n + m) := Int.bmod_add_bmod

theorem toInt_toInt_sub (n m : ℤ) : toInt (toInt n - m) = toInt (n - m) := Int.bmod_sub_bmod

/-- The row before the end of the page. -/
theorem toInt_pred {n : ℕ} (hpos : 0 < n) (hle : n ≤ 2 ^ 31) : toInt (toInt n - 1) = ((n - 1 : ℕ) : ℤ) := by
  rw [toInt_toInt_sub, toInt_of_lt (by omega) (by omega)]
  omega

end Lib
