import Mathlib.Algebra.Order.Ring.Nat
import Mathlib.Data.List.Lex

/-!
# Fixed-width numerals and their order

`numeral digit b k n` writes `n` with `k` digits in base `b`, most significant first.
On numbers that fit, the lexicographic order of the numerals is the numeric order,
also behind a common front part (`numeral_lt`, `append_numeral_lt`).
-/

namespace Lib

variable {α : Type*}

/-- The `k` digits of `n` in base `b`, most significant first. -/
def numeral (digit : ℕ → α) (b : ℕ) : ℕ → ℕ → List α
  | 0, _ => []
  | k + 1, n => digit (n / b ^ k) :: numeral digit b k (n % b ^ k)

variable {digit : ℕ → α} {b k m n : ℕ}

@[simp] theorem length_numeral : (numeral digit b k n).length = k := by
  induction k generalizing n with
  | zero => rfl
  | succ k ih => simp [numeral, ih]

theorem pow_pos_of_fits (hn : n < b ^ (k + 1)) : 0 < b ^ k := by
  rcases Nat.eq_zero_or_pos (b ^ k) with h0 | h0
  · rw [Nat.pow_succ, h0] at hn; omega
  · exact h0

/-- A coding of the digits codes the numeral digit by digit. -/
theorem flatMap_numeral {β : Type*} {f : α → List β} {digit' : ℕ → β}
    (h : ∀ d < b, f (digit d) = [digit' d]) (hn : n < b ^ k) :
    (numeral digit b k n).flatMap f = numeral digit' b k n := by
  induction k generalizing n with
  | zero => rfl
  | succ k ih =>
    have hb := pow_pos_of_fits hn
    -- the first digit is below the base, and the rest has one digit less
    have hd : n / b ^ k < b := by
      rw [Nat.div_lt_iff_lt_mul hb, Nat.mul_comm, ← Nat.pow_succ]
      exact hn
    simp only [numeral, List.flatMap_cons, h _ hd, ih (Nat.mod_lt n hb), List.singleton_append]

variable [LinearOrder α]

/-- The lexicographic order of fixed-width numerals is the numeric order. -/
theorem numeral_lt (hmono : StrictMono digit) (hmn : m < n) (hn : n < b ^ k) :
    numeral digit b k m < numeral digit b k n := by
  induction k generalizing m n with
  | zero => rw [Nat.pow_zero] at hn; omega
  | succ k ih =>
    have hb := pow_pos_of_fits hn
    have hm := Nat.div_add_mod m (b ^ k)
    have hn' := Nat.div_add_mod n (b ^ k)
    have hle : m / b ^ k ≤ n / b ^ k := Nat.div_le_div_right (Nat.le_of_lt hmn)
    unfold numeral
    rw [List.cons_lt_cons_iff]
    rcases Nat.lt_or_eq_of_le hle with hlt | heq
    · exact Or.inl (hmono hlt)
    · -- the same first digit: the remainders decide
      refine Or.inr ⟨by rw [heq], ih ?_ (Nat.mod_lt n hb)⟩
      rw [heq] at hm
      omega

theorem append_numeral_lt (hmono : StrictMono digit) (hmn : m < n) (hn : n < b ^ k) (front : List α) :
    front ++ numeral digit b k m < front ++ numeral digit b k n :=
  List.append_left_lt (numeral_lt hmono hmn hn)

end Lib
