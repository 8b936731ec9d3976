import Mathlib.Data.List.Basic
import Mathlib.Data.Nat.Notation
import Mathlib.Tactic.Common

/-!
# Loops that can fail

`foldlM` over a list in `Except`: the loop ends with the first round that fails. What every round
keeps holds at its end (`foldlM_keeps`).
-/

namespace Lib

variable {ε α β : Type} {f : β → α → Except ε β} {x y : α} {xs ys : List α} {b b' : β}

theorem ok_bind {γ : Type} (a : α) (g : α → Except ε γ) : (Except.ok a >>= g) = g a := rfl

theorem foldlM_cons_ok (h : f b x = .ok b') : (x :: xs).foldlM f b = xs.foldlM f b' := by
  rw [List.foldlM_cons, h]
  rfl

theorem foldlM_cons_error {e : ε} (h : f b x = .error e) : (x :: xs).foldlM f b = .error e := by
  rw [List.foldlM_cons, h]
  rfl

/-- A loop whose second round fails fails. -/
theorem foldlM_second_error (h : ∀ b, ∃ e, f b y = .error e) : ∃ e, (x :: y :: xs).foldlM f b = .error e := by
  cases hx : f b x with
  | error e => exact ⟨e, foldlM_cons_error hx⟩
  | ok b' =>
    obtain ⟨e, he⟩ := h b'
    exact ⟨e, by rw [foldlM_cons_ok hx, foldlM_cons_error he]⟩

/-- What every round keeps. -/
theorem foldlM_keeps {P : β → Prop} (hf : ∀ x ∈ xs, ∀ b b', f b x = .ok b' → P b → P b') (hb : P b)
    (h : xs.foldlM f b = .ok b') : P b' := by
  induction xs generalizing b with
  | nil => cases h; exact hb
  | cons x xs ih =>
    cases hx : f b x with
    | error e =>
      rw [foldlM_cons_error hx] at h
      cases h
    | ok m =>
      rw [foldlM_cons_ok hx] at h
      exact ih (fun y hy => hf y (List.mem_cons_of_mem _ hy)) (hf x List.mem_cons_self b m hx hb) h

theorem foldlM_range_succ {f : β → ℕ → Except ε β} (k : ℕ) :
    (List.range (k + 1)).foldlM f b = (List.range k).foldlM f b >>= fun b' => f b' k := by
  rw [List.range_succ, List.foldlM_append]
  congr 1
  funext b'
  rw [List.foldlM_cons]
  cases f b' k <;> rfl

/-- A loop that failed early fails. -/
theorem foldlM_range_error {f : β → ℕ → Except ε β} {e : ε} {k n : ℕ} (hkn : k ≤ n)
    (h : (List.range k).foldlM f b = .error e) : (List.range n).foldlM f b = .error e := by
  induction hkn with
  | refl => exact h
  | step _ ih =>
    rw [foldlM_range_succ, ih]
    rfl

end Lib
