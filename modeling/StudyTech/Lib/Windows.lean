import Mathlib.Data.List.Basic
import Mathlib.Data.Nat.Notation
import Mathlib.Tactic.Common

/-!
# A list in windows

`window c xs i` are the elements of `xs` from `c * i` on, at most `c` of them. The first
`k` windows are the front part of the list (`flatten_windows`). A list is `Batched` by
chunks that are its elements in order, none of them empty or longer than the cap, as few
as that allows; `length / cap + 1` windows batch the list if and only if the cap does not
divide the length (`batched_windows_iff`).
-/

namespace Lib

variable {α : Type*}

def window (c : ℕ) (xs : List α) (i : ℕ) : List α := (xs.drop (c * i)).take c

/-- The elements of the list from `a` on, up to `b`. -/
def slice (xs : List α) (a b : ℕ) : List α := (xs.drop a).take (b - a)

/-- The chunks are the list, in order, with no chunk empty and none above the cap, and
there are as many as the length divided by the cap, rounded up. -/
structure Batched (cap : ℕ) (xs : List α) (chunks : List (List α)) : Prop where
  flatten : chunks.flatten = xs
  bound : ∀ c ∈ chunks, c.length ≤ cap
  nonempty : ∀ c ∈ chunks, c ≠ []
  count : chunks.length = (xs.length + cap - 1) / cap

variable {c k : ℕ} {xs : List α}

section Slices

variable {a b d : ℕ}

theorem length_slice : (slice xs a b).length = min b xs.length - a := by
  unfold slice
  rw [List.length_take, List.length_drop]
  omega

theorem slice_eq_nil_iff : slice xs a b = [] ↔ min b xs.length ≤ a := by
  rw [← List.length_eq_zero_iff, length_slice]
  omega

/-- Two slices that follow each other. -/
theorem slice_append (hab : a ≤ b) (hbd : b ≤ d) : slice xs a b ++ slice xs b d = slice xs a d := by
  unfold slice
  have hsplit : d - a = (b - a) + (d - b) := by omega
  have hdrop : (xs.drop a).drop (b - a) = xs.drop b := by
    rw [List.drop_drop]
    congr 1
    omega
  rw [hsplit, List.take_add, hdrop]

/-- What is behind the end is not there. -/
theorem slice_min : slice xs a (min b xs.length) = slice xs a b := by
  unfold slice
  rw [List.take_eq_take_iff, List.length_drop]
  omega

/-- A slice of a slice from the start of the list. -/
theorem slice_slice (hdb : d ≤ b) : slice (slice xs 0 b) a d = slice xs a d := by
  unfold slice
  rw [List.drop_zero, Nat.sub_zero, List.drop_take, List.take_take]
  congr 1
  omega

theorem slice_window (c : ℕ) (xs : List α) (i : ℕ) : slice xs (c * i) (c * (i + 1)) = window c xs i := by
  rw [slice, window, Nat.mul_succ, Nat.add_sub_cancel_left]

end Slices

/-- The first windows are the front part of the list. -/
theorem flatten_windows (c k : ℕ) (xs : List α) :
    ((List.range k).map (window c xs)).flatten = xs.take (c * k) := by
  induction k with
  | zero => simp
  | succ k ih =>
    rw [List.range_succ, List.map_append, List.flatten_append, ih, Nat.mul_succ, List.take_add]
    simp [window]

theorem length_window_le (c : ℕ) (xs : List α) (i : ℕ) : (window c xs i).length ≤ c :=
  List.length_take_le _ _

/-- A window is empty when it starts behind the list. -/
theorem window_eq_nil (hc : 0 < c) (xs : List α) (i : ℕ) : window c xs i = [] ↔ xs.length ≤ c * i := by
  unfold window
  rw [List.take_eq_nil_iff, List.drop_eq_nil_iff]
  constructor
  · rintro (hzero | hle)
    · omega
    · exact hle
  · exact Or.inr

/-- A window is the slice between two bounds, of which the second is one window later or the
end of the list. -/
theorem slice_eq_window (c : ℕ) (xs : List α) (i : ℕ) :
    slice xs (c * i) (min xs.length (c * (i + 1))) = window c xs i := by
  rw [Nat.min_comm, slice_min, slice_window]

/-- A window has the elements at its positions. -/
theorem mem_window_iff {x : α} {i : ℕ} : x ∈ window c xs i ↔ ∃ k, k < c ∧ xs[c * i + k]? = some x := by
  unfold window
  rw [List.mem_iff_getElem?]
  constructor
  · rintro ⟨k, hk⟩
    rw [List.getElem?_take, List.getElem?_drop] at hk
    split at hk
    · rename_i hlt
      exact ⟨k, hlt, hk⟩
    · cases hk
  · rintro ⟨k, hlt, hk⟩
    exact ⟨k, by rw [List.getElem?_take, if_pos hlt, List.getElem?_drop, hk]⟩

/-- An element of a list without duplicates is in one window only. -/
theorem window_inj (h : xs.Nodup) {x : α} {i j : ℕ} (hi : x ∈ window c xs i) (hj : x ∈ window c xs j) : i = j := by
  obtain ⟨k, hk, hx⟩ := mem_window_iff.1 hi
  obtain ⟨l, hl, hx'⟩ := mem_window_iff.1 hj
  have hlt : c * i + k < xs.length := (List.getElem?_eq_some_iff.1 hx).1
  have hpos : c * i + k = c * j + l := (List.getElem?_inj hlt h).1 (hx.trans hx'.symm)
  have hdiv : ∀ {n m : ℕ}, m < c → (c * n + m) / c = n := by
    intro n m hm
    rw [Nat.mul_add_div (Nat.lt_of_le_of_lt (Nat.zero_le m) hm), Nat.div_eq_of_lt hm, Nat.add_zero]
  rw [← hdiv (n := i) hk, hpos, hdiv hl]

/-- Each element is in one of the windows. -/
theorem mem_window (c : ℕ) (hc : 0 < c) {x : α} (hx : x ∈ xs) :
    ∃ i ∈ List.range (xs.length / c + 1), x ∈ window c xs i := by
  have hdiv : c * (xs.length / c) + xs.length % c = xs.length := Nat.div_add_mod _ _
  have hmod : xs.length % c < c := Nat.mod_lt _ hc
  have hall : xs.take (c * (xs.length / c + 1)) = xs := by
    refine List.take_of_length_le ?_
    rw [Nat.mul_succ]
    omega
  rw [← hall, ← flatten_windows] at hx
  obtain ⟨w, hw, hxw⟩ := List.mem_flatten.1 hx
  obtain ⟨i, hi, rfl⟩ := List.mem_map.1 hw
  exact ⟨i, hi, hxw⟩

/-- One window too many does not batch a list. -/
theorem batched_windows_iff (hc : 0 < c) (xs : List α) :
    Batched c xs ((List.range (xs.length / c + 1)).map (window c xs)) ↔ xs.length % c ≠ 0 := by
  have hdiv : c * (xs.length / c) + xs.length % c = xs.length := Nat.div_add_mod _ _
  have hmod : xs.length % c < c := Nat.mod_lt _ hc
  constructor
  · intro h hzero
    -- the last window starts at the end of the list
    have hlast : window c xs (xs.length / c) = [] := (window_eq_nil hc xs _).2 (by omega)
    exact h.nonempty _ (List.mem_map.2 ⟨_, List.mem_range.2 (Nat.lt_succ_self _), rfl⟩) hlast
  · intro hne
    refine ⟨?_, ?_, ?_, ?_⟩
    · rw [flatten_windows]
      refine List.take_of_length_le ?_
      rw [Nat.mul_succ]
      omega
    · intro w hw
      obtain ⟨i, -, rfl⟩ := List.mem_map.1 hw
      exact length_window_le c xs i
    · intro w hw hnil
      obtain ⟨i, hi, rfl⟩ := List.mem_map.1 hw
      have hle := (window_eq_nil hc xs i).1 hnil
      have hlt : i ≤ xs.length / c := Nat.le_of_lt_succ (List.mem_range.1 hi)
      have hmul : c * i ≤ c * (xs.length / c) := Nat.mul_le_mul_left c hlt
      omega
    · rw [List.length_map, List.length_range]
      -- rounding up adds one where there is a rest
      have hsplit : xs.length + c - 1 = c * (xs.length / c + 1) + (xs.length % c - 1) := by
        rw [Nat.mul_succ]
        omega
      have hrest : (xs.length % c - 1) / c = 0 := Nat.div_eq_of_lt (by omega)
      rw [hsplit, Nat.mul_add_div hc, hrest, Nat.add_zero]

/-- Nothing batches the empty list, and only that. -/
theorem batched_nil_iff (c : ℕ) (xs : List α) : Batched c xs [] ↔ xs = [] := by
  constructor
  · intro h
    exact h.flatten.symm
  · rintro rfl
    refine ⟨rfl, ?_, ?_, ?_⟩
    · intro w hw
      cases hw
    · intro w hw
      cases hw
    · rcases Nat.eq_zero_or_pos c with rfl | hc
      · simp
      · exact (Nat.div_eq_of_lt (by simp only [List.length_nil]; omega)).symm

end Lib
