import Mathlib.Data.List.Basic
import Mathlib.Logic.Function.Basic

/-!
# A part of a family and of a list

`keepOnly` is a family in which the members that are not kept have a default value; a write
to a member that is kept is one to the part (`keepOnly_update`), and a write to another
member is not seen (`keepOnly_update_of_not`). In a part of a list the place of an element
that is kept is known from its neighbour (`idxOf?_filter_succ`).
-/

namespace Lib

variable {ι β γ : Type}

def keepOnly (keep : ι → Bool) (d : β) (f : ι → β) (i : ι) : β := if keep i = true then f i else d

section Family

variable {keep : ι → Bool} {d b : β} {f : ι → β} {i : ι}

theorem keepOnly_of (h : keep i = true) : keepOnly keep d f i = f i := if_pos h

theorem keepOnly_of_not (h : keep i = false) : keepOnly keep d f i = d := by
  unfold keepOnly
  rw [h]
  rfl

variable [DecidableEq ι]

theorem keepOnly_update (h : keep i = true) :
    keepOnly keep d (Function.update f i b) = Function.update (keepOnly keep d f) i b := by
  funext j
  by_cases hj : j = i
  · subst hj
    rw [keepOnly_of h, Function.update_self, Function.update_self]
  · rw [Function.update_of_ne hj]
    unfold keepOnly
    rw [Function.update_of_ne hj]

theorem keepOnly_update_of_not (h : keep i = false) : keepOnly keep d (Function.update f i b) = keepOnly keep d f := by
  funext j
  by_cases hj : j = i
  · subst hj
    rw [keepOnly_of_not h, keepOnly_of_not h]
  · unfold keepOnly
    rw [Function.update_of_ne hj]

theorem keepOnly_map_update (h : keep i = true) (g : γ → β) (f : ι → γ) (c : γ) :
    keepOnly keep d (fun j => g (Function.update f i c j)) =
      Function.update (keepOnly keep d fun j => g (f j)) i (g c) := by
  rw [← keepOnly_update h]
  exact congrArg (keepOnly keep d) (Function.comp_update g f i c)

end Family

section Place

variable {α : Type} [BEq α] [LawfulBEq α] {p : α → Bool} {xs : List α} {x y : α}

theorem idxOf?_filter_none (h : xs.idxOf? x = none) : (xs.filter p).idxOf? x = none := by
  rw [List.idxOf?_eq_none_iff] at h ⊢
  exact fun hmem => h (List.mem_of_mem_filter hmem)

/-- The first element of a list is the first of a part that keeps it. -/
theorem idxOf?_filter_zero (hx : p x = true) (h : xs.idxOf? x = some 0) : (xs.filter p).idxOf? x = some 0 := by
  cases xs with
  | nil => cases h
  | cons z zs =>
    by_cases hz : z == x
    · obtain rfl := eq_of_beq hz
      rw [List.filter_cons_of_pos hx, List.idxOf?_cons, if_pos hz]
    · rw [List.idxOf?_cons, if_neg hz] at h
      obtain ⟨k, -, hk⟩ := Option.map_eq_some_iff.1 h
      omega

/-- An element that is kept comes after its neighbour also in the part, if that is kept. -/
theorem idxOf?_filter_succ {k : ℕ} (hx : p x = true) (hy : p y = true) (h : xs.idxOf? x = some (k + 1))
    (hprev : xs[k]? = some y) : ∃ j, (xs.filter p).idxOf? x = some (j + 1) ∧ (xs.filter p)[j]? = some y := by
  induction xs generalizing k with
  | nil => cases h
  | cons z zs ih =>
    have hz : ¬ (z == x) = true := by
      intro hz
      rw [List.idxOf?_cons, if_pos hz] at h
      cases h
    rw [List.idxOf?_cons, if_neg hz] at h
    obtain ⟨k', hk', hk⟩ := Option.map_eq_some_iff.1 h
    obtain rfl : k' = k := by omega
    cases k' with
    | zero =>
      -- the neighbour is the head, and `x` the first of the rest
      obtain rfl : z = y := by simpa using hprev
      refine ⟨0, ?_, ?_⟩
      · rw [List.filter_cons_of_pos hy, List.idxOf?_cons, if_neg hz, idxOf?_filter_zero hx hk']
        rfl
      · rw [List.filter_cons_of_pos hy]
        rfl
    | succ k' =>
      obtain ⟨j, hj, hjprev⟩ := ih hk' (by simpa using hprev)
      by_cases hpz : p z = true
      · refine ⟨j + 1, ?_, ?_⟩
        · rw [List.filter_cons_of_pos hpz, List.idxOf?_cons, if_neg hz, hj]
          rfl
        · rw [List.filter_cons_of_pos hpz, List.getElem?_cons_succ]
          exact hjprev
      · rw [List.filter_cons_of_neg hpz]
        exact ⟨j, hj, hjprev⟩

end Place

end Lib
