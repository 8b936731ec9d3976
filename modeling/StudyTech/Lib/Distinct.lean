import Mathlib.Data.List.Nodup
import Mathlib.Data.Nat.Notation
import Mathlib.Tactic.Common

/-!
# The distinct elements of a list

`List.eraseDups` keeps the first occurrence of every element. It has no duplicates
(`nodup_eraseDups`), and an element is among the first `n` of it if and only if fewer than `n`
distinct elements are in front of one of its occurrences (`mem_take_eraseDups`). A list of pairs
has no duplicates if and only if no `fiber` of it has, the second components that stand with one
first component (`nodup_iff_fiber`).
-/

namespace Lib

section EraseDups

variable {α : Type*} [BEq α] [LawfulBEq α] {x : α} {n : ℕ} {xs : List α}

theorem nodup_eraseDups (xs : List α) : xs.eraseDups.Nodup := by
  induction hlength : xs.length using Nat.strongRecOn generalizing xs with
  | ind n ih =>
    cases xs with
    | nil => exact List.nodup_nil
    | cons x xs =>
      have hlt : (xs.filter fun y => !y == x).length < n :=
        Nat.lt_of_le_of_lt (List.length_filter_le _ _) (hlength ▸ Nat.lt_succ_self _)
      rw [List.eraseDups_cons, List.nodup_cons]
      exact ⟨by simp, ih _ hlt _ rfl⟩

/-- A new element comes behind the distinct elements in front of it. -/
theorem eraseDups_split (ys : List α) (h : x ∉ xs) : ∃ rest, (xs ++ x :: ys).eraseDups = xs.eraseDups ++ x :: rest := by
  have hkeep : (x :: ys).removeAll xs = x :: ys.removeAll xs := by
    have hcontains : xs.contains x = false := by
      rw [← Bool.not_eq_true, List.contains_iff_mem]
      exact h
    rw [List.cons_removeAll, hcontains]
    rfl
  rw [List.eraseDups_append, hkeep, List.eraseDups_cons]
  exact ⟨_, rfl⟩

/-- The distinct elements of a front part come first. -/
theorem eraseDups_prefix (xs ys : List α) : xs.eraseDups <+: (xs ++ ys).eraseDups := by
  rw [List.eraseDups_append]
  exact List.prefix_append _ _

theorem mem_take_eraseDups :
    x ∈ xs.eraseDups.take n ↔ ∃ before after, xs = before ++ x :: after ∧ before.eraseDups.length < n := by
  constructor
  · intro hx
    have hmem : x ∈ xs := List.mem_eraseDups.1 (List.mem_of_mem_take hx)
    obtain ⟨before, after, rfl, hnot⟩ := List.eq_append_cons_of_mem hmem
    refine ⟨before, after, rfl, ?_⟩
    obtain ⟨rest, hrest⟩ := eraseDups_split after hnot
    by_contra hle
    have htake : (before ++ x :: after).eraseDups.take n = before.eraseDups.take n := by
      rw [hrest, List.take_append_of_le_length (Nat.not_lt.1 hle)]
    rw [htake] at hx
    exact hnot (List.mem_eraseDups.1 (List.mem_of_mem_take hx))
  · rintro ⟨before, after, rfl, hlt⟩
    by_cases hx : x ∈ before
    · -- it occurs further in front, too
      obtain ⟨rest, hrest⟩ := eraseDups_prefix before (x :: after)
      rw [← hrest, List.take_append, List.take_of_length_le (Nat.le_of_lt hlt)]
      exact List.mem_append_left _ (List.mem_eraseDups.2 hx)
    · obtain ⟨rest, hrest⟩ := eraseDups_split after hx
      rw [hrest, List.take_append, List.take_of_length_le (Nat.le_of_lt hlt)]
      obtain ⟨k, hk⟩ : ∃ k, n - before.eraseDups.length = k + 1 := ⟨n - before.eraseDups.length - 1, by omega⟩
      rw [hk, List.take_succ_cons]
      exact List.mem_append_right _ List.mem_cons_self

end EraseDups

section Fiber

variable {α β : Type*} [DecidableEq α] {a : α} {b : β} {xs : List (α × β)}

def fiber (a : α) (xs : List (α × β)) : List β := xs.filterMap fun x => if x.1 = a then some x.2 else none

theorem mem_fiber : b ∈ fiber a xs ↔ (a, b) ∈ xs := by
  unfold fiber
  rw [List.mem_filterMap]
  constructor
  · rintro ⟨⟨a', b'⟩, hmem, heq⟩
    simp only [Option.ite_none_right_eq_some, Option.some.injEq] at heq
    obtain ⟨rfl, rfl⟩ := heq
    exact hmem
  · intro hmem
    exact ⟨(a, b), hmem, if_pos rfl⟩

theorem fiber_append (a : α) (xs ys : List (α × β)) : fiber a (xs ++ ys) = fiber a xs ++ fiber a ys :=
  List.filterMap_append

theorem fiber_cons_self (a : α) (b : β) (xs : List (α × β)) : fiber a ((a, b) :: xs) = b :: fiber a xs := by
  rw [fiber, List.filterMap_cons, if_pos rfl]
  rfl

theorem nodup_iff_fiber : xs.Nodup ↔ ∀ a, (fiber a xs).Nodup := by
  constructor
  · intro h a
    refine List.Nodup.filterMap (fun x y b hx hy => ?_) h
    simp only [Option.mem_def, Option.ite_none_right_eq_some, Option.some.injEq] at hx hy
    exact Prod.ext (hx.1.trans hy.1.symm) (hx.2.trans hy.2.symm)
  · intro h
    induction xs with
    | nil => exact List.nodup_nil
    | cons x xs ih =>
      have hself := h x.1
      rw [fiber_cons_self, List.nodup_cons, mem_fiber] at hself
      refine List.nodup_cons.2 ⟨hself.1, ih fun a => ?_⟩
      exact (h a).sublist ((List.sublist_cons_self x xs).filterMap _)

end Fiber

end Lib
