import Mathlib.Data.List.Basic
import Mathlib.Tactic.Common

/-!
# Splitting at a separator, and pieces in order

A list, or a string, is split in one way only before the first occurrence of a separator.
An output is in order for a list of items if it is a piece for each of them, one after the
other.
-/

namespace Lib

variable {α : Type*} {x : α} {xs ys pre post : List α}

/-- Where a list with `x` is split before an `x` that its front part does not have. -/
theorem append_eq_split (h : xs ++ ys = pre ++ x :: post) (hx : x ∉ xs) :
    ∃ pre', pre = xs ++ pre' ∧ ys = pre' ++ x :: post := by
  rcases List.append_eq_append_iff.1 h with ⟨pre', hpre, hys⟩ | ⟨rest, hxs, hrest⟩
  · exact ⟨pre', hpre, hys⟩
  · cases rest with
    | nil => exact ⟨[], by simpa using hxs.symm, by simpa using hrest.symm⟩
    | cons y rest =>
      obtain rfl : x = y := (List.cons.inj hrest).1
      exact absurd (hxs ▸ List.mem_append_right pre List.mem_cons_self) hx

/-- The parts before and after the first `x` are determined. -/
theorem split_inj (h : xs ++ x :: ys = pre ++ x :: post) (hxs : x ∉ xs) (hpre : x ∉ pre) : xs = pre ∧ ys = post := by
  obtain ⟨rest, rfl, hrest⟩ := append_eq_split h hxs
  cases rest with
  | nil =>
    obtain ⟨-, rfl⟩ := List.cons.inj hrest
    exact ⟨(List.append_nil xs).symm, rfl⟩
  | cons y rest =>
    obtain ⟨rfl, -⟩ := List.cons.inj hrest
    exact absurd (List.mem_append_right xs List.mem_cons_self) hpre

/-- The same for strings, with a colon between the parts. -/
theorem colon_inj {a b s t : String} (ha : ':' ∉ a.toList) (hb : ':' ∉ b.toList) :
    a ++ (":" ++ s) = b ++ (":" ++ t) ↔ a = b ∧ s = t := by
  constructor
  · intro h
    have hlists := congrArg String.toList h
    simp only [String.toList_append] at hlists
    obtain ⟨hfront, hrest⟩ := split_inj hlists ha hb
    exact ⟨String.toList_inj.1 hfront, String.toList_inj.1 hrest⟩
  · rintro ⟨rfl, rfl⟩
    rfl

variable {β : Type*} {R : α → List β → Prop} {out : List β}

/-- The output is one piece for each item, in the order of the items and nothing else. -/
inductive Pieces (R : α → List β → Prop) : List α → List β → Prop
  | nil : Pieces R [] []
  | cons {x : α} {xs : List α} {piece rest : List β} (hpiece : R x piece) (hrest : Pieces R xs rest) :
    Pieces R (x :: xs) (piece ++ rest)

/-- Each item has its piece. -/
theorem Pieces.exists_piece (h : Pieces R xs out) (hx : x ∈ xs) : ∃ piece, R x piece := by
  induction h with
  | nil => cases hx
  | cons hpiece _ ih =>
    rcases List.mem_cons.1 hx with rfl | hx
    · exact ⟨_, hpiece⟩
    · exact ih hx

/-- Where each item has one piece only, this is the concatenation of the pieces. -/
theorem pieces_iff_flatMap {f : α → List β} (h : ∀ x piece, R x piece ↔ piece = f x) (xs : List α) (out : List β) :
    Pieces R xs out ↔ out = xs.flatMap f := by
  constructor
  · intro hout
    induction hout with
    | nil => rfl
    | cons hpiece _ ih => rw [(h _ _).1 hpiece, ih, List.flatMap_cons]
  · rintro rfl
    induction xs with
    | nil => exact .nil
    | cons x xs ih => exact .cons ((h _ _).2 rfl) ih

section Pairs

variable {R : α → β → Prop} {zs : List β} {z : β}

theorem exists_of_mem_right (h : List.Forall₂ R xs zs) (hz : z ∈ zs) : ∃ x ∈ xs, R x z := by
  induction h with
  | nil => cases hz
  | cons hR _ ih =>
    rcases List.mem_cons.1 hz with rfl | hz
    · exact ⟨_, List.mem_cons_self, hR⟩
    · obtain ⟨x, hx, hxz⟩ := ih hz
      exact ⟨x, List.mem_cons_of_mem _ hx, hxz⟩

/-- What belongs to an item, and before and behind it what belongs to others. -/
theorem forall₂_split (h : List.Forall₂ R xs zs) (hx : x ∈ xs) (hnodup : xs.Nodup) :
    ∃ pre z post, zs = pre ++ z :: post ∧ R x z ∧ ∀ other ∈ pre ++ post, ∃ y ∈ xs, y ≠ x ∧ R y other := by
  induction h with
  | nil => cases hx
  | @cons y z xs zs hR hrest ih =>
    obtain ⟨hy, hnodup⟩ := List.nodup_cons.1 hnodup
    rcases List.mem_cons.1 hx with rfl | hx
    · refine ⟨[], z, zs, rfl, hR, fun other hother => ?_⟩
      obtain ⟨y, hyxs, hother⟩ := exists_of_mem_right hrest hother
      exact ⟨y, List.mem_cons_of_mem _ hyxs, fun heq => hy (heq ▸ hyxs), hother⟩
    · obtain ⟨pre, z', post, rfl, hz', hothers⟩ := ih hx hnodup
      refine ⟨z :: pre, z', post, rfl, hz', fun other hother => ?_⟩
      rcases List.mem_cons.1 hother with rfl | hother
      · exact ⟨y, List.mem_cons_self, fun heq => hy (heq ▸ hx), hR⟩
      · obtain ⟨y', hy', hne, hother⟩ := hothers other hother
        exact ⟨y', List.mem_cons_of_mem _ hy', hne, hother⟩

end Pairs

end Lib
