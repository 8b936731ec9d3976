import Mathlib.Data.List.DropRight
import Mathlib.Tactic.Common

/-!
# The indices of a character in a string

`String.indexOf` and `lastIndexOf` of Java, with `-1` for a character that does not occur, and
`substring` with both bounds; positions count characters. Between the last occurrence of a character
and the end is the longest end of the string without it (`substring_lastIndexOf`).
-/

namespace Lib

/-- `String.indexOf` of a character. -/
def indexOf (s : String) (c : Char) : ℤ :=
  match s.toList.findIdx? (· == c) with
  | some i => i
  | none => -1

/-- `String.lastIndexOf` of a character. -/
def lastIndexOf (s : String) (c : Char) : ℤ :=
  match s.toList.reverse.findIdx? (· == c) with
  | some i => s.toList.length - 1 - i
  | none => -1

/-- `String.substring`; `none` where the bounds are not in order or not in the string. -/
def substringOf (s : String) (beginIndex endIndex : ℤ) : Option String :=
  if 0 ≤ beginIndex ∧ beginIndex ≤ endIndex ∧ endIndex ≤ s.toList.length then
    some (String.ofList ((s.toList.take endIndex.toNat).drop beginIndex.toNat))
  else none

variable {s : String} {c : Char} {xs ys : List Char}

/-- An index is smaller than the length. -/
theorem indexOf_lt (s : String) (c : Char) : indexOf s c < s.toList.length ∨ indexOf s c = -1 := by
  unfold indexOf
  cases h : s.toList.findIdx? (· == c) with
  | none => exact .inr rfl
  | some i =>
    obtain ⟨hi, -⟩ := List.findIdx?_eq_some_iff_getElem.1 h
    exact .inl (Int.ofNat_lt.2 hi)

theorem bne_of_not_mem {x : Char} (h : c ∉ xs) (hx : x ∈ xs) : (x != c) = true := by
  have hne : x ≠ c := fun heq => h (heq ▸ hx)
  simpa using hne

theorem findIdx?_of_not_mem (h : c ∉ xs) : xs.findIdx? (· == c) = none := by
  refine List.findIdx?_eq_none_iff.2 fun x hx => ?_
  have hne : x ≠ c := fun heq => h (heq ▸ hx)
  simpa using hne

/-- The end of a list behind the last `c`. -/
theorem rtakeWhile_append_cons (h : c ∉ ys) : (xs ++ c :: ys).rtakeWhile (· != c) = ys := by
  have hall : ∀ x ∈ ys.reverse, (x != c) = true := fun x hx => bne_of_not_mem h (List.mem_reverse.1 hx)
  unfold List.rtakeWhile
  rw [List.reverse_append, List.reverse_cons, List.append_assoc, List.takeWhile_append_of_pos hall]
  simp

theorem rtakeWhile_of_not_mem (h : c ∉ xs) : xs.rtakeWhile (· != c) = xs :=
  List.rtakeWhile_eq_self_iff.2 fun _ hx => bne_of_not_mem h hx

/-- A list with a `c` is split at the last one. -/
theorem exists_last (h : c ∈ xs) : ∃ pre post, xs = pre ++ c :: post ∧ c ∉ post := by
  obtain ⟨as, bs, hreverse, has⟩ := List.eq_append_cons_of_mem (List.mem_reverse.2 h)
  refine ⟨bs.reverse, as.reverse, ?_, fun hmem => has (List.mem_reverse.1 hmem)⟩
  rw [← List.reverse_reverse xs, hreverse]
  simp

theorem lastIndexOf_of_not_mem (h : c ∉ s.toList) : lastIndexOf s c = -1 := by
  have hnone : s.toList.reverse.findIdx? (· == c) = none :=
    findIdx?_of_not_mem fun hc => h (List.mem_reverse.1 hc)
  unfold lastIndexOf
  rw [hnone]

theorem lastIndexOf_append (hs : s.toList = xs ++ c :: ys) (h : c ∉ ys) : lastIndexOf s c = xs.length := by
  have hfind : s.toList.reverse.findIdx? (· == c) = some ys.length := by
    have hnone : ys.reverse.findIdx? (· == c) = none := findIdx?_of_not_mem fun hc => h (List.mem_reverse.1 hc)
    rw [hs, List.reverse_append, List.reverse_cons, List.append_assoc, List.findIdx?_append, hnone]
    simp [List.findIdx?_cons]
  unfold lastIndexOf
  rw [hfind, hs, List.length_append, List.length_cons]
  push_cast
  omega

/-- **From behind the last `c` to the end.** -/
theorem substring_lastIndexOf (s : String) (c : Char) :
    substringOf s (lastIndexOf s c + 1) s.toList.length = some (String.ofList (s.toList.rtakeWhile (· != c))) := by
  by_cases hc : c ∈ s.toList
  · obtain ⟨xs, ys, hs, hys⟩ := exists_last hc
    have hbounds : 0 ≤ lastIndexOf s c + 1 ∧ lastIndexOf s c + 1 ≤ s.toList.length ∧
        (s.toList.length : ℤ) ≤ s.toList.length := by
      rw [lastIndexOf_append hs hys, hs, List.length_append, List.length_cons]
      omega
    have hstart : (lastIndexOf s c + 1).toNat = (xs ++ [c]).length := by
      rw [lastIndexOf_append hs hys, List.length_append, List.length_singleton]
      omega
    unfold substringOf
    rw [if_pos hbounds, Int.toNat_natCast, List.take_length, hstart, hs, rtakeWhile_append_cons hys,
      List.append_cons xs c ys, List.drop_left]
  · have hbounds : 0 ≤ lastIndexOf s c + 1 ∧ lastIndexOf s c + 1 ≤ s.toList.length ∧
        (s.toList.length : ℤ) ≤ s.toList.length := by
      rw [lastIndexOf_of_not_mem hc]
      omega
    unfold substringOf
    rw [if_pos hbounds, lastIndexOf_of_not_mem hc, rtakeWhile_of_not_mem hc]
    simp

end Lib
