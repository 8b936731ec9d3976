import Mathlib.Data.List.Sort
import StudyTech.Lib.Positional

/-!
# Java strings

Strings are compared by their UTF-16 code units (`String.compareTo`). `paddedDecimal`
is what the format `%010d` (with any width) makes of a number; numbers padded behind
one front part compare as numbers (`utf16_padded_lt`), and the front part and the
number can be read back (`padded_inj`).
-/

namespace Lib

/-- The UTF-16 code units of a string. -/
def utf16 (s : String) : List ℕ :=
  s.toList.flatMap fun c =>
    if c.toNat < 0x10000 then [c.toNat]
    else [0xd800 + (c.toNat - 0x10000) / 0x400, 0xdc00 + (c.toNat - 0x10000) % 0x400]

/-- `Collections.sort` of a list of strings, in the order of `String.compareTo`. -/
def sortStrings (xs : List String) : List String := xs.insertionSort fun a b => utf16 a ≤ utf16 b

/-- `String.substring`, of a string whose first characters are not surrogates. -/
def substring (s : String) (n : ℕ) : String := String.ofList (s.toList.drop n)

/-- A number in decimal, padded with zeros to a width. -/
def paddedDecimal (width n : ℕ) : String := String.ofList (numeral (fun d => Char.ofNat (48 + d)) 10 width n)

/-- The code units of a character. -/
def codeUnits (c : Char) : List ℕ :=
  if c.toNat < 0x10000 then [c.toNat]
  else [0xd800 + (c.toNat - 0x10000) / 0x400, 0xdc00 + (c.toNat - 0x10000) % 0x400]

theorem utf16_eq (s : String) : utf16 s = s.toList.flatMap codeUnits := rfl

/-- The code units of a character end where they end: a surrogate is no character. -/
theorem codeUnits_inj {c d : Char} {xs ys : List ℕ} (h : codeUnits c ++ xs = codeUnits d ++ ys) :
    c = d ∧ xs = ys := by
  have hvalid : ∀ e : Char, e.toNat < 0xd800 ∨ (0xdfff < e.toNat ∧ e.toNat < 0x110000) := fun e => e.valid
  have hc := hvalid c
  have hd := hvalid d
  have heq : c.toNat = d.toNat → c = d := fun h => Char.toNat_inj.1 h
  unfold codeUnits at h
  split at h
  · split at h
    · obtain ⟨hhead, htail⟩ := List.cons.inj h
      exact ⟨heq hhead, htail⟩
    · have hhead := (List.cons.inj h).1
      omega
  · split at h
    · have hhead := (List.cons.inj h).1
      omega
    · obtain ⟨hhigh, hrest⟩ := List.cons.inj h
      obtain ⟨hlow, htail⟩ := List.cons.inj hrest
      exact ⟨heq (by omega), htail⟩

/-- Strings with the same code units are the same. -/
theorem utf16_inj {s t : String} (h : utf16 s = utf16 t) : s = t := by
  rw [utf16_eq, utf16_eq] at h
  refine String.toList_inj.1 ?_
  generalize s.toList = cs at h
  generalize t.toList = ds at h
  -- a character has code units, so both lists end at once
  have hcons : ∀ (c : Char) (xs : List ℕ), codeUnits c ++ xs ≠ [] := by
    intro c xs
    unfold codeUnits
    split <;> simp
  induction cs generalizing ds with
  | nil =>
    cases ds with
    | nil => rfl
    | cons d ds => exact absurd h.symm (hcons d _)
  | cons c cs ih =>
    cases ds with
    | nil => exact absurd h (hcons c _)
    | cons d ds =>
      rw [List.flatMap_cons, List.flatMap_cons] at h
      obtain ⟨rfl, htail⟩ := codeUnits_inj h
      rw [ih ds htail]

theorem utf16_append (s t : String) : utf16 (s ++ t) = utf16 s ++ utf16 t := by
  simp [utf16]

theorem substring_append (s t : String) : substring (s ++ t) s.length = t := by
  unfold substring
  rw [String.toList_append, ← String.length_toList, List.drop_left, String.ofList_toList]

theorem utf16_paddedDecimal {width n : ℕ} (hn : n < 10 ^ width) :
    utf16 (paddedDecimal width n) = numeral (48 + ·) 10 width n := by
  unfold utf16 paddedDecimal
  rw [String.toList_ofList]
  exact flatMap_numeral (by decide) hn

/-- Numbers padded behind one front part compare as numbers. -/
theorem utf16_padded_lt {width m n : ℕ} (front : String) (hmn : m < n) (hn : n < 10 ^ width) :
    utf16 (front ++ paddedDecimal width m) < utf16 (front ++ paddedDecimal width n) := by
  have hm : m < 10 ^ width := Nat.lt_trans hmn hn
  rw [utf16_append, utf16_append, utf16_paddedDecimal hm, utf16_paddedDecimal hn]
  exact append_numeral_lt (fun a b hab => by simpa using hab) hmn hn _

theorem padded_inj {width m n : ℕ} {s t : String} (hm : m < 10 ^ width) (hn : n < 10 ^ width)
    (h : s ++ paddedDecimal width m = t ++ paddedDecimal width n) : s = t ∧ m = n := by
  have hlists := congrArg String.toList h
  rw [String.toList_append, String.toList_append] at hlists
  -- both end in `width` characters, which are the numbers
  have hparts := List.append_inj' hlists (by simp [paddedDecimal])
  have hfront : s = t := String.toList_inj.1 hparts.1
  refine ⟨hfront, ?_⟩
  have hsame : paddedDecimal width m = paddedDecimal width n := String.toList_inj.1 hparts.2
  -- different numbers have different numerals
  rcases Nat.lt_trichotomy m n with hlt | heq | hlt
  · have hlt' := utf16_padded_lt s hlt hn
    rw [hsame] at hlt'
    exact absurd hlt' (lt_irrefl _)
  · exact heq
  · have hlt' := utf16_padded_lt s hlt hm
    rw [hsame] at hlt'
    exact absurd hlt' (lt_irrefl _)

section Sorting

variable {xs : List String} {x y : String}

theorem mem_sortStrings : x ∈ sortStrings xs ↔ x ∈ xs := List.mem_insertionSort _

theorem pairwise_sortStrings (xs : List String) :
    (sortStrings xs).Pairwise fun a b => utf16 a ≤ utf16 b := by
  have : Std.Total fun a b : String => utf16 a ≤ utf16 b := ⟨fun a b => le_total (utf16 a) (utf16 b)⟩
  have : IsTrans String fun a b => utf16 a ≤ utf16 b := ⟨fun _ _ _ h h' => le_trans h h'⟩
  exact List.pairwise_insertionSort _ xs

/-- The first string of a sorted list is a least one. -/
theorem head_sortStrings_le (hx : (sortStrings xs).idxOf? x = some 0) (hy : y ∈ xs) :
    utf16 x ≤ utf16 y := by
  obtain ⟨h0, hx0, -⟩ := List.idxOf?_eq_some_iff.1 hx
  obtain ⟨j, hj, rfl⟩ := List.mem_iff_getElem.1 (mem_sortStrings.2 hy)
  subst hx0
  rcases Nat.eq_zero_or_pos j with rfl | hpos
  · exact le_refl _
  · exact List.pairwise_iff_getElem.1 (pairwise_sortStrings xs) 0 j h0 hj hpos

/-- The string before the first `x` of a sorted list is a smaller one of the list. -/
theorem prev_sortStrings_le {k : ℕ} (hx : (sortStrings xs).idxOf? x = some (k + 1))
    (hy : (sortStrings xs)[k]? = some y) : y ∈ xs ∧ utf16 y ≤ utf16 x ∧ y ≠ x := by
  obtain ⟨hk, hxk, hfirst⟩ := List.idxOf?_eq_some_iff.1 hx
  obtain ⟨hk', hyk⟩ := List.getElem?_eq_some_iff.1 hy
  refine ⟨mem_sortStrings.1 (List.mem_of_getElem? hy), ?_, ?_⟩
  · have hle := List.pairwise_iff_getElem.1 (pairwise_sortStrings xs) k (k + 1) hk' hk (Nat.lt_succ_self k)
    rwa [hxk, hyk] at hle
  · rw [← hyk]
    exact hfirst k (Nat.lt_succ_self k)

/-- The string before the first `x` of a sorted list is the greatest of the smaller ones. -/
theorem prev_sortStrings_greatest {k : ℕ} (hx : (sortStrings xs).idxOf? x = some (k + 1))
    (hy : (sortStrings xs)[k]? = some y) {d : String} (hd : d ∈ xs) (hlt : utf16 d < utf16 x) : utf16 d ≤ utf16 y := by
  obtain ⟨hk, hxk, -⟩ := List.idxOf?_eq_some_iff.1 hx
  obtain ⟨hk', hyk⟩ := List.getElem?_eq_some_iff.1 hy
  obtain ⟨j, hj, rfl⟩ := List.mem_iff_getElem.1 (mem_sortStrings.2 hd)
  have hsorted := List.pairwise_iff_getElem.1 (pairwise_sortStrings xs)
  -- from the place of `x` on nothing is smaller than `x`
  have hjk : j ≤ k := by
    by_contra hgt
    rcases Nat.eq_or_lt_of_le (Nat.succ_le_of_lt (not_le.1 hgt)) with heq | hgt
    · subst heq
      rw [hxk] at hlt
      exact lt_irrefl _ hlt
    · have hle := hsorted (k + 1) j hk hj hgt
      rw [hxk] at hle
      exact absurd hlt (not_lt.2 hle)
  rcases Nat.eq_or_lt_of_le hjk with heq | hlt'
  · subst heq
    rw [hyk]
  · have hle := hsorted j k hj hk' hlt'
    rwa [hyk] at hle

/-- A string comes first if and only if no other is before it. -/
theorem first_sortStrings_iff :
    (sortStrings xs).idxOf? x = some 0 ↔ x ∈ xs ∧ ∀ y ∈ xs, utf16 x ≤ utf16 y := by
  constructor
  · intro hx
    have hmem : x ∈ sortStrings xs := List.isSome_idxOf?.1 (by rw [hx]; rfl)
    exact ⟨mem_sortStrings.1 hmem, fun y hy => head_sortStrings_le hx hy⟩
  · rintro ⟨hmem, hle⟩
    cases hk : (sortStrings xs).idxOf? x with
    | none => exact absurd (mem_sortStrings.2 hmem) (List.idxOf?_eq_none_iff.1 hk)
    | some k =>
      cases k with
      | zero => rfl
      | succ k =>
        obtain ⟨hk', -, -⟩ := List.idxOf?_eq_some_iff.1 hk
        obtain ⟨hy, hyle, hne⟩ := prev_sortStrings_le hk (List.getElem?_eq_getElem (by omega))
        exact absurd (utf16_inj (le_antisymm hyle (hle _ hy))) hne

/-- A part of the sorted list is the sorted part. -/
theorem sortStrings_filter (p : String → Bool) : sortStrings (xs.filter p) = (sortStrings xs).filter p := by
  refine List.Perm.eq_of_pairwise (fun a b _ _ hab hba => utf16_inj (le_antisymm hab hba)) (pairwise_sortStrings _)
    ((pairwise_sortStrings xs).filter p) ?_
  have hperm : List.Perm (sortStrings xs) xs := List.perm_insertionSort _ xs
  exact (List.perm_insertionSort _ _).trans (hperm.filter p).symm

end Sorting

end Lib
