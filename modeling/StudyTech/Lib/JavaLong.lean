import Mathlib.Data.List.DropRight
import Mathlib.Tactic.Common

/-!
# Java's `long` as text

`longText` is `Long.toString`, `parseLong` is `Long.parseLong` on the digits from `0` to `9`, and `splitComma`
is `String.split(",")`. A list of longs that is joined with commas is read back (`parse_join`).
-/

namespace Lib

/-- The value of a text of digits. -/
def digitsValue (cs : List Char) : Option ℕ :=
  if cs ≠ [] ∧ cs.all Char.isDigit = true then some (Nat.ofDigitChars 10 cs 0) else none

/-- `Long.parseLong`. -/
def parseLong (s : String) : Option ℤ :=
  match s.toList with
  | '-' :: cs => (digitsValue cs).bind fun n => if n ≤ 9223372036854775808 then some (-(n : ℤ)) else none
  | '+' :: cs => (digitsValue cs).bind fun n => if n ≤ 9223372036854775807 then some (n : ℤ) else none
  | cs => (digitsValue cs).bind fun n => if n ≤ 9223372036854775807 then some (n : ℤ) else none

/-- `Long.toString`. -/
def longText (n : ℤ) : String := if 0 ≤ n then n.toNat.repr else "-" ++ (-n).toNat.repr

/-- `String.split(",")`: the empty texts at the end are dropped, unless there is no comma. -/
def splitComma (s : String) : List String :=
  if ',' ∈ s.toList then ((s.toList.splitOn ',').map String.ofList).rdropWhile fun t => decide (t = "") else [s]

/-- A `long`. -/
def IsLong (n : ℤ) : Prop := -9223372036854775808 ≤ n ∧ n ≤ 9223372036854775807

instance (n : ℤ) : Decidable (IsLong n) := inferInstanceAs (Decidable (_ ∧ _))

theorem digitsValue_repr (n : ℕ) : digitsValue n.repr.toList = some n := by
  have hdigits : (Nat.toDigits 10 n).all Char.isDigit = true :=
    List.all_eq_true.2 fun c hc => Nat.isDigit_of_mem_toDigits (by decide) (by decide) hc
  unfold digitsValue
  rw [Nat.toList_repr, if_pos ⟨Nat.toDigits_ne_nil, hdigits⟩, Nat.ofDigitChars_ten_toDigits]

/-- The text of a number starts with no sign. -/
theorem repr_cons (n : ℕ) : ∃ c cs, n.repr.toList = c :: cs ∧ c ≠ '-' ∧ c ≠ '+' := by
  rw [Nat.toList_repr]
  cases hdigits : Nat.toDigits 10 n with
  | nil => exact absurd hdigits Nat.toDigits_ne_nil
  | cons c cs =>
    have hc : c.isDigit = true :=
      Nat.isDigit_of_mem_toDigits (n := n) (b := 10) (by decide) (by decide) (by rw [hdigits]; exact List.mem_cons_self)
    refine ⟨c, cs, rfl, ?_, ?_⟩
    · rintro rfl
      exact absurd hc (by decide)
    · rintro rfl
      exact absurd hc (by decide)

/-- **A `long` is read back.** -/
theorem parseLong_longText {n : ℤ} (h : IsLong n) : parseLong (longText n) = some n := by
  obtain ⟨hlo, hhi⟩ := h
  unfold longText
  split
  · obtain ⟨c, cs, hcons, hminus, hplus⟩ := repr_cons n.toNat
    have hvalue := digitsValue_repr n.toNat
    have hfits : n.toNat ≤ 9223372036854775807 := by omega
    unfold parseLong
    rw [hcons] at hvalue ⊢
    split
    · next heq => exact absurd (List.cons_eq_cons.1 heq).1 hminus
    · next heq => exact absurd (List.cons_eq_cons.1 heq).1 hplus
    · rw [hvalue, Option.bind_some, if_pos hfits]
      congr 1
      omega
  · have hvalue := digitsValue_repr (-n).toNat
    have hfits : (-n).toNat ≤ 9223372036854775808 := by omega
    have hcons : ("-" ++ (-n).toNat.repr).toList = '-' :: (-n).toNat.repr.toList := by
      rw [String.toList_append]
      rfl
    unfold parseLong
    rw [hcons]
    show ((digitsValue (-n).toNat.repr.toList).bind fun m =>
      if m ≤ 9223372036854775808 then some (-(m : ℤ)) else none) = some n
    rw [hvalue, Option.bind_some, if_pos hfits]
    congr 1
    omega

/-- The text of a `long` has no comma, and is not empty. -/
theorem longText_no_comma (n : ℤ) : ',' ∉ (longText n).toList ∧ longText n ≠ "" := by
  have hdigits : ∀ m : ℕ, ',' ∉ m.repr.toList := by
    intro m hm
    rw [Nat.toList_repr] at hm
    exact absurd (Nat.isDigit_of_mem_toDigits (by decide) (by decide) hm) (by decide)
  unfold longText
  split
  · exact ⟨hdigits _, Nat.repr_ne_empty⟩
  · rw [String.toList_append, List.mem_append]
    refine ⟨?_, ?_⟩
    · rintro (hm | hm)
      · exact absurd hm (by decide)
      · exact hdigits _ hm
    · intro hempty
      have htoList := congrArg String.toList hempty
      rw [String.toList_append] at htoList
      cases htoList

/-- Texts without commas that are joined with commas are split again, if the last one is not empty. -/
theorem splitComma_intercalate {ts : List String} (hne : ts ≠ []) (hcomma : ∀ t ∈ ts, ',' ∉ t.toList)
    (hlast : ∀ t ∈ ts, t ≠ "") : splitComma (",".intercalate ts) = ts := by
  have htoList : (",".intercalate ts).toList = [','].intercalate (ts.map String.toList) := String.toList_intercalate
  have hsplit : ((",".intercalate ts).toList.splitOn ',').map String.ofList = ts := by
    have hparts : ∀ cs ∈ ts.map String.toList, ',' ∉ cs := by
      intro cs hcs
      obtain ⟨t, ht, rfl⟩ := List.mem_map.1 hcs
      exact hcomma t ht
    rw [htoList, List.splitOn_intercalate ',' hparts (by simpa using hne), List.map_map]
    have hid : String.ofList ∘ String.toList = id := by
      funext t
      exact String.ofList_toList
    rw [hid, List.map_id]
  unfold splitComma
  split
  · rw [hsplit, List.rdropWhile_eq_self_iff]
    intro _ hempty
    exact hlast _ (List.getLast_mem hne) (of_decide_eq_true hempty)
  · next hnone =>
    -- with a comma between them, there is one text only
    cases ts with
    | nil => exact absurd rfl hne
    | cons t ts =>
      cases ts with
      | nil => rw [String.intercalate_singleton]
      | cons t' ts =>
        rw [htoList, List.map_cons, List.map_cons, List.intercalate_cons_cons] at hnone
        exact absurd (by simp) hnone

/-- **A list of `long`s that is joined with commas is read back.** -/
theorem parse_join {ids : List ℤ} (hne : ids ≠ []) (hlong : ∀ id ∈ ids, IsLong id) :
    (splitComma (",".intercalate (ids.map longText))).map parseLong = ids.map some := by
  have hcomma : ∀ t ∈ ids.map longText, ',' ∉ t.toList := by
    intro t ht
    obtain ⟨id, -, rfl⟩ := List.mem_map.1 ht
    exact (longText_no_comma id).1
  have hlast : ∀ t ∈ ids.map longText, t ≠ "" := by
    intro t ht
    obtain ⟨id, -, rfl⟩ := List.mem_map.1 ht
    exact (longText_no_comma id).2
  rw [splitComma_intercalate (by simpa using hne) hcomma hlast, List.map_map]
  exact List.map_congr_left fun id hid => parseLong_longText (hlong id hid)

end Lib
