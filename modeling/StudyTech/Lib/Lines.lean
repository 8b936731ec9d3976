import Mathlib.Algebra.Ring.Nat
import Mathlib.Data.List.Basic
import Mathlib.Data.List.GetD
import Mathlib.Data.List.TakeDrop
import Mathlib.Data.Nat.Notation
import Mathlib.Tactic.Common

/-!
# Texts as lists of lines

A text is a nonempty list of lines. `glue` puts a text behind another one: the last line of the first goes on
with the first line of the second. It is associative, and joining the lines with a separator makes a
concatenation of it (`intercalate_glue`).

A position is the number of a line and a number of letters in it. Positions of a text are the ways of splitting
it: `upTo` and `behind` are the parts before and behind a position (`glue_upTo_behind`), and `endOf` is the position
at which two texts are glued (`upTo_glue`, `behind_glue`). What is between two positions is determined by
`glue_between`, and `splice` puts another text in its place.
-/

namespace Lib

variable {α : Type*}

/-- A text behind another one. -/
def glue : List (List α) → List (List α) → List (List α)
  | [], ys => ys
  | [x], [] => [x]
  | [x], y :: ys => (x ++ y) :: ys
  | x :: x' :: xs, ys => x :: glue (x' :: xs) ys

/-- The text before a position. -/
def upTo (xs : List (List α)) (p : ℕ × ℕ) : List (List α) := xs.take p.1 ++ [(xs.getD p.1 []).take p.2]

/-- The text behind a position. -/
def behind (xs : List (List α)) (p : ℕ × ℕ) : List (List α) := (xs.getD p.1 []).drop p.2 :: xs.drop (p.1 + 1)

/-- The text between two positions. -/
def between (xs : List (List α)) (p q : ℕ × ℕ) : List (List α) := behind (upTo xs q) p

/-- Another text in place of what is between two positions. -/
def splice (xs : List (List α)) (p q : ℕ × ℕ) (text : List (List α)) : List (List α) :=
  glue (upTo xs p) (glue text (behind xs q))

/-- The position behind a text. -/
def endOf (xs : List (List α)) : ℕ × ℕ := (xs.length - 1, (xs.getLastD []).length)

/-- The position exists. -/
def HasPos (xs : List (List α)) (p : ℕ × ℕ) : Prop := ∃ x, xs[p.1]? = some x ∧ p.2 ≤ x.length

/-- The order of positions. -/
def PosLe (p q : ℕ × ℕ) : Prop := p.1 < q.1 ∨ p.1 = q.1 ∧ p.2 ≤ q.2

variable {xs ys zs text : List (List α)} {p q : ℕ × ℕ}

instance decidableHasPos (xs : List (List α)) (p : ℕ × ℕ) : Decidable (HasPos xs p) :=
  match h : xs[p.1]? with
  | none => isFalse fun ⟨_, hx, _⟩ => nomatch h.symm.trans hx
  | some x => decidable_of_iff (p.2 ≤ x.length)
    ⟨fun hle => ⟨x, h, hle⟩, fun ⟨_, hx, hle⟩ => Option.some.inj (h.symm.trans hx) ▸ hle⟩

instance decidablePosLe (p q : ℕ × ℕ) : Decidable (PosLe p q) :=
  inferInstanceAs (Decidable (p.1 < q.1 ∨ p.1 = q.1 ∧ p.2 ≤ q.2))

@[simp] theorem nil_glue (ys : List (List α)) : glue [] ys = ys := rfl

@[simp] theorem glue_concat_cons (xs : List (List α)) (x y : List α) (ys : List (List α)) :
    glue (xs ++ [x]) (y :: ys) = xs ++ (x ++ y) :: ys := by
  induction xs with
  | nil => rfl
  | cons x' xs ih =>
    obtain ⟨x'', tail, htail⟩ :=
      List.exists_cons_of_ne_nil (List.append_ne_nil_of_right_ne_nil xs (List.cons_ne_nil x []))
    rw [List.cons_append, List.cons_append, ← ih, htail]
    rfl

@[simp] theorem glue_nil (xs : List (List α)) : glue xs [] = xs := by
  induction xs with
  | nil => rfl
  | cons x xs ih =>
    cases xs with
    | nil => rfl
    | cons x' xs => exact congrArg (x :: ·) ih

theorem glue_ne_nil (h : xs ≠ []) (ys : List (List α)) : glue xs ys ≠ [] := by
  cases ys with
  | nil => rwa [glue_nil]
  | cons y ys =>
    obtain ⟨xs, x, rfl⟩ := (List.eq_nil_or_concat' xs).resolve_left h
    rw [glue_concat_cons]
    exact List.append_ne_nil_of_right_ne_nil _ (List.cons_ne_nil _ _)

theorem glue_assoc (xs ys zs : List (List α)) : glue (glue xs ys) zs = glue xs (glue ys zs) := by
  induction xs with
  | nil => rfl
  | cons x xs ih =>
    cases xs with
    | nil =>
      cases ys with
      | nil => rw [glue_nil, nil_glue]
      | cons y ys =>
        cases ys with
        | nil =>
          cases zs with
          | nil => rfl
          | cons z zs => exact congrArg (· :: zs) (List.append_assoc x y z)
        | cons y' ys => rfl
    | cons x' xs =>
      obtain ⟨w, ws, hw⟩ := List.exists_cons_of_ne_nil (glue_ne_nil (List.cons_ne_nil x' xs) ys)
      show glue (x :: glue (x' :: xs) ys) zs = x :: glue (x' :: xs) (glue ys zs)
      rw [← ih, hw]
      rfl

/-- The empty text. -/
theorem unit_glue (hys : ys ≠ []) : glue [[]] ys = ys := by
  obtain ⟨y, ys, rfl⟩ := List.exists_cons_of_ne_nil hys
  rfl

theorem glue_unit (hxs : xs ≠ []) : glue xs [[]] = xs := by
  obtain ⟨xs, x, rfl⟩ := (List.eq_nil_or_concat' xs).resolve_left hxs
  rw [glue_concat_cons, List.append_nil]

/-- The text of the whole is that of its two parts. -/
theorem intercalate_glue (sep : List α) (hxs : xs ≠ []) (hys : ys ≠ []) :
    sep.intercalate (glue xs ys) = sep.intercalate xs ++ sep.intercalate ys := by
  induction xs with
  | nil => exact absurd rfl hxs
  | cons x xs ih =>
    obtain ⟨y, ys, rfl⟩ := List.exists_cons_of_ne_nil hys
    cases xs with
    | nil =>
      rw [List.intercalate_singleton]
      cases ys with
      | nil =>
        show sep.intercalate [x ++ y] = _
        rw [List.intercalate_singleton, List.intercalate_singleton]
      | cons y' ys =>
        show sep.intercalate ((x ++ y) :: y' :: ys) = _
        rw [List.intercalate_cons_cons, List.intercalate_cons_cons]
        simp only [List.append_assoc]
    | cons x' xs =>
      have hne : glue (x' :: xs) (y :: ys) ≠ [] := glue_ne_nil (List.cons_ne_nil _ _) _
      show sep.intercalate (x :: glue (x' :: xs) (y :: ys)) = _
      rw [List.intercalate_cons_of_ne_nil hne, ih (List.cons_ne_nil _ _), List.intercalate_cons_cons]
      simp only [List.append_assoc]

section Positions

theorem upTo_ne_nil (xs : List (List α)) (p : ℕ × ℕ) : upTo xs p ≠ [] :=
  List.append_ne_nil_of_right_ne_nil _ (List.cons_ne_nil _ _)

theorem behind_ne_nil (xs : List (List α)) (p : ℕ × ℕ) : behind xs p ≠ [] := List.cons_ne_nil _ _

theorem between_ne_nil (xs : List (List α)) (p q : ℕ × ℕ) : between xs p q ≠ [] := behind_ne_nil _ _

theorem splice_ne_nil (xs : List (List α)) (p q : ℕ × ℕ) (text : List (List α)) : splice xs p q text ≠ [] :=
  glue_ne_nil (upTo_ne_nil _ _) _

/-- A position splits the text. -/
theorem glue_upTo_behind (h : p.1 < xs.length) : glue (upTo xs p) (behind xs p) = xs := by
  unfold upTo behind
  rw [glue_concat_cons, List.take_append_drop, List.getD_eq_getElem _ _ h, List.cons_getElem_drop_succ,
    List.take_append_drop]

theorem HasPos.lt (h : HasPos xs p) : p.1 < xs.length := by
  obtain ⟨x, hx, -⟩ := h
  exact (List.getElem?_eq_some_iff.1 hx).1

theorem endOf_upTo (h : HasPos xs p) : endOf (upTo xs p) = p := by
  obtain ⟨x, hx, hle⟩ := h
  obtain ⟨hlt, hget⟩ := List.getElem?_eq_some_iff.1 hx
  unfold endOf upTo
  rw [List.length_append, List.length_take, List.getLastD_concat, List.getD_eq_getElem _ _ hlt, hget, List.length_take,
    List.length_singleton]
  refine Prod.ext ?_ ?_
  · show min p.1 xs.length + 1 - 1 = p.1
    omega
  · show min p.2 x.length = p.2
    omega

/-- Where two texts are glued is a position, and the parts are they. -/
theorem endOf_glue (hxs : xs ≠ []) (hys : ys ≠ []) :
    HasPos (glue xs ys) (endOf xs) ∧ upTo (glue xs ys) (endOf xs) = xs ∧ behind (glue xs ys) (endOf xs) = ys := by
  obtain ⟨xs, x, rfl⟩ := (List.eq_nil_or_concat' xs).resolve_left hxs
  obtain ⟨y, ys, rfl⟩ := List.exists_cons_of_ne_nil hys
  have hend : endOf (xs ++ [x]) = (xs.length, x.length) := by
    unfold endOf
    rw [List.length_append, List.getLastD_concat]
    rfl
  have hget : (xs ++ (x ++ y) :: ys)[xs.length]? = some (x ++ y) := by
    rw [List.getElem?_append_right (Nat.le_refl _), Nat.sub_self]
    rfl
  rw [hend, glue_concat_cons]
  refine ⟨⟨x ++ y, hget, ?_⟩, ?_, ?_⟩
  · show x.length ≤ (x ++ y).length
    rw [List.length_append]
    exact Nat.le_add_right _ _
  · unfold upTo
    rw [List.getD_eq_getElem?_getD, hget, List.take_left' rfl]
    show xs ++ [(x ++ y).take x.length] = xs ++ [x]
    rw [List.take_left' rfl]
  · unfold behind
    rw [List.getD_eq_getElem?_getD, hget]
    show (x ++ y).drop x.length :: (xs ++ (x ++ y) :: ys).drop (xs.length + 1) = y :: ys
    rw [List.drop_left' rfl, ← List.drop_drop, List.drop_left' rfl]
    rfl

theorem upTo_glue (hxs : xs ≠ []) (hys : ys ≠ []) : upTo (glue xs ys) (endOf xs) = xs := (endOf_glue hxs hys).2.1

theorem behind_glue (hxs : xs ≠ []) (hys : ys ≠ []) : behind (glue xs ys) (endOf xs) = ys := (endOf_glue hxs hys).2.2

theorem hasPos_glue (hxs : xs ≠ []) (hys : ys ≠ []) : HasPos (glue xs ys) (endOf xs) := (endOf_glue hxs hys).1

theorem glue_cancel (hxs : xs ≠ []) (hys : ys ≠ []) (hzs : zs ≠ []) (h : glue xs ys = glue xs zs) : ys = zs := by
  rw [← behind_glue hxs hys, h, behind_glue hxs hzs]

/-- The end of a whole. -/
theorem endOf_glue_eq (hxs : xs ≠ []) (hys : ys ≠ []) : endOf (glue xs ys) =
    ((endOf xs).1 + ys.length - 1, (ys.getLastD []).length + if ys.length = 1 then (endOf xs).2 else 0) := by
  obtain ⟨xs, x, rfl⟩ := (List.eq_nil_or_concat' xs).resolve_left hxs
  obtain ⟨y, ys, rfl⟩ := List.exists_cons_of_ne_nil hys
  unfold endOf
  rw [glue_concat_cons, List.length_append, List.length_append, List.getLastD_concat, List.length_cons]
  refine Prod.ext ?_ ?_
  · show xs.length + (ys.length + 1) - 1 = xs.length + 1 - 1 + (ys.length + 1) - 1
    omega
  · rcases List.eq_nil_or_concat' ys with rfl | ⟨ys, y', rfl⟩
    · rw [List.getLastD_concat]
      show (x ++ y).length = y.length + x.length
      rw [List.length_append, Nat.add_comm]
    · have hlast : xs ++ (x ++ y) :: (ys ++ [y']) = (xs ++ (x ++ y) :: ys) ++ [y'] := by
        rw [List.append_assoc, List.cons_append]
      have hlength : (y :: (ys ++ [y'])).length ≠ 1 := by
        rw [List.length_cons, List.length_append, List.length_singleton]
        omega
      show _ = _ + if (y :: (ys ++ [y'])).length = 1 then _ else 0
      rw [hlast, List.getLastD_concat, if_neg hlength, ← List.cons_append, List.getLastD_concat]
      rfl

theorem behind_zero (hxs : xs ≠ []) : behind xs (0, 0) = xs := by
  obtain ⟨x, xs, rfl⟩ := List.exists_cons_of_ne_nil hxs
  rfl

/-- A whole text is what is in front of its end. -/
theorem upTo_endOf (hxs : xs ≠ []) : upTo xs (endOf xs) = xs := by
  have h := upTo_glue hxs (List.cons_ne_nil ([] : List α) [])
  rwa [glue_unit hxs] at h

/-- How many letters a text has, with one for every end of a line. -/
theorem length_intercalate_concat (sep : α) (xs : List (List α)) (x : List α) :
    ([sep].intercalate (xs ++ [x])).length = (xs.map fun y => y.length + 1).sum + x.length := by
  induction xs with
  | nil =>
    rw [List.nil_append, List.intercalate_singleton]
    exact (Nat.zero_add _).symm
  | cons y xs ih =>
    have hne : xs ++ [x] ≠ [] := List.append_ne_nil_of_right_ne_nil _ (List.cons_ne_nil _ _)
    rw [List.cons_append, List.intercalate_cons_of_ne_nil hne, List.length_append, List.length_append, ih,
      List.map_cons, List.sum_cons, List.length_singleton]
    omega

/-- Only the empty text has no letters. -/
theorem eq_unit_of_length_eq_zero {sep : α} (hxs : xs ≠ []) (h : ([sep].intercalate xs).length = 0) : xs = [[]] := by
  obtain ⟨xs, x, rfl⟩ := (List.eq_nil_or_concat' xs).resolve_left hxs
  rw [length_intercalate_concat] at h
  cases xs with
  | nil =>
    have hx : x = [] := List.length_eq_zero_iff.1 ((Nat.zero_add _).symm.trans h)
    rw [hx]
    rfl
  | cons y xs =>
    rw [List.map_cons, List.sum_cons] at h
    omega

end Positions

section Ranges

theorem PosLe.trans {r : ℕ × ℕ} (h : PosLe p q) (h' : PosLe q r) : PosLe p r := by
  unfold PosLe at *
  omega

theorem posLe_total (p q : ℕ × ℕ) : PosLe p q ∨ PosLe q p := by
  unfold PosLe
  omega

/-- What is in front of a position is in front of a later one. -/
theorem upTo_upTo (hq : HasPos xs q) (h : PosLe p q) : upTo (upTo xs q) p = upTo xs p := by
  have hlt := hq.lt
  have htake : (xs.take q.1).length = q.1 := by
    rw [List.length_take]
    omega
  unfold upTo
  rcases h with hline | ⟨hline, hch⟩
  · rw [List.getD_append _ _ _ _ (by omega), List.take_append_of_le_length (by omega), List.take_take,
      Nat.min_eq_left (Nat.le_of_lt hline), List.getD_eq_getElem?_getD, List.getElem?_take_of_lt hline,
      List.getD_eq_getElem?_getD]
  · rw [hline, List.take_append_of_le_length (by omega), List.take_take, Nat.min_self,
      List.getD_append_right _ _ _ _ (by omega), htake, Nat.sub_self]
    show _ ++ [List.take p.2 (List.take q.2 _)] = _
    rw [List.take_take, Nat.min_eq_left hch]

/-- What is between two positions. -/
theorem glue_between (hq : HasPos xs q) (h : PosLe p q) : glue (upTo xs p) (between xs p q) = upTo xs q := by
  have hlt : p.1 < (upTo xs q).length := by
    have hq' := hq.lt
    unfold upTo
    rw [List.length_append, List.length_take, List.length_singleton]
    rcases h with hline | ⟨hline, -⟩ <;> omega
  rw [← upTo_upTo hq h]
  exact glue_upTo_behind hlt

/-- Positions with as many letters in front of them are the same. -/
theorem eq_of_length_upTo (sep : α) (hp : HasPos xs p) (hq : HasPos xs q)
    (h : ([sep].intercalate (upTo xs p)).length = ([sep].intercalate (upTo xs q)).length) : p = q := by
  have hsame : ∀ {p q}, HasPos xs p → HasPos xs q → PosLe p q →
      ([sep].intercalate (upTo xs p)).length = ([sep].intercalate (upTo xs q)).length → p = q := by
    intro p q hp hq hle h
    rw [← glue_between hq hle, intercalate_glue _ (upTo_ne_nil xs p) (between_ne_nil xs p q), List.length_append] at h
    have hnone := eq_unit_of_length_eq_zero (between_ne_nil xs p q) (by omega : ([sep].intercalate _).length = 0)
    rw [← endOf_upTo hp, ← endOf_upTo hq, ← glue_between hq hle, hnone, glue_unit (upTo_ne_nil xs p)]
  rcases posLe_total p q with hle | hle
  · exact hsame hp hq hle h
  · exact (hsame hq hp hle h.symm).symm

/-- A text in three parts. -/
theorem glue_three (hq : HasPos xs q) (h : PosLe p q) :
    glue (upTo xs p) (glue (between xs p q) (behind xs q)) = xs := by
  rw [← glue_assoc, glue_between hq h, glue_upTo_behind hq.lt]

/-- The parts of a text are in order. -/
theorem posLe_endOf_glue (hxs : xs ≠ []) (hys : ys ≠ []) : PosLe (endOf xs) (endOf (glue xs ys)) := by
  have hlength : 0 < ys.length := List.length_pos_iff.2 hys
  rw [endOf_glue_eq hxs hys]
  unfold PosLe
  by_cases hone : ys.length = 1
  · rw [if_pos hone]
    refine .inr ⟨?_, Nat.le_add_left _ _⟩
    show (endOf xs).1 = (endOf xs).1 + ys.length - 1
    omega
  · refine .inl ?_
    show (endOf xs).1 < (endOf xs).1 + ys.length - 1
    omega

/-- A position with more text in front of it is not before. -/
theorem posLe_of_upTo (hp : HasPos xs p) (hq : HasPos xs q) (hys : ys ≠ []) (h : upTo xs q = glue (upTo xs p) ys) :
    PosLe p q := by
  rw [← endOf_upTo hp, ← endOf_upTo hq, h]
  exact posLe_endOf_glue (upTo_ne_nil xs p) hys

/-- What is between two positions is what is between the first one and a middle one and what is between that and
the last one. -/
theorem between_trans {r : ℕ × ℕ} (hq : HasPos xs q) (hr : HasPos xs r) (h : PosLe p q) (h' : PosLe q r) :
    between xs p r = glue (between xs p q) (between xs q r) := by
  refine glue_cancel (upTo_ne_nil xs p) (between_ne_nil _ _ _) (glue_ne_nil (between_ne_nil _ _ _) _) ?_
  rw [← glue_assoc, glue_between hq h, glue_between hr h', glue_between hr (h.trans h')]

/-- A part is replaced. -/
theorem splice_glue (hxs : xs ≠ []) (hys : ys ≠ []) (hzs : zs ≠ []) (text : List (List α)) :
    splice (glue xs (glue ys zs)) (endOf xs) (endOf (glue xs ys)) text = glue xs (glue text zs) := by
  unfold splice
  rw [upTo_glue hxs (glue_ne_nil hys zs), ← glue_assoc xs ys zs, behind_glue (glue_ne_nil hxs ys) hzs]

/-- A text of one line in place of a part. -/
theorem splice_singleton (xs : List (List α)) (p q : ℕ × ℕ) (t : List α) : splice xs p q [t] =
    xs.take p.1 ++ ((xs.getD p.1 []).take p.2 ++ t ++ (xs.getD q.1 []).drop q.2) :: xs.drop (q.1 + 1) := by
  unfold splice upTo
  rw [show glue [t] (behind xs q) = (t ++ (xs.getD q.1 []).drop q.2) :: xs.drop (q.1 + 1) from rfl, glue_concat_cons,
    List.append_assoc]

/-- A text of more lines in place of a part. -/
theorem splice_cons_concat (xs : List (List α)) (p q : ℕ × ℕ) (t u : List α) (text : List (List α)) :
    splice xs p q (t :: (text ++ [u])) = xs.take p.1 ++ ((xs.getD p.1 []).take p.2 ++ t) ::
      (text ++ (u ++ (xs.getD q.1 []).drop q.2) :: xs.drop (q.1 + 1)) := by
  unfold splice upTo behind
  rw [← List.cons_append, glue_concat_cons, List.cons_append, glue_concat_cons]

theorem drop_eq_getD_cons {n : ℕ} (h : n < xs.length) : xs.drop n = xs.getD n [] :: xs.drop (n + 1) := by
  rw [List.getD_eq_getElem _ _ h, List.cons_getElem_drop_succ]

/-- Whole lines in place of whole lines. -/
theorem splice_lines (xs : List (List α)) {m n : ℕ} (hn : n < xs.length) (text : List (List α)) :
    splice xs (m, 0) (n, 0) (text ++ [[]]) = xs.take m ++ text ++ xs.drop n := by
  cases text with
  | nil =>
    rw [List.nil_append, splice_singleton, List.append_nil, List.append_nil, drop_eq_getD_cons hn]
    rfl
  | cons t text =>
    rw [List.cons_append, splice_cons_concat, drop_eq_getD_cons hn, List.append_assoc]
    rfl

/-- A text in place of the whole. -/
theorem splice_all (hxs : xs ≠ []) (htext : text ≠ []) : splice xs (0, 0) (endOf xs) text = text := by
  have hbehind : behind xs (endOf xs) = [[]] := by
    have h := behind_glue hxs (List.cons_ne_nil ([] : List α) [])
    rwa [glue_unit hxs] at h
  have hupTo : upTo xs (0, 0) = [[]] := rfl
  unfold splice
  rw [hbehind, hupTo, glue_unit htext, unit_glue htext]

end Ranges

end Lib
