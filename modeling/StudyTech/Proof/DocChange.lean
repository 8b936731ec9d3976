import StudyTech.Lib.Lines
import StudyTech.Proof.LineDoc
import StudyTech.Spec.DocChange

/-!
# Changes replace a part of the text

What a document shows are the texts of its lines. Insertions and removals of lines and updates of a line do to
the texts what they do to a list, and from that each way of `updateDoc` is a `splice` of the texts: a full
change, whole lines, a part of a line, lines that become one, and lines that become others.
-/

namespace StudyTech

open Lib

/-- The texts of the lines. -/
def Doc.texts {α : Type} (doc : Doc α) : List (List α) := doc.lines.map Line.text

variable {α σ : Type} {first : ℕ} {texts : List (List α)} {doc : Doc α}

/-- The document is valid, its first line has the number `first`, and its lines have the texts. -/
structure Doc.Shows (doc : Doc α) (first : ℕ) (texts : List (List α)) : Prop where
  valid : doc.Valid
  first : doc.first = first
  texts : doc.texts = texts

/-- A position, counted from the first line of the document. -/
def Pos.rel (first : ℕ) (pos : Pos) : ℕ × ℕ := (pos.line - first, pos.ch)

/-- The position is in the texts. -/
def Pos.In (first : ℕ) (texts : List (List α)) (pos : Pos) : Prop := first ≤ pos.line ∧ HasPos texts (pos.rel first)

namespace Doc.Shows

theorem size (h : doc.Shows first texts) : doc.size = texts.length := by
  rw [h.valid.size, ← h.texts, Doc.texts, List.length_map]

theorem getLine (h : doc.Shows first texts) {n : ℕ} (hfirst : first ≤ n) {text : List α}
    (htext : texts[n - first]? = some text) : ∃ line, doc.getLine n = some line ∧ line.text = text := by
  rw [← h.texts, Doc.texts, List.getElem?_map] at htext
  obtain ⟨line, hline, rfl⟩ := Option.map_eq_some_iff.1 htext
  rw [Doc.getLine_eq h.valid, h.first, if_neg (Nat.not_lt.2 hfirst)]
  exact ⟨line, hline, rfl⟩

theorem insert (h : doc.Shows first texts) {pos : ℕ} (hpos : pos - first ≤ texts.length) (lines : List (Line α)) :
    (doc.insert pos lines).Shows first
      (texts.take (pos - first) ++ lines.map Line.text ++ texts.drop (pos - first)) := by
  have hle : pos - doc.first ≤ doc.size := by rwa [h.first, h.size]
  obtain ⟨hvalid, hlines⟩ := Doc.insert_valid h.valid hle lines
  refine ⟨hvalid, h.first, ?_⟩
  rw [← h.texts, Doc.texts, hlines, List.map_append, List.map_append, List.map_take, List.map_drop, h.first]
  rfl

theorem remove (h : doc.Shows first texts) {pos n : ℕ} (hpos : pos - first + n ≤ texts.length) :
    (doc.remove pos n).Shows first (texts.take (pos - first) ++ texts.drop (pos - first + n)) := by
  have hle : pos - doc.first + n ≤ doc.size := by rwa [h.first, h.size]
  obtain ⟨hvalid, hlines⟩ := Doc.remove_valid h.valid hle
  refine ⟨hvalid, h.first, ?_⟩
  rw [← h.texts, Doc.texts, hlines, List.map_append, List.map_take, List.map_drop, h.first]
  rfl

theorem updateLine (options : DocOptions α) (h : doc.Shows first texts) {n : ℕ} (hfirst : first ≤ n)
    (hn : n - first < texts.length) (text : List α) :
    (updateLine options doc n text).Shows first (texts.set (n - first) text) := by
  obtain ⟨hvalid, hlines⟩ := Doc.setLine_valid h.valid (h.first.trans_le hfirst) (by rwa [h.first, h.size])
    (newLine options text)
  refine ⟨hvalid, (Doc.setLine_first doc n _).trans h.first, ?_⟩
  unfold StudyTech.updateLine
  rw [← h.texts, Doc.texts, hlines, List.map_set, h.first]
  rfl

end Doc.Shows

section Update

variable {options : DocOptions α} {change : Change α}

/-- A change that can be made: its positions are in the texts and in order, and it has a text. A full change
covers a document that starts with line 0. -/
structure Change.In (first : ℕ) (texts : List (List α)) (change : Change α) : Prop where
  start : change.start.In first texts
  stop : change.stop.In first texts
  le : PosLe (change.start.rel first) (change.stop.rel first)
  text : change.text ≠ []
  full : change.full = true → first = 0 ∧ change.start = ⟨0, 0⟩ ∧ change.stop.rel first = endOf texts

instance decidablePosIn (first : ℕ) (texts : List (List α)) (pos : Pos) : Decidable (pos.In first texts) :=
  inferInstanceAs (Decidable (first ≤ pos.line ∧ HasPos texts (pos.rel first)))

instance decidableChangeIn [DecidableEq α] (first : ℕ) (texts : List (List α)) (change : Change α) :
    Decidable (change.In first texts) :=
  decidable_of_iff (change.start.In first texts ∧ change.stop.In first texts ∧
      PosLe (change.start.rel first) (change.stop.rel first) ∧ change.text ≠ [] ∧
      (change.full = true → first = 0 ∧ change.start = ⟨0, 0⟩ ∧ change.stop.rel first = endOf texts))
    ⟨fun ⟨hstart, hstop, hle, htext, hfull⟩ => ⟨hstart, hstop, hle, htext, hfull⟩,
      fun h => ⟨h.start, h.stop, h.le, h.text, h.full⟩⟩

/-- What a change makes of the texts. -/
def Change.apply (first : ℕ) (texts : List (List α)) (change : Change α) : List (List α) :=
  splice texts (change.start.rel first) (change.stop.rel first) change.text

theorem linesFor_text (options : DocOptions α) (texts : List (List α)) :
    (texts.map (newLine options)).map Line.text = texts := by
  rw [List.map_map]
  exact List.map_id texts

theorem take_set_succ (xs : List (List α)) {n : ℕ} (hn : n < xs.length) (x : List α) :
    (xs.set n x).take (n + 1) = xs.take n ++ [x] := by
  rw [List.set_eq_take_append_cons_drop, if_pos hn, List.take_append, List.length_take, Nat.min_eq_left hn.le,
    List.take_of_length_le (by rw [List.length_take]; omega), Nat.add_sub_cancel_left]
  rfl

/-- A line that is set is the one that the range begins with. -/
theorem drop_set_self (xs : List (List α)) {n : ℕ} (hn : n < xs.length) (x : List α) :
    (xs.set n x).drop n = x :: xs.drop (n + 1) := by
  rw [List.set_eq_take_append_cons_drop, if_pos hn, List.drop_left' (by rw [List.length_take]; omega)]

/-- A full change. -/
theorem full_shows (options : DocOptions α) (h : doc.Shows 0 texts) (text : List (List α)) :
    ((doc.insert 0 (text.map (newLine options))).remove text.length
      ((doc.insert 0 (text.map (newLine options))).size - text.length)).Shows 0 text := by
  have hinsert := h.insert (Nat.zero_le _ : 0 - 0 ≤ texts.length) (text.map (newLine options))
  rw [linesFor_text, Nat.sub_zero, List.take_zero, List.nil_append, List.drop_zero] at hinsert
  have hsize : (doc.insert 0 (text.map (newLine options))).size = text.length + texts.length := by
    rw [hinsert.size, List.length_append]
  rw [hsize, Nat.add_sub_cancel_left]
  have hremove := hinsert.remove (Nat.le_of_eq (by rw [List.length_append]; rfl) :
    text.length - 0 + texts.length ≤ (text ++ texts).length)
  rwa [Nat.sub_zero, List.take_left' rfl, List.drop_of_length_le (by rw [List.length_append]), List.append_nil]
    at hremove

/-- Whole lines are replaced: those of the range go, and the new ones come to their place. -/
theorem wholeLine_shows (options : DocOptions α) (h : doc.Shows first texts) {a b : ℕ} (ha : first ≤ a) (hab : a ≤ b)
    {text : List α} (htext : texts[b - first]? = some text) (added : List (List α)) :
    let doc := updateLine options doc b text
    let doc := if b - a = 0 then doc else doc.remove a (b - a)
    (if (added.map (newLine options)).length = 0 then doc else doc.insert a (added.map (newLine options))).Shows first
      (texts.take (a - first) ++ added ++ texts.drop (b - first)) := by
  intro updated removed
  obtain ⟨hb, hget⟩ := List.getElem?_eq_some_iff.1 htext
  have hupdated : updated.Shows first texts := by
    have hsame : texts.set (b - first) text = texts := by rw [← hget, List.set_getElem_self]
    have hupdate := h.updateLine options (ha.trans hab) hb text
    rwa [hsame] at hupdate
  have hremoved : removed.Shows first (texts.take (a - first) ++ texts.drop (b - first)) := by
    by_cases hnone : b - a = 0
    · have hsame : removed = updated := if_pos hnone
      have hline : b - first = a - first := by omega
      rw [hsame, hline, List.take_append_drop]
      exact hupdated
    · have hremove := hupdated.remove (by omega : a - first + (b - a) ≤ texts.length)
      have hdoc : removed = updated.remove a (b - a) := if_neg hnone
      have hline : a - first + (b - a) = b - first := by omega
      rwa [hdoc, ← hline]
  cases added with
  | nil =>
    rw [List.append_nil]
    exact hremoved
  | cons t added =>
    have htake : (texts.take (a - first)).length = a - first := by
      rw [List.length_take]
      omega
    have hinsert := hremoved.insert (by rw [List.length_append]; omega :
      a - first ≤ (texts.take (a - first) ++ texts.drop (b - first)).length) ((t :: added).map (newLine options))
    rwa [linesFor_text, List.take_left' htake, List.drop_left' htake] at hinsert

/-- One line becomes several. -/
theorem within_shows (options : DocOptions α) (h : doc.Shows first texts) {a : ℕ} (ha : first ≤ a)
    (hlt : a - first < texts.length) (text : List α) (added : List (List α)) :
    ((updateLine options doc a text).insert (a + 1) (added.map (newLine options))).Shows first
      (texts.take (a - first) ++ text :: (added ++ texts.drop (a - first + 1))) := by
  have hinsert := (h.updateLine options ha hlt text).insert (by rw [List.length_set]; omega :
    a + 1 - first ≤ (texts.set (a - first) text).length) (added.map (newLine options))
  rwa [linesFor_text, show a + 1 - first = a - first + 1 by omega, take_set_succ texts hlt,
    List.drop_set_of_lt (Nat.lt_succ_self _), List.append_assoc, List.append_assoc, List.singleton_append] at hinsert

/-- The lines of the range become one. -/
theorem join_shows (options : DocOptions α) (h : doc.Shows first texts) {a b : ℕ} (ha : first ≤ a) (hab : a ≤ b)
    (hlt : b - first < texts.length) (text : List α) :
    ((updateLine options doc a text).remove (a + 1) (b - a)).Shows first
      (texts.take (a - first) ++ text :: texts.drop (b - first + 1)) := by
  have hremove := (h.updateLine options ha (by omega) text).remove (by rw [List.length_set]; omega :
    a + 1 - first + (b - a) ≤ (texts.set (a - first) text).length)
  rwa [show a + 1 - first = a - first + 1 by omega, take_set_succ texts (by omega),
    show a - first + 1 + (b - a) = b - first + 1 by omega, List.drop_set_of_lt (by omega), List.append_assoc,
    List.singleton_append] at hremove

/-- The first and the last line of the range change, and what is between them is replaced. -/
theorem across_shows (options : DocOptions α) (h : doc.Shows first texts) {a b : ℕ} (ha : first ≤ a) (hab : a < b)
    (hlt : b - first < texts.length) (text text' : List α) (added : List (List α)) :
    let doc := updateLine options (updateLine options doc a text) b text'
    ((if 1 < b - a then doc.remove (a + 1) (b - a - 1) else doc).insert (a + 1) (added.map (newLine options))).Shows
      first (texts.take (a - first) ++ text :: (added ++ text' :: texts.drop (b - first + 1))) := by
  intro updated
  have hupdated : updated.Shows first ((texts.set (a - first) text).set (b - first) text') :=
    (h.updateLine options ha (by omega) text).updateLine options (by omega) (by rwa [List.length_set]) text'
  have htake : ((texts.set (a - first) text).set (b - first) text').take (a - first + 1) =
      texts.take (a - first) ++ [text] := by
    rw [List.take_set_of_le (by omega), take_set_succ texts (by omega)]
  have hdrop : ((texts.set (a - first) text).set (b - first) text').drop (b - first) =
      text' :: texts.drop (b - first + 1) := by
    rw [drop_set_self _ (by rwa [List.length_set]), List.drop_set_of_lt (by omega)]
  have hremoved : (if 1 < b - a then updated.remove (a + 1) (b - a - 1) else updated).Shows first
      (texts.take (a - first) ++ [text] ++ text' :: texts.drop (b - first + 1)) := by
    split
    · next hmore =>
      have hremove := hupdated.remove (by rw [List.length_set, List.length_set]; omega :
        a + 1 - first + (b - a - 1) ≤ ((texts.set (a - first) text).set (b - first) text').length)
      rwa [show a + 1 - first = a - first + 1 by omega, show a - first + 1 + (b - a - 1) = b - first by omega, htake,
        hdrop] at hremove
    · next hone =>
      have hnext : b - first = a - first + 1 := by omega
      rwa [← List.take_append_drop (a - first + 1) (List.set _ _ _), htake, ← hnext, hdrop] at hupdated
  have hfront : (texts.take (a - first) ++ [text]).length = a - first + 1 := by
    rw [List.length_append, List.length_take, List.length_singleton]
    omega
  have hinsert := hremoved.insert (by rw [List.length_append, hfront]; omega :
    a + 1 - first ≤ (texts.take (a - first) ++ [text] ++ text' :: texts.drop (b - first + 1)).length)
    (added.map (newLine options))
  rwa [linesFor_text, show a + 1 - first = a - first + 1 by omega, List.take_left' hfront, List.drop_left' hfront,
    List.append_assoc, List.append_assoc, List.singleton_append] at hinsert

/-- **A change puts its text in the place of what is between its positions**, in each of the ways in which
`updateDoc` does it. -/
theorem updateDoc_shows (options : DocOptions α) (h : doc.Shows first texts) (hchange : change.In first texts) :
    ∃ doc', updateDoc options doc change = some doc' ∧ doc'.Shows first (change.apply first texts) := by
  obtain ⟨⟨a, c⟩, ⟨b, d⟩, text, origin, full⟩ := change
  obtain ⟨⟨ha, x, hx, hc⟩, ⟨hb, y, hy, hd⟩, hle, htext, hfull⟩ := hchange
  replace ha : first ≤ a := ha
  replace hb : first ≤ b := hb
  replace hx : texts[a - first]? = some x := hx
  replace hy : texts[b - first]? = some y := hy
  obtain ⟨firstLine, hfirstLine, hfirstText⟩ := h.getLine ha hx
  obtain ⟨lastLine, hlastLine, hlastText⟩ := h.getLine hb hy
  have hab : a ≤ b := by
    simp only [PosLe, Pos.rel] at hle
    omega
  have hlta : a - first < texts.length := (List.getElem?_eq_some_iff.1 hx).1
  have hltb : b - first < texts.length := (List.getElem?_eq_some_iff.1 hy).1
  have hgetx : texts.getD (a - first) [] = x := by rw [List.getD_eq_getElem?_getD, hx]; rfl
  have hgety : texts.getD (b - first) [] = y := by rw [List.getD_eq_getElem?_getD, hy]; rfl
  have hne : texts ≠ [] := List.ne_nil_of_length_pos (by omega)
  unfold updateDoc Change.apply
  simp only [hfirstLine, hlastLine, Option.bind_some, Option.map_some, hfirstText, hlastText, Pos.rel]
  refine ⟨_, rfl, ?_⟩
  split
  · next hisFull =>
    obtain ⟨rfl, hstart, hstop⟩ := hfull hisFull
    obtain ⟨rfl, rfl⟩ := Pos.mk.inj hstart
    have hend : (b - 0, d) = endOf texts := hstop
    rw [List.drop_zero, Nat.sub_zero, List.take_length, hend, splice_all hne htext]
    exact full_shows options h text
  · split
    · next hwhole =>
      -- the last of the lines is empty, and no letter of a line is in the range
      simp only [isWholeLineUpdate, Bool.and_eq_true, beq_iff_eq, List.isEmpty_iff] at hwhole
      obtain ⟨⟨⟨rfl, rfl⟩, hlast⟩, -⟩ := hwhole
      obtain ⟨added, u, rfl⟩ := (List.eq_nil_or_concat' text).resolve_left htext
      rw [List.getLastD_concat] at hlast
      subst hlast
      rw [splice_lines texts hltb, List.drop_zero, Nat.sub_zero, List.length_append, List.length_singleton,
        Nat.add_sub_cancel, List.take_left' rfl]
      exact wholeLine_shows options h ha hab hy added
    · obtain ⟨t, text, rfl⟩ := List.exists_cons_of_ne_nil htext
      rcases List.eq_nil_or_concat' text with rfl | ⟨added, u, rfl⟩
      · have hlength : [t].length = 1 := rfl
        rw [if_pos hlength, if_pos hlength, splice_singleton, hgetx, hgety]
        split
        · next hline =>
          subst hline
          obtain rfl : x = y := Option.some.inj (hx.symm.trans hy)
          have hupdate := h.updateLine options ha hlta (x.take c ++ t ++ x.drop d)
          rwa [List.set_eq_take_append_cons_drop, if_pos hlta] at hupdate
        · exact join_shows options h ha hab hltb _
      · have hlength : (t :: (added ++ [u])).length ≠ 1 := by
          rw [List.length_cons, List.length_append, List.length_singleton]
          omega
        have hadded : ((t :: (added ++ [u])).drop 1).take ((t :: (added ++ [u])).length - 1 - 1) = added := by
          rw [List.length_cons, List.length_append, List.length_singleton, Nat.add_sub_cancel, Nat.add_sub_cancel]
          exact List.take_left' rfl
        have hlast : (t :: (added ++ [u])).getLastD [] = u := by
          rw [← List.cons_append, List.getLastD_concat]
        rw [if_neg hlength, if_neg hlength, hadded, hlast, splice_cons_concat, hgetx, hgety]
        split
        · next hline =>
          subst hline
          obtain rfl : x = y := Option.some.inj (hx.symm.trans hy)
          have hwithin := within_shows options h ha hlta (x.take c ++ t) (added ++ [u ++ x.drop d])
          rw [List.map_append, List.append_assoc] at hwithin
          exact hwithin
        · next hline => exact across_shows options h ha (by omega) hltb _ _ added

end Update

end StudyTech
