import StudyTech.Proof.DocPos

/-!
# The value of a document

What callers of a document see after any run of changes: a change replaces its range of the value
(`updateDoc_replaces`), a position keeps the text around it (`adjustForChange_keeps`), and positions and indices
of letters are the same thing (`index_position`).
-/

namespace StudyTech

open Lib

variable {α : Type} {options : DocOptions α} {first : ℕ} {text texts : List (List α)} {doc : Doc α} {change : Change α}

/-- The change can be made in the document. -/
def Doc.Takes (doc : Doc α) (change : Change α) : Prop := change.In doc.first doc.texts

instance decidableTakes [DecidableEq α] (doc : Doc α) (change : Change α) : Decidable (doc.Takes change) :=
  inferInstanceAs (Decidable (change.In doc.first doc.texts))

theorem newDoc_shows (first : ℕ) (htext : text ≠ []) : ∃ doc, newDoc first text = some doc ∧ doc.Shows first text := by
  have hnew : (Doc.new first : Doc α).Shows first [[]] := ⟨Doc.new_valid first, rfl, rfl⟩
  have hrel : (⟨first, 0⟩ : Pos).rel first = (0, 0) := Prod.ext (Nat.sub_self first) rfl
  have hpos : (⟨first, 0⟩ : Pos).In first ([[]] : List (List α)) := by
    refine ⟨le_rfl, ?_⟩
    rw [hrel]
    exact ⟨[], rfl, le_rfl⟩
  have hchange : ({ start := ⟨first, 0⟩, stop := ⟨first, 0⟩, text := text } : Change α).In first [[]] :=
    ⟨hpos, hpos, .inr ⟨rfl, le_rfl⟩, htext, fun hfull => nomatch hfull⟩
  obtain ⟨doc, hdoc, hshows⟩ := updateDoc_shows {} hnew hchange
  refine ⟨doc, hdoc, ?_⟩
  have happly : ({ start := ⟨first, 0⟩, stop := ⟨first, 0⟩, text := text } : Change α).apply first [[]] = text := by
    unfold Change.apply
    rw [hrel]
    exact splice_all (List.cons_ne_nil [] []) htext
  rwa [happly] at hshows

/-- What a document shows after a run of changes. -/
theorem changes_show {start : Doc α} (h : start.Shows first texts) (hne : texts ≠ []) {changes : List (Change α)}
    (hok : Along (updateDoc options) Doc.Takes start changes) :
    ∃ doc, exec (updateDoc options) start changes = some doc ∧
      doc.Shows first (changes.foldl (Change.apply first) texts) ∧ changes.foldl (Change.apply first) texts ≠ [] := by
  induction changes generalizing start texts with
  | nil => exact ⟨start, rfl, h, hne⟩
  | cons change changes ih =>
    obtain ⟨htakes, hrest⟩ := hok
    have hin : change.In first texts := by
      have htexts : start.texts = texts := h.texts
      unfold Doc.Takes at htakes
      rwa [h.first, htexts] at htakes
    obtain ⟨doc', hdoc', hshows⟩ := updateDoc_shows options h hin
    rw [exec_cons, hdoc']
    exact ih hshows (Change.apply_ne_nil first texts change) (hrest doc' hdoc')

/-- The documents that changes lead to. -/
theorem doc_shows {changes : List (Change α)} {start : Doc α} (htext : text ≠ [])
    (hnew : newDoc first text = some start) (hok : Along (updateDoc options) Doc.Takes start changes)
    (hrun : exec (updateDoc options) start changes = some doc) :
    doc.Shows first doc.texts ∧ doc.texts ≠ [] ∧ doc.texts = changes.foldl (Change.apply first) text := by
  obtain ⟨start', hstart', hshows⟩ := newDoc_shows first htext
  obtain rfl : start' = start := Option.some.inj (hstart'.symm.trans hnew)
  obtain ⟨doc', hdoc', hafter, hne⟩ := changes_show hshows htext hok
  obtain rfl : doc' = doc := Option.some.inj (hdoc'.symm.trans hrun)
  have htexts : doc'.texts = _ := hafter.texts
  rw [htexts]
  exact ⟨hafter, hne, rfl⟩

/-- **A change replaces its range.** In every document that changes lead to and for every change in it: the
value is the text in front of the range, the range and the text behind it, whatever the lines are joined with,
and then the text of the change stands in place of the range and nothing else is another. -/
theorem updateDoc_replaces {changes : List (Change α)} {start : Doc α} (htext : text ≠ [])
    (hnew : newDoc first text = some start) (hok : Along (updateDoc options) Doc.Takes start changes)
    (hrun : exec (updateDoc options) start changes = some doc) (htakes : doc.Takes change) :
    ∃ doc', updateDoc options doc change = some doc' ∧ ∀ newline lineSep,
      getValue newline doc lineSep = getRange newline doc doc.top change.start.given lineSep ++
        getRange newline doc change.start.given change.stop.given lineSep ++
        getRange newline doc change.stop.given doc.bottom lineSep ∧
      getValue newline doc' lineSep = getRange newline doc doc.top change.start.given lineSep ++
        (orNewline newline lineSep).intercalate change.text ++
        getRange newline doc change.stop.given doc.bottom lineSep := by
  obtain ⟨h, hne, -⟩ := doc_shows htext hnew hok hrun
  have hfirst : doc.first = first := h.first
  unfold Doc.Takes at htakes
  rw [hfirst] at htakes
  obtain ⟨doc', hdoc', h'⟩ := updateDoc_shows options h htakes
  refine ⟨doc', hdoc', fun newline lineSep => ?_⟩
  have hle : PosLe ((clipPos doc change.start.given).rel first) ((clipPos doc change.stop.given).rel first) := by
    rw [show clipPos doc change.start.given = change.start from clipPos_self h htakes.start,
      show clipPos doc change.stop.given = change.stop from clipPos_self h htakes.stop]
    exact htakes.le
  rw [getValue_eq h, getValue_eq h', getRange_top h htakes.start, getRange_bottom h htakes.stop, getRange_eq h hne hle,
    show clipPos doc change.start.given = change.start from clipPos_self h htakes.start,
    show clipPos doc change.stop.given = change.stop from clipPos_self h htakes.stop, Change.apply_eq]
  have hbehind := behind_ne_nil doc.texts (change.stop.rel first)
  constructor
  · nth_rewrite 1 [htakes.three]
    rw [intercalate_glue _ (upTo_ne_nil _ _) (glue_ne_nil (between_ne_nil _ _ _) _),
      intercalate_glue _ (between_ne_nil _ _ _) hbehind, List.append_assoc]
  · rw [intercalate_glue _ (upTo_ne_nil _ _) (glue_ne_nil htakes.text _), intercalate_glue _ htakes.text hbehind,
      List.append_assoc]

/-- Two lines. -/
def shortDoc : Doc ℕ := (newDoc 0 [[1, 2], [3]]).getD (Doc.new 0)

theorem shortDoc_eq : newDoc 0 [[1, 2], [3]] = some shortDoc := by
  obtain ⟨doc, hdoc⟩ := Option.isSome_iff_exists.1 (by decide +kernel : (newDoc 0 [[1, 2], [3]]).isSome = true)
  unfold shortDoc
  rw [hdoc]
  rfl

/-- A change of them that begins in the first line and ends in the second one. -/
def acrossLines : Change ℕ := { start := ⟨0, 1⟩, stop := ⟨1, 0⟩, text := [[4], [5, 6]] }

theorem acrossLines_along : Along (updateDoc {}) Doc.Takes shortDoc [acrossLines] := by decide +kernel

/-- The document that it gives. -/
def changedDoc : Doc ℕ := (exec (updateDoc {}) shortDoc [acrossLines]).getD (Doc.new 0)

theorem changedDoc_eq : exec (updateDoc {}) shortDoc [acrossLines] = some changedDoc := by
  obtain ⟨doc, hdoc⟩ := Option.isSome_iff_exists.1
    (by decide +kernel : (exec (updateDoc {}) shortDoc [acrossLines]).isSome = true)
  unfold changedDoc
  rw [hdoc]
  rfl

/-- Another change. -/
def intoLine : Change ℕ := { start := ⟨0, 0⟩, stop := ⟨1, 1⟩, text := [[7]] }

theorem intoLine_takes : changedDoc.Takes intoLine := by decide +kernel

theorem updateDoc_replaces_twice : ∃ doc', updateDoc {} changedDoc intoLine = some doc' ∧
    getValue 0 doc' [] = [7, 6, 3] := by
  have hne : [[1, 2], [3]] ≠ ([] : List (List ℕ)) := List.cons_ne_nil _ _
  obtain ⟨doc', hdoc', hvalue⟩ := updateDoc_replaces hne shortDoc_eq acrossLines_along changedDoc_eq intoLine_takes
  refine ⟨doc', hdoc', (hvalue 0 []).2.trans ?_⟩
  decide +kernel

/-- **A position keeps its text.** In every document that changes lead to, for every change in it and every
position: the adjusted position is in the new document. In front of a position before the range there is what
was there, behind one that is behind the range there is what was there, and one in the range is now behind the
new text. Positions that are in order stay in order. -/
theorem adjustForChange_keeps {changes : List (Change α)} {start : Doc α} (htext : text ≠ [])
    (hnew : newDoc first text = some start) (hok : Along (updateDoc options) Doc.Takes start changes)
    (hrun : exec (updateDoc options) start changes = some doc) (htakes : doc.Takes change) {pos : Pos}
    (hpos : pos.In doc.first doc.texts) :
    ∃ doc', updateDoc options doc change = some doc' ∧
      clipPos doc' (adjustForChange pos change).given = adjustForChange pos change ∧
      (∀ newline lineSep,
        (cmpPos pos change.start < 0 → getRange newline doc' doc'.top (adjustForChange pos change).given lineSep =
          getRange newline doc doc.top pos.given lineSep) ∧
        (0 ≤ cmpPos pos change.start → cmpPos pos change.stop ≤ 0 →
          getRange newline doc' doc'.top (adjustForChange pos change).given lineSep =
            getRange newline doc doc.top change.start.given lineSep ++
              (orNewline newline lineSep).intercalate change.text) ∧
        (0 < cmpPos pos change.stop → getRange newline doc' (adjustForChange pos change).given doc'.bottom lineSep =
          getRange newline doc pos.given doc.bottom lineSep)) ∧
      ∀ pos' : Pos, pos'.In doc.first doc.texts → cmpPos pos pos' ≤ 0 →
        cmpPos (adjustForChange pos change) (adjustForChange pos' change) ≤ 0 := by
  obtain ⟨h, hne, -⟩ := doc_shows htext hnew hok hrun
  have hfirst : doc.first = first := h.first
  unfold Doc.Takes at htakes
  rw [hfirst] at htakes hpos ⊢
  obtain ⟨doc', hdoc', h'⟩ := updateDoc_shows options h htakes
  obtain ⟨hin, hupTo⟩ := adjust_in htakes hpos
  refine ⟨doc', hdoc', clipPos_self h' hin,
    fun newline lineSep => ⟨fun hbefore => ?_, fun hge hle => ?_, fun hlt => ?_⟩,
    fun pos' hpos' hle => adjust_mono htakes hpos hpos' hle⟩
  · rw [getRange_top h' hin, getRange_top h hpos, hupTo, if_pos hbefore]
  · rw [getRange_top h' hin, getRange_top h htakes.start, hupTo, if_neg (by omega), if_pos hle,
      intercalate_glue _ (upTo_ne_nil _ _) htakes.text]
  · rw [getRange_bottom h' hin, getRange_bottom h hpos, (behind_in htakes hpos hlt).2.2]

/-- The letter behind the change has moved into the first line. -/
theorem adjustForChange_keeps_twice : ∃ doc', updateDoc {} changedDoc intoLine = some doc' ∧
    getRange 0 doc' (Pos.given ⟨0, 2⟩) doc'.bottom [] = [3] := by
  have hne : [[1, 2], [3]] ≠ ([] : List (List ℕ)) := List.cons_ne_nil _ _
  have hpos : (⟨1, 2⟩ : Pos).In changedDoc.first changedDoc.texts := by decide +kernel
  obtain ⟨doc', hdoc', -, hranges, -⟩ :=
    adjustForChange_keeps hne shortDoc_eq acrossLines_along changedDoc_eq intoLine_takes hpos
  refine ⟨doc', hdoc', ((hranges 0 []).2.2 (by decide)).trans ?_⟩
  decide +kernel

section Index

theorem indexFromPos_eq (newline : α) (h : doc.Shows first texts) (hne : texts ≠ []) (pos : GivenPos) :
    indexFromPos doc pos = ([newline].intercalate (upTo texts ((clipPos doc pos).rel first))).length := by
  have hin := clipPos_in h hne pos
  generalize hclip : clipPos doc pos = clipped at hin
  obtain ⟨hfirst, x, hx, hch⟩ := hin
  have hfold : ∀ (ts : List (List α)) (index : ℕ),
      ts.foldl (fun index t => index + t.length + 1) index = (ts.map fun t => t.length + 1).sum + index := by
    intro ts
    induction ts with
    | nil => exact fun index => (Nat.zero_add index).symm
    | cons t ts ih =>
      intro index
      rw [List.foldl_cons, ih, List.map_cons, List.sum_cons]
      omega
  have hget : texts.getD (clipped.rel first).1 [] = x := by
    rw [List.getD_eq_getElem?_getD, hx]
    rfl
  have hlength : (x.take (clipped.rel first).2).length = clipped.ch := by
    rw [List.length_take]
    exact Nat.min_eq_left hch
  unfold indexFromPos
  rw [hclip, h.first]
  simp only [if_neg (Nat.not_lt.2 hfirst)]
  rw [h.iter_foldl _ _ (fun index t => index + t.length + 1), hfold, Nat.sub_self, List.drop_zero]
  unfold upTo
  rw [length_intercalate_concat, hget, hlength]
  rfl

/-- How many letters there are in front of a line. -/
def lettersBefore (ls : List (Line α)) : ℕ := (ls.map fun l => l.text.length + 1).sum

/-- The loop of `posFromIndex` finds the line and the letter, or no line. -/
theorem posFromIndex_loop (ls : List (Line α)) {off : ℤ} (hoff : 0 ≤ off) (n : ℕ) :
    (∃ k c : ℕ, ∃ l, ls[k]? = some l ∧ c ≤ l.text.length ∧
      (Chunk.iterLines posStep ls (off, n, none)).1.2 = (n + k, some (c : ℤ)) ∧
      off = (lettersBefore (ls.take k) : ℤ) + c) ∨
    ((Chunk.iterLines posStep ls (off, n, none)).1.2 = (n + ls.length, none) ∧ (lettersBefore ls : ℤ) ≤ off) := by
  induction ls generalizing off n with
  | nil => exact .inr ⟨rfl, hoff⟩
  | cons l ls ih =>
    have hcons : ∀ ls : List (Line α), lettersBefore (l :: ls) = l.text.length + 1 + lettersBefore ls := fun ls => rfl
    unfold Chunk.iterLines posStep
    by_cases hlt : off < l.text.length + 1
    · simp only [if_pos hlt]
      refine .inl ⟨0, off.toNat, l, rfl, by omega, ?_, ?_⟩
      · rw [Int.toNat_of_nonneg hoff]
        rfl
      · rw [Int.toNat_of_nonneg hoff]
        exact (zero_add off).symm
    · simp only [if_neg hlt]
      have hrest : 0 ≤ off - (l.text.length + 1) := by omega
      rcases ih hrest (n + 1) with ⟨k, c, l', hl', hc, hfound, hsum⟩ | ⟨hfound, hle⟩
      · refine .inl ⟨k + 1, c, l', hl', hc, hfound.trans ?_, ?_⟩
        · rw [Nat.add_assoc, Nat.add_comm 1]
        · rw [List.take_succ_cons, hcons]
          omega
      · refine .inr ⟨hfound.trans ?_, ?_⟩
        · rw [List.length_cons, Nat.add_assoc, Nat.add_comm 1]
        · rw [hcons]
          omega

theorem lettersBefore_eq (ls : List (Line α)) :
    lettersBefore ls = ((ls.map Line.text).map fun t => t.length + 1).sum := by
  unfold lettersBefore
  rw [List.map_map]
  rfl

/-- What a position is when so many letters are in front of it. -/
theorem length_upTo (newline : α) {k c : ℕ} {x : List α} (hx : texts[k]? = some x) (hc : c ≤ x.length) :
    ([newline].intercalate (upTo texts (k, c))).length = ((texts.take k).map fun t => t.length + 1).sum + c := by
  have hget : texts.getD k [] = x := by
    rw [List.getD_eq_getElem?_getD, hx]
    rfl
  unfold upTo
  rw [length_intercalate_concat, hget, List.length_take, Nat.min_eq_left hc]

theorem length_value (newline : α) (hne : texts ≠ []) :
    ([newline].intercalate texts).length + 1 = (texts.map fun t => t.length + 1).sum := by
  obtain ⟨texts, t, rfl⟩ := (List.eq_nil_or_concat' texts).resolve_left hne
  rw [length_intercalate_concat, List.map_append, List.sum_append, List.map_singleton, List.sum_singleton,
    Nat.add_assoc]

/-- The position that is found has as many letters in front of it as the index says, none when the index is
negative, all when there are not so many. -/
theorem posFromIndex_spec (newline : α) (h : doc.Shows 0 texts) (hne : texts ≠ []) (off : ℤ) :
    (posFromIndex doc off).In 0 texts ∧
    (([newline].intercalate (upTo texts ((posFromIndex doc off).rel 0))).length : ℤ) =
      max 0 (min off ([newline].intercalate texts).length) := by
  have hiter : posFromIndex doc off = clipPos doc ⟨(Chunk.iterLines posStep doc.lines (off, 0, none)).1.2.1,
      (Chunk.iterLines posStep doc.lines (off, 0, none)).1.2.2⟩ := by
    have hall : doc.iterAll posStep (off, doc.first, none) = (Chunk.iterLines posStep doc.lines (off, 0, none)).1 := by
      have hspec := Chunk.iterChildren_spec posStep h.valid.chunks
        (fun c hc pos n s => Chunk.iterN_spec posStep (h.valid.chunks c hc) pos n s) doc.first (doc.first + doc.size)
        (off, doc.first, none)
      rw [h.first, Nat.zero_add, List.drop_zero, h.valid.size] at hspec
      unfold Doc.iterAll
      rw [h.first, Nat.zero_add, h.valid.size, hspec]
      exact congrArg (fun ls => (Chunk.iterLines posStep ls _).1) List.take_length
    unfold posFromIndex
    rw [hall]
  have hpos := clipPos_in h hne
  rw [hiter]
  refine ⟨hpos _, ?_⟩
  have htotal := length_value newline hne
  rcases lt_or_ge off 0 with hneg | hoff
  · -- the loop ends in the first line, and the letter is clipped
    obtain ⟨l, ls, hls⟩ : ∃ l ls, doc.lines = l :: ls := by
      refine List.exists_cons_of_ne_nil fun hnil => hne ?_
      rw [← h.texts, Doc.texts, hnil]
      rfl
    have hfound : (Chunk.iterLines posStep doc.lines (off, 0, none)).1.2 = (0, some off) := by
      rw [hls]
      unfold Chunk.iterLines posStep
      simp only [if_pos (by omega : off < (l.text.length : ℤ) + 1)]
      rfl
    have hlength : 0 < texts.length := List.length_pos_iff.2 hne
    have hclip : clipPos doc ⟨((0 : ℕ) : ℤ), some off⟩ = ⟨0, 0⟩ := by
      unfold clipPos clipToLen
      rw [h.first, h.size]
      simp only []
      rw [if_neg (by omega), if_neg (by omega), if_neg (by omega), if_pos hneg]
      rfl
    rw [hfound, hclip, show upTo texts (Pos.rel 0 ⟨0, 0⟩) = [[]] from rfl, List.intercalate_singleton]
    show (0 : ℤ) = _
    omega
  · rcases posFromIndex_loop doc.lines hoff 0 with ⟨k, c, l, hl, hc, hfound, hsum⟩ | ⟨hfound, hle⟩
    · have htext : texts[k]? = some l.text := by
        rw [← h.texts, Doc.texts, List.getElem?_map, hl]
        rfl
      have hin : (⟨0 + k, c⟩ : Pos).In 0 texts := by
        refine ⟨Nat.zero_le _, l.text, ?_, hc⟩
        show texts[0 + k - 0]? = _
        rw [Nat.sub_zero, Nat.zero_add]
        exact htext
      have hsplit : ([newline].intercalate (upTo texts (k, c))).length ≤ ([newline].intercalate texts).length := by
        have hlt := (List.getElem?_eq_some_iff.1 htext).1
        have hglue := intercalate_glue [newline] (upTo_ne_nil texts (k, c)) (behind_ne_nil texts (k, c))
        rw [glue_upTo_behind hlt] at hglue
        rw [hglue, List.length_append]
        exact Nat.le_add_right _ _
      rw [hfound, clipPos_self h hin]
      have hrel : (⟨0 + k, c⟩ : Pos).rel 0 = (k, c) := Prod.ext (Nat.zero_add k) rfl
      rw [hrel]
      rw [length_upTo newline htext hc] at hsplit ⊢
      rw [lettersBefore_eq, List.map_take, show doc.lines.map Line.text = texts from h.texts] at hsum
      omega
    · have hbottom := (clipPos_bottom h hne).2
      have hsize : doc.lines.length = doc.size := h.valid.size.symm
      have hgiven : (⟨((0 + doc.lines.length : ℕ) : ℤ), none⟩ : GivenPos) = doc.bottom := by
        unfold Doc.bottom
        rw [h.first, hsize]
        rfl
      rw [hfound, hgiven, hbottom, upTo_endOf hne]
      rw [lettersBefore_eq, show doc.lines.map Line.text = texts from h.texts] at hle
      omega

/-- **Indices and positions.** In every document that starts with line 0 and that changes lead to: a position has
an index, and the position with this index is it, clipped; an index has a position, and the index of this position
is it, moved between 0 and the length of the value. -/
theorem index_position {changes : List (Change α)} {start : Doc α} (htext : text ≠ [])
    (hnew : newDoc 0 text = some start) (hok : Along (updateDoc options) Doc.Takes start changes)
    (hrun : exec (updateDoc options) start changes = some doc) (newline : α) :
    (∀ pos, posFromIndex doc (indexFromPos doc pos) = clipPos doc pos) ∧
      ∀ off : ℤ, (indexFromPos doc (posFromIndex doc off).given : ℤ) =
        max 0 (min off (getValue newline doc []).length) := by
  obtain ⟨h, hne, -⟩ := doc_shows htext hnew hok hrun
  have hindex := indexFromPos_eq newline h hne
  constructor
  · intro pos
    have hclip := clipPos_in h hne pos
    obtain ⟨hin, hlength⟩ := posFromIndex_spec newline h hne (indexFromPos doc pos)
    have hle : indexFromPos doc pos ≤ ([newline].intercalate doc.texts).length := by
      have hglue := intercalate_glue [newline] (upTo_ne_nil doc.texts ((clipPos doc pos).rel 0))
        (behind_ne_nil doc.texts ((clipPos doc pos).rel 0))
      rw [glue_upTo_behind hclip.2.lt] at hglue
      rw [hindex, hglue, List.length_append]
      exact Nat.le_add_right _ _
    refine rel_inj (Nat.zero_le _) (Nat.zero_le _) (eq_of_length_upTo newline hin.2 hclip.2 ?_)
    rw [← hindex]
    omega
  · intro off
    obtain ⟨hin, hlength⟩ := posFromIndex_spec newline h hne off
    have hself : clipPos doc (posFromIndex doc off).given = posFromIndex doc off := clipPos_self h hin
    rw [hindex, hself, hlength, getValue_eq h]
    rfl

theorem index_position_once : posFromIndex changedDoc 4 = ⟨1, 1⟩ ∧ indexFromPos changedDoc ⟨1, some 1⟩ = 4 := by
  have hne : [[1, 2], [3]] ≠ ([] : List (List ℕ)) := List.cons_ne_nil _ _
  have hround := (index_position hne shortDoc_eq acrossLines_along changedDoc_eq 0).1 ⟨1, some 1⟩
  have hindex : indexFromPos changedDoc ⟨1, some 1⟩ = 4 := by decide +kernel
  rw [hindex] at hround
  exact ⟨hround.trans (by decide +kernel), hindex⟩

end Index

end StudyTech
