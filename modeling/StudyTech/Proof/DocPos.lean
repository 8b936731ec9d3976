import StudyTech.Proof.DocChange

/-!
# Positions of a document

Positions that are in a document split its text. `getBetween` gives the text between two of them
(`getBetween_eq`), clipped positions are in the document (`clipPos_in`), and `adjustForChange` gives a position
of the new document, with a known text in front of it (`adjust_in`), in the same order (`adjust_mono`). The
change that takes a change back can be made in the new document and gives the old text (`inverse_in`,
`inverse_apply`).
-/

namespace StudyTech

open Lib

variable {α σ : Type} {first : ℕ} {texts : List (List α)} {doc : Doc α} {change : Change α}

section Order

variable {a b : Pos}

theorem cmpPos_lt (ha : first ≤ a.line) (hb : first ≤ b.line) :
    cmpPos a b < 0 ↔ ¬ PosLe (b.rel first) (a.rel first) := by
  unfold cmpPos PosLe Pos.rel
  split <;> omega

theorem cmpPos_le (ha : first ≤ a.line) (hb : first ≤ b.line) : cmpPos a b ≤ 0 ↔ PosLe (a.rel first) (b.rel first) := by
  unfold cmpPos PosLe Pos.rel
  split <;> omega

theorem rel_inj (ha : first ≤ a.line) (hb : first ≤ b.line) (h : a.rel first = b.rel first) : a = b := by
  obtain ⟨hline, hch⟩ := Prod.mk.inj h
  cases a
  cases b
  simp only [Pos.mk.injEq] at *
  omega

end Order

namespace Doc.Shows

/-- A loop over lines that does not stop early folds their texts. -/
theorem iter_foldl (h : doc.Shows first texts) (start stop : ℕ) (f : σ → List α → σ) (s : σ) :
    doc.iter start stop (fun line s => (f s line.text, false)) s =
      ((texts.drop (start - first)).take (stop - start)).foldl f s := by
  have hloop : ∀ (ls : List (Line α)) (s : σ),
      (Chunk.iterLines (fun line s => (f s line.text, false)) ls s).1 = (ls.map Line.text).foldl f s := by
    intro ls
    induction ls with
    | nil => exact fun s => rfl
    | cons l ls ih => exact fun s => ih (f s l.text)
  rw [Doc.iter_eq h.valid, hloop, List.map_take, List.map_drop, ← h.texts, h.first]
  rfl

end Doc.Shows

section Between

/-- The loop that counts the lines. -/
theorem foldl_count (f : ℕ → List α → List α) (ts : List (List α)) (n : ℕ) (out : List (List α)) :
    (ts.foldl (fun (s : ℕ × List (List α)) t => (s.1 + 1, s.2 ++ [f s.1 t])) (n, out)).2 =
      out ++ (ts.zipIdx n).map fun p => f p.2 p.1 := by
  induction ts generalizing n out with
  | nil => exact (List.append_nil out).symm
  | cons t ts ih =>
    rw [List.foldl_cons, ih, List.zipIdx_cons, List.map_cons, List.append_assoc]
    rfl

/-- Lines that the function does not change. -/
theorem zipIdx_map_same (f : ℕ → List α → List α) (ts : List (List α)) (n : ℕ)
    (hf : ∀ k, n ≤ k → k < n + ts.length → ∀ t, f k t = t) : ((ts.zipIdx n).map fun p => f p.2 p.1) = ts := by
  induction ts generalizing n with
  | nil => rfl
  | cons t ts ih =>
    rw [List.length_cons] at hf
    rw [List.zipIdx_cons, List.map_cons, hf n le_rfl (by omega), ih (n + 1) fun k hk hlt => hf k (by omega) (by omega)]

/-- `getBetween` gives what is between two positions. -/
theorem getBetween_eq (h : doc.Shows first texts) {start stop : Pos} (hstart : start.In first texts)
    (hstop : stop.In first texts) (hle : PosLe (start.rel first) (stop.rel first)) :
    getBetween doc start stop = between texts (start.rel first) (stop.rel first) := by
  obtain ⟨a, c⟩ := start
  obtain ⟨b, d⟩ := stop
  obtain ⟨ha, x, hx, hc⟩ := hstart
  obtain ⟨hb, y, hy, hd⟩ := hstop
  replace ha : first ≤ a := ha
  replace hb : first ≤ b := hb
  replace hx : texts[a - first]? = some x := hx
  replace hy : texts[b - first]? = some y := hy
  obtain ⟨hlta, hgetx⟩ := List.getElem?_eq_some_iff.1 hx
  obtain ⟨hltb, hgety⟩ := List.getElem?_eq_some_iff.1 hy
  let cut (n : ℕ) (text : List α) : List α :=
    let text := if n = b then text.take d else text
    if n = a then text.drop c else text
  have hfold : getBetween doc ⟨a, c⟩ ⟨b, d⟩ =
      (((texts.drop (a - first)).take (b + 1 - a)).zipIdx a).map fun p => cut p.2 p.1 := by
    unfold getBetween
    rw [h.iter_foldl a (b + 1) (fun s text => (s.1 + 1, s.2 ++ [cut s.1 text]))]
    exact (foldl_count cut _ a []).trans (List.nil_append _)
  have hdrop : texts.drop (a - first) = x :: texts.drop (a - first + 1) := by
    rw [← hgetx, List.cons_getElem_drop_succ]
  have hupTo : upTo texts (Pos.rel first ⟨b, d⟩) = texts.take (b - first) ++ [y.take d] := by
    unfold upTo Pos.rel
    rw [List.getD_eq_getElem?_getD, hy]
    rfl
  rw [hfold]
  unfold between behind
  rw [hupTo]
  show _ = ((texts.take (b - first) ++ [y.take d]).getD (a - first) []).drop c ::
    (texts.take (b - first) ++ [y.take d]).drop (a - first + 1)
  have hlength : (texts.take (b - first)).length = b - first := by
    rw [List.length_take]
    omega
  rcases hle with hline | ⟨hline, -⟩
  · replace hline : a - first < b - first := hline
    -- the first line, the lines between, and the last one
    have hmiddle : (texts.drop (a - first)).take (b + 1 - a) =
        x :: ((texts.take (b - first)).drop (a - first + 1) ++ [y]) := by
      have hsucc : b + 1 - a = (b - a) + 1 := by omega
      have hlast : (texts.drop (a - first + 1)).take (b - a) =
          (texts.drop (a - first + 1)).take (b - a - 1) ++ [y] := by
        have hget : (texts.drop (a - first + 1))[b - a - 1]? = some y := by
          rw [List.getElem?_drop, ← hy]
          congr 1
          omega
        have hone : b - a = b - a - 1 + 1 := by omega
        rw [hone, List.take_add_one, hget]
        rfl
      have hcount : b - a - 1 = b - first - (a - first + 1) := by omega
      rw [hsucc, hdrop, List.take_succ_cons, hlast, List.drop_take, hcount]
    have hsame : (((texts.take (b - first)).drop (a - first + 1)).zipIdx (a + 1)).map (fun p => cut p.2 p.1) =
        (texts.take (b - first)).drop (a - first + 1) := by
      refine zipIdx_map_same cut _ (a + 1) fun k hk hlt t => ?_
      rw [List.length_drop, hlength] at hlt
      show (if k = a then _ else if k = b then _ else t) = t
      rw [if_neg (by omega), if_neg (by omega)]
    have hfirst : cut a x = x.drop c := by
      show (if a = a then (if a = b then _ else x).drop c else _) = _
      rw [if_pos rfl, if_neg (by omega)]
    have hcut : cut b y = y.take d := by
      show (if b = a then _ else if b = b then y.take d else y) = _
      rw [if_neg (by omega), if_pos rfl]
    have hindex : a + 1 + ((texts.take (b - first)).drop (a - first + 1)).length = b := by
      rw [List.length_drop, hlength]
      omega
    rw [hmiddle, List.zipIdx_cons, List.map_cons, List.zipIdx_append, List.map_append, hsame, hindex,
      List.getD_append _ _ _ _ (by omega), List.drop_append_of_le_length (by omega)]
    show cut a x :: (_ ++ [cut b y]) = _
    rw [hfirst, hcut, List.getD_eq_getElem?_getD, List.getElem?_take_of_lt hline, hx]
    rfl
  · replace hline : a - first = b - first := hline
    obtain rfl : a = b := by omega
    obtain rfl : x = y := Option.some.inj (hx.symm.trans hy)
    have hone : a + 1 - a = 1 := by omega
    have hcut : cut a x = (x.take d).drop c := by
      show (if a = a then (if a = a then _ else x).drop c else _) = _
      rw [if_pos rfl, if_pos rfl]
    have hnone : (texts.take (a - first) ++ [x.take d]).drop (a - first + 1) = [] :=
      List.drop_of_length_le (by rw [List.length_append, hlength]; rfl)
    rw [hone, hdrop, List.take_succ_cons, List.take_zero, List.getD_append_right _ _ _ _ (by omega), hlength,
      Nat.sub_self, hnone]
    show [cut a x] = _
    rw [hcut]
    rfl

theorem getLines_eq (h : doc.Shows first texts) : getLines doc doc.first (doc.first + doc.size) = texts := by
  have hcopy : ∀ (ts out : List (List α)), ts.foldl (fun out t => out ++ [t]) out = out ++ ts := by
    intro ts
    induction ts with
    | nil => exact fun out => (List.append_nil out).symm
    | cons t ts ih => exact fun out => (ih _).trans (List.append_assoc out [t] ts)
  have hstart : doc.first - first = 0 := by
    rw [h.first]
    exact Nat.sub_self _
  unfold getLines
  rw [h.iter_foldl _ _ (fun out t => out ++ [t]), hcopy, List.nil_append, hstart, List.drop_zero,
    Nat.add_sub_cancel_left, h.size, List.take_length]

end Between

section Clip

theorem Doc.Shows.lineLength (h : doc.Shows first texts) {n : ℕ} (hn : n < texts.length) :
    lineLength doc (first + n) = (texts.getD n []).length := by
  have htext : texts[first + n - first]? = some texts[n] := by
    rw [Nat.add_sub_cancel_left, List.getElem?_eq_getElem hn]
  obtain ⟨line, hline, htext⟩ := h.getLine (Nat.le_add_right _ _) htext
  unfold StudyTech.lineLength
  rw [hline, List.getD_eq_getElem _ _ hn, ← htext]
  rfl

theorem getD_In {n ch : ℕ} (hn : n < texts.length) (hch : ch ≤ (texts.getD n []).length) :
    (⟨first + n, ch⟩ : Pos).In first texts := by
  refine ⟨Nat.le_add_right _ _, texts.getD n [], ?_, hch⟩
  show texts[first + n - first]? = _
  rw [Nat.add_sub_cancel_left, List.getD_eq_getElem _ _ hn, List.getElem?_eq_getElem hn]

theorem clipToLen_le (line : ℕ) (ch : Option ℤ) (linelen : ℕ) :
    (clipToLen line ch linelen).line = line ∧ (clipToLen line ch linelen).ch ≤ linelen := by
  unfold clipToLen
  split
  · exact ⟨rfl, le_rfl⟩
  · split
    · exact ⟨rfl, le_rfl⟩
    · split
      · exact ⟨rfl, Nat.zero_le _⟩
      · refine ⟨rfl, ?_⟩
        show Int.toNat _ ≤ linelen
        omega

/-- A clipped position is in the document. -/
theorem clipPos_in (h : doc.Shows first texts) (hne : texts ≠ []) (pos : GivenPos) :
    (clipPos doc pos).In first texts := by
  have hlength : 0 < texts.length := List.length_pos_iff.2 hne
  unfold clipPos
  rw [h.first, h.size]
  split
  · exact getD_In hlength (Nat.zero_le _)
  · next hge =>
    have hlast : first + texts.length - 1 = first + (texts.length - 1) := by omega
    simp only [hlast]
    split
    · rw [h.lineLength (by omega)]
      exact getD_In (by omega) le_rfl
    · next hle =>
      have hline : pos.line.toNat = first + (pos.line.toNat - first) := by omega
      obtain ⟨hsame, hch⟩ := clipToLen_le pos.line.toNat pos.ch (lineLength doc pos.line.toNat)
      generalize clipToLen _ _ _ = clipped at hsame hch
      obtain ⟨line, ch⟩ := clipped
      replace hsame : line = pos.line.toNat := hsame
      rw [hline, h.lineLength (by omega)] at hch
      rw [hsame, hline]
      exact getD_In (by omega) hch

/-- A position of the document is clipped to itself. -/
theorem clipPos_self (h : doc.Shows first texts) {pos : Pos} (hpos : pos.In first texts) :
    clipPos doc ⟨pos.line, some pos.ch⟩ = pos := by
  obtain ⟨hfirst, text, htext, hch⟩ := hpos
  replace htext : texts[pos.line - first]? = some text := htext
  replace hch : pos.ch ≤ text.length := hch
  obtain ⟨hlt, hget⟩ := List.getElem?_eq_some_iff.1 htext
  have hline : first + (pos.line - first) = pos.line := by omega
  have hlength := h.lineLength hlt
  rw [List.getD_eq_getElem _ _ hlt, hget, hline] at hlength
  unfold clipPos clipToLen
  rw [h.first, h.size]
  simp only [Int.toNat_natCast, hlength]
  rw [if_neg (by omega), if_neg (by omega), if_neg (by omega), if_neg (by omega)]

end Clip

section Changes

theorem Pos.In.endOf {pos : Pos} (h : pos.In first texts) : endOf (upTo texts (pos.rel first)) = pos.rel first :=
  endOf_upTo h.2

/-- Where the text of a change ends. -/
theorem changeEnd_rel (hchange : change.In first texts) : first ≤ (changeEnd change).line ∧
    (changeEnd change).rel first = endOf (glue (upTo texts (change.start.rel first)) change.text) := by
  have hstart : first ≤ change.start.line := hchange.start.1
  have hlength : 0 < change.text.length := List.length_pos_iff.2 hchange.text
  rw [endOf_glue_eq (upTo_ne_nil _ _) hchange.text, hchange.start.endOf]
  refine ⟨?_, Prod.ext ?_ rfl⟩
  · show first ≤ change.start.line + change.text.length - 1
    omega
  · show change.start.line + change.text.length - 1 - first = change.start.line - first + change.text.length - 1
    omega

/-- A change has the text before it, its own one, and the text behind it. -/
theorem Change.apply_eq (first : ℕ) (texts : List (List α)) (change : Change α) : change.apply first texts =
    glue (upTo texts (change.start.rel first)) (glue change.text (behind texts (change.stop.rel first))) := rfl

theorem Change.apply_ne_nil (first : ℕ) (texts : List (List α)) (change : Change α) : change.apply first texts ≠ [] :=
  splice_ne_nil _ _ _ _

theorem Change.In.three (hchange : change.In first texts) : texts = glue (upTo texts (change.start.rel first))
    (glue (between texts (change.start.rel first) (change.stop.rel first)) (behind texts (change.stop.rel first))) :=
  (glue_three hchange.stop.2 hchange.le).symm

/-- The end of a change is in the new document. -/
theorem changeEnd_in (hchange : change.In first texts) : (changeEnd change).In first (change.apply first texts) ∧
    upTo (change.apply first texts) ((changeEnd change).rel first) =
      glue (upTo texts (change.start.rel first)) change.text ∧
    behind (change.apply first texts) ((changeEnd change).rel first) = behind texts (change.stop.rel first) := by
  obtain ⟨hfirst, hend⟩ := changeEnd_rel hchange
  have hne := glue_ne_nil (upTo_ne_nil texts (change.start.rel first)) change.text
  unfold Pos.In
  rw [hend, Change.apply_eq, ← glue_assoc]
  exact ⟨⟨hfirst, hasPos_glue hne (behind_ne_nil _ _)⟩, upTo_glue hne (behind_ne_nil _ _),
    behind_glue hne (behind_ne_nil _ _)⟩

/-- What is in front of a change stays where it is. -/
theorem before_in (hchange : change.In first texts) {pos : Pos} (hpos : pos.In first texts)
    (hle : PosLe (pos.rel first) (change.start.rel first)) : pos.In first (change.apply first texts) ∧
      upTo (change.apply first texts) (pos.rel first) = upTo texts (pos.rel first) := by
  have hsplit : change.apply first texts = glue (upTo texts (pos.rel first))
      (glue (between texts (pos.rel first) (change.start.rel first))
        (glue change.text (behind texts (change.stop.rel first)))) := by
    rw [Change.apply_eq, ← glue_assoc (upTo texts (pos.rel first)), glue_between hchange.start.2 hle]
  have hne := glue_ne_nil (between_ne_nil texts (pos.rel first) (change.start.rel first))
    (glue change.text (behind texts (change.stop.rel first)))
  have hat := hasPos_glue (upTo_ne_nil texts (pos.rel first)) hne
  have hupTo := upTo_glue (upTo_ne_nil texts (pos.rel first)) hne
  rw [← hsplit, hpos.endOf] at hat hupTo
  exact ⟨⟨hpos.1, hat⟩, hupTo⟩

/-- What is behind a change moves with the text. -/
theorem behind_in (hchange : change.In first texts) {pos : Pos} (hpos : pos.In first texts)
    (hlt : 0 < cmpPos pos change.stop) : (adjustForChange pos change).In first (change.apply first texts) ∧
      upTo (change.apply first texts) ((adjustForChange pos change).rel first) =
        glue (upTo texts (change.start.rel first))
          (glue change.text (between texts (change.stop.rel first) (pos.rel first))) ∧
      behind (change.apply first texts) ((adjustForChange pos change).rel first) = behind texts (pos.rel first) := by
  have hposFirst : first ≤ pos.line := hpos.1
  have hstartFirst : first ≤ change.start.line := hchange.start.1
  have hstopFirst : first ≤ change.stop.line := hchange.stop.1
  have hstopLe : PosLe (change.stop.rel first) (pos.rel first) :=
    (posLe_total _ _).resolve_right fun hle => absurd ((cmpPos_le hposFirst hstopFirst).2 hle) (by omega)
  have hstartLe := hchange.le.trans hstopLe
  obtain ⟨hendFirst, hend⟩ := changeEnd_rel hchange
  have hne := glue_ne_nil (upTo_ne_nil texts (change.start.rel first)) change.text
  have hbetween := between_ne_nil texts (change.stop.rel first) (pos.rel first)
  have hlength : 0 < change.text.length := List.length_pos_iff.2 hchange.text
  have hlengthX : 0 < (between texts (change.stop.rel first) (pos.rel first)).length := List.length_pos_iff.2 hbetween
  have hsplit : change.apply first texts = glue (glue (glue (upTo texts (change.start.rel first)) change.text)
      (between texts (change.stop.rel first) (pos.rel first))) (behind texts (pos.rel first)) := by
    have hbehind := glue_cancel (upTo_ne_nil texts (change.stop.rel first)) (behind_ne_nil _ _)
      (glue_ne_nil hbetween (behind texts (pos.rel first)))
      ((glue_upTo_behind hchange.stop.2.lt).trans (glue_three hpos.2 hstopLe).symm)
    rw [Change.apply_eq, hbehind, ← glue_assoc, ← glue_assoc]
  -- both ends are given by the text between the change and the position
  have hposEnd := endOf_glue_eq (upTo_ne_nil texts (change.stop.rel first)) hbetween
  rw [glue_between hpos.2 hstopLe, hpos.endOf, hchange.stop.endOf] at hposEnd
  have hnewEnd := endOf_glue_eq hne hbetween
  rw [← hend] at hnewEnd
  have hadjust : adjustForChange pos change =
      ⟨pos.line + change.text.length - (change.stop.line - change.start.line) - 1,
        if pos.line = change.stop.line then pos.ch + (changeEnd change).ch - change.stop.ch else pos.ch⟩ := by
    have hnotBefore : ¬ cmpPos pos change.start < 0 := fun h => (cmpPos_lt hposFirst hstartFirst).1 h hstartLe
    unfold adjustForChange
    rw [if_neg hnotBefore, if_neg (by omega)]
  have hlines : change.start.line ≤ change.stop.line := by
    have hle := hchange.le
    unfold PosLe Pos.rel at hle
    omega
  generalize (between texts (change.stop.rel first) (pos.rel first)).length = n at hposEnd hnewEnd hlengthX
  generalize ((between texts (change.stop.rel first) (pos.rel first)).getLastD []).length = last at hposEnd hnewEnd
  obtain ⟨hposLine, hposCh⟩ := Prod.mk.inj hposEnd
  replace hposLine : pos.line - first = change.stop.line - first + n - 1 := hposLine
  replace hposCh : pos.ch = last + if n = 1 then change.stop.ch else 0 := hposCh
  have hrel : (adjustForChange pos change).rel first =
      endOf (glue (glue (upTo texts (change.start.rel first)) change.text)
        (between texts (change.stop.rel first) (pos.rel first))) := by
    rw [hnewEnd, hadjust]
    refine Prod.ext ?_ ?_
    · show pos.line + change.text.length - (change.stop.line - change.start.line) - 1 - first =
        change.start.line + change.text.length - 1 - first + n - 1
      omega
    · show (if pos.line = change.stop.line then pos.ch + (changeEnd change).ch - change.stop.ch else pos.ch) =
        last + if n = 1 then (changeEnd change).ch else 0
      by_cases hone : n = 1
      · rw [if_pos hone] at hposCh
        rw [if_pos hone, if_pos (by omega)]
        omega
      · rw [if_neg hone] at hposCh
        rw [if_neg hone, if_neg (by omega)]
        exact hposCh
  have hadjustFirst : first ≤ (adjustForChange pos change).line := by
    rw [hadjust]
    show first ≤ pos.line + change.text.length - (change.stop.line - change.start.line) - 1
    omega
  have hwhole := glue_ne_nil hne (between texts (change.stop.rel first) (pos.rel first))
  unfold Pos.In
  rw [hrel, hsplit, ← glue_assoc]
  exact ⟨⟨hadjustFirst, hasPos_glue hwhole (behind_ne_nil _ _)⟩, upTo_glue hwhole (behind_ne_nil _ _),
    behind_glue hwhole (behind_ne_nil _ _)⟩

/-- A position in the new document, with what is in front of it there. -/
theorem adjust_in (hchange : change.In first texts) {pos : Pos} (hpos : pos.In first texts) :
    (adjustForChange pos change).In first (change.apply first texts) ∧
      upTo (change.apply first texts) ((adjustForChange pos change).rel first) =
        if cmpPos pos change.start < 0 then upTo texts (pos.rel first)
        else if cmpPos pos change.stop ≤ 0 then glue (upTo texts (change.start.rel first)) change.text
        else glue (upTo texts (change.start.rel first))
          (glue change.text (between texts (change.stop.rel first) (pos.rel first))) := by
  by_cases hbefore : cmpPos pos change.start < 0
  · have hadjust : adjustForChange pos change = pos := if_pos hbefore
    have hle := (cmpPos_le hpos.1 hchange.start.1).1 hbefore.le
    rw [hadjust, if_pos hbefore]
    exact before_in hchange hpos hle
  · rw [if_neg hbefore]
    by_cases hinside : cmpPos pos change.stop ≤ 0
    · have hadjust : adjustForChange pos change = changeEnd change := (if_neg hbefore).trans (if_pos hinside)
      rw [hadjust, if_pos hinside]
      exact ⟨(changeEnd_in hchange).1, (changeEnd_in hchange).2.1⟩
    · rw [if_neg hinside]
      obtain ⟨hin, hupTo, -⟩ := behind_in hchange hpos (by omega)
      exact ⟨hin, hupTo⟩

/-- Positions stay in order. -/
theorem adjust_mono (hchange : change.In first texts) {p q : Pos} (hp : p.In first texts) (hq : q.In first texts)
    (hle : cmpPos p q ≤ 0) : cmpPos (adjustForChange p change) (adjustForChange q change) ≤ 0 := by
  obtain ⟨hpin, hpupTo⟩ := adjust_in hchange hp
  obtain ⟨hqin, hqupTo⟩ := adjust_in hchange hq
  have hpos := (cmpPos_le hp.1 hq.1).1 hle
  have hstart : ∀ {r : Pos}, r.In first texts →
      (cmpPos r change.start < 0 ↔ ¬ PosLe (change.start.rel first) (r.rel first)) :=
    fun hr => cmpPos_lt hr.1 hchange.start.1
  have hstop : ∀ {r : Pos}, r.In first texts →
      (cmpPos r change.stop ≤ 0 ↔ PosLe (r.rel first) (change.stop.rel first)) :=
    fun hr => cmpPos_le hr.1 hchange.stop.1
  refine (cmpPos_le hpin.1 hqin.1).2 ?_
  -- the text in front of the second one goes on from that in front of the first one
  suffices hmore : ∃ ys, ys ≠ [] ∧ upTo (change.apply first texts) ((adjustForChange q change).rel first) =
      glue (upTo (change.apply first texts) ((adjustForChange p change).rel first)) ys by
    obtain ⟨ys, hys, hmore⟩ := hmore
    exact posLe_of_upTo hpin.2 hqin.2 hys hmore
  rw [hpupTo, hqupTo]
  have hsame : ∀ xs : List (List α), xs ≠ [] → ∃ ys : List (List α), ys ≠ [] ∧ xs = glue xs ys :=
    fun xs hxs => ⟨[[]], List.cons_ne_nil _ _, (glue_unit hxs).symm⟩
  by_cases hpstart : cmpPos p change.start < 0
  · have hple := (cmpPos_le hp.1 hchange.start.1).1 hpstart.le
    have hfront := glue_between hchange.start.2 hple
    rw [if_pos hpstart]
    split
    · exact ⟨_, between_ne_nil _ _ _, (glue_between hq.2 hpos).symm⟩
    · rw [← hfront]
      split
      · exact ⟨_, glue_ne_nil (between_ne_nil _ _ _) _, glue_assoc _ _ _⟩
      · exact ⟨_, glue_ne_nil (between_ne_nil _ _ _) _, glue_assoc _ _ _⟩
  · have hqstart : ¬ cmpPos q change.start < 0 := by
      rw [hstart hq, not_not]
      rw [hstart hp, not_not] at hpstart
      exact hpstart.trans hpos
    rw [if_neg hpstart, if_neg hqstart]
    by_cases hqstop : cmpPos q change.stop ≤ 0
    · have hpstop : cmpPos p change.stop ≤ 0 := (hstop hp).2 (hpos.trans ((hstop hq).1 hqstop))
      rw [if_pos hqstop, if_pos hpstop]
      exact hsame _ (glue_ne_nil (upTo_ne_nil _ _) _)
    · rw [if_neg hqstop]
      by_cases hpstop : cmpPos p change.stop ≤ 0
      · rw [if_pos hpstop]
        exact ⟨_, between_ne_nil _ _ _, (glue_assoc _ _ _).symm⟩
      · have hstople : PosLe (change.stop.rel first) (p.rel first) :=
          (posLe_total _ _).resolve_right fun hle => hpstop ((hstop hp).2 hle)
        rw [if_neg hpstop, between_trans hp.2 hq.2 hstople hpos]
        refine ⟨_, between_ne_nil texts (p.rel first) (q.rel first), ?_⟩
        rw [glue_assoc, glue_assoc]

/-- The change that takes a change back. -/
def Change.inverse (first : ℕ) (texts : List (List α)) (change : Change α) : Change α :=
  { start := change.start
    stop := changeEnd change
    text := between texts (change.start.rel first) (change.stop.rel first) }

theorem inverse_in (hchange : change.In first texts) :
    (change.inverse first texts).In first (change.apply first texts) := by
  have hstart := (before_in hchange hchange.start (.inr ⟨rfl, le_rfl⟩)).1
  refine ⟨hstart, (changeEnd_in hchange).1, ?_, between_ne_nil _ _ _, fun hfull => nomatch hfull⟩
  show PosLe (change.start.rel first) ((changeEnd change).rel first)
  rw [(changeEnd_rel hchange).2]
  nth_rewrite 1 [← hchange.start.endOf]
  exact posLe_endOf_glue (upTo_ne_nil _ _) hchange.text

/-- **A change and the one back give the old text.** -/
theorem inverse_apply (hchange : change.In first texts) :
    (change.inverse first texts).apply first (change.apply first texts) = texts := by
  have hsplice := splice_glue (upTo_ne_nil texts (change.start.rel first)) hchange.text
    (behind_ne_nil texts (change.stop.rel first)) (between texts (change.start.rel first) (change.stop.rel first))
  rw [hchange.start.endOf, ← (changeEnd_rel hchange).2] at hsplice
  exact hsplice.trans hchange.three.symm

end Changes

section Index

variable {newline : α} {lineSep : List α}

/-- The position in front of a document. -/
def Doc.top (doc : Doc α) : GivenPos := ⟨doc.first, some 0⟩

/-- A position behind every document of its size. -/
def Doc.bottom (doc : Doc α) : GivenPos := ⟨doc.first + doc.size, none⟩

/-- A position as a caller that knows it gives it. -/
def Pos.given (pos : Pos) : GivenPos := ⟨pos.line, some pos.ch⟩

theorem clipPos_top (h : doc.Shows first texts) (hne : texts ≠ []) :
    (clipPos doc doc.top).In first texts ∧ (clipPos doc doc.top).rel first = (0, 0) := by
  have hin : (⟨first + 0, 0⟩ : Pos).In first texts := getD_In (List.length_pos_iff.2 hne) (Nat.zero_le _)
  have hclip := clipPos_self h hin
  have htop : doc.top = ⟨((first + 0 : ℕ) : ℤ), some ((0 : ℕ) : ℤ)⟩ := by
    unfold Doc.top
    rw [h.first]
    rfl
  rw [htop, hclip]
  exact ⟨hin, Prod.ext (Nat.sub_self first) rfl⟩

theorem clipPos_bottom (h : doc.Shows first texts) (hne : texts ≠ []) :
    (clipPos doc doc.bottom).In first texts ∧ (clipPos doc doc.bottom).rel first = endOf texts := by
  refine ⟨clipPos_in h hne _, ?_⟩
  have hlength : 0 < texts.length := List.length_pos_iff.2 hne
  have hlast : first + texts.length - 1 = first + (texts.length - 1) := by omega
  unfold clipPos Doc.bottom
  rw [h.first, h.size]
  simp only [hlast]
  rw [if_neg (by omega), if_pos (by omega), h.lineLength (by omega)]
  refine Prod.ext (Nat.add_sub_cancel_left _ _) ?_
  show (texts.getD (texts.length - 1) []).length = (texts.getLastD []).length
  obtain ⟨texts, text, rfl⟩ := (List.eq_nil_or_concat' texts).resolve_left hne
  rw [List.getLastD_concat, List.length_append, List.length_singleton, Nat.add_sub_cancel,
    List.getD_append_right _ _ _ _ le_rfl, Nat.sub_self]
  rfl

/-- `getRange` of positions in order. -/
theorem getRange_eq (h : doc.Shows first texts) (hne : texts ≠ []) {start stop : GivenPos}
    (hle : PosLe ((clipPos doc start).rel first) ((clipPos doc stop).rel first)) :
    getRange newline doc start stop lineSep = (orNewline newline lineSep).intercalate
      (between texts ((clipPos doc start).rel first) ((clipPos doc stop).rel first)) := by
  unfold getRange
  rw [getBetween_eq h (clipPos_in h hne start) (clipPos_in h hne stop) hle]

/-- The text in front of a position. -/
theorem getRange_top (h : doc.Shows first texts) {pos : Pos} (hpos : pos.In first texts) :
    getRange newline doc doc.top pos.given lineSep =
      (orNewline newline lineSep).intercalate (upTo texts (pos.rel first)) := by
  have hne : texts ≠ [] := List.ne_nil_of_length_pos (Nat.zero_lt_of_lt hpos.2.lt)
  obtain ⟨-, htop⟩ := clipPos_top h hne
  have hle : PosLe ((clipPos doc doc.top).rel first) ((clipPos doc pos.given).rel first) := by
    rw [htop]
    unfold PosLe
    omega
  rw [getRange_eq h hne hle, htop]
  unfold Pos.given
  rw [clipPos_self h hpos]
  unfold between
  rw [behind_zero (upTo_ne_nil _ _)]

/-- The text behind a position. -/
theorem getRange_bottom (h : doc.Shows first texts) {pos : Pos} (hpos : pos.In first texts) :
    getRange newline doc pos.given doc.bottom lineSep =
      (orNewline newline lineSep).intercalate (behind texts (pos.rel first)) := by
  have hne : texts ≠ [] := List.ne_nil_of_length_pos (Nat.zero_lt_of_lt hpos.2.lt)
  obtain ⟨-, hbottom⟩ := clipPos_bottom h hne
  have hself : clipPos doc pos.given = pos := clipPos_self h hpos
  have hend : PosLe (pos.rel first) (endOf texts) := by
    have hglue := posLe_endOf_glue (upTo_ne_nil texts (pos.rel first)) (behind_ne_nil texts (pos.rel first))
    rwa [glue_upTo_behind hpos.2.lt, hpos.endOf] at hglue
  have hle : PosLe ((clipPos doc pos.given).rel first) ((clipPos doc doc.bottom).rel first) := by
    rwa [hself, hbottom]
  rw [getRange_eq h hne hle, hself, hbottom]
  unfold between
  rw [upTo_endOf hne]

theorem getValue_eq (h : doc.Shows first texts) :
    getValue newline doc lineSep = (orNewline newline lineSep).intercalate texts := by
  unfold getValue
  rw [getLines_eq h]

end Index

end StudyTech
