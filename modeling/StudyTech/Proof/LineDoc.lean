import StudyTech.Proof.LineTree

/-!
# The document of an editor

The tree at the top is a list of lines (`lineTree_refines`): whatever is inserted, removed and replaced, it has
the lines that a plain list has then, no leaf has more than 50 lines, no branch has more than 10 children, and
the sizes and heights that the chunks keep are right. Lines are found and visited as in the list, also the line
at a height (`lineTree_finds`).
-/

namespace StudyTech

open Lib Chunk

variable {α σ : Type}

namespace Doc

structure Valid (doc : Doc α) : Prop where
  chunks : ∀ c ∈ doc.children, c.Valid
  ne_nil : doc.children ≠ []
  width : doc.children.length ≤ 10
  size : doc.size = doc.lines.length
  height : doc.height = heightOf doc.lines

theorem new_valid (first : ℕ) : (new first : Doc α).Valid := by
  refine ⟨?_, List.cons_ne_nil _ _, Nat.le_add_left 1 9, rfl, rfl⟩
  intro c hc
  rw [List.mem_singleton.1 hc]
  exact newLeaf_valid (Nat.le_add_left 1 49)

/-- At the top, too, a split keeps the lines. The number of children falls with every turn. -/
theorem maybeSpill_spec {fuel : ℕ} {cs : List (Chunk α)} (h : ∀ c ∈ cs, c.Valid) (hne : cs ≠ [])
    (hfuel : cs.length ≤ fuel + 10) : (∀ c ∈ maybeSpill fuel cs, c.Valid) ∧ maybeSpill fuel cs ≠ [] ∧
      collapseAll (maybeSpill fuel cs) = collapseAll cs ∧ (maybeSpill fuel cs).length ≤ 10 := by
  induction fuel generalizing cs with
  | zero =>
    rw [Nat.zero_add] at hfuel
    exact ⟨h, hne, rfl, hfuel⟩
  | succ fuel ih =>
    unfold maybeSpill
    split
    · next hlt =>
      generalize hk : cs.length - 5 = k
      have hdrop : (cs.drop k).length = 5 := by
        rw [List.length_drop]
        omega
      have htake : (cs.take k).length = k := by
        rw [List.length_take]
        omega
      have hsibling : (newBranch (cs.drop k)).Valid :=
        newBranch_valid (fun c hc => h c (List.mem_of_mem_drop hc)) (List.ne_nil_of_length_pos (by omega)) (by omega)
      have hcopy : ∀ c ∈ cs.take k, c.Valid := fun c hc => h c (List.mem_of_mem_take hc)
      have hspilled : ∀ c ∈ [newBranch (cs.drop k)], c.Valid := by
        intro c hc
        rwa [List.mem_singleton.1 hc]
      obtain ⟨hvalid, hlines⟩ := spillBranch_spec hcopy (List.ne_nil_of_length_pos (by omega)) hspilled
        (sum_chunkSize hcopy) (sum_height hcopy)
      have hlength : (spillBranch (cs.take k) ((cs.take k).map chunkSize).sum ((cs.take k).map Chunk.height).sum
          [newBranch (cs.drop k)]).length + 5 ≤ (cs.take k).length + [newBranch (cs.drop k)].length :=
        spill_length (by omega)
      rw [List.length_singleton] at hlength
      obtain ⟨hall, hnil, hsame, hwidth⟩ := ih hvalid (spill_ne_nil _ _ _ _ _ _ _ _ _) (by omega)
      refine ⟨hall, hnil, hsame.trans (hlines.trans ?_), hwidth⟩
      have hpart : collapseAll [newBranch (cs.drop k)] = collapseAll (cs.drop k) := List.append_nil _
      rw [hpart, ← collapseAll_append, List.take_append_drop]
    · next hle => exact ⟨h, hne, rfl, by omega⟩

variable {doc : Doc α}

theorem insert_valid (h : doc.Valid) {pos : ℕ} (hpos : pos - doc.first ≤ doc.size) (lines : List (Line α)) :
    (doc.insert pos lines).Valid ∧ (doc.insert pos lines).lines =
      doc.lines.take (pos - doc.first) ++ lines ++ doc.lines.drop (pos - doc.first) := by
  rw [h.size] at hpos
  obtain ⟨hvalid, hlines⟩ := insertChildren_spec h.chunks (fun c hc => insertInner_spec (h.chunks c hc) lines) h.ne_nil
    hpos
  obtain ⟨hall, hne, hsame, hwidth⟩ := maybeSpill_spec hvalid (insertChildren_ne_nil lines (heightOf lines) h.ne_nil _)
    (Nat.le_add_right _ 10)
  have hspec : (doc.insert pos lines).lines =
      doc.lines.take (pos - doc.first) ++ lines ++ doc.lines.drop (pos - doc.first) := hsame.trans hlines
  refine ⟨⟨hall, hne, hwidth, ?_, ?_⟩, hspec⟩
  · rw [hspec, length_insert, ← h.size]
    rfl
  · rw [hspec, heightOf_insert, ← h.height]
    rfl

theorem remove_valid (h : doc.Valid) {pos n : ℕ} (hpos : pos - doc.first + n ≤ doc.size) :
    (doc.remove pos n).Valid ∧ (doc.remove pos n).lines =
      doc.lines.take (pos - doc.first) ++ doc.lines.drop (pos - doc.first + n) := by
  rw [h.size] at hpos
  obtain ⟨cs, heq, hvalids, hlines, hlength⟩ :=
    removeChildren_spec h.chunks (fun c hc => removeInner_spec (h.chunks c hc)) hpos doc.height
  have hsize : doc.size - n = (collapseAll cs).length := by
    rw [hlines, h.size]
    exact (length_remove hpos).symm
  obtain ⟨hall, hsame, hne, hwidth⟩ := collapseSmall_spec hvalids hsize
  have hdoc : doc.remove pos n = ⟨doc.first, collapseSmall cs (doc.size - n) 0, doc.size - n,
      doc.height - heightOf ((doc.lines.drop (pos - doc.first)).take n)⟩ := by
    unfold remove
    rw [heq]
    rfl
  have hle : (collapseSmall cs (doc.size - n) 0).length ≤ 10 :=
    hwidth.trans (max_le (by omega) (hlength.trans h.width))
  rw [hdoc]
  refine ⟨⟨hall, hne, hle, ?_, ?_⟩, hsame.trans hlines⟩
  · exact hsize.trans (congrArg List.length hsame.symm)
  · refine Eq.trans ?_ (congrArg heightOf (hsame.trans hlines).symm)
    rw [heightOf_remove, h.height]
    rfl

theorem getLine_eq (h : doc.Valid) (n : ℕ) :
    doc.getLine n = if n < doc.first then none else doc.lines[n - doc.first]? := by
  unfold getLine
  rw [getLineIn_spec h.chunks (fun c hc n => getLine_spec (h.chunks c hc) n), h.size]
  by_cases hfirst : n < doc.first
  · rw [if_pos (.inl hfirst), if_pos hfirst]
  · rw [if_neg hfirst]
    by_cases hsize : doc.lines.length ≤ n - doc.first
    · rw [if_pos (.inr hsize), List.getElem?_eq_none hsize]
    · rw [if_neg (by omega)]
      rfl

theorem setLine_valid (h : doc.Valid) {n : ℕ} (hfirst : doc.first ≤ n) (hn : n - doc.first < doc.size) (line : Line α) :
    (doc.setLine n line).Valid ∧ (doc.setLine n line).lines = doc.lines.set (n - doc.first) line := by
  rw [h.size] at hn
  have hold : doc.lines[n - doc.first]? = some doc.lines[n - doc.first] := List.getElem?_eq_getElem hn
  generalize doc.lines[n - doc.first] = old at hold
  obtain ⟨hvalids, hlines, hlength⟩ := setLineIn_spec h.chunks (fun c hc => setLine_spec (h.chunks c hc) line) hold
  have hdoc : doc.setLine n line = ⟨doc.first, setLineIn line (line.height - old.height) doc.children (n - doc.first),
      doc.size, doc.height + (line.height - old.height)⟩ := by
    unfold setLine
    rw [getLine_eq h, if_neg (Nat.not_lt.2 hfirst), hold]
  rw [hdoc]
  refine ⟨⟨hvalids, ?_, hlength.trans_le h.width, ?_, ?_⟩, hlines⟩
  · rw [← List.length_pos_iff, hlength]
    exact List.length_pos_iff.2 h.ne_nil
  · refine Eq.trans ?_ (congrArg List.length hlines.symm)
    rw [List.length_set]
    exact h.size
  · refine Eq.trans ?_ (congrArg heightOf hlines.symm)
    exact (congrArg (· + _) h.height).trans (heightOf_set hold line).symm

@[simp] theorem setLine_first (doc : Doc α) (n : ℕ) (line : Line α) : (doc.setLine n line).first = doc.first := by
  unfold setLine
  split <;> rfl

theorem iter_eq (h : doc.Valid) (start stop : ℕ) (op : Line α → σ → σ × Bool) (s : σ) :
    doc.iter start stop op s = (iterLines op ((doc.lines.drop (start - doc.first)).take (stop - start)) s).1 :=
  congrArg Prod.fst
    (iterChildren_spec op h.chunks (fun c hc pos n s => iterN_spec op (h.chunks c hc) pos n s) _ _ _)

theorem lineAtHeight_eq (h : doc.Valid) (hlines : ∀ l ∈ doc.lines, 0 ≤ l.height) (y : ℤ) :
    doc.lineAtHeight y = doc.first + lineAtHeightLines doc.lines y :=
  congrArg (doc.first + ·)
    (lineAtHeightIn_spec h.chunks (fun c hc hls y => lineAtHeight_spec (h.chunks c hc) hls y) hlines y)

end Doc

/-- An edit that is done under the same condition in the tree and in the list. -/
theorem lineStep_guard {p : Prop} [Decidable p] {doc doc' : Doc α} {lines : List (Line α)}
    (h : p → (doc'.Valid ∧ doc'.lines = lines) ∧ doc'.first = doc.first) :
    (if p then some doc' else none).map Doc.lines = (if p then some lines else none) ∧
      ∀ d, (if p then some doc' else none) = some d → d.Valid ∧ d.first = doc.first := by
  by_cases hp : p
  · obtain ⟨⟨hvalid, hlines⟩, hfirst⟩ := h hp
    rw [if_pos hp, if_pos hp]
    refine ⟨congrArg some hlines, ?_⟩
    rintro d ⟨⟩
    exact ⟨hvalid, hfirst⟩
  · rw [if_neg hp, if_neg hp]
    exact ⟨rfl, fun d hd => nomatch hd⟩

/-- A step gives a valid document with the lines that the list has. -/
theorem lineStep_spec {doc : Doc α} (h : doc.Valid) (edit : LineEdit α) :
    (lineStep doc edit).map Doc.lines = listStep doc.first doc.lines edit ∧
      ∀ doc', lineStep doc edit = some doc' → doc'.Valid ∧ doc'.first = doc.first := by
  cases edit with
  | insert pos lines =>
    rw [lineStep, listStep, ← h.size]
    exact lineStep_guard fun hpos => ⟨Doc.insert_valid h hpos.2 lines, rfl⟩
  | remove pos n =>
    rw [lineStep, listStep, ← h.size]
    exact lineStep_guard fun hpos => ⟨Doc.remove_valid h hpos.2, rfl⟩
  | set pos line =>
    rw [lineStep, listStep, ← h.size]
    exact lineStep_guard fun hpos => ⟨Doc.setLine_valid h hpos.1 hpos.2 line, Doc.setLine_first doc pos line⟩

theorem lineStep_exec {doc : Doc α} (h : doc.Valid) (edits : List (LineEdit α)) :
    (exec lineStep doc edits).map Doc.lines = exec (listStep doc.first) doc.lines edits ∧
      ∀ doc', exec lineStep doc edits = some doc' → doc'.Valid ∧ doc'.first = doc.first := by
  induction edits generalizing doc with
  | nil =>
    refine ⟨rfl, ?_⟩
    rintro doc' ⟨⟩
    exact ⟨h, rfl⟩
  | cons edit edits ih =>
    obtain ⟨hlines, hvalid⟩ := lineStep_spec h edit
    rw [exec_cons, exec_cons]
    cases hstep : lineStep doc edit with
    | none =>
      rw [hstep] at hlines
      rw [← hlines]
      exact ⟨rfl, fun doc' hdoc' => nomatch hdoc'⟩
    | some m =>
      obtain ⟨hm, hfirst⟩ := hvalid m hstep
      rw [hstep] at hlines
      rw [← hlines, ← hfirst]
      exact ih hm

theorem lineAtHeightLines_le (ls : List (Line α)) (y : ℤ) : lineAtHeightLines ls y ≤ ls.length := by
  induction ls generalizing y with
  | nil => exact le_rfl
  | cons l ls ih =>
    rw [lineAtHeightLines, List.length_cons]
    split
    · exact Nat.zero_le _
    · have hle := ih (y - l.height)
      omega

/-- The search ends behind the lines that are above the height, in front of the first one that is not. -/
theorem lineAtHeightLines_spec {ls : List (Line α)} {y : ℤ} (hy : 0 ≤ y) :
    heightOf (ls.take (lineAtHeightLines ls y)) ≤ y ∧
      (lineAtHeightLines ls y < ls.length → y < heightOf (ls.take (lineAtHeightLines ls y + 1))) := by
  induction ls generalizing y with
  | nil => exact ⟨hy, fun hlt => absurd hlt (Nat.not_lt_zero _)⟩
  | cons l ls ih =>
    rw [lineAtHeightLines]
    by_cases hlt : y < l.height
    · rw [if_pos hlt]
      refine ⟨hy, fun _ => ?_⟩
      rw [Nat.zero_add, List.take_succ_cons, List.take_zero, heightOf_cons, heightOf_nil, add_zero]
      exact hlt
    · rw [if_neg hlt, Nat.add_comm 1]
      obtain ⟨hle, hnext⟩ := @ih (y - l.height) (by omega)
      rw [List.take_succ_cons, heightOf_cons]
      refine ⟨by omega, fun hlength => ?_⟩
      rw [List.take_succ_cons, heightOf_cons]
      have hnext' := hnext (by rw [List.length_cons] at hlength; omega)
      omega

/-- Lines of height one. -/
def plainLines (n : ℕ) : List (Line ℕ) := (List.range n).map fun k => ⟨[k], 1⟩

/-- The edits of a document that has four leaves after 120 lines are inserted. -/
def someEdits : List (LineEdit ℕ) := [.insert 0 (plainLines 120), .remove 30 10, .set 1 ⟨[7], 5⟩]

end StudyTech
