import Mathlib.Data.Prod.Lex
import StudyTech.Proof.DocPos
import StudyTech.Spec.EditSelection

/-!
# Selections are sorted and their ranges apart

`normalizeSelection` makes ranges in any order into a selection: its ranges are sorted, do not touch, and cover
what the given ones cover, and the primary range covers the given primary one (`normalizeSelection_spec`).
-/

namespace StudyTech

open Lib

section Order

/-- Positions in the order of lines and letters. -/
def Pos.key (p : Pos) : ℕ ×ₗ ℕ := toLex (p.line, p.ch)

theorem Pos.key_injective : Function.Injective Pos.key := by
  intro a b h
  obtain ⟨hline, hch⟩ := Prod.mk.inj (toLex.injective h)
  cases a
  cases b
  rw [Pos.mk.injEq]
  exact ⟨hline, hch⟩

instance : LinearOrder Pos := LinearOrder.lift' Pos.key Pos.key_injective

theorem pos_le {a b : Pos} : a ≤ b ↔ a.line < b.line ∨ a.line = b.line ∧ a.ch ≤ b.ch := Prod.Lex.le_iff

theorem cmpPos_nonpos {a b : Pos} : cmpPos a b ≤ 0 ↔ a ≤ b := by
  rw [pos_le]
  unfold cmpPos
  split <;> omega

theorem cmpPos_nonneg {a b : Pos} : 0 ≤ cmpPos a b ↔ b ≤ a := by
  rw [pos_le]
  unfold cmpPos
  split <;> omega

theorem cmpPos_neg {a b : Pos} : cmpPos a b < 0 ↔ a < b := by
  rw [← not_le, ← not_le, cmpPos_nonneg]

theorem minPos_eq (a b : Pos) : minPos a b = min a b := by
  unfold minPos
  simp only [cmpPos_neg]
  split
  · next hlt => exact (min_eq_left hlt.le).symm
  · next hge => exact (min_eq_right (not_lt.1 hge)).symm

theorem maxPos_eq (a b : Pos) : maxPos a b = max a b := by
  unfold maxPos
  simp only [cmpPos_neg]
  split
  · next hlt => exact (max_eq_right hlt.le).symm
  · next hge => exact (max_eq_left (not_lt.1 hge)).symm

end Order

namespace Range

/-- The position is in the range. -/
def Covers (r : Range) (p : Pos) : Prop := r.start ≤ p ∧ p ≤ r.stop

/-- The position is in one of the ranges. -/
def CoveredBy (rs : List Range) (p : Pos) : Prop := ∃ r ∈ rs, r.Covers p

@[simp] theorem coveredBy_cons (r : Range) (rs : List Range) (p : Pos) :
    CoveredBy (r :: rs) p ↔ r.Covers p ∨ CoveredBy rs p := by
  unfold CoveredBy
  simp only [List.mem_cons, exists_eq_or_imp]

@[simp] theorem coveredBy_append (rs rs' : List Range) (p : Pos) :
    CoveredBy (rs ++ rs') p ↔ CoveredBy rs p ∨ CoveredBy rs' p := by
  unfold CoveredBy
  simp only [List.mem_append, or_and_right, exists_or]

theorem coveredBy_perm {rs rs' : List Range} (h : rs.Perm rs') (p : Pos) : CoveredBy rs p ↔ CoveredBy rs' p := by
  unfold CoveredBy
  simp only [h.mem_iff]

/-- A range as the loop makes it, in either direction. -/
theorem start_stop {start stop : Pos} (h : start ≤ stop) (inv : Bool) :
    Range.start ⟨if inv then stop else start, if inv then start else stop⟩ = start ∧
      Range.stop ⟨if inv then stop else start, if inv then start else stop⟩ = stop := by
  unfold Range.start Range.stop
  rw [minPos_eq, maxPos_eq]
  cases inv with
  | true => exact ⟨min_eq_right h, max_eq_left h⟩
  | false => exact ⟨min_eq_left h, max_eq_right h⟩

theorem start_le_stop (r : Range) : r.start ≤ r.stop := by
  unfold start stop
  rw [minPos_eq, maxPos_eq]
  exact min_le_max

end Range

section Normalize

/-- What the loop makes of a range that touches the last one: it covers what the two cover. -/
theorem merged_covers {prev cur merged : Range} (hle : prev.start ≤ cur.start) (htouch : cur.start ≤ prev.stop)
    (hstart : merged.start = min prev.start cur.start) (hstop : merged.stop = max prev.stop cur.stop) (p : Pos) :
    merged.Covers p ↔ prev.Covers p ∨ cur.Covers p := by
  unfold Range.Covers
  rw [hstart, hstop, min_eq_left hle, le_max_iff]
  constructor
  · rintro ⟨hfrom, hto⟩
    rcases le_total p prev.stop with hprev | hprev
    · exact .inl ⟨hfrom, hprev⟩
    · rcases hto with hto | hto
      · exact .inl ⟨hfrom, hto⟩
      · exact .inr ⟨htouch.trans hprev, hto⟩
  · rintro (⟨hfrom, hto⟩ | ⟨hfrom, hto⟩)
    · exact ⟨hfrom, .inl hto⟩
    · exact ⟨hle.trans hfrom, .inr hto⟩

/-- Where two ranges become one, the primary range is where it was, or a place before, and covers as much. -/
theorem primary_merged {done rest : List Range} {prev cur merged prim : Range} {k : ℕ}
    (hprim : ((prev :: done).reverse ++ cur :: rest)[k]? = some prim)
    (hcovers : ∀ p, merged.Covers p ↔ prev.Covers p ∨ cur.Covers p) :
    ∃ prim', ((merged :: done).reverse ++ rest)[if done.length + 1 ≤ k then k - 1 else k]? = some prim' ∧
      ∀ p, prim.Covers p → prim'.Covers p := by
  rw [List.reverse_cons, List.append_assoc, List.singleton_append, List.getElem?_append, List.length_reverse] at hprim
  rw [List.reverse_cons, List.append_assoc, List.singleton_append]
  rcases Nat.lt_trichotomy k done.length with hlt | rfl | hgt
  · rw [if_pos hlt] at hprim
    rw [if_neg (by omega), List.getElem?_append_left (by rwa [List.length_reverse])]
    exact ⟨prim, hprim, fun p hp => hp⟩
  · rw [if_neg (lt_irrefl _), Nat.sub_self] at hprim
    obtain rfl : prev = prim := Option.some.inj hprim
    rw [if_neg (by omega), List.getElem?_append_right (by rw [List.length_reverse]), List.length_reverse, Nat.sub_self]
    exact ⟨merged, rfl, fun p hp => (hcovers p).2 (.inl hp)⟩
  · obtain ⟨j, rfl⟩ : ∃ j, k = done.length + 1 + j := ⟨k - (done.length + 1), by omega⟩
    have hindex : done.length + 1 + j - done.length = j + 1 := by omega
    have hindex' : done.length + 1 + j - 1 - done.length = j := by omega
    rw [if_neg (by omega), hindex, List.getElem?_cons_succ] at hprim
    rw [if_pos (Nat.le_add_right _ _), List.getElem?_append_right (by rw [List.length_reverse]; omega),
      List.length_reverse, hindex']
    cases j with
    | zero =>
      obtain rfl : cur = prim := Option.some.inj hprim
      exact ⟨merged, rfl, fun p hp => (hcovers p).2 (.inr hp)⟩
    | succ j =>
      rw [List.getElem?_cons_succ] at hprim ⊢
      exact ⟨prim, hprim, fun p hp => hp⟩

/-- The ranges that the loop gives are apart and cover what it was given, and its primary range covers the one
that was primary. -/
theorem mergeRanges_spec {done rest : List Range} {primIndex : ℕ} (hdone : done.Pairwise fun a b => b.stop < a.start)
    (hrest : rest.Pairwise fun a b => a.start ≤ b.start) (hhead : ∀ prev ∈ done.head?, ∀ r ∈ rest, prev.start ≤ r.start)
    {prim : Range} (hprim : (done.reverse ++ rest)[primIndex]? = some prim) :
    (mergeRanges done rest primIndex).ranges.Pairwise (fun a b => a.stop < b.start) ∧
      (∀ p, Range.CoveredBy (mergeRanges done rest primIndex).ranges p ↔ Range.CoveredBy (done ++ rest) p) ∧
      ∃ r, (mergeRanges done rest primIndex).ranges[(mergeRanges done rest primIndex).primIndex]? = some r ∧
        ∀ p, prim.Covers p → r.Covers p := by
  induction rest generalizing done primIndex prim with
  | nil =>
    have hend : mergeRanges done [] primIndex = ⟨done.reverse, primIndex⟩ := by
      unfold mergeRanges
      rfl
    rw [hend]
    rw [List.append_nil] at hprim
    rw [List.append_nil]
    exact ⟨List.pairwise_reverse.2 hdone, Range.coveredBy_perm (List.reverse_perm done), prim, hprim, fun p hp => hp⟩
  | cons cur rest ih =>
    obtain ⟨hcur, hrest⟩ := List.pairwise_cons.1 hrest
    cases done with
    | nil =>
      have hone : ∀ prev ∈ [cur].head?, ∀ r ∈ rest, prev.start ≤ r.start := by
        intro prev hprev
        cases hprev
        exact hcur
      have hpair : [cur].Pairwise fun a b => b.stop < a.start := List.pairwise_singleton _ _
      unfold mergeRanges
      exact ih hpair hrest hone hprim
    | cons prev done =>
      obtain ⟨hprevDone, hdone⟩ := List.pairwise_cons.1 hdone
      have hle : prev.start ≤ cur.start := hhead prev rfl cur List.mem_cons_self
      unfold mergeRanges
      simp only [cmpPos_nonneg]
      by_cases htouch : cur.start ≤ prev.stop
      · rw [if_pos htouch]
        have hspan : min prev.start cur.start ≤ max prev.stop cur.stop :=
          (min_le_left _ _).trans (prev.start_le_stop.trans (le_max_left _ _))
        obtain ⟨hstart, hstop⟩ := Range.start_stop hspan (if prev.empty then cur.startIsHead else prev.startIsHead)
        rw [minPos_eq, maxPos_eq]
        generalize Range.mk (if (if prev.empty then cur.startIsHead else prev.startIsHead) then max prev.stop cur.stop
          else min prev.start cur.start) (if (if prev.empty then cur.startIsHead else prev.startIsHead) then
            min prev.start cur.start else max prev.stop cur.stop) = merged at hstart hstop ⊢
        have hcovers := merged_covers hle htouch hstart hstop
        have hmergedStart : merged.start = prev.start := hstart.trans (min_eq_left hle)
        have hpair : (merged :: done).Pairwise fun a b => b.stop < a.start := by
          refine List.pairwise_cons.2 ⟨?_, hdone⟩
          rw [hmergedStart]
          exact hprevDone
        have hnext : ∀ m ∈ (merged :: done).head?, ∀ r ∈ rest, m.start ≤ r.start := by
          intro m hm r hr
          cases hm
          rw [hmergedStart]
          exact hhead prev rfl r (List.mem_cons_of_mem _ hr)
        -- the primary range is still there, or it is a part of the new one
        obtain ⟨prim', hprim', hmore⟩ := primary_merged hprim hcovers
        obtain ⟨hsorted, hunion, r, hr, hprimary⟩ := ih hpair hrest hnext hprim'
        refine ⟨hsorted, fun p => (hunion p).trans ?_, r, hr, fun p hp => hprimary p (hmore p hp)⟩
        simp only [Range.coveredBy_cons, Range.coveredBy_append, hcovers]
        rw [or_assoc]
        exact or_or_or_comm
      · rw [if_neg htouch]
        have hpair : (cur :: prev :: done).Pairwise fun a b => b.stop < a.start := by
          refine List.pairwise_cons.2 ⟨?_, List.pairwise_cons.2 ⟨hprevDone, hdone⟩⟩
          intro b hb
          rcases List.mem_cons.1 hb with rfl | hb
          · exact not_le.1 htouch
          · exact (hprevDone b hb).trans_le hle
        have hnext : ∀ m ∈ (cur :: prev :: done).head?, ∀ r ∈ rest, m.start ≤ r.start := by
          intro m hm
          cases hm
          exact hcur
        have hprim' : ((cur :: prev :: done).reverse ++ rest)[primIndex]? = some prim := by
          rwa [List.reverse_cons, List.append_assoc]
        obtain ⟨hsorted, hunion, hprimary⟩ := ih hpair hrest hnext hprim'
        refine ⟨hsorted, fun p => (hunion p).trans ?_, hprimary⟩
        simp only [Range.coveredBy_cons, Range.coveredBy_append]
        rw [or_assoc, or_left_comm, or_assoc]

/-- The positions of the merged ranges are positions of the given ones, and one of them is primary. -/
theorem mergeRanges_keeps {P : Pos → Prop} {done rest : List Range} {primIndex : ℕ}
    (h : ∀ r ∈ done ++ rest, P r.anchor ∧ P r.head) (hprim : primIndex < done.length + rest.length) :
    (∀ r ∈ (mergeRanges done rest primIndex).ranges, P r.anchor ∧ P r.head) ∧
      (mergeRanges done rest primIndex).primIndex < (mergeRanges done rest primIndex).ranges.length := by
  fun_induction mergeRanges done rest primIndex with
  | case1 done primIndex =>
    refine ⟨fun r hr => h r (List.mem_append_left _ (List.mem_reverse.1 hr)), ?_⟩
    rwa [List.length_reverse]
  | case2 cur rest primIndex ih => exact ih h (by simpa [Nat.add_comm] using hprim)
  | case3 prev done cur rest primIndex htouch start stop inv ih =>
    have hprev := h prev List.mem_cons_self
    have hcur := h cur (List.mem_append_right _ List.mem_cons_self)
    have hmin : ∀ {a b : Pos}, P a → P b → P (minPos a b) := fun ha hb => by
      unfold minPos
      split
      · exact ha
      · exact hb
    have hmax : ∀ {a b : Pos}, P a → P b → P (maxPos a b) := fun ha hb => by
      unfold maxPos
      split
      · exact hb
      · exact ha
    have hstart : P start := hmin (hmin hprev.1 hprev.2) (hmin hcur.1 hcur.2)
    have hstop : P stop := hmax (hmax hprev.1 hprev.2) (hmax hcur.1 hcur.2)
    refine ih (fun r hr => ?_) ?_
    · rcases List.mem_cons.1 hr with rfl | hr
      · cases inv with
        | true => exact ⟨hstop, hstart⟩
        | false => exact ⟨hstart, hstop⟩
      · rcases List.mem_append.1 hr with hr | hr
        · exact h r (List.mem_cons_of_mem _ (List.mem_append_left _ hr))
        · exact h r (List.mem_append_right _ (List.mem_cons_of_mem _ hr))
    · simp only [List.length_cons] at hprim ⊢
      split <;> omega
  | case4 prev done cur rest primIndex hnot ih =>
    refine ih (fun r hr => ?_) ?_
    · rcases List.mem_append.1 hr with hr | hr
      · rcases List.mem_cons.1 hr with rfl | hr
        · exact h r (List.mem_append_right _ List.mem_cons_self)
        · exact h r (List.mem_append_left _ hr)
      · exact h r (List.mem_append_right _ (List.mem_cons_of_mem _ hr))
    · simp only [List.length_cons] at hprim ⊢
      omega

theorem normalizeSelection_keeps {P : Pos → Prop} {ranges : List Range} {primIndex : ℕ}
    (h : ∀ r ∈ ranges, P r.anchor ∧ P r.head) (hprim : primIndex < ranges.length) :
    (∀ r ∈ (normalizeSelection ranges primIndex).ranges, P r.anchor ∧ P r.head) ∧
      (normalizeSelection ranges primIndex).primIndex < (normalizeSelection ranges primIndex).ranges.length := by
  unfold normalizeSelection
  generalize hsorted : (ranges.zipIdx.mergeSort fun a b => decide (cmpPos a.1.start b.1.start ≤ 0)) = sorted
  have hperm : sorted.Perm ranges.zipIdx := hsorted ▸ List.mergeSort_perm _ _
  have hranges := hperm.map Prod.fst
  rw [List.zipIdx_map_fst] at hranges
  have hmem : (ranges[primIndex], primIndex) ∈ sorted :=
    hperm.mem_iff.2 (List.mem_zipIdx_iff_getElem?.2 (List.getElem?_eq_getElem hprim))
  refine mergeRanges_keeps (fun r hr => h r (hranges.mem_iff.1 hr)) ?_
  rw [List.length_nil, Nat.zero_add, List.length_map]
  exact List.findIdx_lt_length_of_exists ⟨_, hmem, beq_self_eq_true primIndex⟩

/-- **Ranges become a selection.** The ranges of the normalized selection are sorted and do not touch, they cover
what the given ranges cover, and the primary one covers the given primary range. -/
theorem normalizeSelection_spec {ranges : List Range} {primIndex : ℕ} {prim : Range}
    (hprim : ranges[primIndex]? = some prim) :
    (normalizeSelection ranges primIndex).ranges.Pairwise (fun a b => cmpPos a.stop b.start < 0) ∧
      (∀ p, Range.CoveredBy (normalizeSelection ranges primIndex).ranges p ↔ Range.CoveredBy ranges p) ∧
      ∃ r, (normalizeSelection ranges primIndex).ranges[(normalizeSelection ranges primIndex).primIndex]? = some r ∧
        ∀ p, prim.Covers p → r.Covers p := by
  unfold normalizeSelection
  generalize hsorted : (ranges.zipIdx.mergeSort fun a b => decide (cmpPos a.1.start b.1.start ≤ 0)) = sorted
  have hperm : sorted.Perm ranges.zipIdx := hsorted ▸ List.mergeSort_perm _ _
  have hpair : (sorted.map Prod.fst).Pairwise fun a b => a.start ≤ b.start := by
    have hle := @List.pairwise_mergeSort (Range × ℕ) (fun a b => decide (cmpPos a.1.start b.1.start ≤ 0))
      (by simp only [decide_eq_true_eq, cmpPos_nonpos]; exact fun a b c => le_trans)
      (by simp only [Bool.or_eq_true, decide_eq_true_eq, cmpPos_nonpos]; exact fun a b => le_total _ _) ranges.zipIdx
    rw [hsorted] at hle
    simp only [decide_eq_true_eq, cmpPos_nonpos] at hle
    exact List.pairwise_map.2 hle
  have hmem : (prim, primIndex) ∈ sorted := by
    refine hperm.mem_iff.2 (List.mem_zipIdx_iff_getElem?.2 ?_)
    exact hprim
  -- the index that is looked for belongs to one range only
  have hfind : (sorted.map Prod.fst)[sorted.findIdx fun r => r.2 == primIndex]? = some prim := by
    have hlt : (sorted.findIdx fun r => r.2 == primIndex) < sorted.length :=
      List.findIdx_lt_length_of_exists ⟨(prim, primIndex), hmem, beq_self_eq_true primIndex⟩
    have hindex := List.findIdx_getElem (w := hlt)
    generalize hfound : sorted[sorted.findIdx fun r => r.2 == primIndex] = found at hindex
    have hin : found ∈ ranges.zipIdx := hperm.mem_iff.1 (hfound ▸ List.getElem_mem hlt)
    have hsame : ranges[found.2]? = some found.1 := List.mem_zipIdx_iff_getElem?.1 hin
    rw [beq_iff_eq] at hindex
    rw [hindex, hprim] at hsame
    rw [List.getElem?_map, List.getElem?_eq_getElem hlt, hfound]
    exact hsame.symm
  obtain ⟨hapart, hunion, hprimary⟩ := @mergeRanges_spec [] (sorted.map Prod.fst) _ List.Pairwise.nil hpair
    (fun prev hprev => nomatch hprev) prim hfind
  simp only [cmpPos_neg]
  refine ⟨hapart, fun p => (hunion p).trans (Range.coveredBy_perm ?_ p), hprimary⟩
  have hranges := hperm.map Prod.fst
  rwa [List.zipIdx_map_fst] at hranges

/-- Two ranges that overlap, the second one selected backwards, and one behind them. -/
def overlapping : List Range := [⟨⟨1, 0⟩, ⟨1, 2⟩⟩, ⟨⟨0, 5⟩, ⟨0, 3⟩⟩, ⟨⟨0, 1⟩, ⟨0, 4⟩⟩]

/-- The primary range covers the last letter of the second range. -/
theorem normalizeSelection_spec_three : (normalizeSelection overlapping 1).ranges.Pairwise
    (fun a b => cmpPos a.stop b.start < 0) ∧ Range.CoveredBy (normalizeSelection overlapping 1).ranges ⟨0, 2⟩ ∧
    ∃ r, (normalizeSelection overlapping 1).ranges[(normalizeSelection overlapping 1).primIndex]? = some r ∧
      r.Covers ⟨0, 5⟩ := by
  have hprim : overlapping[1]? = some ⟨⟨0, 5⟩, ⟨0, 3⟩⟩ := rfl
  have hcovers : ∀ r : Range, ∀ p, 0 ≤ cmpPos p r.start → 0 ≤ cmpPos r.stop p → r.Covers p :=
    fun r p hstart hstop => ⟨cmpPos_nonneg.1 hstart, cmpPos_nonneg.1 hstop⟩
  obtain ⟨hapart, hunion, r, hr, hprimary⟩ := normalizeSelection_spec hprim
  refine ⟨hapart, (hunion _).2 ⟨⟨⟨0, 1⟩, ⟨0, 4⟩⟩, by decide, ?_⟩, r, hr, hprimary _ ?_⟩
  · exact hcovers _ _ (by decide) (by decide)
  · exact hcovers _ _ (by decide) (by decide)

end Normalize

end StudyTech
