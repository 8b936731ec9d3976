import Mathlib.Algebra.Order.BigOperators.Group.List
import Mathlib.Algebra.Order.Group.Int
import StudyTech.Lib.Run
import StudyTech.Spec.LineTree

/-!
# The chunks of the tree of lines

A chunk is `Valid` when the sizes and heights in it are those of its lines, no leaf has more than 50 lines and
no branch more than 10 children. Every operation is described by what it makes of `collapse`:

* `spill_spec`: what has grown is split into valid chunks, a leaf as well as a branch.
* `insertInner_spec`, `removeInner_spec`, `setLine_spec`: valid chunks stay valid, and their lines change as
  those of a list.
* `getLine_spec`, `iterN_spec`, `lineAtHeight_spec`: a valid chunk is searched as its list of lines.
-/

namespace StudyTech

namespace Chunk

variable {α σ : Type}

@[simp] theorem heightOf_nil : heightOf ([] : List (Line α)) = 0 := rfl

@[simp] theorem heightOf_cons (line : Line α) (lines : List (Line α)) :
    heightOf (line :: lines) = line.height + heightOf lines := by
  unfold heightOf
  rw [List.map_cons, List.sum_cons]

@[simp] theorem heightOf_append (ls ls' : List (Line α)) : heightOf (ls ++ ls') = heightOf ls + heightOf ls' := by
  unfold heightOf
  rw [List.map_append, List.sum_append]

@[simp] theorem collapseAll_append (cs cs' : List (Chunk α)) :
    collapseAll (cs ++ cs') = collapseAll cs ++ collapseAll cs' := by
  induction cs with
  | nil => rfl
  | cons c cs ih =>
    rw [List.cons_append, collapseAll, collapseAll, ih, List.append_assoc]

/-- A chunk that keeps its size and its height, with at most 50 lines in a leaf and at most 10 children of a
branch, which has some. -/
inductive Valid : Chunk α → Prop
  | leaf {lines : List (Line α)} {height : ℤ} (hheight : height = heightOf lines) (hlength : lines.length ≤ 50) :
    Valid (leaf lines height)
  | branch {children : List (Chunk α)} {size : ℕ} {height : ℤ} (hchildren : ∀ c ∈ children, Valid c)
    (hne : children ≠ []) (hlength : children.length ≤ 10) (hsize : size = (collapseAll children).length)
    (hheight : height = heightOf (collapseAll children)) : Valid (branch children size height)

theorem Valid.chunkSize {c : Chunk α} (h : c.Valid) : c.chunkSize = c.collapse.length := by
  cases h with
  | leaf _ _ => rfl
  | branch _ _ _ hsize _ => exact hsize

theorem Valid.height {c : Chunk α} (h : c.Valid) : c.height = heightOf c.collapse := by
  cases h with
  | leaf hheight _ => exact hheight
  | branch _ _ _ _ hheight => exact hheight

theorem newLeaf_valid {lines : List (Line α)} (h : lines.length ≤ 50) : (newLeaf lines).Valid := .leaf rfl h

theorem sum_chunkSize {cs : List (Chunk α)} (h : ∀ c ∈ cs, c.Valid) :
    (cs.map chunkSize).sum = (collapseAll cs).length := by
  induction cs with
  | nil => rfl
  | cons c cs ih =>
    rw [List.map_cons, List.sum_cons, collapseAll, List.length_append, (h c List.mem_cons_self).chunkSize,
      ih fun c' hc' => h c' (List.mem_cons_of_mem _ hc')]

theorem sum_height {cs : List (Chunk α)} (h : ∀ c ∈ cs, c.Valid) :
    (cs.map height).sum = heightOf (collapseAll cs) := by
  induction cs with
  | nil => rfl
  | cons c cs ih =>
    rw [List.map_cons, List.sum_cons, collapseAll, heightOf_append, (h c List.mem_cons_self).height,
      ih fun c' hc' => h c' (List.mem_cons_of_mem _ hc')]

theorem newBranch_valid {cs : List (Chunk α)} (h : ∀ c ∈ cs, c.Valid) (hne : cs ≠ []) (hlength : cs.length ≤ 10) :
    (newBranch cs).Valid := .branch h hne hlength (sum_chunkSize h) (sum_height h)

section Spill

/-- What is split keeps its lines, in chunks that are valid. -/
theorem spill_spec {β : Type} {limit piece : ℕ} {pack : List β → Chunk α} {node : List β → ℕ → ℤ → Chunk α}
    (flat : List β → List (Line α)) (good : List β → Prop)
    (hflat : ∀ xs ys, flat (xs ++ ys) = flat xs ++ flat ys)
    (hgood : ∀ xs k, good xs → good (xs.take k) ∧ good (xs.drop k))
    (hpack : ∀ xs, good xs → xs ≠ [] → xs.length ≤ piece → (pack xs).Valid ∧ (pack xs).collapse = flat xs)
    (hnode : ∀ xs size height, good xs → xs ≠ [] → xs.length ≤ limit → size = (flat xs).length →
      height = heightOf (flat xs) → (node xs size height).Valid ∧ (node xs size height).collapse = flat xs)
    (hpiece : 0 < piece) (hlimit : piece ≤ limit) {fuel : ℕ} {xs : List β} {size : ℕ} {height : ℤ}
    {spilled : List (Chunk α)} (hxs : good xs) (hne : xs ≠ []) (hfuel : xs.length ≤ fuel + limit)
    (hsize : size = (flat xs).length) (hheight : height = heightOf (flat xs)) (hspilled : ∀ c ∈ spilled, c.Valid) :
    (∀ c ∈ spill limit piece pack node fuel xs size height spilled, c.Valid) ∧
      collapseAll (spill limit piece pack node fuel xs size height spilled) = flat xs ++ collapseAll spilled := by
  have hlast : ∀ {xs size height} {spilled : List (Chunk α)}, good xs → xs ≠ [] → xs.length ≤ limit →
      size = (flat xs).length → height = heightOf (flat xs) → (∀ c ∈ spilled, c.Valid) →
      (∀ c ∈ node xs size height :: spilled, c.Valid) ∧
        collapseAll (node xs size height :: spilled) = flat xs ++ collapseAll spilled := by
    intro xs size height spilled hxs hne hlength hsize hheight hspilled
    obtain ⟨hvalid, hcollapse⟩ := hnode xs size height hxs hne hlength hsize hheight
    refine ⟨?_, by rw [collapseAll, hcollapse]⟩
    intro c hc
    rcases List.mem_cons.1 hc with rfl | hc
    · exact hvalid
    · exact hspilled c hc
  induction fuel generalizing xs size height spilled with
  | zero =>
    rw [Nat.zero_add] at hfuel
    exact hlast hxs hne hfuel hsize hheight hspilled
  | succ fuel ih =>
    unfold spill
    split
    · next hlt =>
      obtain ⟨hrest, hpart⟩ := hgood xs (xs.length - piece) hxs
      generalize hk : xs.length - piece = k at hrest hpart ⊢
      have hdrop : (xs.drop k).length = piece := by
        rw [List.length_drop]
        omega
      have htake : (xs.take k).length = k := by
        rw [List.length_take]
        omega
      have hdropne : xs.drop k ≠ [] := List.ne_nil_of_length_pos (by omega)
      have htakene : xs.take k ≠ [] := List.ne_nil_of_length_pos (by omega)
      obtain ⟨hvalid, hcollapse⟩ := hpack (xs.drop k) hpart hdropne (Nat.le_of_eq hdrop)
      have hsplit : flat xs = flat (xs.take k) ++ flat (xs.drop k) := by
        rw [← hflat, List.take_append_drop]
      have hsize' : size - (pack (xs.drop k)).chunkSize = (flat (xs.take k)).length := by
        rw [hvalid.chunkSize, hcollapse, hsize, hsplit, List.length_append]
        omega
      have hheight' : height - (pack (xs.drop k)).height = heightOf (flat (xs.take k)) := by
        rw [hvalid.height, hcollapse, hheight, hsplit, heightOf_append]
        omega
      have hspilled' : ∀ c ∈ pack (xs.drop k) :: spilled, c.Valid := by
        intro c hc
        rcases List.mem_cons.1 hc with rfl | hc
        · exact hvalid
        · exact hspilled c hc
      obtain ⟨hall, hlines⟩ := ih hrest htakene (by omega) hsize' hheight' hspilled'
      refine ⟨hall, hlines.trans ?_⟩
      rw [collapseAll, hcollapse, hsplit, List.append_assoc]
    · next hle => exact hlast hxs hne (by omega) hsize hheight hspilled

/-- A leaf with its height is split into valid leaves. -/
theorem spillLeaf_leaf (lines : List (Line α)) : (∀ c ∈ spillLeaf (leaf lines (heightOf lines)), c.Valid) ∧
    collapseAll (spillLeaf (leaf lines (heightOf lines))) = lines := by
  by_cases hne : lines = []
  · subst hne
    refine ⟨?_, rfl⟩
    intro c hc
    rw [show spillLeaf (leaf ([] : List (Line α)) (heightOf [])) = [leaf [] 0] from rfl] at hc
    rw [List.mem_singleton.1 hc]
    exact .leaf rfl (Nat.zero_le _)
  · have hnode : ∀ (xs : List (Line α)) (size : ℕ) (height : ℤ), True → xs ≠ [] → xs.length ≤ 50 →
        size = xs.length → height = heightOf xs → (leaf xs height).Valid ∧ (leaf xs height).collapse = xs :=
      fun xs size height _ _ hle _ hheight => ⟨.leaf hheight hle, rfl⟩
    have hpack : ∀ xs : List (Line α), True → xs ≠ [] → xs.length ≤ 25 →
        (newLeaf xs).Valid ∧ (newLeaf xs).collapse = xs :=
      fun xs _ _ hle => ⟨newLeaf_valid (hle.trans (by omega)), rfl⟩
    obtain ⟨hall, hlines⟩ := spill_spec (fun lines : List (Line α) => lines) (fun _ => True) (fun _ _ => rfl)
      (fun _ _ _ => ⟨trivial, trivial⟩) hpack hnode (by omega) (by omega) trivial hne
      (Nat.le_add_right lines.length 50) rfl rfl fun c hc => absurd hc List.not_mem_nil
    exact ⟨hall, hlines.trans (List.append_nil _)⟩

theorem spillLeaf_valid {c : Chunk α} (h : c.Valid) : (∀ c' ∈ spillLeaf c, c'.Valid) ∧
    collapseAll (spillLeaf c) = c.collapse := by
  cases h with
  | leaf hheight hlength =>
    subst hheight
    exact spillLeaf_leaf _
  | branch hchildren hne hlength hsize hheight =>
    refine ⟨?_, List.append_nil _⟩
    intro c' hc'
    rw [List.mem_singleton.1 hc']
    exact .branch hchildren hne hlength hsize hheight

theorem spillLeaf_all {cs : List (Chunk α)} (h : ∀ c ∈ cs, c.Valid) : (∀ c ∈ cs.flatMap spillLeaf, c.Valid) ∧
    collapseAll (cs.flatMap spillLeaf) = collapseAll cs := by
  induction cs with
  | nil => exact ⟨h, rfl⟩
  | cons c cs ih =>
    obtain ⟨hc, hcollapse⟩ := spillLeaf_valid (h c List.mem_cons_self)
    obtain ⟨hcs, hcollapses⟩ := ih fun c' hc' => h c' (List.mem_cons_of_mem _ hc')
    rw [List.flatMap_cons, collapseAll_append, hcollapse, hcollapses]
    refine ⟨?_, rfl⟩
    intro c' hc'
    rcases List.mem_append.1 hc' with hc' | hc'
    · exact hc c' hc'
    · exact hcs c' hc'

theorem spillBranch_spec {cs spilled : List (Chunk α)} (h : ∀ c ∈ cs, c.Valid) (hne : cs ≠ [])
    (hspilled : ∀ c ∈ spilled, c.Valid) {size : ℕ} {height : ℤ} (hsize : size = (collapseAll cs).length)
    (hheight : height = heightOf (collapseAll cs)) : (∀ c ∈ spillBranch cs size height spilled, c.Valid) ∧
      collapseAll (spillBranch cs size height spilled) = collapseAll cs ++ collapseAll spilled :=
  spill_spec collapseAll (fun cs => ∀ c ∈ cs, c.Valid) collapseAll_append
    (fun cs k h => ⟨fun c hc => h c (List.mem_of_mem_take hc), fun c hc => h c (List.mem_of_mem_drop hc)⟩)
    (fun cs h hne hle => ⟨newBranch_valid h hne (hle.trans (by omega)), rfl⟩)
    (fun cs size height h hne hle hsize hheight => ⟨.branch h hne hle hsize hheight, rfl⟩) (by omega) (by omega) h hne
    (Nat.le_add_right _ _) hsize hheight hspilled

theorem spill_ne_nil {β : Type} (limit piece : ℕ) (pack : List β → Chunk α) (node : List β → ℕ → ℤ → Chunk α)
    (fuel : ℕ) (xs : List β) (size : ℕ) (height : ℤ) (spilled : List (Chunk α)) :
    spill limit piece pack node fuel xs size height spilled ≠ [] := by
  induction fuel generalizing xs size height spilled with
  | zero => exact List.cons_ne_nil _ _
  | succ fuel ih =>
    unfold spill
    split
    · exact ih _ _ _ _
    · exact List.cons_ne_nil _ _

theorem spillLeaf_ne_nil (c : Chunk α) : spillLeaf c ≠ [] := by
  cases c with
  | leaf lines height => exact spill_ne_nil _ _ _ _ _ _ _ _ _
  | branch children size height => exact List.cons_ne_nil _ _

/-- A split leaves fewer chunks than there were children. -/
theorem spill_length {pack : List (Chunk α) → Chunk α} {node : List (Chunk α) → ℕ → ℤ → Chunk α} {fuel : ℕ}
    {cs spilled : List (Chunk α)} {size : ℕ} {height : ℤ} (h : 6 ≤ cs.length) :
    (spill 10 5 pack node fuel cs size height spilled).length + 5 ≤ cs.length + spilled.length := by
  induction fuel generalizing cs spilled size height with
  | zero =>
    unfold spill
    rw [List.length_cons]
    omega
  | succ fuel ih =>
    unfold spill
    split
    · next hlt =>
      have htake : (cs.take (cs.length - 5)).length = cs.length - 5 := by
        rw [List.length_take]
        omega
      refine (ih (by omega)).trans ?_
      rw [htake, List.length_cons]
      omega
    · rw [List.length_cons]
      omega

end Spill

section Insert

theorem length_insert {β : Type} (xs ys : List β) (pos : ℕ) :
    (xs.take pos ++ ys ++ xs.drop pos).length = xs.length + ys.length := by
  rw [List.length_append, List.length_append, Nat.add_right_comm, ← List.length_append, List.take_append_drop]

theorem heightOf_insert (ls lines : List (Line α)) (pos : ℕ) :
    heightOf (ls.take pos ++ lines ++ ls.drop pos) = heightOf ls + heightOf lines := by
  rw [heightOf_append, heightOf_append, add_right_comm, ← heightOf_append, List.take_append_drop]

theorem insertInner_ne_nil (lines : List (Line α)) (height : ℤ) (c : Chunk α) (pos : ℕ) :
    insertInner lines height c pos ≠ [] := by
  cases c with
  | leaf ls h =>
    unfold insertInner
    exact List.cons_ne_nil _ _
  | branch children size h =>
    unfold insertInner
    exact spill_ne_nil _ _ _ _ _ _ _ _ _

theorem insertChildren_ne_nil (lines : List (Line α)) (height : ℤ) {cs : List (Chunk α)} (h : cs ≠ []) (pos : ℕ) :
    insertChildren lines height cs pos ≠ [] := by
  cases cs with
  | nil => exact absurd rfl h
  | cons c cs =>
    unfold insertChildren
    split
    · intro hnil
      obtain ⟨c', rest, hinner⟩ := List.exists_cons_of_ne_nil (insertInner_ne_nil lines height c pos)
      rw [hinner, List.flatMap_cons, List.append_assoc] at hnil
      exact spillLeaf_ne_nil c' (List.append_eq_nil_iff.1 hnil).1
    · exact List.cons_ne_nil _ _

/-- What a chunk becomes with lines inserted, once its parent has split the leaf. -/
def Inserted (lines : List (Line α)) (c : Chunk α) : Prop :=
  ∀ pos ≤ c.collapse.length, (∀ c' ∈ (insertInner lines (heightOf lines) c pos).flatMap spillLeaf, c'.Valid) ∧
    collapseAll ((insertInner lines (heightOf lines) c pos).flatMap spillLeaf) =
      c.collapse.take pos ++ lines ++ c.collapse.drop pos

theorem insertChildren_spec {lines : List (Line α)} {cs : List (Chunk α)} (h : ∀ c ∈ cs, c.Valid)
    (hins : ∀ c ∈ cs, Inserted lines c) (hne : cs ≠ []) {pos : ℕ} (hpos : pos ≤ (collapseAll cs).length) :
    (∀ c ∈ insertChildren lines (heightOf lines) cs pos, c.Valid) ∧
      collapseAll (insertChildren lines (heightOf lines) cs pos) =
        (collapseAll cs).take pos ++ lines ++ (collapseAll cs).drop pos := by
  induction cs generalizing pos with
  | nil => exact absurd rfl hne
  | cons c cs ih =>
    have hc := h c List.mem_cons_self
    have hcs : ∀ c' ∈ cs, c'.Valid := fun c' hc' => h c' (List.mem_cons_of_mem _ hc')
    unfold insertChildren
    rw [hc.chunkSize]
    split
    · next hle =>
      obtain ⟨hvalid, hlines⟩ := hins c List.mem_cons_self pos hle
      refine ⟨?_, ?_⟩
      · intro c' hc'
        rcases List.mem_append.1 hc' with hc' | hc'
        · exact hvalid c' hc'
        · exact hcs c' hc'
      · rw [collapseAll_append, hlines, collapseAll, List.take_append_of_le_length hle,
          List.drop_append_of_le_length hle, List.append_assoc _ _ (collapseAll cs)]
    · next hlt =>
      rw [collapseAll, List.length_append] at hpos
      have hcsne : cs ≠ [] := by
        rintro rfl
        rw [collapseAll, List.length_nil] at hpos
        omega
      have hrest : pos - c.collapse.length ≤ (collapseAll cs).length := by omega
      obtain ⟨hvalid, hlines⟩ := ih hcs (fun c' hc' => hins c' (List.mem_cons_of_mem _ hc')) hcsne hrest
      refine ⟨?_, ?_⟩
      · intro c' hc'
        rcases List.mem_cons.1 hc' with rfl | hc'
        · exact hc
        · exact hvalid c' hc'
      · have htake : c.collapse.take pos = c.collapse := List.take_of_length_le (by omega)
        have hdrop : c.collapse.drop pos = [] := List.drop_of_length_le (by omega)
        rw [collapseAll, hlines, collapseAll, List.take_append, List.drop_append, htake, hdrop, List.nil_append,
          List.append_assoc, List.append_assoc, List.append_assoc]

theorem insertInner_spec {c : Chunk α} (h : c.Valid) (lines : List (Line α)) : Inserted lines c := by
  induction h with
  | @leaf ls h hheight hlength =>
    intro pos hpos
    unfold insertInner
    rw [hheight, ← heightOf_insert ls lines pos, List.flatMap_singleton]
    exact spillLeaf_leaf _
  | @branch children size h hchildren hne hlength hsize hheight ih =>
    intro pos hpos
    obtain ⟨hvalid, hlines⟩ := insertChildren_spec hchildren ih hne hpos
    have hsize' : size + lines.length = (collapseAll (insertChildren lines (heightOf lines) children pos)).length := by
      rw [hlines, length_insert, hsize]
    have hheight' : h + heightOf lines =
        heightOf (collapseAll (insertChildren lines (heightOf lines) children pos)) := by
      rw [hlines, heightOf_insert, hheight]
    obtain ⟨hall, hcollapse⟩ := spillBranch_spec hvalid (insertChildren_ne_nil lines (heightOf lines) hne pos)
      (fun c hc => absurd hc List.not_mem_nil) hsize' hheight'
    obtain ⟨hspilled, hsame⟩ := spillLeaf_all hall
    unfold insertInner
    refine ⟨hspilled, hsame.trans (hcollapse.trans ?_)⟩
    rw [hlines]
    exact List.append_nil _

end Insert

section Remove

theorem heightOf_remove (ls : List (Line α)) (pos n : ℕ) :
    heightOf (ls.take pos ++ ls.drop (pos + n)) = heightOf ls - heightOf ((ls.drop pos).take n) := by
  have hall : heightOf (ls.take pos) + (heightOf ((ls.drop pos).take n) + heightOf ((ls.drop pos).drop n)) =
      heightOf ls := by
    rw [← heightOf_append, List.take_append_drop, ← heightOf_append, List.take_append_drop]
  rw [List.drop_drop] at hall
  rw [heightOf_append]
  omega

theorem length_remove {β : Type} {xs : List β} {pos n : ℕ} (h : pos + n ≤ xs.length) :
    (xs.take pos ++ xs.drop (pos + n)).length = xs.length - n := by
  rw [List.length_append, List.length_take, List.length_drop]
  omega

/-- What a chunk becomes with lines removed. -/
def Removed (c : Chunk α) : Prop :=
  ∀ pos n, pos + n ≤ c.collapse.length → (removeInner c pos n).Valid ∧
    (removeInner c pos n).collapse = c.collapse.take pos ++ c.collapse.drop (pos + n)

/-- The children lose the lines of the range, and nothing is left to remove. -/
def RemovesChildren (cs : List (Chunk α)) (pos n : ℕ) (height : ℤ) : Prop :=
  ∃ cs', removeChildren cs pos n height = (cs', height - heightOf (((collapseAll cs).drop pos).take n), 0) ∧
    (∀ c ∈ cs', c.Valid) ∧ collapseAll cs' = (collapseAll cs).take pos ++ (collapseAll cs).drop (pos + n) ∧
    cs'.length ≤ cs.length

section Child

variable {c : Chunk α} {cs kept : List (Chunk α)} {pos n count : ℕ} {height : ℤ}

/-- What is kept of a child that loses lines: nothing, if it loses them all. -/
theorem kept_spec (hrem : Removed c) (hpos : pos + count ≤ c.collapse.length)
    (hkept : (if c.collapse.length = count then [] else [removeInner c pos count]) = kept) :
    (∀ c' ∈ kept, c'.Valid) ∧ collapseAll kept = c.collapse.take pos ++ c.collapse.drop (pos + count) ∧
      kept.length ≤ 1 := by
  obtain ⟨hvalid, hlines⟩ := hrem pos count hpos
  split at hkept
  · next hall =>
    subst hkept
    have hzero : pos = 0 := by omega
    refine ⟨fun c' hc' => absurd hc' List.not_mem_nil, ?_, Nat.zero_le 1⟩
    rw [hzero, ← hall, Nat.zero_add, List.drop_length]
    rfl
  · subst hkept
    refine ⟨fun c' hc' => ?_, (List.append_nil _).trans hlines, le_rfl⟩
    rwa [List.mem_singleton.1 hc']

/-- The height that a child loses is that of its lines. -/
theorem height_removeInner (hc : c.Valid) (hrem : Removed c) (hpos : pos + count ≤ c.collapse.length) :
    c.height - (removeInner c pos count).height = heightOf ((c.collapse.drop pos).take count) := by
  obtain ⟨hvalid, hlines⟩ := hrem pos count hpos
  rw [hc.height, hvalid.height, hlines, heightOf_remove]
  omega

/-- The range ends in the first child. -/
theorem removesChildren_inside (hc : c.Valid) (hcs : ∀ c' ∈ cs, c'.Valid) (hrem : Removed c)
    (hlt : pos < c.collapse.length) (hpos : pos + n ≤ c.collapse.length) : RemovesChildren (c :: cs) pos n height := by
  have hcount : min n (c.collapse.length - pos) = n := by omega
  generalize hkept : (if c.collapse.length = n then [] else [removeInner c pos n]) = kept
  obtain ⟨hkeptValid, hkeptLines, hkeptLength⟩ := kept_spec hrem hpos hkept
  have hdrop : (c.collapse ++ collapseAll cs).drop pos = c.collapse.drop pos ++ collapseAll cs :=
    List.drop_append_of_le_length (by omega)
  refine ⟨kept ++ cs, ?_, ?_, ?_, ?_⟩
  · unfold removeChildren
    simp only [hc.chunkSize]
    rw [if_pos hlt, hcount, hkept, height_removeInner hc hrem hpos, if_pos (Nat.sub_self n)]
    rw [collapseAll, hdrop, List.take_append_of_le_length (by rw [List.length_drop]; omega)]
  · intro c' hc'
    exact (List.mem_append.1 hc').elim (hkeptValid c') (hcs c')
  · rw [collapseAll_append, hkeptLines, collapseAll, List.take_append_of_le_length (by omega),
      List.drop_append_of_le_length (by omega), List.append_assoc]
  · rw [List.length_append, List.length_cons]
    omega

/-- The range begins in the first child, and goes on in the others. -/
theorem removesChildren_across (hc : c.Valid) (hrem : Removed c) (hlt : pos < c.collapse.length)
    (hcount : pos + count = c.collapse.length) (hmore : count < n)
    (hrest : ∀ height, RemovesChildren cs 0 (n - count) height) : RemovesChildren (c :: cs) pos n height := by
  have hmin : min n (c.collapse.length - pos) = count := by omega
  generalize hkept : (if c.collapse.length = count then [] else [removeInner c pos count]) = kept
  obtain ⟨hkeptValid, hkeptLines, hkeptLength⟩ := kept_spec hrem (Nat.le_of_eq hcount) hkept
  have hdrop : (c.collapse ++ collapseAll cs).drop pos = c.collapse.drop pos ++ collapseAll cs :=
    List.drop_append_of_le_length (by omega)
  obtain ⟨cs', heq, hvalids, hlines', hlength⟩ := hrest (height - heightOf ((c.collapse.drop pos).take count))
  refine ⟨kept ++ cs', ?_, ?_, ?_, ?_⟩
  · have hpart : (c.collapse.drop pos).take count = c.collapse.drop pos :=
      List.take_of_length_le (by rw [List.length_drop]; omega)
    have hcut : (c.collapse.drop pos ++ collapseAll cs).take n =
        c.collapse.drop pos ++ (collapseAll cs).take (n - count) := by
      have hlength : c.collapse.length - pos = count := by omega
      rw [List.take_append, List.length_drop, hlength, List.take_of_length_le (by rw [List.length_drop]; omega)]
    unfold removeChildren
    simp only [hc.chunkSize]
    rw [if_pos hlt, hmin, hkept, height_removeInner hc hrem (Nat.le_of_eq hcount), if_neg (by omega), heq,
      collapseAll, hdrop, hcut, heightOf_append, hpart, List.drop_zero]
    refine Prod.ext rfl (Prod.ext ?_ rfl)
    exact sub_sub _ _ _
  · intro c' hc'
    exact (List.mem_append.1 hc').elim (hkeptValid c') (hvalids c')
  · have hrest : (c.collapse ++ collapseAll cs).drop (pos + n) = (collapseAll cs).drop (n - count) := by
      rw [List.drop_append, List.drop_of_length_le (by omega), List.nil_append]
      congr 1
      omega
    rw [collapseAll_append, hkeptLines, hlines', collapseAll, List.take_append_of_le_length (by omega), hrest, hcount,
      List.drop_length, List.take_zero, List.append_nil, List.nil_append, Nat.zero_add]
  · rw [List.length_append, List.length_cons]
    omega

/-- The range begins behind the first child. -/
theorem removesChildren_behind (hc : c.Valid) (hle : c.collapse.length ≤ pos)
    (hrest : RemovesChildren cs (pos - c.collapse.length) n height) : RemovesChildren (c :: cs) pos n height := by
  obtain ⟨cs', heq, hvalids, hlines', hlength⟩ := hrest
  have hdrop : ∀ k, pos ≤ k → (c.collapse ++ collapseAll cs).drop k =
      (collapseAll cs).drop (k - c.collapse.length) := by
    intro k hk
    rw [List.drop_append, List.drop_of_length_le (by omega), List.nil_append]
  refine ⟨c :: cs', ?_, ?_, ?_, Nat.succ_le_succ hlength⟩
  · unfold removeChildren
    simp only [hc.chunkSize]
    rw [if_neg (Nat.not_lt.2 hle), heq, collapseAll, hdrop pos le_rfl]
  · intro c' hc'
    rcases List.mem_cons.1 hc' with rfl | hc'
    · exact hc
    · exact hvalids c' hc'
  · rw [collapseAll, hlines', collapseAll, List.take_append, List.take_of_length_le hle, hdrop (pos + n) (by omega),
      List.append_assoc]
    congr 3
    omega

end Child

/-- The children lose the lines of the range, however many of them it reaches into. -/
theorem removeChildren_spec {cs : List (Chunk α)} (h : ∀ c ∈ cs, c.Valid) (hrem : ∀ c ∈ cs, Removed c) {pos n : ℕ}
    (hpos : pos + n ≤ (collapseAll cs).length) (height : ℤ) : RemovesChildren cs pos n height := by
  induction cs generalizing pos n height with
  | nil =>
    rw [collapseAll, List.length_nil] at hpos
    obtain ⟨rfl, rfl⟩ : pos = 0 ∧ n = 0 := by omega
    exact ⟨[], by rw [removeChildren]; simp [collapseAll], h, rfl, le_rfl⟩
  | cons c cs ih =>
    have hc := h c List.mem_cons_self
    have hcs : ∀ c' ∈ cs, c'.Valid := fun c' hc' => h c' (List.mem_cons_of_mem _ hc')
    have hrems : ∀ c' ∈ cs, Removed c' := fun c' hc' => hrem c' (List.mem_cons_of_mem _ hc')
    have hremc := hrem c List.mem_cons_self
    rw [collapseAll, List.length_append] at hpos
    by_cases hlt : pos < c.collapse.length
    · by_cases hin : pos + n ≤ c.collapse.length
      · exact removesChildren_inside hc hcs hremc hlt hin
      · obtain ⟨count, hcount⟩ : ∃ count, pos + count = c.collapse.length :=
          ⟨c.collapse.length - pos, by omega⟩
        refine removesChildren_across hc hremc hlt hcount (by omega) fun height => ?_
        exact ih hcs hrems (by omega) height
    · exact removesChildren_behind hc (Nat.le_of_not_lt hlt) (ih hcs hrems (by omega) height)

/-- The children that `removeInner` leaves: some, at most as many, with the same lines. -/
theorem collapseSmall_spec {cs : List (Chunk α)} (h : ∀ c ∈ cs, c.Valid) {size : ℕ}
    (hsize : size = (collapseAll cs).length) : (∀ c ∈ collapseSmall cs size 0, c.Valid) ∧
      collapseAll (collapseSmall cs size 0) = collapseAll cs ∧ collapseSmall cs size 0 ≠ [] ∧
      (collapseSmall cs size 0).length ≤ max 1 cs.length := by
  unfold collapseSmall
  rw [Nat.sub_zero]
  split
  · next hsmall =>
    refine ⟨?_, List.append_nil _, List.cons_ne_nil _ _, le_max_left _ _⟩
    intro c hc
    rw [List.mem_singleton.1 hc]
    exact newLeaf_valid (by omega)
  · next hlarge =>
    refine ⟨h, rfl, ?_, le_max_right _ _⟩
    rintro rfl
    rw [hsize] at hlarge
    exact hlarge ⟨Nat.zero_lt_succ _, .inr rfl⟩

theorem removeInner_spec {c : Chunk α} (h : c.Valid) : Removed c := by
  induction h with
  | @leaf ls h hheight hlength =>
    intro pos n hpos
    have hremove : (ls.take pos ++ ls.drop (pos + n)).length = ls.length - n := length_remove hpos
    unfold removeInner
    refine ⟨.leaf ?_ ?_, rfl⟩
    · rw [heightOf_remove, hheight]
    · rw [hremove]
      omega
  | @branch children size h hchildren hne hlength hsize hheight ih =>
    intro pos n hpos
    obtain ⟨cs', heq, hvalids, hlines, hlength'⟩ := removeChildren_spec hchildren ih hpos h
    have hsize' : size - n = (collapseAll cs').length := by
      rw [hsize, hlines]
      exact (length_remove hpos).symm
    have hheight' : h - heightOf (((collapseAll children).drop pos).take n) = heightOf (collapseAll cs') := by
      rw [hlines, heightOf_remove, hheight]
    obtain ⟨hvalid, hsame, hne', hle⟩ := collapseSmall_spec hvalids hsize'
    unfold removeInner
    rw [heq]
    exact ⟨.branch hvalid hne' (by omega) (by rw [hsame, hsize']) (by rw [hsame, hheight']),
      (show collapseAll _ = _ from hsame).trans hlines⟩

end Remove

section Access

theorem getLineIn_spec {cs : List (Chunk α)} (h : ∀ c ∈ cs, c.Valid)
    (hget : ∀ c ∈ cs, ∀ n, c.getLine n = c.collapse[n]?) (n : ℕ) : getLineIn cs n = (collapseAll cs)[n]? := by
  induction cs generalizing n with
  | nil => rfl
  | cons c cs ih =>
    unfold getLineIn
    rw [(h c List.mem_cons_self).chunkSize, collapseAll, List.getElem?_append]
    split
    · exact hget c List.mem_cons_self n
    · exact ih (fun c' hc' => h c' (List.mem_cons_of_mem _ hc')) (fun c' hc' => hget c' (List.mem_cons_of_mem _ hc')) _

theorem getLine_spec {c : Chunk α} (h : c.Valid) (n : ℕ) : c.getLine n = c.collapse[n]? := by
  induction h generalizing n with
  | leaf hheight hlength => rfl
  | branch hchildren hne hlength hsize hheight ih => exact getLineIn_spec hchildren ih n

theorem iterLines_append (op : Line α → σ → σ × Bool) (ls ls' : List (Line α)) (s : σ) :
    iterLines op (ls ++ ls') s =
      if (iterLines op ls s).2 then ((iterLines op ls s).1, true) else iterLines op ls' (iterLines op ls s).1 := by
  induction ls generalizing s with
  | nil => rfl
  | cons l ls ih =>
    rw [List.cons_append, iterLines, iterLines]
    obtain ⟨s', stop⟩ := op l s
    cases stop with
    | true => rfl
    | false => exact ih s'

theorem iterChildren_spec (op : Line α → σ → σ × Bool) {cs : List (Chunk α)} (h : ∀ c ∈ cs, c.Valid)
    (hiter : ∀ c ∈ cs, ∀ pos n s, c.iterN op pos n s = iterLines op ((c.collapse.drop pos).take n) s) (pos n : ℕ)
    (s : σ) : iterChildren op cs pos n s = iterLines op (((collapseAll cs).drop pos).take n) s := by
  induction cs generalizing pos n s with
  | nil =>
    rw [collapseAll, List.drop_nil, List.take_nil]
    rfl
  | cons c cs ih =>
    have hih := ih (fun c' hc' => h c' (List.mem_cons_of_mem _ hc')) fun c' hc' => hiter c' (List.mem_cons_of_mem _ hc')
    unfold iterChildren
    simp only [(h c List.mem_cons_self).chunkSize]
    rw [collapseAll, List.drop_append]
    by_cases hlt : pos < c.collapse.length
    · have hzero : pos - c.collapse.length = 0 := by omega
      rw [if_pos hlt, hzero, List.drop_zero, List.take_append, List.length_drop, iterLines_append,
        hiter c List.mem_cons_self]
      have hpart : (c.collapse.drop pos).take (min n (c.collapse.length - pos)) = (c.collapse.drop pos).take n := by
        rw [← List.length_drop, List.take_eq_take_iff]
        omega
      rw [hpart]
      split
      · rfl
      · split
        · next hdone =>
          have hnone : n - (c.collapse.length - pos) = 0 := by omega
          rw [hnone, List.take_zero]
          rfl
        · next hmore =>
          rw [hih, List.drop_zero]
          congr 2
          omega
    · rw [if_neg hlt, hih, List.drop_of_length_le (by omega : c.collapse.length ≤ pos), List.nil_append]

theorem iterN_spec (op : Line α → σ → σ × Bool) {c : Chunk α} (h : c.Valid) (pos n : ℕ) (s : σ) :
    c.iterN op pos n s = iterLines op ((c.collapse.drop pos).take n) s := by
  induction h generalizing pos n s with
  | leaf hheight hlength => rfl
  | branch hchildren hne hlength hsize hheight ih => exact iterChildren_spec op hchildren ih pos n s

theorem heightOf_set {ls : List (Line α)} {n : ℕ} {old : Line α} (hold : ls[n]? = some old) (line : Line α) :
    heightOf (ls.set n line) = heightOf ls + (line.height - old.height) := by
  induction ls generalizing n with
  | nil => cases hold
  | cons l ls ih =>
    cases n with
    | zero =>
      cases hold
      rw [List.set_cons_zero, heightOf_cons, heightOf_cons]
      omega
    | succ n =>
      rw [List.set_cons_succ, heightOf_cons, heightOf_cons, ih hold]
      omega

/-- What a chunk becomes with another line at a position. -/
def Replaced (line : Line α) (c : Chunk α) : Prop :=
  ∀ n old, c.collapse[n]? = some old → (setLine line (line.height - old.height) c n).Valid ∧
    (setLine line (line.height - old.height) c n).collapse = c.collapse.set n line

theorem setLineIn_spec {line : Line α} {cs : List (Chunk α)} (h : ∀ c ∈ cs, c.Valid)
    (hset : ∀ c ∈ cs, Replaced line c) {n : ℕ} {old : Line α} (hold : (collapseAll cs)[n]? = some old) :
    (∀ c ∈ setLineIn line (line.height - old.height) cs n, c.Valid) ∧
      collapseAll (setLineIn line (line.height - old.height) cs n) = (collapseAll cs).set n line ∧
      (setLineIn line (line.height - old.height) cs n).length = cs.length := by
  induction cs generalizing n with
  | nil => cases hold
  | cons c cs ih =>
    have hc := h c List.mem_cons_self
    have hcs : ∀ c' ∈ cs, c'.Valid := fun c' hc' => h c' (List.mem_cons_of_mem _ hc')
    rw [collapseAll, List.getElem?_append] at hold
    unfold setLineIn
    rw [hc.chunkSize, collapseAll, List.set_append]
    by_cases hlt : n < c.collapse.length
    · rw [if_pos hlt] at hold
      rw [if_pos hlt, if_pos hlt]
      obtain ⟨hvalid, hlines⟩ := hset c List.mem_cons_self n old hold
      refine ⟨?_, by rw [collapseAll, hlines], rfl⟩
      intro c' hc'
      rcases List.mem_cons.1 hc' with rfl | hc'
      · exact hvalid
      · exact hcs c' hc'
    · rw [if_neg hlt] at hold
      rw [if_neg hlt, if_neg hlt]
      obtain ⟨hvalids, hlines, hlength⟩ := ih hcs (fun c' hc' => hset c' (List.mem_cons_of_mem _ hc')) hold
      refine ⟨?_, by rw [collapseAll, hlines], congrArg Nat.succ hlength⟩
      intro c' hc'
      rcases List.mem_cons.1 hc' with rfl | hc'
      · exact hc
      · exact hvalids c' hc'

theorem setLine_spec {c : Chunk α} (h : c.Valid) (line : Line α) : Replaced line c := by
  induction h with
  | @leaf ls h hheight hlength =>
    intro n old hold
    have hset : heightOf (ls.set n line) = heightOf ls + (line.height - old.height) := heightOf_set hold line
    unfold setLine
    refine ⟨.leaf ?_ ?_, rfl⟩
    · rw [hset, hheight]
    · rw [List.length_set]
      exact hlength
  | @branch children size h hchildren hne hlength hsize hheight ih =>
    intro n old hold
    obtain ⟨hvalids, hlines, hlength'⟩ := setLineIn_spec hchildren ih hold
    have hset : heightOf ((collapseAll children).set n line) =
        heightOf (collapseAll children) + (line.height - old.height) := heightOf_set hold line
    unfold setLine
    refine ⟨.branch hvalids ?_ (hlength'.trans_le hlength) ?_ ?_, hlines⟩
    · rw [← List.length_pos_iff, hlength']
      exact List.length_pos_iff.2 hne
    · rw [hlines, List.length_set, hsize]
    · rw [hlines, hset, hheight]

theorem heightOf_nonneg {ls : List (Line α)} (h : ∀ l ∈ ls, 0 ≤ l.height) : 0 ≤ heightOf ls := by
  refine List.sum_nonneg ?_
  intro height hheight
  obtain ⟨l, hl, rfl⟩ := List.mem_map.1 hheight
  exact h l hl

theorem lineAtHeightLines_neg {ls : List (Line α)} (hls : ∀ l ∈ ls, 0 ≤ l.height) {h : ℤ} (hneg : h < 0) :
    lineAtHeightLines ls h = 0 := by
  cases ls with
  | nil => rfl
  | cons l ls => exact if_pos (hneg.trans_le (hls l List.mem_cons_self))

/-- A search that leaves out the lines above which the height is not reached. -/
theorem lineAtHeightLines_append {ls ls' : List (Line α)} (hls : ∀ l ∈ ls, 0 ≤ l.height)
    (hls' : ∀ l ∈ ls', 0 ≤ l.height) (h : ℤ) : lineAtHeightLines (ls ++ ls') h =
      if h < heightOf ls then lineAtHeightLines ls h else ls.length + lineAtHeightLines ls' (h - heightOf ls) := by
  induction ls generalizing h with
  | nil =>
    rw [heightOf_nil, List.nil_append, List.length_nil, Nat.zero_add, sub_zero]
    split
    · next hneg => exact lineAtHeightLines_neg hls' hneg
    · rfl
  | cons l ls ih =>
    have htail : ∀ l' ∈ ls, 0 ≤ l'.height := fun l' hl' => hls l' (List.mem_cons_of_mem _ hl')
    have hnonneg := heightOf_nonneg htail
    rw [List.cons_append, lineAtHeightLines, lineAtHeightLines, ih htail, heightOf_cons, List.length_cons,
      ← sub_sub]
    by_cases hfirst : h < l.height
    · rw [if_pos hfirst, if_pos hfirst, if_pos (by omega)]
    · rw [if_neg hfirst, if_neg hfirst]
      by_cases hlt : h - l.height < heightOf ls
      · rw [if_pos hlt, if_pos (by omega)]
      · rw [if_neg hlt, if_neg (by omega)]
        omega

theorem lineAtHeightIn_spec {cs : List (Chunk α)} (h : ∀ c ∈ cs, c.Valid)
    (hat : ∀ c ∈ cs, (∀ l ∈ c.collapse, 0 ≤ l.height) → ∀ y, c.lineAtHeight y = lineAtHeightLines c.collapse y)
    (hls : ∀ l ∈ collapseAll cs, 0 ≤ l.height) (y : ℤ) :
    lineAtHeightIn cs y = lineAtHeightLines (collapseAll cs) y := by
  induction cs generalizing y with
  | nil => rfl
  | cons c cs ih =>
    rw [collapseAll] at hls
    have hhead : ∀ l ∈ c.collapse, 0 ≤ l.height := fun l hl => hls l (List.mem_append_left _ hl)
    have htail : ∀ l ∈ collapseAll cs, 0 ≤ l.height := fun l hl => hls l (List.mem_append_right _ hl)
    have hc := h c List.mem_cons_self
    unfold lineAtHeightIn
    rw [collapseAll, lineAtHeightLines_append hhead htail, hc.height, hc.chunkSize, hat c List.mem_cons_self hhead,
      ih (fun c' hc' => h c' (List.mem_cons_of_mem _ hc')) (fun c' hc' => hat c' (List.mem_cons_of_mem _ hc')) htail]

theorem lineAtHeight_spec {c : Chunk α} (h : c.Valid) (hls : ∀ l ∈ c.collapse, 0 ≤ l.height) (y : ℤ) :
    c.lineAtHeight y = lineAtHeightLines c.collapse y := by
  induction h generalizing y with
  | leaf hheight hlength => rfl
  | branch hchildren hne hlength hsize hheight ih => exact lineAtHeightIn_spec hchildren ih hls y

end Access

end Chunk

end StudyTech
