import StudyTech.Spec.PurchaseOrder

/-!
# When the report is a partition of the orders

`Progress` says what the workbooks have after so many orders: each its own part of them, and its
sum if it is full. A page that does not span two workbooks keeps it, and so does the first page,
whose indices are those of the list (`writePage_first`, `writePage_single`). A later page that
spans two workbooks fails, because the bounds of `subList` are places among all orders
(`writePage_spans`). So the report is a partition exactly when no such page is there and the
orders can be counted by an `int` (`export_partitions`).
-/

namespace StudyTech

open Lib

namespace PurchaseOrderBiz

variable {biz : PurchaseOrderBiz} {orders : List PurchaseOrderVO} {holders : List ExcelWriterHolder}

/-- How many workbooks the orders need. -/
def workbooks (biz : PurchaseOrderBiz) (total : ℕ) : ℕ :=
  total / biz.excelCount + if total % biz.excelCount = 0 then 0 else 1

/-- A workbook with these rows, with its sum if it is closed. -/
structure Workbook (rows : List PurchaseOrderVO) (isClosed : Prop) (holder : ExcelWriterHolder) : Prop where
  writes : ∃ lists : List (List PurchaseOrderVO), lists.flatten = rows ∧
    ((isClosed ∧ holder.writes = lists.map .rows ++ [.sum holder.sum]) ∨ (¬ isClosed ∧ holder.writes = lists.map .rows))
  count : holder.sum.count = rows.length

/-- The part of the first `r` orders that belongs to workbook `i`. -/
def part (biz : PurchaseOrderBiz) (orders : List PurchaseOrderVO) (r i : ℕ) : List PurchaseOrderVO :=
  slice orders (biz.excelCount * i) (min r (biz.excelCount * (i + 1)))

/-- After `r` orders workbook `i` is full, or it has the last of all orders. -/
def Closed (biz : PurchaseOrderBiz) (r : ℕ) (last : Bool) (i : ℕ) : Prop :=
  biz.excelCount * (i + 1) ≤ r ∨ (last = true ∧ biz.excelCount * i < r)

/-- The workbooks after `r` orders. -/
structure Progress (biz : PurchaseOrderBiz) (orders : List PurchaseOrderVO) (r : ℕ) (last : Bool)
    (holders : List ExcelWriterHolder) : Prop where
  length : holders.length = biz.workbooks orders.length
  workbook : ∀ i holder, holders[i]? = some holder → Workbook (biz.part orders r i) (biz.Closed r last i) holder

theorem lt_workbooks_iff {total i : ℕ} : i < biz.workbooks total ↔ biz.excelCount * i < total := by
  have hpos := biz.excelCount_pos
  have hdiv : biz.excelCount * (total / biz.excelCount) + total % biz.excelCount = total := Nat.div_add_mod _ _
  have hmod : total % biz.excelCount < biz.excelCount := Nat.mod_lt _ hpos
  have hmul : biz.excelCount * i < biz.excelCount * (total / biz.excelCount + 1) ↔ i < total / biz.excelCount + 1 :=
    Nat.mul_lt_mul_left hpos
  have hmul' : biz.excelCount * i < biz.excelCount * (total / biz.excelCount) ↔ i < total / biz.excelCount :=
    Nat.mul_lt_mul_left hpos
  rw [Nat.mul_succ] at hmul
  unfold workbooks
  split
  · omega
  · constructor
    · intro hi
      rcases Nat.lt_succ_iff_lt_or_eq.1 hi with hi | rfl
      · omega
      · omega
    · intro hi
      omega

theorem length_part {r i : ℕ} (hr : r ≤ orders.length) :
    (biz.part orders r i).length = min r (biz.excelCount * (i + 1)) - biz.excelCount * i := by
  unfold part
  rw [length_slice]
  omega

/-- A piece of the orders that belongs to one workbook. -/
theorem part_append {s e j : ℕ} (hs : biz.excelCount * j ≤ s) (hse : s ≤ e) (he : e ≤ biz.excelCount * (j + 1)) :
    biz.part orders s j ++ slice orders s e = biz.part orders e j := by
  unfold part
  rw [Nat.min_eq_left he, Nat.min_eq_left (le_trans hse he)]
  exact slice_append hs hse

/-- The piece does not touch the other workbooks. -/
theorem part_other {s e i j : ℕ} (hs : biz.excelCount * j ≤ s) (hse : s ≤ e) (he : e ≤ biz.excelCount * (j + 1))
    (hij : i ≠ j) : biz.part orders e i = biz.part orders s i ∧
      ((biz.excelCount * (i + 1) ≤ s ∧ biz.excelCount * (i + 1) ≤ e) ∨ (e ≤ biz.excelCount * i)) := by
  unfold part
  rcases Nat.lt_or_gt_of_ne hij with hlt | hgt
  · have hle : biz.excelCount * (i + 1) ≤ biz.excelCount * j := Nat.mul_le_mul_left _ hlt
    rw [Nat.min_eq_right (by omega), Nat.min_eq_right (by omega)]
    exact ⟨rfl, Or.inl ⟨by omega, by omega⟩⟩
  · have hle : biz.excelCount * (j + 1) ≤ biz.excelCount * i := Nat.mul_le_mul_left _ hgt
    refine ⟨?_, Or.inr (by omega)⟩
    rw [slice_eq_nil_iff.2 (by omega), slice_eq_nil_iff.2 (by omega)]

/-- What `writeIndex` makes of the workbook. -/
def filled (biz : PurchaseOrderBiz) (last : Bool) (list : List PurchaseOrderVO) (holder : ExcelWriterHolder) :
    ExcelWriterHolder :=
  if (holder.fillData list).sum.count = biz.excelCount ∨ last then (holder.fillData list).fillSum
  else holder.fillData list

/-- Rows are added to an open workbook, which is closed if it is full or the last one. -/
theorem workbook_filled {rows list : List PurchaseOrderVO} {isClosed : Prop} {last : Bool} {holder : ExcelWriterHolder}
    (h : Workbook rows isClosed holder) (hopen : ¬ isClosed) (hne : list ≠ [])
    (hle : rows.length + list.length ≤ biz.excelCount) :
    Workbook (rows ++ list) (rows.length + list.length = biz.excelCount ∨ last = true)
      (biz.filled last list holder) := by
  obtain ⟨⟨lists, hflat, hwrites⟩, hcount⟩ := h
  have hrows : holder.writes = lists.map .rows := (hwrites.resolve_left fun hc => hopen hc.1).2
  have hlt := biz.excelCount_lt
  have hfill : (holder.fillData list).writes = (lists ++ [list]).map .rows := by
    rw [ExcelWriterHolder.fillData, if_neg hne, List.map_append, hrows]
    rfl
  have hsum : (holder.fillData list).sum.count = ((rows.length + list.length : ℕ) : ℤ) := by
    have hfold : ∀ (xs : List PurchaseOrderVO) (sum : PurchaseOrderSumVO), (xs.foldl .add sum).count = sum.count := by
      intro xs
      induction xs with
      | nil => exact fun _ => rfl
      | cons x xs ih => exact fun sum => ih (sum.add x)
    rw [ExcelWriterHolder.fillData, if_neg hne]
    show toInt ((list.foldl .add holder.sum).count + list.length) = _
    rw [hfold, hcount, ← Int.natCast_add, toInt_natCast (by omega)]
  have hflat' : (lists ++ [list]).flatten = rows ++ list := by
    rw [List.flatten_append, hflat, List.flatten_singleton]
  have hcount' : ((rows.length + list.length : ℕ) : ℤ) = (rows ++ list).length := by
    rw [List.length_append]
  unfold filled
  rw [hsum]
  split
  · rename_i hfull
    refine ⟨⟨lists ++ [list], hflat', Or.inl ⟨hfull.imp Int.ofNat_inj.1 id, ?_⟩⟩, ?_⟩
    · show (holder.fillData list).writes ++ _ = _
      rw [hfill]
      rfl
    · show (holder.fillData list).sum.count = _
      rw [hsum, hcount']
  · rename_i hopen'
    refine ⟨⟨lists ++ [list], hflat', Or.inr ⟨fun hc => hopen' (hc.imp (fun heq => by rw [heq]) id), hfill⟩⟩, ?_⟩
    rw [hsum, hcount']

/-- **The next orders go to their workbook.** -/
theorem progress_filled {s j : ℕ} {b : Bool} (e : ℕ) (last : Bool) (h : Progress biz orders s b holders)
    (hs : biz.excelCount * j ≤ s) (hse : s < e) (he : e ≤ biz.excelCount * (j + 1)) (hlen : e ≤ orders.length)
    (hb : b = true → s ≤ biz.excelCount * j) :
    ∃ holder, holders[j]? = some holder ∧
      Progress biz orders e last (holders.set j (biz.filled last (slice orders s e) holder)) := by
  have hj : j < holders.length := by
    rw [h.length, lt_workbooks_iff]
    omega
  refine ⟨holders[j], List.getElem?_eq_getElem hj, by rw [List.length_set]; exact h.length, fun i holder hi => ?_⟩
  have hopen : ¬ biz.Closed s b j := by
    rintro (hfull | ⟨hlast, hlt⟩)
    · omega
    · have hle := hb hlast
      omega
  by_cases hij : i = j
  · subst hij
    rw [List.getElem?_set_self hj] at hi
    obtain rfl := Option.some.inj hi
    have hlist : (slice orders s e).length = e - s := by
      rw [length_slice]
      omega
    have hrows : (biz.part orders s i).length = s - biz.excelCount * i := by
      rw [length_part (by omega)]
      omega
    rw [Nat.mul_succ] at he
    have hfit : (biz.part orders s i).length + (slice orders s e).length ≤ biz.excelCount := by omega
    have hne : slice orders s e ≠ [] := by
      rw [Ne, slice_eq_nil_iff]
      omega
    have hfilled : Workbook _ _ (biz.filled last (slice orders s e) holders[i]) :=
      workbook_filled (h.workbook i _ (List.getElem?_eq_getElem hj)) hopen hne hfit
    rw [part_append hs (le_of_lt hse) (by rw [Nat.mul_succ]; exact he)] at hfilled
    have hclosed : biz.Closed e last i ↔
        (biz.part orders s i).length + (slice orders s e).length = biz.excelCount ∨ last = true := by
      unfold Closed
      rw [hrows, hlist, Nat.mul_succ]
      constructor
      · rintro (hfull | ⟨hlast, -⟩)
        · exact Or.inl (by omega)
        · exact Or.inr hlast
      · rintro (hfull | hlast)
        · exact Or.inl (by omega)
        · exact Or.inr ⟨hlast, by omega⟩
    exact propext hclosed ▸ hfilled
  · rw [List.getElem?_set_ne (Ne.symm hij)] at hi
    have hother : biz.part orders e i = biz.part orders s i ∧ _ := part_other hs (le_of_lt hse) he hij
    obtain ⟨hpart, hplace⟩ := hother
    have hclosed : biz.Closed e last i ↔ biz.Closed s b i := by
      have hnext : biz.excelCount * (i + 1) = biz.excelCount * i + biz.excelCount := Nat.mul_succ _ _
      have hpos := biz.excelCount_pos
      rcases hplace with ⟨hfull, hfull'⟩ | hlater
      · exact iff_of_true (Or.inl hfull') (Or.inl hfull)
      · refine iff_of_false ?_ ?_
        · rintro (hfull | ⟨-, hlt⟩) <;> omega
        · rintro (hfull | ⟨-, hlt⟩) <;> omega
    rw [hpart, propext hclosed]
    exact h.workbook i holder hi

section Lists

variable {α : Type} {list : List α}

theorem subList_ok {a d : ℕ} (had : a ≤ d) (hd : d ≤ list.length) :
    JavaList.subList list a d = .ok (slice list a d) := by
  rw [JavaList.subList, if_neg (by omega), if_neg (by omega), if_neg (by omega)]
  rfl

theorem subList_error {a d : ℤ} (ha : 0 ≤ a) (had : d < a) (hd : d ≤ list.length) :
    ∃ e, JavaList.subList list a d = .error e := by
  rw [JavaList.subList, if_neg (by omega), if_neg (by omega), if_pos had]
  exact ⟨_, rfl⟩

theorem get_ok {j : ℕ} {x : α} (h : list[j]? = some x) : JavaList.get list j = .ok x := by
  rw [JavaList.get, if_neg (by omega), Int.toNat_natCast, h]

end Lists

section Index

variable {last : Bool} {list sub : List PurchaseOrderVO} {startIndex endIndex : ℤ} {j : ℕ} {holder : ExcelWriterHolder}

/-- The whole page goes to one workbook. -/
theorem writeIndex_whole (hj : holders[j]? = some holder) :
    biz.writeIndex last list startIndex startIndex holders j = .ok (holders.set j (biz.filled last list holder)) := by
  rw [writeIndex, if_pos rfl, get_ok hj]
  rfl

/-- A part of the page goes to the workbook. -/
theorem writeIndex_part (hne : startIndex ≠ endIndex) (hj : holders[j]? = some holder)
    (hsub : JavaList.subList list (toInt (j * biz.excelCount))
      (min list.length (toInt (toInt (j + 1) * biz.excelCount))) = .ok sub) :
    biz.writeIndex last list startIndex endIndex holders j = .ok (holders.set j (biz.filled last sub holder)) := by
  rw [writeIndex, if_neg hne, hsub, get_ok hj]
  rfl

/-- The bounds of the part are not those of the list. -/
theorem writeIndex_error (hne : startIndex ≠ endIndex) (hj : biz.excelCount * j < 2 ^ 31)
    (hlist : list.length < biz.excelCount * j) :
    ∃ e, biz.writeIndex last list startIndex endIndex holders j = .error e := by
  have hfrom : toInt (j * biz.excelCount) = ((biz.excelCount * j : ℕ) : ℤ) := by
    rw [← Int.natCast_mul, Nat.mul_comm]
    exact toInt_natCast hj
  have herror : ∃ e, JavaList.subList list (toInt (j * biz.excelCount))
      (min list.length (toInt (toInt (j + 1) * biz.excelCount))) = .error e :=
    subList_error (by omega) (by omega) (by omega)
  obtain ⟨e, he⟩ := herror
  refine ⟨e, ?_⟩
  rw [writeIndex, if_neg hne, he]
  rfl

theorem indices_natCast {a c n : ℕ} (hc : c = a + n) :
    indices a c = (List.range (n + 1)).map fun t : ℕ => ((a + t : ℕ) : ℤ) := by
  unfold indices
  have hcount : ((c : ℤ) + 1 - a).toNat = n + 1 := by omega
  rw [hcount]
  exact List.map_congr_left fun t _ => (Int.natCast_add a t).symm

theorem indices_self (a : ℕ) : indices a a = [(a : ℤ)] := indices_natCast (Nat.add_zero a).symm

theorem indices_zero (c : ℕ) : indices 0 c = (List.range (c + 1)).map fun t : ℕ => (t : ℤ) := by
  have h := indices_natCast (Nat.zero_add c).symm
  simpa only [Nat.zero_add, Int.natCast_zero] using h

end Index

/-- The orders that are written after `k` pages. -/
def written (orders : List PurchaseOrderVO) (k : ℕ) : ℕ := min (batchQuery * k) orders.length

/-- The orders of the page after `k` pages. -/
def page (orders : List PurchaseOrderVO) (k : ℕ) : List PurchaseOrderVO :=
  slice orders (written orders k) (written orders (k + 1))

/-- The workbook that the first row of the page belongs to. -/
def firstIndex (biz : PurchaseOrderBiz) (orders : List PurchaseOrderVO) (k : ℕ) : ℕ := written orders k / biz.excelCount

/-- The workbook that the last row of the page belongs to. -/
def lastIndex (biz : PurchaseOrderBiz) (orders : List PurchaseOrderVO) (k : ℕ) : ℕ :=
  (written orders (k + 1) - 1) / biz.excelCount

/-- The `int` that is computed for the workbook of the last row. -/
def endIndex (biz : PurchaseOrderBiz) (orders : List PurchaseOrderVO) (k : ℕ) : ℤ :=
  (toInt (toInt (written orders (k + 1) : ℤ) - 1)).tdiv biz.excelCount

section Page

variable {k : ℕ}

theorem written_of_lt (hk : batchQuery * k < orders.length) : written orders k = batchQuery * k :=
  Nat.min_eq_left (le_of_lt hk)

theorem written_lt (hk : batchQuery * k < orders.length) : written orders k < written orders (k + 1) := by
  unfold written batchQuery at *
  omega

theorem getStartRow_eq (k : ℕ) : getStartRow (k + 1) = toInt ((batchQuery * k : ℕ) : ℤ) := by
  have hrow : (((k + 1 : ℕ) : ℤ) - 1) * (batchQuery : ℕ) = ((batchQuery * k : ℕ) : ℤ) := by
    unfold batchQuery
    omega
  rw [getStartRow, hrow]

theorem firstIndex_le (biz : PurchaseOrderBiz) (orders : List PurchaseOrderVO) (k : ℕ) :
    biz.excelCount * biz.firstIndex orders k ≤ written orders k := Nat.mul_div_le _ _

theorem lt_firstIndex (biz : PurchaseOrderBiz) (orders : List PurchaseOrderVO) (k : ℕ) :
    written orders k < biz.excelCount * (biz.firstIndex orders k + 1) := Nat.lt_mul_div_succ _ biz.excelCount_pos

theorem lastIndex_le (biz : PurchaseOrderBiz) (orders : List PurchaseOrderVO) (k : ℕ) :
    biz.excelCount * biz.lastIndex orders k ≤ written orders (k + 1) - 1 := Nat.mul_div_le _ _

theorem lt_lastIndex (biz : PurchaseOrderBiz) (orders : List PurchaseOrderVO) (k : ℕ) :
    written orders (k + 1) - 1 < biz.excelCount * (biz.lastIndex orders k + 1) :=
  Nat.lt_mul_div_succ _ biz.excelCount_pos

theorem firstIndex_le_lastIndex (hk : batchQuery * k < orders.length) :
    biz.firstIndex orders k ≤ biz.lastIndex orders k := by
  have hlt := written_lt hk
  exact Nat.div_le_div_right (by omega)

/-- Where the rows can be counted by an `int`. -/
theorem endIndex_eq (hk : batchQuery * k < orders.length) (hint : written orders (k + 1) ≤ 2 ^ 31) :
    biz.endIndex orders k = biz.lastIndex orders k := by
  have hlt := written_lt hk
  rw [endIndex, toInt_pred (by omega) hint, lastIndex, Int.ofNat_tdiv]

/-- The rows of a page go to the workbooks between two. -/
theorem writePage_eq (hk : batchQuery * k < orders.length) (hint : batchQuery * k < 2 ^ 31) :
    biz.writePage orders holders (k + 1) =
      (indices (biz.firstIndex orders k) (biz.endIndex orders k)).foldlM
        (biz.writeIndex (k + 1 = getPages orders.length) (page orders k) (biz.firstIndex orders k)
          (biz.endIndex orders k)) holders := by
  have hrows : page orders k = slice orders (batchQuery * k) (batchQuery * k + batchQuery) := by
    rw [page, written_of_lt hk, written, slice_min, Nat.mul_succ]
  have hend : ((batchQuery * k : ℕ) : ℤ) + (slice orders (batchQuery * k) (batchQuery * k + batchQuery)).length =
      (written orders (k + 1) : ℤ) := by
    rw [length_slice]
    unfold written batchQuery at *
    omega
  have hlist : findList orders ((batchQuery * k : ℕ) : ℤ) batchQuery =
      .ok (slice orders (batchQuery * k) (batchQuery * k + batchQuery)) := by
    rw [findList, if_neg (by omega), Int.toNat_natCast]
  unfold writePage
  rw [getStartRow_eq, toInt_natCast hint, hlist, ok_bind]
  simp only
  rw [hend, hrows, endIndex, firstIndex, written_of_lt hk, Int.ofNat_tdiv]

/-- A page whose rows belong to one workbook. -/
theorem writePage_single {b : Bool} (h : Progress biz orders (written orders k) b holders)
    (hk : batchQuery * k < orders.length) (hint : written orders (k + 1) ≤ 2 ^ 31)
    (hb : b = true → written orders k ≤ biz.excelCount * biz.firstIndex orders k)
    (hsame : biz.firstIndex orders k = biz.lastIndex orders k) :
    ∃ holders', biz.writePage orders holders (k + 1) = .ok holders' ∧
      Progress biz orders (written orders (k + 1)) (k + 1 = getPages orders.length) holders' := by
  have hlt := written_lt hk
  have hrow := written_of_lt hk
  have hend := biz.lt_lastIndex orders k
  rw [← hsame] at hend
  obtain ⟨holder, hj, hprogress⟩ := progress_filled (written orders (k + 1)) (k + 1 = getPages orders.length) h
    (biz.firstIndex_le orders k) hlt (by omega) (Nat.min_le_right _ _) hb
  refine ⟨_, ?_, hprogress⟩
  rw [writePage_eq hk (by omega), endIndex_eq hk hint, ← hsame, indices_self, foldlM_cons_ok (writeIndex_whole hj)]
  rfl

/-- On the first page the bounds of the parts are places in the list. -/
theorem subList_first {e t : ℕ} (he : e ≤ orders.length) (hstart : biz.excelCount * t < e) (hpage : e ≤ batchQuery)
    (hfit : biz.excelCount < e) :
    JavaList.subList (slice orders 0 e) (toInt (t * biz.excelCount))
        (min (slice orders 0 e).length (toInt (toInt (t + 1) * biz.excelCount))) =
      .ok (slice orders (biz.excelCount * t) (min (biz.excelCount * (t + 1)) e)) := by
  have hpos := biz.excelCount_pos
  have hsmall : batchQuery + batchQuery < 2 ^ 31 := by decide
  have htc : t ≤ biz.excelCount * t := Nat.le_mul_of_pos_left t hpos
  have hnext : biz.excelCount * (t + 1) = biz.excelCount * t + biz.excelCount := Nat.mul_succ _ _
  have hle : biz.excelCount * t ≤ min (biz.excelCount * (t + 1)) e := by omega
  have hbound : biz.excelCount * (t + 1) < 2 ^ 31 := by omega
  have hboundt : t + 1 < 2 ^ 31 := by omega
  have hcast : (t : ℤ) + 1 = ((t + 1 : ℕ) : ℤ) := rfl
  have hmin : min (e : ℤ) ((biz.excelCount * (t + 1) : ℕ) : ℤ) = ((min (biz.excelCount * (t + 1)) e : ℕ) : ℤ) := by
    omega
  have hlength : (slice orders 0 e).length = e := by
    rw [length_slice]
    omega
  have hfrom : toInt ((t : ℤ) * biz.excelCount) = ((biz.excelCount * t : ℕ) : ℤ) := by
    rw [← Int.natCast_mul, Nat.mul_comm, toInt_natCast (by omega)]
  have hto : toInt (toInt ((t : ℤ) + 1) * biz.excelCount) = ((biz.excelCount * (t + 1) : ℕ) : ℤ) := by
    rw [hcast, toInt_natCast hboundt, ← Int.natCast_mul, Nat.mul_comm, toInt_natCast hbound]
  have hmine : min (biz.excelCount * (t + 1)) e ≤ (slice orders 0 e).length := by
    rw [hlength]
    exact Nat.min_le_right _ _
  rw [hfrom, hto, hlength, hmin, subList_ok hle hmine, slice_slice (Nat.min_le_right _ _)]

theorem writeIndices_first {last : Bool} {e c : ℕ} (h : Progress biz orders 0 last holders) (he : e ≤ orders.length)
    (hpage : e ≤ batchQuery) (hc : 0 < c) (hce : biz.excelCount * c < e) :
    ∀ t ≤ c + 1, ∃ holders', (List.range t).foldlM (fun holders (t : ℕ) =>
        biz.writeIndex last (slice orders 0 e) 0 c holders t) holders = .ok holders' ∧
      Progress biz orders (min (biz.excelCount * t) e) last holders' := by
  intro t ht
  induction t with
  | zero =>
    refine ⟨holders, rfl, ?_⟩
    rw [Nat.mul_zero, Nat.zero_min]
    exact h
  | succ t ih =>
    obtain ⟨hs, hloop, hprogress⟩ := ih (Nat.le_of_succ_le ht)
    have hpos := biz.excelCount_pos
    have hmul : biz.excelCount * t ≤ biz.excelCount * c := Nat.mul_le_mul_left _ (Nat.le_of_succ_le_succ ht)
    have hcount : biz.excelCount * 1 ≤ biz.excelCount * c := Nat.mul_le_mul_left _ hc
    have hnext : biz.excelCount * (t + 1) = biz.excelCount * t + biz.excelCount := Nat.mul_succ _ _
    rw [Nat.min_eq_left (by omega)] at hprogress
    obtain ⟨holder, hj, hprogress'⟩ := progress_filled (min (biz.excelCount * (t + 1)) e) last hprogress
      (le_refl _) (by omega) (Nat.min_le_left _ _) (by omega) (fun _ => le_refl _)
    refine ⟨_, ?_, hprogress'⟩
    have hne : (0 : ℤ) ≠ (c : ℤ) := by omega
    rw [foldlM_range_succ, hloop, ok_bind]
    exact writeIndex_part hne hj (subList_first he (by omega) hpage (by omega))

/-- The first page, from workbooks without rows. -/
theorem writePage_first (hstart : ∀ b, Progress biz orders 0 b holders) (hne : 0 < orders.length) :
    ∃ holders', biz.writePage orders holders 1 = .ok holders' ∧
      Progress biz orders (written orders 1) (0 + 1 = getPages orders.length) holders' := by
  have hk : batchQuery * 0 < orders.length := hne
  have hzero : written orders 0 = 0 := Nat.zero_min _
  have hlen : written orders 1 ≤ orders.length := Nat.min_le_right _ _
  have hpage : written orders 1 ≤ batchQuery := Nat.min_le_left _ _
  have hint : written orders 1 ≤ 2 ^ 31 := le_trans hpage (by decide)
  have hfirst : biz.firstIndex orders 0 = 0 := by rw [firstIndex, hzero, Nat.zero_div]
  by_cases hsame : biz.firstIndex orders 0 = biz.lastIndex orders 0
  · refine writePage_single (b := true) (by rw [hzero]; exact hstart true) hk hint (fun _ => ?_) hsame
    rw [hzero]
    exact Nat.zero_le _
  · rw [hfirst] at hsame
    have hlt : written orders 0 < written orders 1 := written_lt hk
    have hback : biz.excelCount * biz.lastIndex orders 0 ≤ written orders 1 - 1 := biz.lastIndex_le orders 0
    have hend : written orders 1 - 1 < biz.excelCount * (biz.lastIndex orders 0 + 1) := biz.lt_lastIndex orders 0
    obtain ⟨holders', hloop, hprogress⟩ := writeIndices_first (hstart (0 + 1 = getPages orders.length)) hlen hpage
      (Nat.pos_of_ne_zero (Ne.symm hsame)) (by omega) _ (le_refl _)
    rw [Nat.min_eq_right (by omega)] at hprogress
    refine ⟨holders', ?_, hprogress⟩
    rw [← hloop, writePage_eq hk (by decide), endIndex_eq hk hint, hfirst, Int.natCast_zero, indices_zero,
      List.foldlM_map, page, hzero]

/-- A later page whose rows belong to several workbooks: the next workbook starts on the page, and
the page is not the first. -/
theorem writePage_spans (hk : batchQuery * k < orders.length) (hpos : 0 < k) (hint : written orders (k + 1) ≤ 2 ^ 31)
    (hspans : biz.firstIndex orders k < biz.lastIndex orders k) :
    ∃ e, biz.writePage orders holders (k + 1) = .error e := by
  obtain ⟨n, hn⟩ := Nat.exists_eq_add_of_lt hspans
  have hlt := written_lt hk
  have hrow := written_of_lt hk
  have hnext : biz.excelCount * (biz.firstIndex orders k + 1) ≤ biz.excelCount * biz.lastIndex orders k :=
    Nat.mul_le_mul_left _ hspans
  have hback := biz.lastIndex_le orders k
  have hstart := biz.lt_firstIndex orders k
  have hlist : (page orders k).length ≤ written orders k := by
    rw [page, length_slice]
    have hend : written orders (k + 1) ≤ batchQuery * k + batchQuery := Nat.min_le_left _ _
    have hpage : batchQuery * 1 ≤ batchQuery * k := Nat.mul_le_mul_left _ hpos
    omega
  have hloop : indices (biz.firstIndex orders k) (biz.lastIndex orders k) =
      (biz.firstIndex orders k : ℤ) :: ((biz.firstIndex orders k + 1 : ℕ) : ℤ) ::
        (List.range n).map fun t : ℕ => ((biz.firstIndex orders k + (t + 2) : ℕ) : ℤ) := by
    rw [indices_natCast (hn.trans (Nat.add_assoc _ n 1)), List.range_succ_eq_map, List.range_succ_eq_map]
    simp only [List.map_cons, List.map_map]
    rfl
  rw [writePage_eq hk (by omega), endIndex_eq hk hint, hloop]
  exact foldlM_second_error fun holders' => writeIndex_error (by omega) (by omega) (by omega)

end Page

/-- No page after the first spans two workbooks: a multiple of `excelCount` that is not on the
first page, and is followed by further orders, is a multiple of the page size. -/
def PagesFit (biz : PurchaseOrderBiz) (r : ℕ) : Prop :=
  ∀ m, biz.excelCount ∣ m → batchQuery < m → m < r → batchQuery ∣ m

theorem PagesFit.mono {r r' : ℕ} (h : PagesFit biz r') (hle : r ≤ r') : PagesFit biz r :=
  fun m hdvd hlo hhi => h m hdvd hlo (Nat.lt_of_lt_of_le hhi hle)

/-- One more page fits if and only if its rows belong to one workbook. -/
theorem pagesFit_succ {k : ℕ} (hk : batchQuery * k < orders.length) (hpos : 0 < k) :
    PagesFit biz (written orders (k + 1)) ↔
      PagesFit biz (written orders k) ∧ biz.firstIndex orders k = biz.lastIndex orders k := by
  have hlt := written_lt hk
  have hrow := written_of_lt hk
  have hend : written orders (k + 1) ≤ batchQuery * (k + 1) := Nat.min_le_left _ _
  have hpage : batchQuery * 1 ≤ batchQuery * k := Nat.mul_le_mul_left _ hpos
  have hback := biz.lastIndex_le orders k
  have hfirst := biz.lt_firstIndex orders k
  constructor
  · intro h
    refine ⟨h.mono (le_of_lt hlt), ?_⟩
    by_contra hne
    -- the next workbook starts on the page
    have hspans : biz.firstIndex orders k < biz.lastIndex orders k := lt_of_le_of_ne (firstIndex_le_lastIndex hk) hne
    have hnext : biz.excelCount * (biz.firstIndex orders k + 1) ≤ biz.excelCount * biz.lastIndex orders k :=
      Nat.mul_le_mul_left _ hspans
    obtain ⟨q, hq⟩ := h (biz.excelCount * (biz.firstIndex orders k + 1)) (Nat.dvd_mul_right _ _) (by omega) (by omega)
    rw [hq, hrow] at hfirst
    have hlo : k < q := Nat.lt_of_mul_lt_mul_left hfirst
    have hle : batchQuery * (k + 1) ≤ batchQuery * q := Nat.mul_le_mul_left _ hlo
    omega
  · rintro ⟨hfit, hsame⟩ m hdvd hlo hhi
    rcases Nat.lt_trichotomy m (written orders k) with hm | rfl | hm
    · exact hfit m hdvd hlo hm
    · rw [hrow]
      exact Nat.dvd_mul_right _ _
    · -- a multiple behind the start of the page is in a later workbook
      obtain ⟨q, rfl⟩ := hdvd
      have hq : q ≤ biz.lastIndex orders k := by
        rw [lastIndex, Nat.le_div_iff_mul_le biz.excelCount_pos, Nat.mul_comm]
        omega
      rw [← hsame] at hq
      have hle : biz.excelCount * q ≤ biz.excelCount * biz.firstIndex orders k := Nat.mul_le_mul_left _ hq
      have hstart := biz.firstIndex_le orders k
      omega

/-- The loop of `writeExcel` over the first pages. -/
def writePages (biz : PurchaseOrderBiz) (orders : List PurchaseOrderVO) (holders : List ExcelWriterHolder) (k : ℕ) :
    Except JavaException (List ExcelWriterHolder) :=
  (List.range k).foldlM (fun holderList k => biz.writePage orders holderList (k + 1)) holders

theorem lt_getPages_iff {k total : ℕ} : k < getPages total ↔ batchQuery * k < total := by
  unfold getPages batchQuery
  omega

/-- **The first pages**: they are written if and only if they fit, and the workbooks then have
their parts of the rows. -/
theorem writePages_spec (hstart : ∀ b, Progress biz orders 0 b holders) (hne : 0 < orders.length) (k : ℕ)
    (hk : k ≤ getPages orders.length) (hint : written orders k ≤ 2 ^ 31) :
    (∃ holders', writePages biz orders holders k = .ok holders' ∧
        Progress biz orders (written orders k) (k = getPages orders.length) holders' ∧
        PagesFit biz (written orders k)) ∨
      ((∃ e, writePages biz orders holders k = .error e) ∧ ¬ PagesFit biz (written orders k)) := by
  induction k with
  | zero =>
    have hzero : written orders 0 = 0 := Nat.zero_min _
    refine Or.inl ⟨holders, rfl, ?_, ?_⟩
    · rw [hzero]
      exact hstart _
    · rw [hzero]
      exact fun m _ _ hm => absurd hm (Nat.not_lt_zero m)
  | succ k ih =>
    have hrows := lt_getPages_iff.1 hk
    have hlt := written_lt hrows
    have hloop : ∀ r, writePages biz orders holders k = r →
        writePages biz orders holders (k + 1) = r >>= fun holders' => biz.writePage orders holders' (k + 1) := by
      rintro r rfl
      exact foldlM_range_succ k
    rcases ih (Nat.le_of_succ_le hk) (by omega) with ⟨holders', hok, hprogress, hfit⟩ | ⟨⟨e, herror⟩, hbad⟩
    · rw [hloop _ hok, ok_bind]
      have hopen : decide (k = getPages orders.length) = false := decide_eq_false (Nat.ne_of_lt hk)
      rw [hopen] at hprogress
      rcases Nat.eq_zero_or_pos k with rfl | hpos
      · cases hok
        obtain ⟨holders', hpage, hprogress⟩ := writePage_first hstart hne
        refine Or.inl ⟨holders', hpage, hprogress, fun m _ hlo hhi => ?_⟩
        have hle : written orders (0 + 1) ≤ batchQuery * 1 := Nat.min_le_left _ _
        omega
      · by_cases hsame : biz.firstIndex orders k = biz.lastIndex orders k
        · obtain ⟨holders'', hpage, hprogress⟩ := writePage_single hprogress hrows hint (fun h => nomatch h) hsame
          exact Or.inl ⟨holders'', hpage, hprogress, (pagesFit_succ hrows hpos).2 ⟨hfit, hsame⟩⟩
        · have hspans := lt_of_le_of_ne (firstIndex_le_lastIndex hrows) hsame
          exact Or.inr ⟨writePage_spans hrows hpos hint hspans, fun h => hsame ((pagesFit_succ hrows hpos).1 h).2⟩
    · refine Or.inr ⟨⟨e, ?_⟩, fun h => hbad (h.mono (le_of_lt hlt))⟩
      rw [hloop _ herror]
      rfl

/-- The report is a partition of the orders: there are as many workbooks as they need, and each
was given its own orders, in order, and then its sum. -/
structure Partitioned (biz : PurchaseOrderBiz) (orders : List PurchaseOrderVO) (holders : List ExcelWriterHolder) :
    Prop where
  length : holders.length = biz.workbooks orders.length
  workbook : ∀ i holder, holders[i]? = some holder → ∃ (lists : List (List PurchaseOrderVO)) (sum : PurchaseOrderSumVO),
    lists.flatten = slice orders (biz.excelCount * i) (min orders.length (biz.excelCount * (i + 1))) ∧
    holder.writes = lists.map .rows ++ [.sum sum]

section Start

variable {files : List String}

theorem progress_start (hfiles : files.length = biz.workbooks orders.length) (b : Bool) :
    Progress biz orders 0 b (getHolders files) := by
  refine ⟨by rw [getHolders, List.length_map]; exact hfiles, fun i holder hi => ?_⟩
  have hpart : biz.part orders 0 i = [] := slice_eq_nil_iff.2 (by omega)
  have hopen : ¬ biz.Closed 0 b i := by
    have hpos : 0 < biz.excelCount * (i + 1) := Nat.mul_pos biz.excelCount_pos (Nat.succ_pos i)
    rintro (hfull | ⟨-, hlt⟩) <;> omega
  rw [getHolders, List.getElem?_map] at hi
  obtain ⟨file, -, rfl⟩ := Option.map_eq_some_iff.1 hi
  rw [hpart]
  exact ⟨⟨[], rfl, Or.inr ⟨hopen, rfl⟩⟩, rfl⟩

theorem createTempFile_ok {total : ℕ} (h : biz.workbooks total + 1 < 2 ^ 31) :
    ∃ files, biz.createTempFile total = .ok files ∧ files.length = biz.workbooks total := by
  have hcount : ((total : ℤ) / biz.excelCount + if total % biz.excelCount = 0 then 0 else 1) =
      ((biz.workbooks total : ℕ) : ℤ) := by
    unfold workbooks
    split <;> simp
  have hpages : toInt ((total : ℤ) / biz.excelCount + if total % biz.excelCount = 0 then 0 else 1) =
      ((biz.workbooks total : ℕ) : ℤ) := by
    rw [hcount, toInt_natCast (by omega)]
  have hnext : ¬ toInt (((biz.workbooks total : ℕ) : ℤ) + 1) < 0 := by
    have hcast : ((biz.workbooks total : ℕ) : ℤ) + 1 = ((biz.workbooks total + 1 : ℕ) : ℤ) := rfl
    rw [hcast, toInt_natCast h]
    omega
  rw [createTempFile, hpages, if_neg hnext]
  exact ⟨_, rfl, by rw [List.length_map, List.length_range, Int.toNat_natCast]⟩

end Start

section Kept

/-- A round of the inner loop writes one workbook at most. -/
theorem writeIndex_set {last : Bool} {list : List PurchaseOrderVO} {startIndex endIndex index : ℤ}
    {holders' : List ExcelWriterHolder}
    (h : biz.writeIndex last list startIndex endIndex holders index = .ok holders') :
    ∃ holder, holders' = holders.set index.toNat holder := by
  have hwrite : ∀ sub, (JavaList.get holders index >>= fun holder =>
      pure (holders.set index.toNat (biz.filled last sub holder))) = .ok holders' →
      ∃ holder, holders' = holders.set index.toNat holder := by
    intro sub hsub
    cases hget : JavaList.get holders index with
    | error e =>
      rw [hget] at hsub
      cases hsub
    | ok holder =>
      rw [hget] at hsub
      cases hsub
      exact ⟨_, rfl⟩
  rw [writeIndex] at h
  split at h
  · exact hwrite list h
  · cases hsub : JavaList.subList list (toInt (index * biz.excelCount))
        (min list.length (toInt (toInt (index + 1) * biz.excelCount))) with
    | error e =>
      rw [hsub] at h
      cases h
    | ok sub =>
      rw [hsub] at h
      exact hwrite sub h

/-- The rounds of a page. -/
theorem writePage_keeps {k : ℕ} {P : List ExcelWriterHolder → Prop} {holders' : List ExcelWriterHolder}
    (hset : ∀ holders index holder, P holders → P (holders.set index holder)) (hP : P holders)
    (h : biz.writePage orders holders k = .ok holders') : P holders' := by
  rw [writePage] at h
  cases hlist : findList orders (getStartRow k) batchQuery with
  | error e =>
    rw [hlist] at h
    cases h
  | ok list =>
    rw [hlist, ok_bind] at h
    refine foldlM_keeps (fun index _ hs hs' hround hPs => ?_) hP h
    obtain ⟨holder, rfl⟩ := writeIndex_set hround
    exact hset hs index.toNat holder hPs

theorem length_writeExcel {holders' : List ExcelWriterHolder} (h : biz.writeExcel orders holders = .ok holders') :
    holders'.length = holders.length := by
  refine foldlM_keeps (P := fun hs => hs.length = holders.length) (fun k _ hs hs' hround hlen => ?_) rfl h
  refine writePage_keeps (P := fun hs => hs.length = holders.length) (fun hs index holder hlen => ?_) hlen hround
  rw [List.length_set]
  exact hlen

/-- What a report that came to an end went through. -/
theorem exportExcel_ok (h : biz.exportExcel orders = .ok holders) :
    ∃ files, biz.createTempFile orders.length = .ok files ∧ biz.writeExcel orders (getHolders files) = .ok holders ∧
      holders.length = files.length := by
  rw [exportExcel] at h
  cases hfiles : biz.createTempFile orders.length with
  | error e =>
    rw [hfiles] at h
    cases h
  | ok files =>
    rw [hfiles, ok_bind] at h
    refine ⟨files, rfl, h, ?_⟩
    rw [length_writeExcel h, getHolders, List.length_map]

end Kept

section Overflow

theorem mem_indices {a c x : ℤ} (h : x ∈ indices a c) : a ≤ x ∧ x ≤ c := by
  obtain ⟨t, ht, rfl⟩ := List.mem_map.1 h
  have hlt := List.mem_range.1 ht
  omega

/-- A page with the row `2 ^ 31` is written to the first workbook or to none. -/
theorem writePage_overflow {k : ℕ} {holders' : List ExcelWriterHolder} (hk : batchQuery * k < orders.length)
    (hint : batchQuery * k < 2 ^ 31) (hover : 2 ^ 31 < written orders (k + 1))
    (h : biz.writePage orders holders (k + 1) = .ok holders') : ∀ i, 0 < i → holders'[i]? = holders[i]? := by
  have hend : written orders (k + 1) ≤ batchQuery * k + batchQuery := Nat.min_le_left _ _
  have hbatch : 2 ^ 31 + batchQuery < 2 ^ 32 := by decide
  have hnegative :
      toInt (toInt (written orders (k + 1) : ℤ) - 1) = -((2 ^ 32 + 1 - written orders (k + 1) : ℕ) : ℤ) := by
    rw [toInt_toInt_sub, toInt_overflow (by omega) (by omega)]
    omega
  have hindex : biz.endIndex orders k ≤ 0 := by
    rw [endIndex, hnegative, Int.neg_tdiv, ← Int.ofNat_tdiv]
    exact Int.neg_nonpos_of_nonneg (Int.natCast_nonneg _)
  rw [writePage_eq hk hint] at h
  refine foldlM_keeps (P := fun hs => ∀ i, 0 < i → hs[i]? = holders[i]?) (fun x hx hs hs' hround hkept i hi => ?_)
    (fun _ _ => rfl) h
  obtain ⟨hlo, hhi⟩ := mem_indices hx
  have hzero : x.toNat = 0 := Int.toNat_of_nonpos (Int.le_trans hhi hindex)
  obtain ⟨holder, rfl⟩ := writeIndex_set hround
  rw [hzero, List.getElem?_set_ne (Nat.ne_of_lt hi)]
  exact hkept i hi

/-- The offset of a page behind the row `2 ^ 31` is negative. -/
theorem writePage_negative {k : ℕ} (hlo : 2 ^ 31 ≤ batchQuery * k) (hhi : batchQuery * k < 2 ^ 32) :
    ∃ e, biz.writePage orders holders (k + 1) = .error e := by
  have hnegative : getStartRow (k + 1) < 0 := by
    rw [getStartRow_eq, toInt_overflow (by omega) (by omega)]
    omega
  have hlist : ∃ e, findList orders (getStartRow (k + 1)) batchQuery = .error e := by
    rw [findList, if_pos hnegative]
    exact ⟨_, rfl⟩
  obtain ⟨e, he⟩ := hlist
  refine ⟨e, ?_⟩
  rw [writePage, he]
  rfl

theorem writePages_succ {k : ℕ} {holders' : List ExcelWriterHolder}
    (h : writePages biz orders holders k = .ok holders') :
    writePages biz orders holders (k + 1) = biz.writePage orders holders' (k + 1) := by
  have hloop : writePages biz orders holders (k + 1) =
      writePages biz orders holders k >>= fun holders' => biz.writePage orders holders' (k + 1) := foldlM_range_succ k
  rw [hloop, h, ok_bind]

/-- A report whose first pages fail fails. -/
theorem not_ok_of_writePages {k : ℕ} {e : JavaException} {holders' : List ExcelWriterHolder}
    (hk : k ≤ getPages orders.length) (h : writePages biz orders holders k = .error e) :
    biz.writeExcel orders holders ≠ .ok holders' := by
  intro hok
  rw [writeExcel, foldlM_range_error hk h] at hok
  cases hok

/-- An open workbook has no sum. -/
theorem not_closed_writes {rows : List PurchaseOrderVO} {isClosed : Prop} {holder : ExcelWriterHolder}
    {lists : List (List PurchaseOrderVO)} {sum : PurchaseOrderSumVO} (h : Workbook rows isClosed holder)
    (hopen : ¬ isClosed) : holder.writes ≠ lists.map .rows ++ [.sum sum] := by
  obtain ⟨lists', -, hwrites⟩ := h.writes
  rw [(hwrites.resolve_left fun hc => hopen hc.1).2]
  intro heq
  have hmem : ExcelWrite.sum sum ∈ lists'.map ExcelWrite.rows := heq ▸ List.mem_append_right _ List.mem_cons_self
  obtain ⟨list, -, hlist⟩ := List.mem_map.1 hmem
  cases hlist

/-- **Too many orders to count**: the workbook of the last row is left open. -/
theorem not_partitioned_of_overflow (htotal : 2 ^ 31 < orders.length) :
    ¬ ∃ holders, biz.exportExcel orders = .ok holders ∧ Partitioned biz orders holders := by
  rintro ⟨holders, hok, hpartitioned⟩
  obtain ⟨files, -, hwrite, hlength⟩ := exportExcel_ok hok
  have hstart := progress_start (hlength.symm.trans hpartitioned.length)
  obtain ⟨k, hlo, hhi⟩ : ∃ k, batchQuery * k < 2 ^ 31 ∧ 2 ^ 31 < batchQuery * (k + 1) := ⟨1073741, by decide, by decide⟩
  have hk : batchQuery * k < orders.length := by omega
  have hpages := lt_getPages_iff.2 hk
  have hover : 2 ^ 31 < written orders (k + 1) := Nat.lt_min.2 ⟨hhi, htotal⟩
  rcases writePages_spec hstart (by omega) k (le_of_lt hpages) (by rw [written_of_lt hk]; omega) with
    ⟨before, hbefore, hprogress, -⟩ | ⟨⟨e, herror⟩, -⟩
  · have hnext := writePages_succ hbefore
    cases hpage : biz.writePage orders before (k + 1) with
    | error e =>
      rw [hpage] at hnext
      exact not_ok_of_writePages hpages hnext hwrite
    | ok after =>
      rw [hpage] at hnext
      have hkept := writePage_overflow hk hlo hover hpage
      have hlast : getPages orders.length = k + 1 := by
        by_contra hne
        have hbatch : 2 ^ 31 + batchQuery < 2 ^ 32 := by decide
        have hmul : batchQuery * (k + 1) = batchQuery * k + batchQuery := Nat.mul_succ _ _
        have hnegative : ∃ e, biz.writePage orders after (k + 1 + 1) = .error e :=
          writePage_negative (by omega) (by omega)
        obtain ⟨e, he⟩ := hnegative
        have hfails := writePages_succ hnext
        rw [he] at hfails
        exact not_ok_of_writePages (by omega) hfails hwrite
      have hafter : after = holders := by
        rw [writeExcel, hlast] at hwrite
        exact Except.ok.inj (hnext.symm.trans hwrite)
      subst hafter
      -- the workbook of the last row is not the first one
      have hi : 0 < (orders.length - 1) / biz.excelCount := by
        have hlt := biz.excelCount_lt
        exact Nat.div_pos (by omega) biz.excelCount_pos
      have hrow : orders.length - 1 < biz.excelCount * ((orders.length - 1) / biz.excelCount + 1) :=
        Nat.lt_mul_div_succ _ biz.excelCount_pos
      have hback : biz.excelCount * ((orders.length - 1) / biz.excelCount) ≤ orders.length - 1 := Nat.mul_div_le _ _
      have hworkbook : (orders.length - 1) / biz.excelCount < after.length := by
        rw [hpartitioned.length, lt_workbooks_iff]
        omega
      obtain ⟨lists, sum, -, hwrites⟩ := hpartitioned.workbook _ _ (List.getElem?_eq_getElem hworkbook)
      have hopen :
          ¬ biz.Closed (written orders k) (k = getPages orders.length) ((orders.length - 1) / biz.excelCount) := by
        rintro (hfull | ⟨hk', -⟩)
        · rw [written_of_lt hk] at hfull
          omega
        · exact Nat.ne_of_lt hpages (of_decide_eq_true hk')
      exact not_closed_writes (hprogress.workbook _ _ ((hkept _ hi).symm.trans (List.getElem?_eq_getElem hworkbook)))
        hopen hwrites
  · exact not_ok_of_writePages (le_of_lt hpages) herror hwrite

end Overflow

section Report

theorem written_getPages : written orders (getPages orders.length) = orders.length := by
  unfold written getPages batchQuery
  omega

/-- The files can be counted where the pages fit. -/
theorem workbooks_lt {total : ℕ} (htotal : total ≤ 2 ^ 31) (hfit : PagesFit biz total) :
    biz.workbooks total + 1 < 2 ^ 31 := by
  have hpos := biz.excelCount_pos
  have hone : biz.workbooks total ≤ total / biz.excelCount + 1 := by
    unfold workbooks
    split <;> omega
  rcases Nat.lt_or_ge 1 biz.excelCount with hE | hE
  · have hhalf : total / biz.excelCount ≤ total / 2 := Nat.div_le_div_left hE Nat.two_pos
    omega
  · -- workbooks of one order fit on the first page only
    have hE' : biz.excelCount = 1 := by omega
    have hsmall : total ≤ batchQuery + 1 := by
      by_contra hlt
      have hdvd := hfit (batchQuery + 1) (by rw [hE']; exact Nat.one_dvd _) (Nat.lt_succ_self _) (by omega)
      exact absurd hdvd (by decide)
    have hdiv : total / biz.excelCount ≤ total := Nat.div_le_self _ _
    have hbatch : batchQuery + 3 < 2 ^ 31 := by decide
    omega

/-- A report that does not fit fails. -/
theorem writeExcel_error (hstart : ∀ b, Progress biz orders 0 b holders) (hne : 0 < orders.length)
    (hint : orders.length ≤ 2 ^ 31) (hfit : ¬ PagesFit biz orders.length) :
    ∃ e, biz.writeExcel orders holders = .error e := by
  have hspec := writePages_spec hstart hne (getPages orders.length) (le_refl _) (by rw [written_getPages]; exact hint)
  rw [written_getPages] at hspec
  rcases hspec with ⟨_, -, -, hfit'⟩ | ⟨herror, -⟩
  · exact absurd hfit' hfit
  · exact herror

/-- **The report**: `export` comes to an end with a partition of the orders over the workbooks if
and only if the orders can be counted by an `int` and no page after the first spans two workbooks. -/
theorem export_partitions (biz : PurchaseOrderBiz) (orders : List PurchaseOrderVO) (hne : orders ≠ []) :
    (∃ holders, biz.exportExcel orders = .ok holders ∧ Partitioned biz orders holders) ↔
      orders.length ≤ 2 ^ 31 ∧ PagesFit biz orders.length := by
  have hpos : 0 < orders.length := List.length_pos_iff.2 hne
  constructor
  · intro h
    have hint : orders.length ≤ 2 ^ 31 := Nat.le_of_not_lt fun hover => not_partitioned_of_overflow hover h
    refine ⟨hint, ?_⟩
    by_contra hfit
    obtain ⟨holders, hok, hpartitioned⟩ := h
    obtain ⟨files, -, hwrite, hlength⟩ := exportExcel_ok hok
    obtain ⟨e, he⟩ := writeExcel_error (progress_start (hlength.symm.trans hpartitioned.length)) hpos hint hfit
    rw [he] at hwrite
    cases hwrite
  · rintro ⟨hint, hfit⟩
    obtain ⟨files, hfiles, hlength⟩ := createTempFile_ok (workbooks_lt hint hfit)
    have hspec := writePages_spec (progress_start hlength) hpos (getPages orders.length) (le_refl _)
      (by rw [written_getPages]; exact hint)
    rw [written_getPages] at hspec
    rcases hspec with ⟨holders, hok, hprogress, -⟩ | ⟨-, hbad⟩
    · refine ⟨holders, ?_, hprogress.length, fun i holder hi => ?_⟩
      · rw [exportExcel, hfiles]
        exact hok
      · have hlt : i < holders.length := (List.getElem?_eq_some_iff.1 hi).1
        rw [hprogress.length, lt_workbooks_iff] at hlt
        obtain ⟨lists, hflat, hwrites⟩ := (hprogress.workbook i holder hi).writes
        have hclosed : biz.Closed orders.length (getPages orders.length = getPages orders.length) i :=
          Or.inr ⟨decide_eq_true rfl, hlt⟩
        exact ⟨lists, holder.sum, hflat, (hwrites.resolve_right fun hopen => hopen.1 hclosed).2⟩
    · exact absurd hfit hbad

/-- The report with the default size of a workbook. -/
def defaultBiz : PurchaseOrderBiz := ⟨10000, "商户采购结算报表20210908", by decide, by decide⟩

/-- The report with workbooks of 1500 orders. -/
def smallBiz : PurchaseOrderBiz := ⟨1500, "商户采购结算报表20210908", by decide, by decide⟩

def paidOrder : PurchaseOrderVO := ⟨100, 0, 0, 0, 0⟩

/-- Twelve thousand orders in workbooks of ten thousand. -/
theorem export_partitions_default :
    ∃ holders, defaultBiz.exportExcel (List.replicate 12000 paidOrder) = .ok holders ∧
      Partitioned defaultBiz (List.replicate 12000 paidOrder) holders := by
  refine (export_partitions defaultBiz _ (by rw [Ne, List.replicate_eq_nil_iff]; decide)).2 ⟨?_, fun m hdvd _ _ => ?_⟩
  · rw [List.length_replicate]
    decide
  · have hpages : batchQuery ∣ defaultBiz.excelCount := by decide
    exact Nat.dvd_trans hpages hdvd

/-- The second page of 3001 orders has rows of two workbooks of 1500. -/
theorem exportExcel_error (hlength : orders.length = 3001) : ∃ e, smallBiz.exportExcel orders = .error e := by
  have hfit : ¬ PagesFit smallBiz orders.length := by
    intro hfit
    rw [hlength] at hfit
    exact absurd (hfit 3000 (by decide) (by decide) (by decide)) (by decide)
  have hsmall : smallBiz.workbooks orders.length + 1 < 2 ^ 31 := by
    rw [hlength]
    decide
  obtain ⟨files, hfiles, hcount⟩ := createTempFile_ok hsmall
  obtain ⟨e, he⟩ := writeExcel_error (progress_start hcount) (by omega) (by omega) hfit
  refine ⟨e, ?_⟩
  rw [exportExcel, hfiles, ok_bind]
  exact he

/-- **A report that fails.** -/
theorem export_fails : ∃ e, smallBiz.exportExcel (List.replicate 3001 paidOrder) = .error e :=
  exportExcel_error List.length_replicate

end Report

end PurchaseOrderBiz

end StudyTech
