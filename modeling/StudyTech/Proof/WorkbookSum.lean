import Mathlib.Algebra.BigOperators.Group.List.Basic
import Mathlib.Algebra.Order.Field.Rat
import Mathlib.Tactic.Linarith
import StudyTech.Spec.PurchaseOrder

/-!
# The sum of a workbook

`fillData` adds the amounts of its rows to those of the rows before, however the rows come in lists,
so the sum of a workbook is a function of its rows (`fillAll_sum`). But the compensation of an item
is added to itself and not to the sum: what is written is twice that of the last row, which is the
sum only by chance (`fillSum_exact`).
-/

namespace StudyTech

open Lib

/-- The sum of an amount over the rows. -/
def total (amount : PurchaseOrderVO → ℚ) (rows : List PurchaseOrderVO) : ℚ := (rows.map amount).sum

theorem total_append (amount : PurchaseOrderVO → ℚ) (rows list : List PurchaseOrderVO) :
    total amount (rows ++ list) = total amount rows + total amount list := by
  unfold total
  rw [List.map_append, List.sum_append]

/-- The compensation of the last row, twice. -/
def lastTwice (rows : List PurchaseOrderVO) : ℚ :=
  match rows.getLast? with
  | some row => row.compensateAmount + row.compensateAmount
  | none => 0

/-- The sum that is kept for the rows. -/
def sumOf (rows : List PurchaseOrderVO) : PurchaseOrderSumVO where
  count := toInt rows.length
  paymentAmount := total (·.paymentAmount) rows
  refundAmount := total (·.refundAmount) rows
  returnAmount := total (·.returnAmount) rows
  repairAmount := total (·.repairAmount) rows
  compensateAmount := lastTwice rows

/-- One more row. -/
theorem sumOf_add (rows : List PurchaseOrderVO) (item : PurchaseOrderVO) (count : ℤ) :
    ({ sumOf rows with count := count } : PurchaseOrderSumVO).add item =
      { sumOf (rows ++ [item]) with count := count } := by
  unfold PurchaseOrderSumVO.add sumOf lastTwice
  simp [total]

/-- The loop of `fillData`. -/
theorem foldl_add (rows list : List PurchaseOrderVO) (count : ℤ) :
    list.foldl .add { sumOf rows with count := count } = { sumOf (rows ++ list) with count := count } := by
  induction list generalizing rows with
  | nil => rw [List.foldl_nil, List.append_nil]
  | cons item list ih => rw [List.foldl_cons, sumOf_add, ih (rows ++ [item]), List.append_assoc, List.singleton_append]

/-- What one call keeps: the sum is that of the rows filled so far. -/
theorem fillData_sum {holder : ExcelWriterHolder} {rows : List PurchaseOrderVO} (h : holder.sum = sumOf rows)
    (list : List PurchaseOrderVO) : (holder.fillData list).sum = sumOf (rows ++ list) := by
  unfold ExcelWriterHolder.fillData
  by_cases hnil : list = []
  · rw [if_pos hnil, hnil, List.append_nil, h]
  · have hcount : toInt (toInt rows.length + list.length) = toInt (rows ++ list).length := by
      unfold toInt
      rw [Int.bmod_add_bmod, List.length_append, Nat.cast_add]
    have hfold := foldl_add rows list (toInt rows.length)
    rw [if_neg hnil, h]
    simp only
    rw [show sumOf rows = { sumOf rows with count := toInt rows.length } from rfl, hfold]
    simp only [hcount]
    rfl

/-- The calls of `fillData` one after the other. -/
def fillAll (holder : ExcelWriterHolder) (lists : List (List PurchaseOrderVO)) : ExcelWriterHolder :=
  lists.foldl .fillData holder

/-- **The sum is a function of the rows**, however they were divided into calls. -/
theorem fillAll_sum {holder : ExcelWriterHolder} {rows : List PurchaseOrderVO} (h : holder.sum = sumOf rows)
    (lists : List (List PurchaseOrderVO)) : (fillAll holder lists).sum = sumOf (rows ++ lists.flatten) := by
  induction lists generalizing holder rows with
  | nil => rw [List.flatten_nil, List.append_nil, ← h]; rfl
  | cons list lists ih =>
    have hstep := ih (fillData_sum h list)
    rw [List.flatten_cons, ← List.append_assoc, ← hstep]
    rfl

/-- What is written: the lists that are not empty. -/
theorem fillAll_writes (holder : ExcelWriterHolder) (lists : List (List PurchaseOrderVO)) :
    (fillAll holder lists).writes = holder.writes ++ (lists.filter (· ≠ [])).map .rows := by
  induction lists generalizing holder with
  | nil => simp [fillAll]
  | cons list lists ih =>
    have hstep := ih (holder.fillData list)
    unfold fillAll at hstep ⊢
    rw [List.foldl_cons, hstep]
    unfold ExcelWriterHolder.fillData
    by_cases hnil : list = []
    · simp [hnil]
    · simp [hnil]

/-- The sum is the exact one of the rows. -/
def PurchaseOrderSumVO.IsExact (sum : PurchaseOrderSumVO) (rows : List PurchaseOrderVO) : Prop :=
  sum.count = rows.length ∧ sum.paymentAmount = total (·.paymentAmount) rows ∧
    sum.refundAmount = total (·.refundAmount) rows ∧ sum.returnAmount = total (·.returnAmount) rows ∧
    sum.repairAmount = total (·.repairAmount) rows ∧ sum.compensateAmount = total (·.compensateAmount) rows

/-- A count that is an `int`. -/
theorem toInt_natCast_iff {n : ℕ} : toInt n = n ↔ n < 2 ^ 31 := by
  constructor
  · intro h
    unfold toInt at h
    have hlt : Int.bmod (n : ℤ) (2 ^ 32) < (2 ^ 32 + 1) / 2 := Int.bmod_lt (by decide)
    omega
  · exact toInt_natCast

/-- Twice the last row is the sum just where the last row is the sum of the others. -/
theorem lastTwice_eq_total {rows : List PurchaseOrderVO} : lastTwice rows = total (·.compensateAmount) rows ↔
    ∀ front last, rows = front ++ [last] → last.compensateAmount = total (·.compensateAmount) front := by
  rcases List.eq_nil_or_concat rows with rfl | ⟨front, last, rfl⟩
  · refine iff_of_true rfl fun front last h => absurd h ?_
    simp
  · rw [List.concat_eq_append, total_append]
    unfold lastTwice
    rw [List.getLast?_concat]
    have hlast : total (·.compensateAmount) [last] = last.compensateAmount := by simp [total]
    rw [hlast]
    constructor
    · intro h front' last' heq
      obtain ⟨rfl, hlast'⟩ := List.append_inj' heq rfl
      obtain rfl : last = last' := by simpa using hlast'
      linarith
    · intro h
      have hfront := h front last rfl
      simp only
      linarith

/-- Four of the sums are always exact; the count and the compensation decide. -/
theorem sumOf_isExact {rows : List PurchaseOrderVO} : (sumOf rows).IsExact rows ↔
    toInt rows.length = rows.length ∧ lastTwice rows = total (·.compensateAmount) rows := by
  unfold PurchaseOrderSumVO.IsExact sumOf
  simp only [true_and]

/-- **The summary row of a workbook.** After any calls of `fillData`, `fillSum` writes the sum kept
for all the rows. It is exact if and only if there are fewer than `2 ^ 31` rows, and the compensation
of the last row is the sum of the others. -/
theorem fillSum_exact (lists : List (List PurchaseOrderVO)) :
    (fillAll {} lists).fillSum.writes = (lists.filter (· ≠ [])).map .rows ++ [.sum (sumOf lists.flatten)] ∧
    ((sumOf lists.flatten).IsExact lists.flatten ↔ lists.flatten.length < 2 ^ 31 ∧
      ∀ front last, lists.flatten = front ++ [last] →
        last.compensateAmount = total (·.compensateAmount) front) := by
  have hstart : ({} : ExcelWriterHolder).sum = sumOf [] := rfl
  have hsum := fillAll_sum hstart lists
  rw [List.nil_append] at hsum
  constructor
  · unfold ExcelWriterHolder.fillSum
    simp only [fillAll_writes, hsum]
    rfl
  · rw [sumOf_isExact, toInt_natCast_iff, lastTwice_eq_total]

/-- A row with a compensation. -/
def compensated : PurchaseOrderVO := ⟨100, 0, 0, 0, 1⟩

/-- **A workbook of one row has twice its compensation in the summary.** -/
theorem fillSum_twice : (fillAll {} [[compensated]]).fillSum.writes =
      [.rows [compensated], .sum ⟨1, 100, 0, 0, 0, 2⟩] ∧
    ¬ (⟨1, 100, 0, 0, 0, 2⟩ : PurchaseOrderSumVO).IsExact [compensated] := by
  refine ⟨by decide +kernel, fun h => ?_⟩
  exact absurd h.2.2.2.2.2 (by decide +kernel)

end StudyTech
