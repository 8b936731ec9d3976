import Mathlib.Data.Rat.Defs
import StudyTech.Lib.JavaInt
import StudyTech.Lib.Loop
import StudyTech.Lib.Windows
import StudyTech.Spec.Message

/-!
# `PurchaseOrderBiz`: the report

The orders that a query finds are one list, as `getOrderVO` makes them. `export` writes them page
by page into workbooks of at most `excelCount` orders. An `int` is an integer that is wrapped to
32 bits where it is computed; a `BigDecimal` is a rational number.
-/

namespace StudyTech

open Lib

/-- `PurchaseOrderVO`, as far as the sums read it. -/
structure PurchaseOrderVO where
  paymentAmount : ℚ
  refundAmount : ℚ
  returnAmount : ℚ
  repairAmount : ℚ
  compensateAmount : ℚ
  deriving DecidableEq, Repr

/-- `PurchaseOrderSumVO`, as `initSum` makes it. -/
structure PurchaseOrderSumVO where
  count : ℤ := 0
  paymentAmount : ℚ := 0
  refundAmount : ℚ := 0
  returnAmount : ℚ := 0
  repairAmount : ℚ := 0
  compensateAmount : ℚ := 0
  deriving DecidableEq, Repr

/-- What the writer of a workbook was given: rows, or the sum and the last two rows, with which
it is finished. -/
inductive ExcelWrite
  | rows (list : List PurchaseOrderVO)
  | sum (sum : PurchaseOrderSumVO)
  deriving DecidableEq, Repr

structure ExcelWriterHolder where
  writes : List ExcelWrite := []
  sum : PurchaseOrderSumVO := {}
  deriving DecidableEq, Repr

/-- The loop of `fillData`. -/
def PurchaseOrderSumVO.add (sum : PurchaseOrderSumVO) (item : PurchaseOrderVO) : PurchaseOrderSumVO :=
  { sum with
    paymentAmount := sum.paymentAmount + item.paymentAmount
    refundAmount := sum.refundAmount + item.refundAmount
    returnAmount := sum.returnAmount + item.returnAmount
    repairAmount := sum.repairAmount + item.repairAmount
    -- the item is added to itself
    compensateAmount := item.compensateAmount + item.compensateAmount }

namespace ExcelWriterHolder

variable (holder : ExcelWriterHolder)

def fillData (list : List PurchaseOrderVO) : ExcelWriterHolder :=
  if list = [] then holder
  else
    let sum := list.foldl .add holder.sum
    { writes := holder.writes ++ [.rows list], sum := { sum with count := toInt (sum.count + list.length) } }

def fillSum : ExcelWriterHolder := { holder with writes := holder.writes ++ [.sum holder.sum] }

end ExcelWriterHolder

namespace JavaList

variable {α : Type} (list : List α)

def subList (fromIndex toIndex : ℤ) : Except JavaException (List α) :=
  if fromIndex < 0 then .error ⟨"java.lang.IndexOutOfBoundsException", some s!"fromIndex = {fromIndex}"⟩
  else if list.length < toIndex then .error ⟨"java.lang.IndexOutOfBoundsException", some s!"toIndex = {toIndex}"⟩
  else if toIndex < fromIndex then
    .error ⟨"java.lang.IllegalArgumentException", some s!"fromIndex({fromIndex}) > toIndex({toIndex})"⟩
  else .ok (slice list fromIndex.toNat toIndex.toNat)

def get (index : ℤ) : Except JavaException α :=
  if index < 0 then .error ⟨"java.lang.ArrayIndexOutOfBoundsException", some s!"{index}"⟩
  else
    match list[index.toNat]? with
    | some x => .ok x
    | none => .error ⟨"java.lang.IndexOutOfBoundsException", some s!"Index: {index}, Size: {list.length}"⟩

end JavaList

/-- `BATCH_QUERY`, the size of a page. -/
def batchQuery : ℕ := 2000

/-- `Page.getPages`. -/
def getPages (total : ℕ) : ℕ := (total + batchQuery - 1) / batchQuery

/-- `Page.getStartRow` of the page with the number, counted from 1. -/
def getStartRow (pageNum : ℕ) : ℤ := toInt ((pageNum - 1) * batchQuery)

/-- `purchaseOrderService.findList`. The database refuses a negative offset. -/
def findList (orders : List PurchaseOrderVO) (startRow : ℤ) (size : ℕ) : Except JavaException (List PurchaseOrderVO) :=
  if startRow < 0 then .error ⟨"org.springframework.jdbc.BadSqlGrammarException", none⟩
  else .ok (slice orders startRow.toNat (startRow.toNat + size))

/-- `PurchaseOrderBiz` with its configuration: the orders of a workbook, an `int`, and the name of
the files. -/
structure PurchaseOrderBiz where
  excelCount : ℕ
  fileName : String
  excelCount_pos : 0 < excelCount
  excelCount_lt : excelCount < 2 ^ 31

namespace PurchaseOrderBiz

variable (biz : PurchaseOrderBiz)

/-- The names of the files for the workbooks. -/
def createTempFile (total : ℕ) : Except JavaException (List String) :=
  let pages := toInt (total / biz.excelCount + if total % biz.excelCount = 0 then 0 else 1)
  if toInt (pages + 1) < 0 then
    .error ⟨"java.lang.IllegalArgumentException", some s!"Illegal Capacity: {toInt (pages + 1)}"⟩
  else .ok ((List.range pages.toNat).map fun i => biz.fileName ++ (if 1 < pages then s!"_{i + 1}" else "") ++ ".xlsx")

def getHolders (files : List String) : List ExcelWriterHolder := files.map fun _ => {}

/-- The indices from `startIndex` to `endIndex`. -/
def indices (startIndex endIndex : ℤ) : List ℤ :=
  (List.range (endIndex + 1 - startIndex).toNat).map fun k : ℕ => startIndex + k

/-- The body of the inner loop of `writeExcel`: the part of `list` for one workbook. -/
def writeIndex (last : Bool) (list : List PurchaseOrderVO) (startIndex endIndex : ℤ)
    (holderList : List ExcelWriterHolder) (index : ℤ) : Except JavaException (List ExcelWriterHolder) := do
  let subList ← if startIndex = endIndex then pure list
    else
      JavaList.subList list (toInt (index * biz.excelCount))
        (min list.length (toInt (toInt (index + 1) * biz.excelCount)))
  let holder ← JavaList.get holderList index
  let holder := holder.fillData subList
  -- the workbook is full, or this is the last page
  let holder := if holder.sum.count = biz.excelCount ∨ last then holder.fillSum else holder
  return holderList.set index.toNat holder

/-- The body of the outer loop of `writeExcel`: the page with the number. -/
def writePage (orders : List PurchaseOrderVO) (holderList : List ExcelWriterHolder) (pageNum : ℕ) :
    Except JavaException (List ExcelWriterHolder) := do
  let list ← findList orders (getStartRow pageNum) batchQuery
  let startIndex := (getStartRow pageNum).tdiv biz.excelCount
  let endIndex := (toInt (toInt (getStartRow pageNum + list.length) - 1)).tdiv biz.excelCount
  (indices startIndex endIndex).foldlM
    (biz.writeIndex (pageNum = getPages orders.length) list startIndex endIndex) holderList

def writeExcel (orders : List PurchaseOrderVO) (holderList : List ExcelWriterHolder) :
    Except JavaException (List ExcelWriterHolder) :=
  (List.range (getPages orders.length)).foldlM (fun holderList k => biz.writePage orders holderList (k + 1)) holderList

/-- `export`, from `createTempFile` to `writeExcel`. -/
def exportExcel (orders : List PurchaseOrderVO) : Except JavaException (List ExcelWriterHolder) := do
  let files ← biz.createTempFile orders.length
  biz.writeExcel orders (getHolders files)

end PurchaseOrderBiz

end StudyTech
