import Mathlib.Data.List.Basic
import Mathlib.Tactic.Common

/-!
# `DemoDataListener`

EasyExcel calls `invoke` for every row and `doAfterAllAnalysed` at the end of every sheet that is
read with the listener. What `saveData` stores is kept in order.
-/

namespace StudyTech

/-- `BATCH_COUNT`. -/
def batchCount : ℕ := 5

/-- The listener, with the lists that were saved. -/
structure DemoDataListener (α : Type) where
  list : List α := []
  saved : List (List α) := []
  deriving DecidableEq, Repr

namespace DemoDataListener

variable {α : Type}

def saveData (l : DemoDataListener α) : DemoDataListener α :=
  if l.list = [] then l else { l with saved := l.saved ++ [l.list] }

def invoke (l : DemoDataListener α) (data : α) : DemoDataListener α :=
  let l := { l with list := l.list ++ [data] }
  if batchCount ≤ l.list.length then { l.saveData with list := [] } else l

/-- The list is saved and stays as it is. -/
def doAfterAllAnalysed (l : DemoDataListener α) : DemoDataListener α := l.saveData

end DemoDataListener

/-- What EasyExcel calls. -/
inductive ReadEvent (α : Type)
  | invoke (data : α)
  | doAfterAllAnalysed

def DemoDataListener.step {α : Type} (l : DemoDataListener α) : ReadEvent α → DemoDataListener α
  | .invoke data => l.invoke data
  | .doAfterAllAnalysed => l.doAfterAllAnalysed

/-- The events of reading the sheets with their rows. -/
def eventsOf {α : Type} (sheets : List (List α)) : List (ReadEvent α) :=
  sheets.flatMap fun sheet => sheet.map .invoke ++ [.doAfterAllAnalysed]

/-- One listener reads the sheets. -/
def readSheets {α : Type} (sheets : List (List α)) : DemoDataListener α := (eventsOf sheets).foldl .step {}

end StudyTech
