import StudyTech.Spec.Message

/-!
# `CanalClient`

`main` polls batches, prints their entries and acknowledges them. It is a function from
what the polls bring to the trace of what the client does; the trace leaves the sleep
between two polls out. The protocol buffer parser and the names of the JDBC types are
parameters.
-/

namespace StudyTech

namespace CanalEntry

inductive EntryType
  | transactionBegin
  | rowData
  | transactionEnd
  | heartbeat
  | gtidLog
  deriving DecidableEq, Repr

/-- The event types that are told apart, and the others by name. -/
inductive EventType
  | insert
  | delete
  | other (name : String)
  deriving DecidableEq, Repr

structure Column where
  name : String
  mysqlType : String
  sqlType : ℤ
  value : String
  updated : Bool
  deriving DecidableEq, Repr

structure RowData where
  beforeColumns : List Column
  afterColumns : List Column
  deriving DecidableEq, Repr

structure RowChange where
  eventType : EventType
  rowDatas : List RowData
  deriving DecidableEq, Repr

structure Header where
  schemaName : String
  tableName : String
  deriving DecidableEq, Repr

structure Entry where
  entryType : EntryType
  header : Header
  storeValue : List UInt8
  deriving DecidableEq, Repr

/-- `com.alibaba.otter.canal.protocol.Message`. -/
structure Message where
  id : ℤ
  entries : List Entry
  deriving DecidableEq, Repr

/-- The entry begins or ends a transaction. -/
def Entry.isMarker (entry : Entry) : Bool :=
  entry.entryType == .transactionBegin || entry.entryType == .transactionEnd

end CanalEntry

open CanalEntry

/-- What the client does, as far as it is seen from outside. -/
inductive CanalAction
  | connect
  | subscribe
  | rollback
  | getWithoutAck (message : Message)
  | operation (header : Header) (eventType : EventType)
  | before
  | after
  | println (line : String)
  | parseError (entry : Entry)
  | ack (batchId : ℤ)
  | disconnect
  deriving DecidableEq, Repr

/-- What a poll brings: a batch (the sleep after one without entries may be interrupted),
or an exception. -/
inductive Poll
  | batch (message : Message) (interrupted : Bool)
  | failed
  deriving DecidableEq, Repr

structure CanalClient where
  parseFrom : List UInt8 → Except JavaException RowChange
  jdbcType : ℤ → String

namespace CanalClient

variable (C : CanalClient)

/-- `String.format("%s[%s => %s]%s => %s", …)`. -/
def columnLine (column : Column) : String :=
  column.name ++ "[" ++ column.mysqlType ++ " => " ++ C.jdbcType column.sqlType ++ "]" ++ column.value ++ " => " ++
    toString column.updated

def printColumn (columns : List Column) : List CanalAction := columns.map fun column => .println (C.columnLine column)

/-- The body of the loop over the rows. -/
def printRow (eventType : EventType) (rowData : RowData) : List CanalAction :=
  match eventType with
  | .delete => C.printColumn rowData.beforeColumns
  | .insert => C.printColumn rowData.afterColumns
  | .other _ => .before :: C.printColumn rowData.beforeColumns ++ .after :: C.printColumn rowData.afterColumns

/-- What is printed for an entry that was parsed. -/
def printRowChange (entry : Entry) (rowChange : RowChange) : List CanalAction :=
  .operation entry.header rowChange.eventType :: rowChange.rowDatas.flatMap (C.printRow rowChange.eventType)

/-- `printEntry`; an entry that is not parsed ends the loop. -/
def printEntry : List Entry → List CanalAction
  | [] => []
  | entry :: entryList =>
    if entry.isMarker then printEntry entryList
    else
      match C.parseFrom entry.storeValue with
      | .error _ => [.parseError entry]
      | .ok rowChange => C.printRowChange entry rowChange ++ printEntry entryList

/-- The loop of `main`, until a poll or a sleep throws. -/
def loop : List Poll → List CanalAction
  | [] => []
  | .failed :: _ => []
  | .batch message interrupted :: polls =>
    .getWithoutAck message ::
      if message.id = -1 ∨ message.entries = [] then
        if interrupted then [] else .ack message.id :: loop polls
      else C.printEntry message.entries ++ .ack message.id :: loop polls

def main (polls : List Poll) : List CanalAction :=
  [.connect, .subscribe, .rollback] ++ C.loop polls ++ [.disconnect]

end CanalClient

end StudyTech
