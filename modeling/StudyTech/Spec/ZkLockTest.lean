import StudyTech.Lib.JavaInt
import StudyTech.Spec.ZkCalls

/-!
# `LockTest` of ZooKeeper

Any number of tasks, each with a `ZkLock` of its own and one name: a task calls `lock`, adds one to
`sum[0]` and calls `unlock` in `finally`. `testStep` runs the tasks over `callStep`; the addition
is a read and a write, with steps of the other tasks in between.
-/

namespace StudyTech

open Lib

/-- The next step of a task; `write` has what it read. -/
inductive TaskPc
  | submitted
  | locking
  | read
  | write (value : ℤ)
  | unlocking
  | done
  deriving DecidableEq, Repr

namespace TaskPc

/-- The task is between `lock` and `unlock`. -/
def inside : TaskPc → Bool
  | .read => true
  | .write _ => true
  | _ => false

/-- The task has added one. -/
def added : TaskPc → Bool
  | .unlocking => true
  | .done => true
  | _ => false

end TaskPc

structure TestWorld (ι : Type) where
  calls : CallWorld ι ι
  task : ι → TaskPc
  sum : ℤ

def TestWorld.init (ι : Type) : TestWorld ι := ⟨.init ι ι, fun _ => .submitted, 0⟩

/-- The executor starts a task; the thread of a task makes a step in `lock` or `unlock`, or between
them; an event thread makes a step; a session expires. -/
inductive TestLabel (ι : Type)
  | start (i : ι)
  | user (i : ι) (r : Reply)
  | body (i : ι)
  | event (i : ι) (r : Reply)
  | expire (i : ι)
  deriving DecidableEq, Repr

/-- The locks of the tasks: one for each, all with one name. -/
def testFleet (ι : Type) (name : String) : ZkFleet ι ι := ⟨fun _ => name, id⟩

variable {ι : Type} [DecidableEq ι]

/-- The task goes on at `pc`, and the locks at `calls`. -/
def TestWorld.goto (w : TestWorld ι) (i : ι) (pc : TaskPc) (calls : CallWorld ι ι) : TestWorld ι := { w with
  calls := calls
  task := Function.update w.task i pc }

variable (name : String)

def testStep (w : TestWorld ι) : TestLabel ι → Option (TestWorld ι)
  | .start i =>
    match w.task i with
    | .submitted => (callStep (testFleet ι name) w.calls (.lock i)).map (w.goto i .locking)
    | _ => none
  | .user i r =>
    match w.task i with
    | .locking => (callStep (testFleet ι name) w.calls (.user i r)).map fun calls =>
      w.goto i (if calls.world.user i = .idle none then .read else .locking) calls
    | .unlocking => (callStep (testFleet ι name) w.calls (.user i r)).map fun calls =>
      w.goto i (if calls.world.user i = .idle none then .done else .unlocking) calls
    | _ => none
  | .body i =>
    match w.task i with
    | .read => some (w.goto i (.write w.sum) w.calls)
    | .write value => (callStep (testFleet ι name) w.calls (.unlock i)).map fun calls =>
      { w.goto i .unlocking calls with sum := toInt (value + 1) }
    | _ => none
  | .event i r => (callStep (testFleet ι name) w.calls (.event i r)).map fun calls => { w with calls := calls }
  | .expire i => (callStep (testFleet ι name) w.calls (.expire i)).map fun calls => { w with calls := calls }

end StudyTech
