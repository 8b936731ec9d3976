import StudyTech.Spec.Order
import StudyTech.Spec.RedisLock

/-!
# `OrderService` over `RedisLock`

The application of `redis.lock.custom`: `lockService` makes a `RedisLock` for each call of
`grabOrder`, and each JVM has its own `CACHE`. `grabStep` puts `grab` (`OrderService`) and the
commands of the locks (`lockStep`) together: while a call is in `lock` or `unlock` it makes the
steps of its lock. A JVM can crash with all its calls.
-/

namespace StudyTech

open Lib

/-- What each call of `grabOrder` is given, the JVM it runs in, and the uuid of its lock. -/
structure GrabFleet (τ ν : Type) where
  orderId : τ → Option ℤ
  jvm : τ → ν
  uuid : τ → String

/-- `lockService.getLock(getLockName(orderId))`: each call has a lock of its own. -/
def GrabFleet.locks {τ ν : Type} (G : GrabFleet τ ν) : Fleet τ τ :=
  ⟨fun t => RedisLock.new ((G.orderId t).map getLockName) (G.uuid t), id⟩

structure GrabWorld (τ ν : Type) where
  locks : LockWorld τ τ
  cache : ν → ℤ → Option Bool
  call : τ → GrabPc

def GrabWorld.init (τ ν : Type) (now : ℕ) (redis : TtlStore String String) (cache : ν → ℤ → Option Bool) :
    GrabWorld τ ν := ⟨.init τ τ now redis, cache, fun _ => .fresh⟩

/-- `grabOrder` is called; the lock of a call makes a step; `grab` makes one, or its sleep is
interrupted; a renewal task makes a step; a JVM crashes; time goes on. -/
inductive GrabLabel (τ ν : Type)
  | grabOrder (t : τ)
  | lock (t : τ) (l : ThreadLabel)
  | grab (t : τ)
  | interrupt (t : τ)
  | task (k : ℕ) (l : TaskLabel)
  | crash (j : ν)
  | advance (ms : ℕ)
  deriving DecidableEq, Repr

/-- Where a call goes on when `unlock` returned. -/
def GrabPc.afterUnlock (orderId : ℤ) : Option Bool → GrabPc
  | some r => .returned orderId r
  | none => .threw (some orderId) none

/-- Where a call goes on when the method of its lock returned. -/
def GrabPc.afterLock : GrabPc → GrabPc
  | .lock id => .get id
  | .unlock id grabbed => .afterUnlock id grabbed
  | c => c

/-- The thread is in no call of its lock. -/
def Call.isIdle : Call → Bool
  | .idle _ => true
  | _ => false

namespace GrabWorld

variable {τ ν : Type} [DecidableEq τ] (w : GrabWorld τ ν)

def goto (t : τ) (c : GrabPc) : GrabWorld τ ν := { w with call := Function.update w.call t c }

/-- The lock of the call made a step, after which its locks are `s`. -/
def afterLock (t : τ) (s : LockWorld τ τ) : GrabWorld τ ν :=
  { w with
    locks := s
    call := Function.update w.call t (if (s.call t).isIdle then (w.call t).afterLock else w.call t) }

/-- The call starts a method of its lock. -/
def enter (t : τ) (method : Call) (c : GrabPc) : GrabWorld τ ν := { w with
  locks := w.locks.goto t method
  call := Function.update w.call t c }

end GrabWorld

variable {τ ν : Type} [DecidableEq τ] [DecidableEq ν] (G : GrabFleet τ ν)

/-- A step of `grab`. -/
def grabBody (w : GrabWorld τ ν) (t : τ) : Option (GrabWorld τ ν) :=
  match w.call t with
  | .get id =>
    match w.cache (G.jvm t) id with
    | none => some (w.enter t .unlock (.unlock id none))
    | some flag => some (w.goto t (.sleep id flag))
  | .sleep id flag => some (if flag = false then w.goto t (.put id) else w.enter t .unlock (.unlock id (some false)))
  | .put id => some { w.enter t .unlock (.unlock id (some true)) with
      cache := Function.update w.cache (G.jvm t) (Function.update (w.cache (G.jvm t)) id (some true)) }
  | _ => none

def grabStep (w : GrabWorld τ ν) : GrabLabel τ ν → Option (GrabWorld τ ν)
  | .grabOrder t =>
    if w.locks.alive t then
      match w.call t, G.orderId t with
      | .fresh, none => some (w.goto t (.threw none none))
      | .fresh, some id => some (w.enter t .lock (.lock id))
      | _, _ => none
    else none
  | .lock t l =>
    match w.call t with
    | .lock _ => (lockStep G.locks w.locks (.thread t l)).map (w.afterLock t)
    | .unlock _ _ => (lockStep G.locks w.locks (.thread t l)).map (w.afterLock t)
    | _ => none
  | .grab t => if w.locks.alive t then grabBody G w t else none
  | .interrupt t =>
    if w.locks.alive t then
      match w.call t with
      | .sleep id _ => some (w.enter t .unlock (.unlock id none))
      | _ => none
    else none
  | .task k l => (lockStep G.locks w.locks (.task k l)).map fun s => { w with locks := s }
  | .crash j => some { w with locks := { w.locks with alive := fun t => w.locks.alive t && decide (G.jvm t ≠ j) } }
  | .advance ms => (lockStep G.locks w.locks (.advance ms)).map fun s => { w with locks := s }

end StudyTech
