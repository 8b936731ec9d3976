import Mathlib.Algebra.Ring.Int.Defs
import Mathlib.Logic.Function.Basic
import StudyTech.Lib.Run
import StudyTech.Lib.TtlStore
import StudyTech.Spec.StringUtils

/-!
# `RedisLock`

A lock is a Redis key that holds the uuid of the instance that took it. `lockStep`
lets any number of threads call the methods of any number of instances, with the
renewal tasks of the instances and crashes in between; each Redis command is a step of
its own. The clock of Redis and of the sleeps counts milliseconds; a reading of
`System.nanoTime` is part of the step that takes it. Redis commands do not fail.

`holds` and `renewed` are for the proofs only: whether a thread is between a
successful `tryLock` and the end of its `unlock`, and when an instance last set an
expiry time.
-/

namespace StudyTech

open Lib

/-- `java.util.concurrent.TimeUnit`. -/
inductive TimeUnit
  | nanoseconds
  | microseconds
  | milliseconds
  | seconds
  | minutes
  | hours
  | days
  deriving DecidableEq, Repr

def TimeUnit.nanos : TimeUnit → ℤ
  | .nanoseconds => 1
  | .microseconds => 1000
  | .milliseconds => 1000000
  | .seconds => 1000000000
  | .minutes => 60000000000
  | .hours => 3600000000000
  | .days => 86400000000000

/-- `TimeUnit.toNanos`: out of range values become the nearest `long`. -/
def TimeUnit.toNanos (unit : TimeUnit) (time : ℤ) : ℤ :=
  max (-2 ^ 63) (min (2 ^ 63 - 1) (time * unit.nanos))

/-- The value of a sum of `long`s. -/
def toLong (x : ℤ) : ℤ := (x + 2 ^ 63) % 2 ^ 64 - 2 ^ 63

structure RedisLock where
  name : String
  uuid : String
  deriving DecidableEq, Repr

namespace RedisLock

/-- in seconds -/
def defTime : ℕ := 10

/-- The constructor, given the uuid that was drawn. -/
def new (name : Option String) (uuid : String) : RedisLock := ⟨defaultIfBlank name uuid, uuid⟩

/-- What `setIfAbsent` and `expire` pass as a time to live, in milliseconds. -/
def ttl : ℕ := defTime * 1000

/-- What `renew` sleeps, in milliseconds. -/
def renewSleep : ℕ := defTime / 3 * 1000

end RedisLock

/-- Where a thread is: in no call (with what the last one returned, if it returned
something), or before the next command of one. -/
inductive Call
  | idle (result : Option Bool)
  | lock
  | lockSleep (wake : ℕ)
  | tryLock
  | timed (deadline : ℤ)
  | timedCheck (deadline : ℤ)
  | unlock
  | unlockDelete
  deriving DecidableEq, Repr

/-- Where a renewal task is; `v` is what it read. -/
inductive Renew
  | start
  | sleeping (v : Option String) (wake : ℕ)
  | expiring (v : Option String)
  | finished
  deriving DecidableEq, Repr

structure RenewTask (ι : Type) where
  owner : ι
  pc : Renew
  deriving DecidableEq, Repr

/-- The lock instances, and the instance each thread uses. -/
structure Fleet (ι τ : Type) where
  lock : ι → RedisLock
  inst : τ → ι

structure LockWorld (ι τ : Type) where
  now : ℕ
  redis : TtlStore String String
  alive : ι → Bool
  call : τ → Call
  tasks : List (RenewTask ι)
  holds : τ → Bool
  renewed : ι → ℕ

/-- No instance was used yet. -/
def LockWorld.init (ι τ : Type) (now : ℕ) (redis : TtlStore String String) : LockWorld ι τ where
  now := now
  redis := redis
  alive := fun _ => true
  call := fun _ => .idle none
  tasks := []
  holds := fun _ => false
  renewed := fun _ => 0

/-- A thread starts a call, or takes the next step of the one it is in. -/
inductive ThreadLabel
  | lock
  | tryLock
  | timedTryLock (time : ℤ) (unit : TimeUnit) (nanoTime : ℤ)
  | unlock
  | setIfAbsent
  | wake (interrupted : Bool)
  | check (nanoTime : ℤ)
  | get
  | delete
  deriving DecidableEq, Repr

inductive TaskLabel
  | get
  | wake
  | expire
  deriving DecidableEq, Repr

/-- A step of a thread, of the `k`-th renewal task, a crash of an instance, or time. -/
inductive LockLabel (ι τ : Type)
  | thread (t : τ) (l : ThreadLabel)
  | task (k : ℕ) (l : TaskLabel)
  | crash (i : ι)
  | advance (ms : ℕ)
  deriving DecidableEq, Repr

/-- Where an attempt that returned `status` leaves the call it belongs to; `none` where
the call makes none. -/
def Call.afterAttempt (now : ℕ) (status : Bool) : Call → Option Call
  | .lock => some (if status then .idle none else .lockSleep (now + 100))
  | .tryLock => some (.idle (some status))
  | .timed deadline => some (if status then .idle (some true) else .timedCheck deadline)
  | _ => none

variable {ι τ : Type} [DecidableEq ι] [DecidableEq τ]

namespace LockWorld

variable (s : LockWorld ι τ)

/-- The thread goes on at `c`. -/
def goto (t : τ) (c : Call) : LockWorld ι τ := { s with call := Function.update s.call t c }

/-- The thread of instance `i` stored the uuid and goes on at `c`; `renew` submits a task. -/
def acquire (lock : RedisLock) (i : ι) (t : τ) (c : Call) : LockWorld ι τ :=
  { s with
    redis := s.redis.set s.now lock.name lock.uuid RedisLock.ttl
    call := Function.update s.call t c
    tasks := s.tasks ++ [⟨i, .start⟩]
    holds := Function.update s.holds t true
    renewed := Function.update s.renewed i s.now }

/-- The thread's `unlock` ends, leaving the store as `redis`. -/
def release (t : τ) (redis : TtlStore String String) : LockWorld ι τ :=
  { s with
    redis := redis
    call := Function.update s.call t (.idle none)
    holds := Function.update s.holds t false }

/-- The `k`-th task goes on at `pc`. -/
def gotoTask (k : ℕ) (i : ι) (pc : Renew) : LockWorld ι τ := { s with tasks := s.tasks.set k ⟨i, pc⟩ }

end LockWorld

/-- The head of the loop of `renew`: the value it tests is the one read before the loop. -/
def renewLoop (lock : RedisLock) (now : ℕ) (v : Option String) : Renew :=
  if v = some lock.uuid then .sleeping v (now + RedisLock.renewSleep) else .finished

variable (F : Fleet ι τ)

def threadStep (s : LockWorld ι τ) (t : τ) (l : ThreadLabel) : Option (LockWorld ι τ) :=
  let lock := F.lock (F.inst t)
  match l, s.call t with
  | .lock, .idle _ => some (s.goto t .lock)
  | .tryLock, .idle _ => some (s.goto t .tryLock)
  | .timedTryLock time unit nanoTime, .idle _ =>
    some (s.goto t (.timed (toLong (nanoTime + unit.toNanos time))))
  | .unlock, .idle _ => some (s.goto t .unlock)
  | .setIfAbsent, c =>
    let status := (s.redis.setIfAbsent s.now lock.name lock.uuid RedisLock.ttl).1
    (c.afterAttempt s.now status).map fun c' =>
      if status then s.acquire lock (F.inst t) t c' else s.goto t c'
  | .wake interrupted, .lockSleep wake =>
    if interrupted ∨ wake ≤ s.now then some (s.goto t .lock) else none
  | .check nanoTime, .timedCheck deadline =>
    some (s.goto t (if nanoTime ≤ deadline then .timed deadline else .idle (some false)))
  | .get, .unlock =>
    some (if s.redis.get s.now lock.name = some lock.uuid then s.goto t .unlockDelete
      else s.release t s.redis)
  | .delete, .unlockDelete => some (s.release t (s.redis.delete lock.name))
  | _, _ => none

def taskStep (s : LockWorld ι τ) (k : ℕ) (task : RenewTask ι) (l : TaskLabel) : Option (LockWorld ι τ) :=
  let lock := F.lock task.owner
  match l, task.pc with
  | .get, .start => some (s.gotoTask k task.owner (renewLoop lock s.now (s.redis.get s.now lock.name)))
  | .wake, .sleeping v wake => if wake ≤ s.now then some (s.gotoTask k task.owner (.expiring v)) else none
  | .expire, .expiring v =>
    some { s.gotoTask k task.owner (renewLoop lock s.now v) with
      redis := s.redis.expire s.now lock.name RedisLock.ttl
      renewed := Function.update s.renewed task.owner s.now }
  | _, _ => none

/-- One step; the threads and tasks of a crashed instance take none. -/
def lockStep (s : LockWorld ι τ) : LockLabel ι τ → Option (LockWorld ι τ)
  | .thread t l => if s.alive (F.inst t) then threadStep F s t l else none
  | .task k l =>
    match s.tasks[k]? with
    | some task => if s.alive task.owner then taskStep F s k task l else none
    | none => none
  | .crash i => some { s with alive := Function.update s.alive i false }
  | .advance ms => some { s with now := s.now + ms }

end StudyTech
