import StudyTech.Lib.Run
import StudyTech.Lib.ZooKeeper

/-!
# `ZkLock`

`zkStep` lets user threads call `lock`, `tryLock` and `unlock` of lock instances, each
with a session of its own, while the event thread of each session runs `process`. A
step is one call of ZooKeeper or one access to a field that both threads use; the
reply of a call is part of the label. A field that is never `null` where it is read
(`selfPath` and `waitPath` in `isMinPath`, `latch` in `await`) has no step for `null`.
Names that ZooKeeper refuses are not told apart, but for those with a slash, whose
parent is another directory.

`grants` is for the proofs only: the paths for which `isMinPath` returned true.
-/

namespace StudyTech

open Lib

/-- What a step got: nothing (it makes no call), a reply (`n` is the zxid a read was made
at, or the sequence number of a new node), or a `KeeperException` or an
`InterruptedException`; `executed` says that the server made the write all the same. -/
inductive Reply
  | silent
  | ok (n : ℕ)
  | fail (interrupted : Bool) (executed : Option ℕ)
  deriving DecidableEq, Repr

def lockPath : String := "/lock"

/-- `String.format("%s/%s", LOCK_PATH, child)`. -/
def childPath (child : String) : String := lockPath ++ "/" ++ child

/-- `path.substring(LOCK_PATH.length() + 1)`. -/
def childName (path : String) : String := substring path (lockPath.length + 1)

/-- The next step of `isMinPath`. -/
inductive MinPc
  | getChildren
  | indexOf (subNodes : List String)
  | latchNull (self : String)
  | countDown (self : String)
  | setWaitPath (path : String)
  | getData
  deriving DecidableEq, Repr

/-- How a step of `isMinPath` ends. -/
inductive MinResult
  | goto (m : MinPc)
  | granted (self : String)
  | refused
  | threw
  deriving DecidableEq, Repr

/-- The fields of a lock, the counts of the latches it made (`latch` is an index), and
what its event thread runs. -/
structure DistributedLock where
  latch : Option ℕ := none
  selfPath : Option String := none
  waitPath : Option String := none
  counts : List ℕ := []
  event : Option MinPc := none
  deriving DecidableEq, Repr

/-- The next step of a user thread; `locking` is true in `lock`, false in `tryLock`. -/
inductive UserPc
  | idle (result : Option Bool)
  | rootExists (locking : Bool)
  | rootCreate (locking : Bool)
  | create (locking : Bool)
  | assignSelf (locking : Bool) (path : String)
  | isMin (locking : Bool) (m : MinPc)
  | newLatch
  | awaitLatch
  | parked (latch : ℕ)
  | unlockExists
  | unlockDelete
  deriving DecidableEq, Repr

/-- The names of the locks, and the lock each thread uses. -/
structure ZkFleet (ι τ : Type) where
  name : ι → String
  inst : τ → ι

structure ZkWorld (ι τ : Type) where
  zk : ZooKeeper ι
  lock : ι → DistributedLock
  user : τ → UserPc
  grants : List String

def ZkWorld.init (ι τ : Type) : ZkWorld ι τ := ⟨.init ι, fun _ => {}, fun _ => .idle none, []⟩

inductive ZkLabel (ι τ : Type)
  | lock (t : τ)
  | tryLock (t : τ)
  | unlock (t : τ)
  | user (t : τ) (r : Reply)
  | event (i : ι) (r : Reply)
  | expire (i : ι)
  deriving DecidableEq, Repr

variable {ι τ : Type} [DecidableEq ι] [DecidableEq τ]

/-- A read of the session can be made at `z`. -/
def Readable (zk : ZooKeeper ι) (i : ι) (z : ℕ) : Prop := zk.expired i = false ∧ zk.seen i ≤ z ∧ z ≤ zk.zxid

instance (zk : ZooKeeper ι) (i : ι) (z : ℕ) : Decidable (Readable zk i z) := inferInstanceAs (Decidable (_ ∧ _))

/-- A child of `/lock` can be created with this name and number. -/
def Creatable (zk : ZooKeeper ι) (i : ι) (name : String) (seq : ℕ) : Prop :=
  zk.expired i = false ∧ zk.root.isSome ∧ '/' ∉ name.toList ∧ zk.nextSeq ≤ seq ∧ seq < 10 ^ ZNode.seqDigits

instance (zk : ZooKeeper ι) (i : ι) (name : String) (seq : ℕ) : Decidable (Creatable zk i name seq) :=
  inferInstanceAs (Decidable (_ ∧ _))

/-- A step of `isMinPath`, by either thread of instance `i`. -/
def minStep (zk : ZooKeeper ι) (i : ι) (st : DistributedLock) :
    MinPc → Reply → Option (ZooKeeper ι × DistributedLock × MinResult)
  | .getChildren, .ok z =>
    if Readable zk i z then some (zk, st, .goto (.indexOf (sortStrings (zk.children z)))) else none
  | .getChildren, .fail _ _ => some (zk, st, .threw)
  | .indexOf subNodes, .silent =>
    match st.selfPath with
    | none => none
    | some self =>
      match subNodes.idxOf? (childName self) with
      | none => some (zk, st, .refused)
      | some 0 => some (zk, st, .goto (.latchNull self))
      | some (k + 1) => subNodes[k]?.map fun prev => (zk, st, .goto (.setWaitPath (childPath prev)))
  | .latchNull self, .silent =>
    some (zk, st, if st.latch = none then .granted self else .goto (.countDown self))
  | .countDown self, .silent =>
    st.latch.map fun k => (zk, { st with counts := st.counts.modify k (· - 1) }, .granted self)
  | .setWaitPath path, .silent => some (zk, { st with waitPath := some path }, .goto .getData)
  | .getData, .ok z =>
    match st.waitPath with
    | none => none
    | some path =>
      if Readable zk i z then
        -- the read that fails with NoNode leaves no watch, and is caught
        if childName path ∈ zk.children z then some (zk.watch i (childName path), st, .refused)
        else some (zk, st, .goto .getChildren)
      else none
  | .getData, .fail interrupted _ => some (zk, st, if interrupted then .threw else .goto .getChildren)
  | _, _ => none

/-- Where `lock` or `tryLock` goes on when the inner `tryLock` returned `status`. -/
def afterTry (locking status : Bool) : UserPc :=
  if locking then (if status then .idle none else .newLatch) else .idle (some status)

namespace ZkWorld

variable (w : ZkWorld ι τ)

def goto (t : τ) (c : UserPc) : ZkWorld ι τ := { w with user := Function.update w.user t c }

def setLock (i : ι) (st : DistributedLock) : ZkWorld ι τ := { w with lock := Function.update w.lock i st }

/-- The user thread goes on after a step of `isMinPath`; an exception makes `tryLock`
return false. -/
def userMin (t : τ) (locking : Bool) : MinResult → ZkWorld ι τ
  | .goto m => w.goto t (.isMin locking m)
  | .granted self => { w.goto t (afterTry locking true) with grants := self :: w.grants }
  | .refused => w.goto t (afterTry locking false)
  | .threw => w.goto t (afterTry locking false)

/-- The event thread goes on after a step of `isMinPath`; `process` drops the result. -/
def eventMin (i : ι) (st : DistributedLock) : MinResult → ZkWorld ι τ
  | .goto m => w.setLock i { st with event := some m }
  | .granted self => { w.setLock i { st with event := none } with grants := self :: w.grants }
  | .refused => w.setLock i { st with event := none }
  | .threw => w.setLock i { st with event := none }

end ZkWorld

variable (F : ZkFleet ι τ)

def userStep (w : ZkWorld ι τ) (t : τ) (r : Reply) : Option (ZkWorld ι τ) :=
  let i := F.inst t
  let st := w.lock i
  match w.user t, r with
  -- createRootPath
  | .rootExists locking, .ok z =>
    if Readable w.zk i z then
      some (w.goto t (if w.zk.rootAt z then .create locking else .rootCreate locking))
    else none
  | .rootExists locking, .fail _ _ => some (w.goto t (afterTry locking false))
  | .rootCreate locking, .ok _ =>
    if w.zk.root = none ∧ w.zk.expired i = false then
      some { w.goto t (.create locking) with zk := w.zk.createRoot }
    else none
  | .rootCreate locking, .fail _ executed =>
    some { w.goto t (afterTry locking false) with
      zk := if executed.isSome ∧ w.zk.root = none then w.zk.createRoot else w.zk }
  -- tryLock
  | .create locking, .ok seq =>
    if Creatable w.zk i (F.name i) seq then
      some { w.goto t (.assignSelf locking (childPath (F.name i ++ paddedDecimal ZNode.seqDigits seq))) with
        zk := w.zk.create i (F.name i) seq }
    else none
  | .create locking, .fail _ none => some (w.goto t (afterTry locking false))
  | .create locking, .fail _ (some seq) =>
    if Creatable w.zk i (F.name i) seq then
      some { w.goto t (afterTry locking false) with zk := w.zk.create i (F.name i) seq }
    else none
  | .assignSelf locking path, .silent =>
    some ((w.setLock i { st with selfPath := some path }).goto t (.isMin locking .getChildren))
  | .isMin locking m, r =>
    (minStep w.zk i st m r).map fun (zk, st', result) =>
      { (w.setLock i st').userMin t locking result with zk := zk }
  -- lock
  | .newLatch, .silent =>
    some ((w.setLock i { st with latch := some st.counts.length, counts := st.counts ++ [1] }).goto t .awaitLatch)
  | .awaitLatch, .silent => st.latch.map fun k => w.goto t (.parked k)
  | .parked k, .silent => if st.counts[k]? = some 0 then some (w.goto t (.idle none)) else none
  | .parked _, .fail true _ => some (w.goto t (.idle none))
  -- unLock
  | .unlockExists, .silent => if st.selfPath = none then some (w.goto t (.idle none)) else none
  | .unlockExists, .ok z =>
    match st.selfPath with
    | none => none
    | some self =>
      if Readable w.zk i z then
        some (w.goto t (if childName self ∈ w.zk.children z then .unlockDelete else .idle none))
      else none
  | .unlockExists, .fail _ _ => some (w.goto t (.idle none))
  | .unlockDelete, .ok _ =>
    match st.selfPath with
    | none => none
    | some self =>
      if w.zk.expired i = false ∧ w.zk.hasLive (childName self) then
        some { w.goto t (.idle none) with zk := w.zk.delete (childName self) }
      else none
  | .unlockDelete, .fail _ executed =>
    some { w.goto t (.idle none) with
      zk := match executed, st.selfPath with
        | some _, some self => w.zk.delete (childName self)
        | _, _ => w.zk }
  | _, _ => none

/-- `process` compares the path of the event, then runs `isMinPath`. -/
def eventStep (w : ZkWorld ι τ) (i : ι) (r : Reply) : Option (ZkWorld ι τ) :=
  let st := w.lock i
  match st.event, r with
  | none, .silent =>
    match w.zk.events i with
    | [] => none
    | c :: _ =>
      let event := if st.waitPath = some (childPath c) then some .getChildren else none
      some { w.setLock i { st with event := event } with zk := w.zk.pop i }
  | none, _ => none
  | some m, r => (minStep w.zk i st m r).map fun (zk, st', result) => { w.eventMin i st' result with zk := zk }

def zkStep (w : ZkWorld ι τ) : ZkLabel ι τ → Option (ZkWorld ι τ)
  | .lock t => match w.user t with
    | .idle _ => some (w.goto t (.rootExists true))
    | _ => none
  | .tryLock t => match w.user t with
    | .idle _ => some (w.goto t (.rootExists false))
    | _ => none
  | .unlock t => match w.user t with
    | .idle _ => some (w.goto t .unlockExists)
    | _ => none
  | .user t r => userStep F w t r
  | .event i r => eventStep w i r
  | .expire i => some { w with zk := w.zk.expire i }

end StudyTech
