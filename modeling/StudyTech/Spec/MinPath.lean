import StudyTech.Spec.ZkLock

/-!
# `isMinPath`: one call

A call of `isMinPath` while other clients create and delete children of `/lock`, of any names.
A version of the directory is what its children are after so many changes. A read is made at a
version that is not older than what the session saw before, and a watch is left at the server
that made the read, so at the same version. `minPathStep` is `minStep` for any such directory:
the watch it leaves is part of what it returns.

`reads` is for the proofs only: the versions at which the call read the children.
-/

namespace StudyTech

open Lib

/-- A step of `isMinPath` by the thread that runs it: the lock, how the step ends, and the child
that it leaves a watch on. -/
def minPathStep (children : ℕ → List String) (st : DistributedLock) :
    MinPc → Reply → Option (DistributedLock × MinResult × Option String)
  | .getChildren, .ok z => some (st, .goto (.indexOf (sortStrings (children z))), none)
  | .getChildren, .fail _ _ => some (st, .threw, none)
  | .indexOf subNodes, .silent =>
    match st.selfPath with
    | none => none
    | some self =>
      match subNodes.idxOf? (childName self) with
      | none => some (st, .refused, none)
      | some 0 => some (st, .goto (.latchNull self), none)
      | some (k + 1) => subNodes[k]?.map fun prev => (st, .goto (.setWaitPath (childPath prev)), none)
  | .latchNull self, .silent => some (st, if st.latch = none then .granted self else .goto (.countDown self), none)
  | .countDown self, .silent =>
    st.latch.map fun k => ({ st with counts := st.counts.modify k (· - 1) }, .granted self, none)
  | .setWaitPath path, .silent => some ({ st with waitPath := some path }, .goto .getData, none)
  | .getData, .ok z =>
    match st.waitPath with
    | none => none
    | some path =>
      if childName path ∈ children z then some (st, .refused, some (childName path))
      else some (st, .goto .getChildren, none)
  | .getData, .fail interrupted _ => some (st, if interrupted then .threw else .goto .getChildren, none)
  | _, _ => none

/-- The version that a read was made at. -/
def Reply.version : Reply → Option ℕ
  | .ok z => some z
  | _ => none

/-- Where a call is. -/
inductive CallPc
  | running (m : MinPc)
  | returned (value : Bool)
  | threw
  deriving DecidableEq, Repr

def MinResult.pc : MinResult → CallPc
  | .goto m => .running m
  | .granted _ => .returned true
  | .refused => .returned false
  | .threw => .threw

/-- The versions of the directory up to `zxid`, the last one that the session saw, the lock, and
the child that a watch was left on with the version it was left at. -/
structure MinCall where
  children : ℕ → List String
  zxid : ℕ
  seen : ℕ
  lock : DistributedLock
  pc : CallPc
  armed : Option (String × ℕ)
  reads : List ℕ

/-- A call that starts where the session sees these children. -/
def MinCall.start (children : List String) (st : DistributedLock) : MinCall :=
  ⟨fun _ => children, 0, 0, st, .running .getChildren, none, []⟩

inductive MinLabel
  | create (child : String)
  | delete (child : String)
  | own (r : Reply)
  deriving DecidableEq, Repr

def MinLabel.isOwn : MinLabel → Bool
  | .own _ => true
  | _ => false

namespace MinCall

variable (s : MinCall)

/-- The children change. -/
def setChildren (cs : List String) : MinCall :=
  { s with children := Function.update s.children (s.zxid + 1) cs, zxid := s.zxid + 1 }

/-- The call goes on after a step with the reply `r` at `m`. -/
def goOn (m : MinPc) (r : Reply) (st : DistributedLock) (result : MinResult) (watch : Option String) : MinCall :=
  { s with
    seen := r.version.getD s.seen
    lock := st
    pc := result.pc
    armed := (watch.map fun c => (c, r.version.getD s.seen)).or s.armed
    reads := if m = .getChildren then s.reads ++ r.version.toList else s.reads }

end MinCall

def minCallStep (s : MinCall) : MinLabel → Option MinCall
  | .create c =>
    if c ∈ s.children s.zxid then none else some (s.setChildren (c :: s.children s.zxid))
  | .delete c =>
    if c ∈ s.children s.zxid then some (s.setChildren ((s.children s.zxid).filter (· ≠ c))) else none
  | .own r =>
    match s.pc with
    | .running m =>
      if ∀ z ∈ r.version, s.seen ≤ z ∧ z ≤ s.zxid then
        (minPathStep s.children s.lock m r).map fun (st, result, watch) => s.goOn m r st result watch
      else none
    | _ => none

end StudyTech
