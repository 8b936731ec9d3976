import Mathlib.Data.Int.Notation
import Mathlib.Logic.Function.Basic
import StudyTech.Lib.Run

/-!
# `OrderService`

`orderStep` lets any number of calls of `grabOrder` run in one JVM, each by some thread.
A step is an access to the cache, the sleep, or a call of the lock. A lock is held by one
call at a time, whichever object `getLock` returned for its name; it is an assumption of
the results about the orders. Where `lock` or `unlock` throws, the lock may be held, or
released, all the same.
-/

namespace StudyTech

open Lib

/-- `getLockName`. -/
def getLockName (orderId : ℤ) : String := "dlc:order:grab:" ++ toString orderId

/-- The next step of a call, with what `grab` returned where it has ended (`none` if it
threw); a call that is over returned or threw. -/
inductive GrabPc
  | fresh
  | lock (orderId : ℤ)
  | get (orderId : ℤ)
  | sleep (orderId : ℤ) (flag : Bool)
  | put (orderId : ℤ)
  | unlock (orderId : ℤ) (grabbed : Option Bool)
  | returned (orderId : ℤ) (grabbed : Bool)
  | threw (orderId : Option ℤ) (grabbed : Option Bool)
  deriving DecidableEq, Repr

namespace GrabPc

/-- The order of the call. -/
def orderId : GrabPc → Option ℤ
  | .fresh => none
  | .lock id => some id
  | .get id => some id
  | .sleep id _ => some id
  | .put id => some id
  | .unlock id _ => some id
  | .returned id _ => some id
  | .threw id _ => id

/-- What `grab` returned in the call. -/
def grabbed : GrabPc → Option Bool
  | .unlock _ r => r
  | .returned _ r => some r
  | .threw _ r => r
  | _ => none

/-- The call is between `lock` and `unlock`. -/
def inside : GrabPc → Bool
  | .get _ => true
  | .sleep _ _ => true
  | .put _ => true
  | .unlock _ _ => true
  | _ => false

end GrabPc

structure OrderWorld (τ : Type) where
  cache : ℤ → Option Bool
  holder : String → Option τ
  call : τ → GrabPc

def OrderWorld.init (τ : Type) (cache : ℤ → Option Bool) : OrderWorld τ := ⟨cache, fun _ => none, fun _ => .fresh⟩

/-- `grabOrder` is called, or a call goes on: its next step succeeds, or it throws, having
had its effect or not. -/
inductive OrderLabel (τ : Type)
  | grabOrder (t : τ) (orderId : Option ℤ)
  | step (t : τ)
  | throws (t : τ) (effect : Bool)
  deriving DecidableEq, Repr

namespace OrderWorld

variable {τ : Type} [DecidableEq τ] (w : OrderWorld τ)

def goto (t : τ) (c : GrabPc) : OrderWorld τ := { w with call := Function.update w.call t c }

/-- The call takes the lock of the order. -/
def acquire (t : τ) (orderId : ℤ) : OrderWorld τ :=
  { w with holder := Function.update w.holder (getLockName orderId) (some t) }

def release (orderId : ℤ) : OrderWorld τ :=
  { w with holder := Function.update w.holder (getLockName orderId) none }

/-- The call is over after `unlock`, with what `grab` returned. -/
def leave (t : τ) (orderId : ℤ) : Option Bool → OrderWorld τ
  | some r => w.goto t (.returned orderId r)
  | none => w.goto t (.threw (some orderId) none)

end OrderWorld

variable {τ : Type} [DecidableEq τ]

def orderStep (w : OrderWorld τ) : OrderLabel τ → Option (OrderWorld τ)
  | .grabOrder t orderId =>
    match w.call t, orderId with
    | .fresh, none => some (w.goto t (.threw none none))
    | .fresh, some id => some (w.goto t (.lock id))
    | _, _ => none
  | .step t =>
    match w.call t with
    | .lock id => if w.holder (getLockName id) = none then some ((w.acquire t id).goto t (.get id)) else none
    | .get id =>
      match w.cache id with
      | none => some (w.goto t (.unlock id none))
      | some flag => some (w.goto t (.sleep id flag))
    | .sleep id flag => some (w.goto t (if flag = false then .put id else .unlock id (some false)))
    | .put id => some { w.goto t (.unlock id (some true)) with cache := Function.update w.cache id (some true) }
    | .unlock id grabbed => some ((w.release id).leave t id grabbed)
    | _ => none
  | .throws t effect =>
    match w.call t with
    | .lock id =>
      if effect then
        if w.holder (getLockName id) = none then some ((w.acquire t id).goto t (.threw (some id) none)) else none
      else some (w.goto t (.threw (some id) none))
    | .sleep id _ => some (w.goto t (.unlock id none))
    | .unlock id grabbed => some ((if effect then w.release id else w).goto t (.threw (some id) grabbed))
    | _ => none

end StudyTech
