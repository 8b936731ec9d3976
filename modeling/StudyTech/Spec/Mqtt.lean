import Mathlib.Data.Nat.Notation
import Mathlib.Logic.Function.Basic
import StudyTech.Lib.Run
import StudyTech.Spec.StringUtils

/-!
# `AbstractClientService` and `MqttClientService`

`mqttStep` runs any number of instances with one client id on one Redis. `connectServer`
makes a step for each call of Redis, of the lock or of the client, and every such call may
fail, whether or not it was executed; the client loses its connection at any time; callbacks
are delivered late and in any order. The lock excludes: it is not lost under a call that has
it. The key does not expire while the instance that set it is connected and renews it. A call
takes effect before it ends, and the client does not reconnect by itself.

The value of the key is the client id, the same for all instances; the model has the
instance that set it, which no step reads.
-/

namespace StudyTech

open Lib

/-- The next step of `connectServer`. -/
inductive ConnectPc
  | idle
  | tryLock
  | get
  | connect
  | setIfAbsent
  | disconnect
  | unlock
  deriving DecidableEq, Repr

/-- How a call of Redis, of the lock or of the client ends: it returns, or it fails, that is it
throws. A `setIfAbsent` that returns `null` goes on as one that throws. -/
inductive CallEnd
  | returns
  | fails (executed : Bool)
  deriving DecidableEq, Repr

def CallEnd.executed : CallEnd → Bool
  | .returns => true
  | .fails executed => executed

/-- One instance: whether its client is connected, the executors that `renew` made (true
while they run; the last one is the field), and the callbacks under way: `connectComplete`
and `disconnected` to be delivered, and `disconnected` between its two steps. -/
structure MqttClientService where
  connected : Bool := false
  pc : ConnectPc := .idle
  executors : List Bool := []
  completes : ℕ := 0
  losts : ℕ := 0
  shutdowns : ℕ := 0
  deriving DecidableEq, Repr

/-- A renewal task of the instance runs. -/
def MqttClientService.renewing (m : MqttClientService) : Bool := m.executors.any id

/-- `scheduledExecutorService.shutdown()`, unless it is `null`. -/
def shutdownLast (executors : List Bool) : List Bool := executors.modify (executors.length - 1) fun _ => false

structure MqttWorld (ι : Type) where
  key : Option ι
  holder : Option ι
  service : ι → MqttClientService

def MqttWorld.init (ι : Type) : MqttWorld ι := ⟨none, none, fun _ => {}⟩

/-- `connectServer` is called, or goes on; the connection is lost; a callback or a renewal
runs; the key expires, or the lock of an instance that is not in the locked part. -/
inductive MqttLabel (ι : Type)
  | connectServer (i : ι)
  | step (i : ι) (ending : CallEnd)
  | lose (i : ι)
  | connectComplete (i : ι)
  | delete (i : ι) (ending : CallEnd)
  | shutdown (i : ι)
  | renew (i : ι)
  | renewThrows (i : ι) (k : ℕ)
  | expire
  | lockExpire
  deriving DecidableEq, Repr

/-- The call has the lock. -/
def ConnectPc.locked : ConnectPc → Bool
  | .idle => false
  | .tryLock => false
  | _ => true

variable {ι : Type} [DecidableEq ι]

namespace MqttWorld

variable (w : MqttWorld ι)

def setService (i : ι) (m : MqttClientService) : MqttWorld ι := { w with service := Function.update w.service i m }

/-- `connectServer` goes on. -/
def goto (i : ι) (pc : ConnectPc) : MqttWorld ι := w.setService i { w.service i with pc := pc }

/-- `lock.tryLock()`: the instance may have the lock already, from a call that failed. -/
def tryLockStep (i : ι) (ending : CallEnd) : MqttWorld ι :=
  if ending.executed ∧ (w.holder = none ∨ w.holder = some i) then
    { w.goto i (if ending = .returns then .get else .idle) with holder := some i }
  else
    w.goto i .idle

/-- `opsForValue().get`, and the test of what it returned. -/
def getStep (clientId : String) (i : ι) (ending : CallEnd) : MqttWorld ι :=
  w.goto i (if ending = .returns ∧ isBlank (w.key.map fun _ => clientId) then .connect else .unlock)

/-- `connect`: where it throws, the client may be connected all the same. -/
def connectStep (i : ι) (ending : CallEnd) : MqttWorld ι :=
  let m := w.service i
  let pc := if ending = .returns then .setIfAbsent else .unlock
  if ending.executed then
    w.setService i { m with pc := pc, connected := true, completes := m.completes + 1 }
  else
    w.goto i pc

/-- `opsForValue().setIfAbsent`, and the test of what it returned. -/
def setIfAbsentStep (i : ι) (ending : CallEnd) : MqttWorld ι :=
  if w.key = none then
    { w.goto i .unlock with key := if ending.executed then some i else none }
  else
    w.goto i (if ending = .returns then .disconnect else .unlock)

/-- `lock.unlock()`. -/
def unlockStep (i : ι) (ending : CallEnd) : MqttWorld ι :=
  { w.goto i .idle with holder := if ending.executed then none else w.holder }

/-- The next call of `connectServer`. Where one throws, the `finally` block comes next. -/
def serverStep (clientId : String) (i : ι) (ending : CallEnd) : Option (MqttWorld ι) :=
  match (w.service i).pc with
  | .idle => none
  | .tryLock => some (w.tryLockStep i ending)
  | .get => some (w.getStep clientId i ending)
  | .connect => some (w.connectStep i ending)
  | .setIfAbsent => some (w.setIfAbsentStep i ending)
  -- `disconnect` of the client is called where it is not connected; what it throws goes to `finally`
  | .disconnect => some (w.goto i .unlock)
  | .unlock => some (w.unlockStep i ending)

end MqttWorld

def mqttStep (clientId : String) (w : MqttWorld ι) : MqttLabel ι → Option (MqttWorld ι)
  | .connectServer i =>
    if (w.service i).pc = .idle then some (if (w.service i).connected then w else w.goto i .tryLock) else none
  | .step i ending => w.serverStep clientId i ending
  | .lose i =>
    let m := w.service i
    if m.connected then some (w.setService i { m with connected := false, losts := m.losts + 1 }) else none
  | .connectComplete i =>
    let m := w.service i
    if 0 < m.completes then
      some (w.setService i { m with completes := m.completes - 1, executors := m.executors ++ [true] })
    else none
  -- the two steps of `disconnected`; where `delete` throws, the second does not follow
  | .delete i ending =>
    let m := w.service i
    if 0 < m.losts then
      let shutdowns := m.shutdowns + if ending = .returns then 1 else 0
      some { w.setService i { m with losts := m.losts - 1, shutdowns := shutdowns } with
        key := if ending.executed then none else w.key }
    else none
  | .shutdown i =>
    let m := w.service i
    if 0 < m.shutdowns then
      some (w.setService i { m with shutdowns := m.shutdowns - 1, executors := shutdownLast m.executors })
    else none
  -- a renewal only puts off the expiry of the key, whoever set it; an executor whose task threw stops
  | .renew i => if (w.service i).renewing then some w else none
  | .renewThrows i k =>
    let m := w.service i
    if m.connected ∧ m.executors[k]? = some true then
      some (w.setService i { m with executors := m.executors.set k false })
    else none
  | .expire =>
    match w.key with
    | none => none
    | some i => if (w.service i).connected ∧ (w.service i).renewing then none else some { w with key := none }
  | .lockExpire =>
    match w.holder with
    | none => none
    | some i => if (w.service i).pc.locked then none else some { w with holder := none }

end StudyTech
