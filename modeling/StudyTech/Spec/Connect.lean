import StudyTech.Lib.Action
import StudyTech.Spec.Message
import StudyTech.Spec.StringUtils

/-!
# One call of `connectServer`, with its exceptions

`connectServer` is the method of `AbstractClientService` over any implementation of the
abstract methods; `V3.mqttClientService` and `V5.mqttClientService` are the two there are. The
surroundings say how each call of the lock, of Redis and of the client ends, what is under the
client key when Redis executes `setIfAbsent`, and when the client loses its connection.
-/

namespace StudyTech

open Lib

/-- How `setIfAbsent` ends: with its reply; with `null`, as in a pipeline; or with an exception.
Redis may have executed it though there is no reply. -/
inductive SetIfAbsentEnd
  | replied
  | null (executed : Bool)
  | failed (e : JavaException) (executed : Bool)
  deriving DecidableEq, Repr

def SetIfAbsentEnd.executed : SetIfAbsentEnd → Bool
  | .replied => true
  | .null executed => executed
  | .failed _ executed => executed

/-- The calls before which the client may lose the connection that `connect` made. -/
inductive LossPoint
  | setIfAbsent
  | disconnect
  | unlock
  deriving DecidableEq, Repr

/-- What happens around the call. `connected` says whether `connectWithResult` and
`waitForCompletion`, however they end, leave the client connected; `key` is what is under the
client key at `setIfAbsent`. -/
structure Surroundings where
  tryLock : Except JavaException Bool
  get : Except JavaException (Option String)
  connect : Except JavaException Unit
  connected : Bool
  key : Option String
  setIfAbsent : SetIfAbsentEnd
  disconnect : Except JavaException Unit
  unlock : Except JavaException Unit
  lost : LossPoint → Bool

/-- The connection of the client, whether the call holds the lock, and whether its
`setIfAbsent` created the client key. -/
structure ConnectState where
  connected : Bool
  locked : Bool
  created : Bool
  deriving DecidableEq, Repr

abbrev ConnectAct (α : Type) := Action JavaException ConnectState α

/-- `new RuntimeException(e)`. -/
def wrapped (e : JavaException) : JavaException :=
  runtimeException (some (match e.message with
    | some message => e.className ++ ": " ++ message
    | none => e.className))

namespace Surroundings

variable (env : Surroundings)

/-- The connection may go before the call. -/
def lose (p : LossPoint) (s : ConnectState) : ConnectState := { s with connected := s.connected && !env.lost p }

/-- `lock.tryLock()`. -/
def lockTryLock : ConnectAct Bool := fun s =>
  (env.tryLock, { s with locked := s.locked || env.tryLock matches .ok true })

/-- `lock.unlock()`: where it throws, the lock in Redis has expired. -/
def lockUnlock : ConnectAct Unit := fun s => (env.unlock, { env.lose .unlock s with locked := false })

/-- `opsForValue().get`. -/
def redisGet : ConnectAct (Option String) := fun s => (env.get, s)

/-- `opsForValue().setIfAbsent`. -/
def redisSetIfAbsent : ConnectAct (Option Bool) := fun s =>
  (match env.setIfAbsent with
    | .replied => .ok (some env.key.isNone)
    | .null _ => .ok none
    | .failed e _ => .error e,
    { env.lose .setIfAbsent s with created := s.created || (env.key.isNone && env.setIfAbsent.executed) })

/-- `mqttClient.connectWithResult(options)` and `waitForCompletion()`. -/
def clientConnect : ConnectAct Unit := fun s => (env.connect, { s with connected := env.connected })

/-- `mqttClient.disconnect()`. -/
def clientDisconnect : ConnectAct Unit := fun s =>
  (env.disconnect, { s with connected := s.connected && env.disconnect matches .error _ })

end Surroundings

/-- `mqttClient.isConnected()`. -/
def clientIsConnected : ConnectAct Bool := fun s => (.ok s.connected, s)

/-- The abstract methods of `AbstractClientService` that act on the client. -/
structure AbstractClientService where
  connect : ConnectAct Unit
  disconnect : ConnectAct Unit
  isConnected : ConnectAct Bool

/-- `disconnect` of both versions: before it looks, the connection may be lost. -/
def disconnectUnlessConnected (env : Surroundings) : ConnectAct Unit := fun s =>
  (do
    let connected ← clientIsConnected
    if !connected then
      env.clientDisconnect) (env.lose .disconnect s)

/-- `v3.MqttClientService`. -/
def V3.mqttClientService (env : Surroundings) : AbstractClientService where
  connect := env.clientConnect
  disconnect := disconnectUnlessConnected env
  isConnected := clientIsConnected

/-- `v5.MqttClientService`. -/
def V5.mqttClientService (env : Surroundings) : AbstractClientService where
  connect := env.clientConnect
  disconnect := disconnectUnlessConnected env
  isConnected := clientIsConnected

namespace AbstractClientService

variable (service : AbstractClientService) (env : Surroundings)

/-- The `try` block of `connectServer`. -/
def register : ConnectAct Unit := do
  let value ← env.redisGet
  if isBlank value then
    service.connect
    let success ← env.redisSetIfAbsent
    if success = some false then
      service.disconnect

def connectServer : ConnectAct Unit := do
  let connected ← service.isConnected
  if connected then
    return
  let locked ← env.lockTryLock
  if locked then
    Action.tryFinally (tryCatch (service.register env) fun e => throw (wrapped e)) env.lockUnlock

end AbstractClientService

end StudyTech
