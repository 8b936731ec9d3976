import StudyTech.Lib.Action
import StudyTech.Spec.Message

/-!
# `AbstractRocketMQListener`

The listener is parameterized by the state `σ` its callbacks act on (Redis, a
database, a clock) and by the type `P` of payloads. Everything the source leaves to a
subclass, to Spring or to the JDK is a field of the structure; the rest is translated.

`ListenerState` holds the one field the methods write (`maxReconsumeTimes`, filled on
first use) and, for the proofs only, the log of the callbacks with what each returned
or threw. A `Throwable` that is no `Exception` is not modelled.
-/

namespace StudyTech

open Lib

/-- A call of one of the fallible callbacks, and its result. -/
inductive HookCall
  | before (message : MessageExt) (result : Except JavaException Bool)
  | convert (message : MessageExt) (result : Except JavaException Unit)
  | handle (message : MessageExt) (result : Except JavaException Unit)
  | after (message : MessageExt) (result : Except JavaException Bool)
  | error (message : MessageExt) (cause : JavaException) (result : Except JavaException Unit)

/-- `MessageProcessor`. -/
structure MessageProcessor (σ : Type) where
  beforeHandle : MessageExt → MessageContext → Action JavaException σ Bool
  afterHandle : MessageExt → MessageContext → Action JavaException σ Unit

/-- Spring's `MessageConverter`; `smart` says that it is a `SmartMessageConverter`. -/
structure MessageConverter (σ P : Type) where
  smart : Bool
  fromMessage : String → String → Option MethodParameter → Action JavaException σ P

structure AbstractRocketMQListener (σ P : Type) where
  /-- `getClass().toString()` -/
  className : String
  annotation : Option RocketMQMessageListener
  messageType : JavaType
  methodParameter : Option MethodParameter
  messageContext : Option MessageContext
  customProperties : RocketMQCustomProperties
  resolveRequiredPlaceholders : String → Except JavaException String
  messageConverter : MessageConverter σ P
  errorHandler : MessageExt → JavaException → Action JavaException σ Unit
  messageProcessor : Option (MessageProcessor σ)
  decodeUtf8 : List UInt8 → String
  ofString : String → P
  handleMessage : P → Action JavaException σ Unit
  isExecuteProcessor : Bool := true
  /-- What `getMaxReconsumeTimes` returns in a subclass that overrides it. -/
  overriddenMaxReconsumeTimes : Option ℤ := none

structure ListenerState (σ : Type) where
  maxReconsumeTimes : Option ℤ
  calls : List HookCall
  world : σ

/-- A listener that was just built. -/
def ListenerState.fresh {σ : Type} (world : σ) : ListenerState σ := ⟨none, [], world⟩

/-- An action of a listener. -/
abbrev Act (σ α : Type) := Action JavaException (ListenerState σ) α

/-- Call a callback and log what came back. -/
def perform {σ α : Type} (f : Action JavaException σ α) (log : Except JavaException α → HookCall) :
    Act σ α := fun s =>
  match f s.world with
  | (r, world) => (r, { s with world, calls := s.calls ++ [log r] })

inductive ConsumeOrderlyStatus
  | success
  | suspendCurrentQueueAMoment
  deriving DecidableEq, Repr

inductive ConsumeConcurrentlyStatus
  | consumeSuccess
  | reconsumeLater
  deriving DecidableEq, Repr

structure ConsumeOrderlyContext where
  suspendCurrentQueueTimeMillis : ℤ
  deriving DecidableEq, Repr

structure ConsumeConcurrentlyContext where
  delayLevelWhenNextConsume : ℤ
  deriving DecidableEq, Repr

namespace AbstractRocketMQListener

variable {σ P : Type} (L : AbstractRocketMQListener σ P)

/-! ## Configuration -/

def initMaxReconsumeTimes : ℤ :=
  match L.annotation with
  | some annotation =>
    if annotation.maxReconsumeTimes ≠ -1 then annotation.maxReconsumeTimes
    else L.customProperties.maxReconsumeTimes
  | none => L.customProperties.maxReconsumeTimes

def getMaxReconsumeTimes : Act σ ℤ := fun s =>
  match L.overriddenMaxReconsumeTimes with
  | some n => (.ok n, s)
  | none =>
    match s.maxReconsumeTimes with
    | some n => (.ok n, s)
    | none => (.ok L.initMaxReconsumeTimes, { s with maxReconsumeTimes := some L.initMaxReconsumeTimes })

def getSuspendCurrentQueueTimeMillis : ℤ := L.customProperties.suspendCurrentQueueTimeMillis

def getDelayLevelWhenNextConsume : ℤ := L.customProperties.delayLevelWhenNextConsume

def getMessageContext : Except JavaException MessageContext :=
  match L.messageContext with
  | some context =>
    match context.messageModel with
    | some _ => .ok context
    | none => .error ⟨"java.lang.IllegalArgumentException", some "消费模式为空"⟩
  | none =>
    match L.annotation with
    | none => .error ⟨"java.lang.NullPointerException", some (L.className ++ "未发现RocketMQMessageListener注解")⟩
    | some annotation =>
      match L.resolveRequiredPlaceholders annotation.consumerGroup with
      | .error e => .error e
      | .ok group => .ok ⟨some group, some annotation.messageModel⟩

/-! ## The hooks -/

/-- The processor to run, unless there is none or the listener does without. -/
def activeProcessor : Option (MessageProcessor σ) :=
  if L.isExecuteProcessor then L.messageProcessor else none

def before (message : MessageExt) : Act σ Bool :=
  match L.activeProcessor with
  | none => pure true
  | some messageProcessor =>
    tryCatch
      (match L.getMessageContext with
        | .ok context => perform (messageProcessor.beforeHandle message context) (.before message)
        | .error e => throw e)
      fun _ => pure true

/-- The hook after a handled message; the source calls `beforeHandle` here, not `afterHandle`. -/
def after (message : MessageExt) : Act σ Unit :=
  match L.activeProcessor with
  | none => pure ()
  | some messageProcessor =>
    tryCatch
      (match L.getMessageContext with
        | .ok context => do
          let _ ← perform (messageProcessor.beforeHandle message context) (.after message)
        | .error e => throw e)
      fun _ => pure ()

def error (message : MessageExt) (e : JavaException) : Act σ Unit :=
  tryCatch (perform (L.errorHandler message e) (.error message e)) fun _ => pure ()

/-! ## Consuming -/

def doConvertMessage (message : MessageExt) : Action JavaException σ P :=
  let str := L.decodeUtf8 message.body
  if L.messageType.isStringClass then pure (L.ofString str)
  else
    tryCatch
      (match L.messageType with
        | .cls clazz => L.messageConverter.fromMessage str clazz none
        | .parameterized raw _ =>
          if L.messageConverter.smart then L.messageConverter.fromMessage str raw L.methodParameter
          else throw ⟨"java.lang.ClassCastException", none⟩
        | .typeVariable _ => throw ⟨"java.lang.ClassCastException", none⟩)
      fun _ => throw (runtimeException (some ("cannot convert message to " ++ L.messageType.toString)))

def onMessage (message : MessageExt) : Act σ Unit := do
  if ← L.before message then
    try
      let payload ← perform (L.doConvertMessage message) fun r => .convert message (r.map fun _ => ())
      perform (L.handleMessage payload) (.handle message)
      L.after message
    catch e =>
      if message.reconsumeTimes < (← L.getMaxReconsumeTimes) then
        throw (runtimeException e.message)
      else
        L.error message e

/-- The loop of both `consumeMessage`: stop with `retry` at the first message whose
`onMessage` throws. -/
def consumeLoop {R : Type} (success retry : R) : List MessageExt → Act σ R
  | [] => pure success
  | message :: msgs => fun s =>
    match L.onMessage message s with
    | (.ok _, s') => consumeLoop success retry msgs s'
    | (.error _, s') => (.ok retry, s')

def consumeMessageOrderly (msgs : List MessageExt) (context : ConsumeOrderlyContext) :
    Act σ (ConsumeOrderlyStatus × ConsumeOrderlyContext) :=
  L.consumeLoop (.success, context)
    (.suspendCurrentQueueAMoment, { context with
      suspendCurrentQueueTimeMillis := L.getSuspendCurrentQueueTimeMillis }) msgs

def consumeMessageConcurrently (msgs : List MessageExt) (context : ConsumeConcurrentlyContext) :
    Act σ (ConsumeConcurrentlyStatus × ConsumeConcurrentlyContext) :=
  L.consumeLoop (.consumeSuccess, context)
    (.reconsumeLater, { context with delayLevelWhenNextConsume := L.getDelayLevelWhenNextConsume }) msgs

end AbstractRocketMQListener

end StudyTech
