import StudyTech.Lib.Run
import StudyTech.Lib.TtlStore
import StudyTech.Spec.Listener

/-!
# `RepeatConsumeProcessor`

The processor that keeps a Redis key for every message that was consumed. Its actions
run on a `RedisSite`, a clock (in milliseconds) and a store.

`protocolStep` lets any number of consumers of a group follow the `MessageProcessor`
protocol for deliveries of one message, step by step. `Attempt` and `runAttempts` are
a sequence of `onMessage` calls on a listener that has the processor installed; an
attempt fixes what the callbacks outside the listener return. `invokeAll` is any
sequence of calls of the two hooks.
-/

namespace StudyTech

open Lib

structure RedisSite where
  now : ℕ
  redis : TtlStore String String

structure RepeatConsumeProcessor where
  keyPrefix : String
  /-- in seconds -/
  cacheTime : ℤ
  deriving DecidableEq, Repr

/-- `TimeUnit.SECONDS.toMillis`, of a positive number of seconds. -/
def secondsToMillis (seconds : ℤ) : ℕ := seconds.toNat * 1000

namespace RepeatConsumeProcessor

variable (p : RepeatConsumeProcessor)

/-- `String.format("%s:%s:%s:%s", ...)`; a `null` argument prints as `null`. -/
def getKey (message : MessageExt) (context : MessageContext) : String :=
  p.keyPrefix ++ ":" ++ message.topic ++ ":" ++ context.consumerGroup.getD "null" ++ ":" ++ message.msgId

def beforeHandle (message : MessageExt) (context : MessageContext) :
    Action JavaException RedisSite Bool := fun s =>
  if context.messageModel = some .broadcasting then (.ok true, s)
  else if s.redis.hasKey s.now (p.getKey message context) then (.ok false, s)
  else (.ok true, s)

def afterHandle (message : MessageExt) (context : MessageContext) :
    Action JavaException RedisSite Unit := fun s =>
  if context.messageModel = some .broadcasting then (.ok (), s)
  else if p.cacheTime ≤ 0 then
    -- Redis refuses an expiry time that is not positive
    (.error ⟨"org.springframework.data.redis.RedisSystemException", some "Error in execution"⟩, s)
  else
    (.ok (), { s with redis := s.redis.set s.now (p.getKey message context) "1" (secondsToMillis p.cacheTime) })

def toMessageProcessor : MessageProcessor RedisSite := ⟨p.beforeHandle, p.afterHandle⟩

end RepeatConsumeProcessor

/-- `RocketMQConfig.repeatConsumeProcessor`. -/
def repeatConsumeProcessor (customProperties : RocketMQCustomProperties) : RepeatConsumeProcessor :=
  ⟨customProperties.repeatPrefix, customProperties.repeatCacheTime⟩

/-! ## The protocol -/

/-- Where a delivery is: before its hook, in its handler, dropped by the hook, failed,
handled with the hook after it still to come, or handled and recorded. -/
inductive Phase
  | waiting
  | running
  | skipped
  | failed
  | handled
  | recorded
  deriving DecidableEq, Repr

structure Protocol (D : Type) where
  site : RedisSite
  phase : D → Phase

inductive ProtocolLabel (D : Type)
  | before (d : D)
  | handle (d : D) (ok : Bool)
  | after (d : D)
  | advance (ms : ℕ)
  deriving DecidableEq, Repr

/-- One step of a delivery, or of the clock. The deliveries are `message d`, consumed
in the context `context`. -/
def protocolStep {D : Type} [DecidableEq D] (p : RepeatConsumeProcessor) (message : D → MessageExt)
    (context : MessageContext) (s : Protocol D) : ProtocolLabel D → Option (Protocol D)
  | .before d =>
    if s.phase d = .waiting then
      match p.beforeHandle (message d) context s.site with
      | (.ok true, site) => some ⟨site, Function.update s.phase d .running⟩
      | (_, site) => some ⟨site, Function.update s.phase d .skipped⟩
    else none
  | .handle d ok =>
    if s.phase d = .running then
      some { s with phase := Function.update s.phase d (if ok then .handled else .failed) }
    else none
  | .after d =>
    if s.phase d = .handled then
      some ⟨(p.afterHandle (message d) context s.site).2, Function.update s.phase d .recorded⟩
    else none
  | .advance ms => some { s with site := { s.site with now := s.site.now + ms } }

/-! ## Calls of a listener, one after another -/

/-- A call of `onMessage`: when it starts, what the converter, the handler and the
error handler return, and when the handler ends. -/
structure Attempt (P : Type) where
  message : MessageExt
  start : ℕ
  converted : Except JavaException P
  handled : Except JavaException Unit
  finish : ℕ
  recovered : Except JavaException Unit

/-- The listener `L` with the processor `p`, during an attempt. -/
def AbstractRocketMQListener.during {P : Type} (L : AbstractRocketMQListener RedisSite P)
    (p : RepeatConsumeProcessor) (a : Attempt P) : AbstractRocketMQListener RedisSite P :=
  { L with
    messageProcessor := some p.toMessageProcessor
    messageConverter := ⟨L.messageConverter.smart, fun _ _ _ s => (a.converted, s)⟩
    handleMessage := fun _ s => (a.handled, { s with now := a.finish })
    errorHandler := fun _ _ s => (a.recovered, s) }

/-- Make the calls, one after another, and return what each of them called. -/
def runAttempts {P : Type} (L : AbstractRocketMQListener RedisSite P) (p : RepeatConsumeProcessor) :
    ListenerState RedisSite → List (Attempt P) → List (List HookCall)
  | _, [] => []
  | s, a :: as =>
    let arrived := { s with world := { s.world with now := a.start } }
    let s' := ((L.during p a).onMessage a.message arrived).2
    s'.calls.drop s.calls.length :: runAttempts L p s' as

/-! ## Calls of the two hooks -/

inductive Hook
  | beforeHandle
  | afterHandle
  deriving DecidableEq, Repr

/-- A call of one of the hooks, with its time. -/
structure HookEvent where
  time : ℕ
  hook : Hook
  message : MessageExt
  context : MessageContext
  deriving DecidableEq, Repr

/-- The site after the call. -/
def RepeatConsumeProcessor.invoke (p : RepeatConsumeProcessor) (site : RedisSite) (e : HookEvent) : RedisSite :=
  match e.hook with
  | .beforeHandle => (p.beforeHandle e.message e.context { site with now := e.time }).2
  | .afterHandle => (p.afterHandle e.message e.context { site with now := e.time }).2

/-- The site after the calls, from an empty Redis on. -/
def RepeatConsumeProcessor.invokeAll (p : RepeatConsumeProcessor) (events : List HookEvent) : RedisSite :=
  events.foldl p.invoke ⟨0, .empty⟩

end StudyTech
