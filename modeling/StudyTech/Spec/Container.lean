import StudyTech.Lib.Run
import StudyTech.Spec.Listener

/-!
# The container of a listener, and redelivery

`RocketMQContainerPostProcessor` sets the consumer of a container up from its
listener. The rest of this file is RocketMQ's side: `redeliver` drives one message,
alone in its batches, until it is consumed or dead-lettered; `brokerStep` delivers
any batch of the pending messages. A delivery that is not a success puts the messages
of its batch back with `reconsumeTimes` raised by one.
-/

namespace StudyTech

open Lib

/-- `DefaultMQPushConsumer`. -/
structure DefaultMQPushConsumer where
  maxReconsumeTimes : ℤ := -1
  deriving DecidableEq, Repr

/-- `DefaultRocketMQListenerContainer`; a listener of another class is `none`. -/
structure DefaultRocketMQListenerContainer (σ P : Type) where
  rocketMQListener : Option (AbstractRocketMQListener σ P)
  consumer : Option DefaultMQPushConsumer
  suspendCurrentQueueTimeMillis : ℤ := 1000
  delayLevelWhenNextConsume : ℤ := 0

/-- A Spring bean, as far as the post-processor tells them apart. -/
inductive Bean (σ P : Type)
  | container (c : DefaultRocketMQListenerContainer σ P)
  | other

structure RocketMQContainerPostProcessor where
  customProperties : RocketMQCustomProperties

namespace RocketMQContainerPostProcessor

variable {σ P : Type} (p : RocketMQContainerPostProcessor)

def checkAndSet (consumer : Option DefaultMQPushConsumer) (maxReconsumeTimes : ℤ) :
    Option DefaultMQPushConsumer :=
  match consumer with
  | none => none
  | some consumer =>
    if consumer.maxReconsumeTimes ≠ -1 then some consumer else some { maxReconsumeTimes }

def postProcessAfterInitialization : Bean σ P → Act σ (Bean σ P)
  | .other => pure .other
  | .container container =>
    match container.rocketMQListener with
    | some listener => do
      let maxReconsumeTimes ← listener.getMaxReconsumeTimes
      pure (.container { container with
        suspendCurrentQueueTimeMillis := listener.getSuspendCurrentQueueTimeMillis
        delayLevelWhenNextConsume := listener.getDelayLevelWhenNextConsume
        consumer := checkAndSet container.consumer maxReconsumeTimes })
    | none =>
      pure (.container { container with
        suspendCurrentQueueTimeMillis := p.customProperties.suspendCurrentQueueTimeMillis
        delayLevelWhenNextConsume := p.customProperties.delayLevelWhenNextConsume
        consumer := checkAndSet container.consumer p.customProperties.maxReconsumeTimes })

end RocketMQContainerPostProcessor

/-! ## Deliveries -/

/-- Who calls the listener: one of its own `consumeMessage`, or the container's adapter,
which runs the same loop around `onMessage`. -/
inductive ConsumeMode
  | orderly
  | concurrently
  | container
  deriving DecidableEq, Repr

/-- Deliver a batch: is it reported as a success? -/
def AbstractRocketMQListener.consume {σ P : Type} (L : AbstractRocketMQListener σ P)
    (mode : ConsumeMode) (msgs : List MessageExt) (s : ListenerState σ) : Bool × ListenerState σ :=
  match mode with
  | .orderly =>
    match L.consumeMessageOrderly msgs ⟨-1⟩ s with
    | (.ok (.success, _), s') => (true, s')
    | (_, s') => (false, s')
  | .concurrently =>
    match L.consumeMessageConcurrently msgs ⟨0⟩ s with
    | (.ok (.consumeSuccess, _), s') => (true, s')
    | (_, s') => (false, s')
  | .container =>
    match L.consumeLoop true false msgs s with
    | (.ok success, s') => (success, s')
    | (.error _, s') => (false, s')

/-- What a delivery was: its batch, the calls it made and its verdict. -/
structure Delivery where
  batch : List MessageExt
  calls : List HookCall
  success : Bool

/-- The message as RocketMQ delivers it again. -/
def MessageExt.again (m : MessageExt) : MessageExt :=
  { m with reconsumeTimes := m.reconsumeTimes + 1 }

inductive Fate
  | inFlight
  | consumed
  | deadLettered
  deriving DecidableEq, Repr

/-- A message on its way, with the deliveries it had. -/
structure Shipment (σ : Type) where
  message : MessageExt
  fate : Fate
  deliveries : List Delivery
  listener : ListenerState σ

/-- The next delivery of a message that comes alone, to a consumer that gives up after
`maxReconsumeTimes` redeliveries. -/
def redeliver {σ P : Type} (L : AbstractRocketMQListener σ P) (mode : ConsumeMode)
    (maxReconsumeTimes : ℤ) (sh : Shipment σ) : Shipment σ :=
  match sh.fate with
  | .inFlight =>
    match L.consume mode [sh.message] sh.listener with
    | (success, s') =>
      let deliveries := sh.deliveries ++
        [⟨[sh.message], s'.calls.drop sh.listener.calls.length, success⟩]
      if success then { sh with fate := .consumed, deliveries, listener := s' }
      else if maxReconsumeTimes ≤ sh.message.reconsumeTimes then
        { sh with fate := .deadLettered, deliveries, listener := s' }
      else { sh with message := sh.message.again, deliveries, listener := s' }
  | _ => sh

/-- The messages a broker still has to deliver to a listener, and what it delivered. -/
structure Broker (σ : Type) where
  pending : List MessageExt
  log : List Delivery
  listener : ListenerState σ

/-- A batch taken from the pending messages, which leaves `rest`. -/
structure Batch where
  mode : ConsumeMode
  batch : List MessageExt
  rest : List MessageExt

/-- Deliver a batch. -/
def brokerStep {σ P : Type} (L : AbstractRocketMQListener σ P) (b : Broker σ) (l : Batch) :
    Option (Broker σ) :=
  if b.pending.isPerm (l.batch ++ l.rest) then
    match L.consume l.mode l.batch b.listener with
    | (success, s') => some
      { pending := if success then l.rest else l.batch.map MessageExt.again ++ l.rest
        log := b.log ++ [⟨l.batch, s'.calls.drop b.listener.calls.length, success⟩]
        listener := s' }
  else none

end StudyTech
