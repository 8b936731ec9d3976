import StudyTech.Spec.Container

/-!
# One queue, consumed in order

RocketMQ takes the next messages of a queue, as many as the batch size admits, and has the listener's
orderly `consumeMessage` consume them. After a success the queue goes on behind them. Else those that have come as
often as the consumer's maximum admits are sent back to the broker, which has them as dead letters, and the others
are counted once more. If there are others, the queue is suspended, and starts again at the first message of the
batch; if all were sent back, it goes on.
-/

namespace StudyTech

structure OrderlyQueue (σ : Type) where
  waiting : List MessageExt
  committed : List MessageExt
  deadLetters : List MessageExt
  listener : ListenerState σ

/-- A delivery of the next messages, and which of them can be sent back. -/
structure QueueDelivery where
  size : ℕ
  sendMessageBack : MessageExt → Bool

/-- The maximum of orderly consumption for that of the consumer. -/
def orderlyMaximum (maxReconsumeTimes : ℤ) : ℤ := if maxReconsumeTimes = -1 then 2147483647 else maxReconsumeTimes

/-- After a delivery that was no success the message becomes a dead letter. -/
def QueueDelivery.givesUp (d : QueueDelivery) (maximum : ℤ) (m : MessageExt) : Bool :=
  decide (maximum ≤ m.reconsumeTimes) && d.sendMessageBack m

/-- The message as it waits after a delivery that was no success. -/
def QueueDelivery.counted (d : QueueDelivery) (maximum : ℤ) (m : MessageExt) : MessageExt :=
  if d.givesUp maximum m then m else m.again

/-- Deliver the next messages to a consumer with this maximum. -/
def queueStep {σ P : Type} (L : AbstractRocketMQListener σ P) (maxReconsumeTimes : ℤ) (q : OrderlyQueue σ)
    (d : QueueDelivery) : Option (OrderlyQueue σ) :=
  if 0 < d.size ∧ d.size ≤ q.waiting.length then
    let batch := q.waiting.take d.size
    let rest := q.waiting.drop d.size
    let maximum := orderlyMaximum maxReconsumeTimes
    match L.consume .orderly batch q.listener with
    | (true, s') => some { q with waiting := rest, committed := q.committed ++ batch, listener := s' }
    | (false, s') =>
      let deadLetters := q.deadLetters ++ batch.filter (d.givesUp maximum)
      if batch.all (d.givesUp maximum) then some ⟨rest, q.committed ++ batch, deadLetters, s'⟩
      else some ⟨batch.map (d.counted maximum) ++ rest, q.committed, deadLetters, s'⟩
  else none

/-- The queue before the first delivery. -/
def OrderlyQueue.start {σ : Type} (msgs : List MessageExt) (world : σ) : OrderlyQueue σ := ⟨msgs, [], [], .fresh world⟩

end StudyTech
