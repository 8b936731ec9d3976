import Mathlib.Algebra.BigOperators.Group.List.Basic
import Mathlib.Algebra.Order.BigOperators.Group.List
import Mathlib.Algebra.Order.Ring.Nat
import StudyTech.Lib.Run
import StudyTech.Proof.Acknowledge
import StudyTech.Proof.Retry
import StudyTech.Spec.OrderlyQueue

/-!
# Messages of a queue are settled one after the other

Whatever the batch sizes and whatever fails, no callback is called for a message before every message
before it in the queue has been settled (`orderly_queue`): redeliveries repeat messages, but they overtake
none. Each delivery settles the first message or uses up some of the budget, so the queue is through after
as many deliveries as there are left of both. The maximum of the consumer is not below that of the listener
(`postProcess_maximum`), so no message becomes a dead letter instead of being settled: one that does is in the
batch of another that comes again, and comes again with it.
-/

namespace StudyTech

open Lib

/-- The message `id` was settled in one of the calls. -/
def SettledIn (id : String) (calls : List HookCall) : Prop := ∃ m, m.msgId = id ∧ Settled m calls

/-- Every call comes after all messages before its own in the queue were settled. -/
def InOrder (ids : List String) (calls : List HookCall) : Prop :=
  ∀ pre c post, calls = pre ++ c :: post → ∀ front rest, ids = front ++ c.message.msgId :: rest →
    ∀ earlier ∈ front, SettledIn earlier pre

/-- The deliveries that a message may still need. -/
def deliveriesLeft (N : ℤ) (m : MessageExt) : ℕ := 1 + (N - m.reconsumeTimes).toNat

theorem settled_append_left {m : MessageExt} {calls calls' : List HookCall} (h : Settled m calls) :
    Settled m (calls ++ calls') := by
  rcases h with h | h | ⟨e, r, h⟩
  · exact .inl (List.mem_append_left _ h)
  · exact .inr (.inl (List.mem_append_left _ h))
  · exact .inr (.inr ⟨e, r, List.mem_append_left _ h⟩)

theorem settled_append_right {m : MessageExt} {calls calls' : List HookCall} (h : Settled m calls') :
    Settled m (calls ++ calls') := by
  rcases h with h | h | ⟨e, r, h⟩
  · exact .inl (List.mem_append_right _ h)
  · exact .inr (.inl (List.mem_append_right _ h))
  · exact .inr (.inr ⟨e, r, List.mem_append_right _ h⟩)

theorem SettledIn.append {id : String} {calls : List HookCall} (calls' : List HookCall) (h : SettledIn id calls) :
    SettledIn id (calls ++ calls') := by
  obtain ⟨m, hid, hm⟩ := h
  exact ⟨m, hid, settled_append_left hm⟩

/-- Calls about a message all of whose predecessors are settled. -/
theorem InOrder.append {ids : List String} {calls seg : List HookCall} {m : MessageExt} (h : InOrder ids calls)
    (habout : About m seg) (hbefore : ∀ front rest, ids = front ++ m.msgId :: rest →
      ∀ earlier ∈ front, SettledIn earlier calls) : InOrder ids (calls ++ seg) := by
  intro pre c post heq front rest hids earlier hearlier
  rcases List.append_eq_append_iff.1 heq with ⟨mid, rfl, hmid⟩ | ⟨mid, hcalls, hmid⟩
  · -- the call is one of the new ones
    have hc : c ∈ seg := by
      rw [hmid]
      exact List.mem_append_right _ List.mem_cons_self
    rw [habout c hc] at hids
    exact (hbefore front rest hids earlier hearlier).append mid
  · cases mid with
    | nil =>
      rw [List.nil_append] at hmid
      have hc : c ∈ seg := by
        rw [← hmid]
        exact List.mem_cons_self
      rw [habout c hc] at hids
      rw [List.append_nil] at hcalls
      rw [← hcalls]
      exact hbefore front rest hids earlier hearlier
    | cons c' mid =>
      rw [List.cons_append] at hmid
      obtain ⟨rfl, -⟩ := List.cons_eq_cons.1 hmid
      exact h pre c mid hcalls front rest hids earlier hearlier

/-- A list without repetition splits at an element in one way. -/
theorem front_unique {ids front rest before after : List String} {id : String} (hnodup : ids.Nodup)
    (h : ids = before ++ id :: after) (h' : ids = front ++ id :: rest) : front = before := by
  rw [h, List.nodup_append] at hnodup
  obtain ⟨-, hcons, hdisjoint⟩ := hnodup
  have hbefore : id ∉ before := fun hid => hdisjoint id hid id List.mem_cons_self rfl
  have hafter : id ∉ after := (List.nodup_cons.1 hcons).1
  have hsplit := h.symm.trans h'
  exact ((List.append_cons_inj_of_notMem hbefore hafter).1 hsplit).1.symm

/-- **One delivery.** It goes on where the messages before the batch are settled; after a success those of the
batch are, too. -/
theorem ConsumeTrace.inOrder {N : ℤ} {msgs : List MessageExt} {segs : List (List HookCall)} {success : Bool}
    (h : ConsumeTrace N msgs segs success) {ids before after : List String} {calls : List HookCall}
    (hnodup : ids.Nodup) (hids : ids = before ++ msgs.map MessageExt.msgId ++ after) (hcalls : InOrder ids calls)
    (hbefore : ∀ id ∈ before, SettledIn id calls) : InOrder ids (calls ++ segs.flatten) ∧
      (success = true → ∀ m ∈ msgs, SettledIn m.msgId (calls ++ segs.flatten)) := by
  have hfront : ∀ {m : MessageExt} {msgs : List MessageExt} {before : List String} {calls : List HookCall},
      ids = before ++ (m :: msgs).map MessageExt.msgId ++ after → (∀ id ∈ before, SettledIn id calls) →
      ∀ front rest, ids = front ++ m.msgId :: rest → ∀ earlier ∈ front, SettledIn earlier calls := by
    intro m msgs before calls hids hbefore front rest hrest earlier hearlier
    rw [List.map_cons, List.append_assoc, List.cons_append] at hids
    rw [front_unique hnodup hids hrest] at hearlier
    exact hbefore earlier hearlier
  induction h generalizing before calls with
  | nil =>
    rw [List.flatten_nil, List.append_nil]
    exact ⟨hcalls, fun _ m hm => absurd hm List.not_mem_nil⟩
  | @next m msgs seg segs success ht _ ih =>
    have hnext := hcalls.append ht.about (hfront hids hbefore)
    have hsettled : SettledIn m.msgId (calls ++ seg) := ⟨m, rfl, settled_append_right ht.settled⟩
    have hids' : ids = (before ++ [m.msgId]) ++ msgs.map MessageExt.msgId ++ after := by
      rw [hids, List.map_cons, List.append_assoc before [m.msgId], List.singleton_append]
    have hbefore' : ∀ id ∈ before ++ [m.msgId], SettledIn id (calls ++ seg) := by
      intro id hid
      rcases List.mem_append.1 hid with hid | hid
      · exact (hbefore id hid).append seg
      · rw [List.mem_singleton.1 hid]
        exact hsettled
    obtain ⟨horder, hall⟩ := ih hids' hnext hbefore'
    rw [List.flatten_cons, ← List.append_assoc]
    refine ⟨horder, fun hsuccess m' hm' => ?_⟩
    rcases List.mem_cons.1 hm' with rfl | hm'
    · exact hsettled.append _
    · exact hall hsuccess m' hm'
  | @stop m msgs seg e ht =>
    have hlast := hcalls.append ht.about (hfront hids hbefore)
    rw [List.flatten_singleton]
    exact ⟨hlast, fun hfalse => absurd hfalse Bool.false_ne_true⟩

/-- A batch that is not a success has a message with some budget left. -/
theorem ConsumeTrace.left {N : ℤ} {msgs : List MessageExt} {segs : List (List HookCall)}
    (h : ConsumeTrace N msgs segs false) : ∃ m ∈ msgs, m.reconsumeTimes < N := by
  generalize hfalse : false = success at h
  induction h with
  | nil => cases hfalse
  | next _ _ ih =>
    obtain ⟨m, hm, hlt⟩ := ih hfalse
    exact ⟨m, List.mem_cons_of_mem _ hm, hlt⟩
  | stop ht =>
    cases ht with
    | retry _ _ hlt => exact ⟨_, List.mem_cons_self, hlt⟩

theorem deliveriesLeft_again (N : ℤ) (m : MessageExt) : deliveriesLeft N m.again ≤ deliveriesLeft N m := by
  unfold deliveriesLeft MessageExt.again
  dsimp only
  omega

section Counted

variable {N maximum : ℤ} {d : QueueDelivery} {msgs : List MessageExt}

/-- A message with some budget left is no dead letter. -/
theorem givesUp_false (hmax : N ≤ maximum) {m : MessageExt} (hlt : m.reconsumeTimes < N) :
    d.givesUp maximum m = false := by
  have hle : ¬ maximum ≤ m.reconsumeTimes := by omega
  unfold QueueDelivery.givesUp
  rw [decide_eq_false hle, Bool.false_and]

theorem counted_ids (d : QueueDelivery) (maximum : ℤ) (msgs : List MessageExt) :
    (msgs.map (d.counted maximum)).map MessageExt.msgId = msgs.map MessageExt.msgId := by
  rw [List.map_map]
  refine List.map_congr_left fun m _ => ?_
  show (if d.givesUp maximum m then m else m.again).msgId = m.msgId
  split <;> rfl

/-- A batch that comes again needs fewer deliveries. -/
theorem left_counted (hmax : N ≤ maximum) (h : ∃ m ∈ msgs, m.reconsumeTimes < N) :
    ((msgs.map (d.counted maximum)).map (deliveriesLeft N)).sum < (msgs.map (deliveriesLeft N)).sum := by
  rw [List.map_map]
  refine List.sum_lt_sum _ _ (fun m _ => ?_) ?_
  · show deliveriesLeft N (if d.givesUp maximum m then m else m.again) ≤ deliveriesLeft N m
    split
    · exact le_rfl
    · exact deliveriesLeft_again N m
  · obtain ⟨m, hm, hlt⟩ := h
    refine ⟨m, hm, ?_⟩
    show deliveriesLeft N (if d.givesUp maximum m then m else m.again) < deliveriesLeft N m
    rw [givesUp_false hmax hlt, if_neg Bool.false_ne_true]
    show 1 + (N - (m.reconsumeTimes + 1)).toNat < 1 + (N - m.reconsumeTimes).toNat
    omega

end Counted

section Queue

variable {σ P : Type} {L : AbstractRocketMQListener σ P} {maxReconsumeTimes : ℤ} {q q' : OrderlyQueue σ}
  {d : QueueDelivery}

/-- The consumer admits as many redeliveries as the listener asks for. -/
def Admits (L : AbstractRocketMQListener σ P) (maxReconsumeTimes : ℤ) (s : ListenerState σ) : Prop :=
  L.budget s ≤ orderlyMaximum maxReconsumeTimes

/-- What a delivery does to the queue. -/
theorem queueStep_cases (hmax : Admits L maxReconsumeTimes q.listener)
    (hs : queueStep L maxReconsumeTimes q d = some q') : 0 < d.size ∧ d.size ≤ q.waiting.length ∧
    ∃ segs success, q'.listener.calls = q.listener.calls ++ segs.flatten ∧
      L.budget q'.listener = L.budget q.listener ∧
      ConsumeTrace (L.budget q.listener) (q.waiting.take d.size) segs success ∧
      (success = true ∧ q'.waiting = q.waiting.drop d.size ∧ q'.committed = q.committed ++ q.waiting.take d.size ∧
          q'.deadLetters = q.deadLetters ∨
        success = false ∧ q'.waiting = (q.waiting.take d.size).map (d.counted (orderlyMaximum maxReconsumeTimes)) ++
            q.waiting.drop d.size ∧ q'.committed = q.committed ∧
          q'.deadLetters = q.deadLetters ++
            (q.waiting.take d.size).filter (d.givesUp (orderlyMaximum maxReconsumeTimes))) := by
  unfold queueStep at hs
  split at hs
  · next hsize =>
    obtain ⟨segs, success, s', hconsume, hcalls, hbudget, htrace⟩ :=
      consume_spec L .orderly (q.waiting.take d.size) q.listener
    simp only [hconsume] at hs
    cases success with
    | true =>
      cases hs
      exact ⟨hsize.1, hsize.2, segs, true, hcalls, hbudget, htrace, .inl ⟨rfl, rfl, rfl, rfl⟩⟩
    | false =>
      -- the message that failed is counted once more
      obtain ⟨m, hm, hlt⟩ := htrace.left
      have hnot : (q.waiting.take d.size).all (d.givesUp (orderlyMaximum maxReconsumeTimes)) = false :=
        List.all_eq_false.2 ⟨m, hm, by rw [givesUp_false hmax hlt]; exact Bool.false_ne_true⟩
      simp only [hnot] at hs
      cases hs
      exact ⟨hsize.1, hsize.2, segs, false, hcalls, hbudget, htrace, .inr ⟨rfl, rfl, rfl, rfl⟩⟩
  · cases hs

/-- The invariant of a queue that holds the messages `ids`. -/
structure QueueInv (L : AbstractRocketMQListener σ P) (maxReconsumeTimes : ℤ) (ids : List String)
    (q : OrderlyQueue σ) : Prop where
  admits : Admits L maxReconsumeTimes q.listener
  all : (q.committed ++ q.waiting).map MessageExt.msgId = ids
  order : InOrder ids q.listener.calls
  settled : ∀ m ∈ q.committed, SettledIn m.msgId q.listener.calls
  dead : ∀ m ∈ q.deadLetters, orderlyMaximum maxReconsumeTimes ≤ m.reconsumeTimes ∧ m.msgId ∈ ids

/-- **One delivery.** -/
theorem queueInv_step {ids : List String} (hnodup : ids.Nodup) (h : QueueInv L maxReconsumeTimes ids q)
    (hs : queueStep L maxReconsumeTimes q d = some q') : QueueInv L maxReconsumeTimes ids q' := by
  obtain ⟨-, -, segs, success, hcalls, hbudget, htrace, hnext⟩ := queueStep_cases h.admits hs
  have hadmits : Admits L maxReconsumeTimes q'.listener := by
    unfold Admits
    rw [hbudget]
    exact h.admits
  have hids : ids = q.committed.map MessageExt.msgId ++ (q.waiting.take d.size).map MessageExt.msgId ++
      (q.waiting.drop d.size).map MessageExt.msgId := by
    rw [← h.all, List.append_assoc, ← List.map_append, List.take_append_drop, List.map_append]
  have hbefore : ∀ id ∈ q.committed.map MessageExt.msgId, SettledIn id q.listener.calls := by
    intro id hid
    obtain ⟨m, hm, rfl⟩ := List.mem_map.1 hid
    exact h.settled m hm
  obtain ⟨horder, hbatch⟩ := htrace.inOrder hnodup hids h.order hbefore
  rw [← hcalls] at horder hbatch
  have hkept : ∀ m ∈ q.committed, SettledIn m.msgId q'.listener.calls := by
    intro m hm
    rw [hcalls]
    exact (h.settled m hm).append _
  rcases hnext with ⟨hsuccess, hwaiting, hcommitted, hdead⟩ | ⟨-, hwaiting, hcommitted, hdead⟩
  · refine ⟨hadmits, ?_, horder, fun m hm => ?_, fun m hm => h.dead m (hdead ▸ hm)⟩
    · rw [hwaiting, hcommitted, List.append_assoc, List.take_append_drop]
      exact h.all
    · rw [hcommitted] at hm
      rcases List.mem_append.1 hm with hm | hm
      · exact hkept m hm
      · exact hbatch hsuccess m hm
  · refine ⟨hadmits, ?_, horder, fun m hm => hkept m (hcommitted ▸ hm), fun m hm => ?_⟩
    · rw [hwaiting, hcommitted, List.map_append, List.map_append, counted_ids, ← List.append_assoc]
      exact hids.symm
    · rw [hdead] at hm
      rcases List.mem_append.1 hm with hm | hm
      · exact h.dead m hm
      · obtain ⟨hm, hgives⟩ := List.mem_filter.1 hm
        refine ⟨of_decide_eq_true (Bool.and_eq_true_iff.1 hgives).1, ?_⟩
        rw [hids]
        exact List.mem_append_left _ (List.mem_append_right _ (List.mem_map.2 ⟨m, hm, rfl⟩))

/-- Each delivery leaves less to do. -/
theorem queueStep_left (hmax : Admits L maxReconsumeTimes q.listener)
    (hs : queueStep L maxReconsumeTimes q d = some q') :
    (q'.waiting.map (deliveriesLeft (L.budget q'.listener))).sum <
      (q.waiting.map (deliveriesLeft (L.budget q.listener))).sum := by
  obtain ⟨hpos, hle, segs, success, -, hbudget, htrace, hnext⟩ := queueStep_cases hmax hs
  have hsplit : (q.waiting.map (deliveriesLeft (L.budget q.listener))).sum =
      ((q.waiting.take d.size).map (deliveriesLeft (L.budget q.listener))).sum +
        ((q.waiting.drop d.size).map (deliveriesLeft (L.budget q.listener))).sum := by
    rw [← List.sum_append, ← List.map_append, List.take_append_drop]
  rw [hbudget, hsplit]
  rcases hnext with ⟨-, hwaiting, -, -⟩ | ⟨hfalse, hwaiting, -, -⟩
  · rw [hwaiting]
    have hone : 0 < ((q.waiting.take d.size).map (deliveriesLeft (L.budget q.listener))).sum := by
      cases htake : q.waiting.take d.size with
      | nil =>
        have hlength := congrArg List.length htake
        rw [List.length_take, List.length_nil] at hlength
        omega
      | cons m msgs =>
        rw [List.map_cons, List.sum_cons]
        unfold deliveriesLeft
        omega
    omega
  · subst hfalse
    have hless := left_counted (d := d) hmax htrace.left
    rw [hwaiting, List.map_append, List.sum_append]
    omega

/-- **A queue in order.** Whatever sizes the batches have and whatever fails, for a consumer that admits the
redeliveries of the listener: no message is lost, repeated or moved, what is committed was settled, and every
callback is for a message before which all others are settled. Dead letters are copies of messages that came as
often as the consumer admits. The queue is through after as many deliveries at most as there are messages and
redeliveries left. -/
theorem orderly_queue (L : AbstractRocketMQListener σ P) {msgs : List MessageExt} {world : σ}
    (hnodup : (msgs.map MessageExt.msgId).Nodup) (hmax : Admits L maxReconsumeTimes (.fresh world))
    {ds : List QueueDelivery} (hrun : exec (queueStep L maxReconsumeTimes) (.start msgs world) ds = some q) :
    (q.committed ++ q.waiting).map MessageExt.msgId = msgs.map MessageExt.msgId ∧
    (∀ m ∈ q.committed, SettledIn m.msgId q.listener.calls) ∧
    InOrder (msgs.map MessageExt.msgId) q.listener.calls ∧
    (∀ m ∈ q.deadLetters, orderlyMaximum maxReconsumeTimes ≤ m.reconsumeTimes ∧ m.msgId ∈ msgs.map MessageExt.msgId) ∧
    ds.length ≤ (msgs.map (deliveriesLeft (L.budget (.fresh world)))).sum := by
  have hstart : QueueInv L maxReconsumeTimes (msgs.map MessageExt.msgId) (.start msgs world) := by
    refine ⟨hmax, rfl, ?_, fun m hm => absurd hm List.not_mem_nil, fun m hm => absurd hm List.not_mem_nil⟩
    intro pre c post heq
    exact absurd heq.symm (List.append_ne_nil_of_right_ne_nil _ (List.cons_ne_nil _ _))
  have h := inv_of_exec (fun _ _ _ => queueInv_step hnodup) hstart hrun
  have hleft := length_le_of_exec (fun q : OrderlyQueue σ => (q.waiting.map (deliveriesLeft (L.budget q.listener))).sum)
    (fun _ _ _ h hs => ⟨queueInv_step hnodup h hs, queueStep_left h.admits hs⟩) hstart hrun
  exact ⟨h.all, h.settled, h.order, h.dead, (Nat.le_add_right _ _).trans hleft⟩

end Queue

/-- **The post-processor sets such a consumer up**, for the container of an annotated listener. -/
theorem postProcess_maximum {σ P : Type} (L : AbstractRocketMQListener σ P) (p : RocketMQContainerPostProcessor)
    {ann : RocketMQMessageListener} (hann : L.annotation = some ann) (hover : L.overriddenMaxReconsumeTimes = none)
    (c : DefaultRocketMQListenerContainer σ P) (hl : c.rocketMQListener = some L)
    (hc : c.consumer = some ⟨ann.maxReconsumeTimes⟩) (w : σ) : ∃ c' s' consumer,
      p.postProcessAfterInitialization (.container c) (.fresh w) = (.ok (.container c'), s') ∧
      c'.consumer = some consumer ∧ Admits L consumer.maxReconsumeTimes (.fresh w) := by
  obtain ⟨c', s', hp, hconsumer, -, -⟩ := postProcess_consumer L p hann hover c hl hc w
  refine ⟨c', s', _, hp, hconsumer, ?_⟩
  have hinit : L.budget (.fresh w) = L.initMaxReconsumeTimes := by
    simp [AbstractRocketMQListener.budget, hover, ListenerState.fresh]
  unfold Admits orderlyMaximum
  rw [hinit]
  split
  · next hnone =>
    rw [show L.initMaxReconsumeTimes = -1 from hnone]
    decide
  · exact le_rfl

/-- Two failing messages: the first one holds the queue up once, and the second, which has come as often as the
consumer admits, becomes a dead letter and waits for it all the same. -/
theorem orderly_queue_pair :
    let a : MessageExt := ⟨"topic", "a", [], 0⟩
    let b : MessageExt := ⟨"topic", "b", [], 1⟩
    let L := failingListener 1 ⟨"java.lang.IllegalArgumentException", some "XXOO"⟩
      ⟨"java.lang.IllegalStateException", none⟩
    let ds : List QueueDelivery := [⟨2, fun _ => true⟩, ⟨1, fun _ => true⟩, ⟨1, fun _ => true⟩]
    ∃ c' s' consumer, (RocketMQContainerPostProcessor.mk {}).postProcessAfterInitialization
        (.container { rocketMQListener := some L, consumer := some ⟨1⟩ }) (.fresh ()) = (.ok (.container c'), s') ∧
      c'.consumer = some consumer ∧
      ∃ q, exec (queueStep L consumer.maxReconsumeTimes) (.start [a, b] ()) ds = some q ∧ q.waiting = [] ∧
        q.deadLetters = [b] ∧ InOrder ["a", "b"] q.listener.calls ∧
        ds.length ≤ ([a, b].map (deliveriesLeft 1)).sum := by
  intro a b L ds
  obtain ⟨c', s', consumer, hp, hconsumer, hadmits⟩ := postProcess_maximum L ⟨{}⟩ rfl rfl
    { rocketMQListener := some L, consumer := some ⟨1⟩ } rfl rfl ()
  refine ⟨c', s', consumer, hp, hconsumer, ?_⟩
  -- the annotation admits one redelivery
  obtain rfl : consumer = ⟨1⟩ := by
    cases hp
    exact (Option.some.inj hconsumer).symm
  obtain ⟨q, hrun, hwaiting, hnone⟩ : ∃ q, exec (queueStep L 1) (.start [a, b] ()) ds = some q ∧ q.waiting = [] ∧
      q.deadLetters = [b] := ⟨_, rfl, rfl, rfl⟩
  obtain ⟨-, -, horder, -, hlength⟩ := orderly_queue L (by decide) hadmits hrun
  exact ⟨q, hrun, hwaiting, hnone, horder, hlength⟩

end StudyTech
