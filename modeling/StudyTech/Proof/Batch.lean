import Mathlib.Data.List.Nodup
import StudyTech.Proof.Acknowledge
import StudyTech.Proof.Retry

/-!
# Retries in batches

A batch that is not a success comes back as a whole, with the counters of all its
messages raised. So the counter of a message counts its deliveries, not its failures:
`error_after_deliveries` gives what the error handler's call is preceded by, in any
run over batches of any size. `error_after_one_failure` is a message that reaches the
error handler after its only failure.
-/

namespace StudyTech

open Lib

/-- The delivery carries the message `id`. -/
def Delivery.carries (id : String) (d : Delivery) : Bool := d.batch.any fun m => m.msgId == id

/-- The conversion or the handler of the message `id` threw in the delivery. -/
def Delivery.failedFor (id : String) (d : Delivery) : Bool :=
  d.calls.any fun c => c.isFailure && c.message.msgId == id

/-- The deliveries that carry the message `id`. -/
def deliveriesOf (id : String) (log : List Delivery) : List Delivery := log.filter (Delivery.carries id)

/-- The delivery was not a success, because some message of its batch failed; the
message `id` itself, if it came alone. -/
def Retried (id : String) (d : Delivery) : Prop :=
  d.success = false ∧ (∃ c ∈ d.calls, c.isFailure = true ∧ c.message ∈ d.batch) ∧
    (d.batch.length = 1 → d.failedFor id = true)

/-- What precedes a call of the error handler in the delivery `d`, after the
deliveries `before`. -/
def Charged (N : ℤ) (before : List Delivery) (d : Delivery) : Prop :=
  ∀ m e r, .error m e r ∈ d.calls → m ∈ d.batch ∧ d.failedFor m.msgId = true ∧
    N + 1 ≤ (deliveriesOf m.msgId (before ++ [d])).length ∧
    ∀ d' ∈ deliveriesOf m.msgId before, Retried m.msgId d'

section Traces

variable {m : MessageExt} {N : ℤ} {seg : List HookCall} {r : Except JavaException Unit}

/-- The error handler is called for the message at hand, after its failure and at the
end of its budget. -/
theorem Trace.of_error {m' : MessageExt} {e : JavaException} {r' : Except JavaException Unit}
    (h : Trace m N seg r) (hc : .error m' e r' ∈ seg) :
    m' = m ∧ N ≤ m.reconsumeTimes ∧ ∃ c ∈ seg, c.isFailure = true ∧ c.message = m := by
  have hm : m' = m := h.about _ hc
  have hpos : 0 < seg.countP HookCall.isError := List.countP_pos_iff.2 ⟨_, hc, rfl⟩
  cases r with
  | error e' => have := h.of_throw.2.2; omega
  | ok u =>
    rcases h.of_return with ⟨-, h0⟩ | ⟨hN, hfail, -⟩
    · omega
    · obtain ⟨c, hcs, hcf⟩ := List.any_eq_true.1 hfail
      exact ⟨hm, hN, c, hcs, hcf, h.about c hcs⟩

/-- The same for a batch. -/
theorem ConsumeTrace.of_error {msgs : List MessageExt} {segs : List (List HookCall)} {b : Bool}
    {m' : MessageExt} {e : JavaException} {r' : Except JavaException Unit}
    (h : ConsumeTrace N msgs segs b) (hc : .error m' e r' ∈ segs.flatten) :
    m' ∈ msgs ∧ N ≤ m'.reconsumeTimes ∧ ∃ c ∈ segs.flatten, c.isFailure = true ∧ c.message = m' := by
  induction h with
  | nil => simp at hc
  | next ht _ ih =>
    rw [List.flatten_cons, List.mem_append] at hc
    rcases hc with hc | hc
    · obtain ⟨rfl, hN, c, hcs, hcf, hcm⟩ := ht.of_error hc
      exact ⟨List.mem_cons_self, hN, c, by simp [hcs], hcf, hcm⟩
    · obtain ⟨hm, hN, c, hcs, hcf, hcm⟩ := ih hc
      exact ⟨List.mem_cons_of_mem _ hm, hN, c, by rw [List.flatten_cons]; exact List.mem_append_right _ hcs,
        hcf, hcm⟩
  | stop ht =>
    rw [List.flatten_singleton] at hc ⊢
    obtain ⟨rfl, hN, c, hcs, hcf, hcm⟩ := ht.of_error hc
    exact ⟨List.mem_cons_self, hN, c, hcs, hcf, hcm⟩

/-- A batch that is not a success has a message that failed. -/
theorem ConsumeTrace.of_retry {msgs : List MessageExt} {segs : List (List HookCall)}
    (h : ConsumeTrace N msgs segs false) :
    ∃ c ∈ segs.flatten, c.isFailure = true ∧ c.message ∈ msgs := by
  generalize hb : false = b at h
  induction h with
  | nil => cases hb
  | next _ _ ih =>
    obtain ⟨c, hcs, hcf, hcm⟩ := ih hb
    exact ⟨c, by rw [List.flatten_cons]; exact List.mem_append_right _ hcs, hcf, List.mem_cons_of_mem _ hcm⟩
  | stop ht =>
    obtain ⟨c, hcs, hcf⟩ := List.any_eq_true.1 ht.of_throw.2.1
    exact ⟨c, by rw [List.flatten_singleton]; exact hcs, hcf, by rw [ht.about c hcs]; exact List.mem_cons_self⟩

end Traces

theorem failedFor_of {d : Delivery} {c : HookCall} (hc : c ∈ d.calls) (hf : c.isFailure = true) :
    d.failedFor c.message.msgId = true :=
  List.any_eq_true.2 ⟨c, hc, by simp [hf]⟩

theorem carries_of_mem {d : Delivery} {m : MessageExt} (h : m ∈ d.batch) : d.carries m.msgId = true :=
  List.any_eq_true.2 ⟨m, h, by simp⟩

theorem carries_eq_false {d : Delivery} {id : String} (h : id ∉ d.batch.map MessageExt.msgId) :
    d.carries id = false := by
  rw [Delivery.carries, List.any_eq_false]
  intro m hm hid
  exact h (List.mem_map.2 ⟨m, hm, by simpa using hid⟩)

theorem deliveriesOf_append (id : String) (log : List Delivery) (d : Delivery) :
    deliveriesOf id (log ++ [d]) =
      if d.carries id = true then deliveriesOf id log ++ [d] else deliveriesOf id log := by
  unfold deliveriesOf
  rw [List.filter_append]
  by_cases h : d.carries id = true <;> simp [h]

variable {σ P : Type} (L : AbstractRocketMQListener σ P)

/-- The invariant of a broker whose messages have distinct ids: the counter of a
pending message is the number of its deliveries, which all came back. -/
structure BrokerOK (N : ℤ) (b : Broker σ) : Prop where
  budget : L.budget b.listener = N
  ids : (b.pending.map MessageExt.msgId).Nodup
  count : ∀ m ∈ b.pending, m.reconsumeTimes = (deliveriesOf m.msgId b.log).length
  retried : ∀ m ∈ b.pending, ∀ d ∈ deliveriesOf m.msgId b.log, Retried m.msgId d
  charged : ∀ l₁ d l₂, b.log = l₁ ++ d :: l₂ → Charged N l₁ d

/-- What a step of the broker does. -/
theorem brokerStep_cases {b b' : Broker σ} {l : Batch} (h : brokerStep L b l = some b') :
    ∃ segs success s', b.pending.Perm (l.batch ++ l.rest) ∧
      L.budget s' = L.budget b.listener ∧
      ConsumeTrace (L.budget b.listener) l.batch segs success ∧
      b' = { pending := if success = true then l.rest else l.batch.map MessageExt.again ++ l.rest
             log := b.log ++ [⟨l.batch, segs.flatten, success⟩]
             listener := s' } := by
  unfold brokerStep at h
  split at h
  · rename_i hperm
    obtain ⟨segs, success, s', hc, hcalls, hbud, htr⟩ := consume_spec L l.mode l.batch b.listener
    rw [hc] at h
    simp only [hcalls, List.drop_left, Option.some.injEq] at h
    exact ⟨segs, success, s', List.isPerm_iff.1 hperm, hbud, htr, h.symm⟩
  · cases h

omit L in
/-- What holds of each delivery and those before it is checked for the last one alone. -/
theorem charged_concat {N : ℤ} {log : List Delivery} {d : Delivery}
    (hlog : ∀ l₁ d' l₂, log = l₁ ++ d' :: l₂ → Charged N l₁ d') (hd : Charged N log d) (l₁ : List Delivery)
    (d' : Delivery) (l₂ : List Delivery) (heq : log ++ [d] = l₁ ++ d' :: l₂) : Charged N l₁ d' := by
  -- the delivery at hand is the new one, or one of those before
  rcases List.eq_nil_or_concat l₂ with rfl | ⟨l₂', x, rfl⟩
  · obtain ⟨h1, h2⟩ := List.append_inj' heq rfl
    rw [← h1, ← (List.cons.inj h2).1]
    exact hd
  · rw [List.concat_eq_append, ← List.cons_append, ← List.append_assoc] at heq
    exact hlog l₁ d' l₂' (List.append_inj' heq rfl).1

/-- A delivery that is not a success retries the messages of its batch. -/
theorem ConsumeTrace.retried {N : ℤ} {msgs : List MessageExt} {segs : List (List HookCall)}
    (h : ConsumeTrace N msgs segs false) {m : MessageExt} (hm : m ∈ msgs) :
    Retried m.msgId ⟨msgs, segs.flatten, false⟩ := by
  obtain ⟨c, hcs, hcf, hcm⟩ := h.of_retry
  refine ⟨rfl, ⟨c, hcs, hcf, hcm⟩, fun hone => ?_⟩
  obtain ⟨x, rfl⟩ := List.length_eq_one_iff.1 hone
  obtain rfl := List.mem_singleton.1 hm
  rw [← List.mem_singleton.1 hcm]
  exact failedFor_of hcs hcf

theorem brokerStep_ok {N : ℤ} (b : Broker σ) (l : Batch) (b' : Broker σ) (hb : BrokerOK L N b)
    (h : brokerStep L b l = some b') : BrokerOK L N b' := by
  obtain ⟨segs, success, s', hperm, hbud, htr, rfl⟩ := brokerStep_cases L h
  rw [hb.budget] at htr hbud
  have hids : ((l.batch ++ l.rest).map MessageExt.msgId).Nodup := (hperm.map _).nodup_iff.1 hb.ids
  have hmem : ∀ m, m ∈ l.batch ++ l.rest → m ∈ b.pending := fun m hm => hperm.mem_iff.2 hm
  set d : Delivery := ⟨l.batch, segs.flatten, success⟩ with hd
  -- the messages left behind are not carried by the delivery
  have hrest : ∀ m ∈ l.rest, deliveriesOf m.msgId (b.log ++ [d]) = deliveriesOf m.msgId b.log := by
    intro m hm
    have hnot : m.msgId ∉ d.batch.map MessageExt.msgId := by
      intro hin
      rw [List.map_append, List.nodup_append] at hids
      exact hids.2.2 _ hin _ (List.mem_map.2 ⟨m, hm, rfl⟩) rfl
    rw [deliveriesOf_append, if_neg]
    rw [carries_eq_false hnot]
    exact Bool.false_ne_true
  have hbatch : ∀ m ∈ l.batch, deliveriesOf m.msgId (b.log ++ [d]) = deliveriesOf m.msgId b.log ++ [d] := by
    intro m hm
    rw [deliveriesOf_append, if_pos (carries_of_mem hm)]
  have hcharged : Charged N b.log d := by
    intro m e r hc
    obtain ⟨hm, hN, c, hcs, hcf, hcm⟩ := htr.of_error hc
    have hp := hmem m (List.mem_append_left _ hm)
    refine ⟨hm, by rw [← hcm]; exact failedFor_of hcs hcf, ?_, hb.retried m hp⟩
    rw [hbatch m hm, List.length_append, List.length_singleton]
    have := hb.count m hp
    omega
  have hchargedAll := charged_concat hb.charged hcharged
  cases success with
  | true =>
    refine ⟨hbud, ?_, fun m hm => ?_, fun m hm => ?_, hchargedAll⟩
    · rw [List.map_append] at hids
      exact (List.nodup_append.1 hids).2.1
    · simp only [if_true] at hm ⊢
      rw [hrest m hm]
      exact hb.count m (hmem m (List.mem_append_right _ hm))
    · simp only [if_true] at hm ⊢
      rw [hrest m hm]
      exact hb.retried m (hmem m (List.mem_append_right _ hm))
  | false =>
    refine ⟨hbud, ?_, fun m hm => ?_, fun m hm => ?_, hchargedAll⟩
    · simpa [List.map_map, Function.comp_def, MessageExt.again] using hids
    · simp only [Bool.false_eq_true, if_false, List.mem_append, List.mem_map] at hm
      rcases hm with ⟨m, hm, rfl⟩ | hm
      · simp only [MessageExt.again]
        rw [hbatch m hm, List.length_append, List.length_singleton,
          hb.count m (hmem m (List.mem_append_left _ hm))]
        omega
      · rw [hrest m hm]
        exact hb.count m (hmem m (List.mem_append_right _ hm))
    · simp only [Bool.false_eq_true, if_false, List.mem_append, List.mem_map] at hm
      rcases hm with ⟨m, hm, rfl⟩ | hm
      · simp only [MessageExt.again]
        rw [hbatch m hm]
        intro d' hd'
        rcases List.mem_append.1 hd' with hd' | hd'
        · exact hb.retried m (hmem m (List.mem_append_left _ hm)) d' hd'
        · rw [List.mem_singleton.1 hd']
          exact htr.retried hm
      · rw [hrest m hm]
        exact hb.retried m (hmem m (List.mem_append_right _ hm))

/-- A broker that has delivered nothing yet. -/
def Broker.start (msgs : List MessageExt) (w : σ) : Broker σ := ⟨msgs, [], .fresh w⟩

/-- **What a call of the error handler is preceded by**, in any run over batches of any
size: the message failed in this delivery, it was delivered at least `N + 1` times, and
each earlier delivery of it came back because some message of its batch failed (the
message itself, where it came alone). -/
theorem error_after_deliveries (msgs : List MessageExt) (w : σ)
    (hids : (msgs.map MessageExt.msgId).Nodup) (hfirst : ∀ m ∈ msgs, m.reconsumeTimes = 0)
    {ls : List Batch} {b : Broker σ} (hrun : exec (brokerStep L) (.start msgs w) ls = some b)
    {before after : List Delivery} {d : Delivery} (hlog : b.log = before ++ d :: after) :
    Charged (L.budget (.fresh w)) before d := by
  have h0 : BrokerOK L (L.budget (.fresh w)) (.start msgs w) := by
    refine ⟨rfl, hids, fun m hm => ?_, fun m hm d hd => ?_, fun l₁ d l₂ h => ?_⟩
    · simpa [Broker.start, deliveriesOf] using hfirst m hm
    · simp [Broker.start, deliveriesOf] at hd
    · simp [Broker.start] at h
  exact (inv_of_exec (brokerStep_ok L) h0 hrun).charged before d after hlog

/-- The run of two failing messages that come in one batch, twice. -/
theorem error_after_deliveries_pair :
    let a : MessageExt := ⟨"topic", "a", [], 0⟩
    let b : MessageExt := ⟨"topic", "b", [], 0⟩
    let L := failingListener 1 ⟨"java.lang.IllegalArgumentException", some "XXOO"⟩
      ⟨"java.lang.IllegalStateException", none⟩
    ∃ broker d₁ d₂, exec (brokerStep L) (.start [a, b] ())
        [⟨.orderly, [a, b], []⟩, ⟨.orderly, [a.again, b.again], []⟩] = some broker ∧
      broker.log = [d₁, d₂] ∧ Charged 1 [d₁] d₂ := by
  intro a b L
  obtain ⟨broker, d₁, d₂, hrun, hlog⟩ : ∃ broker d₁ d₂, exec (brokerStep L) (.start [a, b] ())
      [⟨.orderly, [a, b], []⟩, ⟨.orderly, [a.again, b.again], []⟩] = some broker ∧
      broker.log = [d₁, d₂] := ⟨_, _, _, rfl, rfl⟩
  exact ⟨broker, d₁, d₂, hrun, hlog,
    error_after_deliveries L [a, b] () (by decide) (by decide) hrun hlog⟩

/-- **A message may reach the error handler after a single failure.** A budget of 1
allows two deliveries. In the first one the batch `a, b` comes back because `a` fails,
before `b` is tried; in the second `b` fails for the first time, at the end of its
budget. -/
theorem error_after_one_failure :
    let a : MessageExt := ⟨"topic", "a", [], 0⟩
    let b : MessageExt := ⟨"topic", "b", [], 0⟩
    let L := failingListener 1 ⟨"java.lang.IllegalArgumentException", some "XXOO"⟩
      ⟨"java.lang.IllegalStateException", none⟩
    L.budget (.fresh ()) + 1 = 2 ∧ ∃ broker d₁ d₂ e r,
      exec (brokerStep L) (.start [a, b] ())
        [⟨.orderly, [a, b], []⟩, ⟨.orderly, [a.again, b.again], []⟩] = some broker ∧
      broker.log = [d₁, d₂] ∧ .error b.again e r ∈ d₂.calls ∧
      [d₁, d₂].countP (Delivery.failedFor "b") = 1 := by
  intro a b L
  refine ⟨rfl, _, _, _, ⟨"java.lang.IllegalArgumentException", some "XXOO"⟩,
    .error ⟨"java.lang.IllegalStateException", none⟩, rfl, rfl, ?_, by decide⟩
  exact List.mem_append_right _ (by simp [b, MessageExt.again])

end StudyTech
