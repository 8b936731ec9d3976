import Mathlib.Algebra.Ring.Nat
import Mathlib.Logic.Function.Iterate
import StudyTech.Spec.Container
import StudyTech.Proof.Listener

/-!
# Retry budget and dead letters

With a container that the post-processor has set up, the listener's budget and the
consumer's agree (`postProcess_consumer`). So a message that comes alone is delivered
at most `N + 1` times, reaches the error handler exactly when all of these failed, and
is never dead-lettered (`retry_budget`).
-/

namespace StudyTech

open Lib

/-- The call is a conversion or a handler that threw. -/
def HookCall.isFailure : HookCall → Bool
  | .convert _ (.error _) => true
  | .handle _ (.error _) => true
  | _ => false

/-- The call is one of the error handler. -/
def HookCall.isError : HookCall → Bool
  | .error _ _ _ => true
  | _ => false

/-- The delivery failed: a conversion or a handler threw in it. -/
def Delivery.failed (d : Delivery) : Bool := d.calls.any HookCall.isFailure

/-- How often the error handler was called in the deliveries. -/
def errorCalls (ds : List Delivery) : ℕ := (ds.map fun d => d.calls.countP HookCall.isError).sum

section Traces

variable {m : MessageExt} {N : ℤ} {pre bad post seg : List HookCall} {e : JavaException}

theorem BeforeTrace.quiet {go : Bool} (h : BeforeTrace m pre go) :
    pre.any HookCall.isFailure = false ∧ pre.countP HookCall.isError = 0 := by
  cases h <;> exact ⟨rfl, rfl⟩

theorem FailTrace.fails (h : FailTrace m bad e) :
    bad.any HookCall.isFailure = true ∧ bad.countP HookCall.isError = 0 := by
  cases h <;> exact ⟨rfl, rfl⟩

theorem AfterTrace.quiet (h : AfterTrace m post) :
    post.any HookCall.isFailure = false ∧ post.countP HookCall.isError = 0 := by
  cases h <;> exact ⟨rfl, rfl⟩

/-- `onMessage` throws only below the budget, after a failure, without the error handler. -/
theorem Trace.of_throw (h : Trace m N seg (.error e)) :
    m.reconsumeTimes < N ∧ seg.any HookCall.isFailure = true ∧ seg.countP HookCall.isError = 0 := by
  cases h with
  | retry hpre hbad hlt =>
    refine ⟨hlt, ?_, ?_⟩
    · rw [List.any_append, hbad.fails.1, Bool.or_true]
    · rw [List.countP_append, hpre.quiet.2, hbad.fails.2]

/-- Where `onMessage` returns, either nothing failed and the error handler was not
called, or it was called once after a failure at the end of the budget. -/
theorem Trace.of_return (h : Trace m N seg (.ok ())) :
    (seg.any HookCall.isFailure = false ∧ seg.countP HookCall.isError = 0) ∨
      (N ≤ m.reconsumeTimes ∧ seg.any HookCall.isFailure = true ∧ seg.countP HookCall.isError = 1) := by
  cases h with
  | skipped => exact Or.inl ⟨rfl, rfl⟩
  | handled hpre hpost =>
    refine Or.inl ⟨?_, ?_⟩
    · simp only [List.any_append, hpre.quiet.1, hpost.quiet.1]; rfl
    · simp only [List.countP_append, hpre.quiet.2, hpost.quiet.2]; rfl
  | error r hpre hbad hge =>
    refine Or.inr ⟨hge, ?_, ?_⟩
    · simp only [List.any_append, hbad.fails.1, Bool.or_true, Bool.true_or]
    · simp only [List.countP_append, hpre.quiet.2, hbad.fails.2]; rfl

/-- The trace of a batch of one message. -/
theorem ConsumeTrace.single {segs : List (List HookCall)} {b : Bool} (h : ConsumeTrace N [m] segs b) :
    ∃ seg r, segs = [seg] ∧ Trace m N seg r ∧ ((b = true ∧ r = .ok ()) ∨ (b = false ∧ ∃ e, r = .error e)) := by
  cases h with
  | next ht hrest => cases hrest; exact ⟨_, _, rfl, ht, Or.inl ⟨rfl, rfl⟩⟩
  | stop ht => exact ⟨_, _, rfl, ht, Or.inr ⟨rfl, _, rfl⟩⟩

end Traces

variable {σ P : Type} (L : AbstractRocketMQListener σ P)

/-- Every way to deliver a batch is the loop around `onMessage`. -/
theorem consume_eq (mode : ConsumeMode) (msgs : List MessageExt) (s : ListenerState σ) :
    ∃ b, (L.consumeLoop true false msgs s).1 = .ok b ∧
      L.consume mode msgs s = (b, (L.consumeLoop true false msgs s).2) := by
  obtain ⟨-, b, hres, -⟩ := L.consume_trace msgs s
  refine ⟨b, hres, ?_⟩
  unfold AbstractRocketMQListener.consume AbstractRocketMQListener.consumeMessageOrderly
    AbstractRocketMQListener.consumeMessageConcurrently
  rw [L.consumeLoop_eq (ConsumeOrderlyStatus.success, _),
    L.consumeLoop_eq (ConsumeConcurrentlyStatus.consumeSuccess, _)]
  rcases hl : L.consumeLoop true false msgs s with ⟨r, s'⟩
  rw [hl] at hres
  simp only at hres
  subst hres
  cases mode <;> cases b <;> rfl

/-- **What a delivery does.** -/
theorem consume_spec (mode : ConsumeMode) (msgs : List MessageExt) (s : ListenerState σ) :
    ∃ segs b s', L.consume mode msgs s = (b, s') ∧ s'.calls = s.calls ++ segs.flatten ∧
      L.budget s' = L.budget s ∧ ConsumeTrace (L.budget s) msgs segs b := by
  obtain ⟨segs, b, hres, hcalls, hbud, htr⟩ := L.consume_trace msgs s
  obtain ⟨b', hb', hc⟩ := consume_eq L mode msgs s
  have hbb : b' = b := by rw [hres] at hb'; exact (Except.ok.inj hb').symm
  subst hbb
  exact ⟨segs, b', _, hc, hcalls, hbud, htr⟩

/-- **The two budgets agree.** The consumer of an annotated listener's container, which
starts with the annotation's value, ends with the value the listener uses itself. -/
theorem postProcess_consumer (p : RocketMQContainerPostProcessor) {ann : RocketMQMessageListener}
    (hann : L.annotation = some ann) (hover : L.overriddenMaxReconsumeTimes = none)
    (c : DefaultRocketMQListenerContainer σ P) (hl : c.rocketMQListener = some L)
    (hc : c.consumer = some ⟨ann.maxReconsumeTimes⟩) (w : σ) :
    ∃ c' s', p.postProcessAfterInitialization (.container c) (.fresh w) = (.ok (.container c'), s') ∧
      c'.consumer = some ⟨L.initMaxReconsumeTimes⟩ ∧ L.budget s' = L.initMaxReconsumeTimes ∧
      s'.calls = [] := by
  obtain ⟨s', hm, hcalls, -, hbud⟩ := L.getMaxReconsumeTimes_spec (.fresh w)
  have hinit : L.budget (.fresh w) = L.initMaxReconsumeTimes := by
    simp [AbstractRocketMQListener.budget, hover, ListenerState.fresh]
  unfold RocketMQContainerPostProcessor.postProcessAfterInitialization
  simp only [hl]
  rw [Action.bind_ok hm]
  refine ⟨_, s', rfl, ?_, by rw [hbud, hinit], by rw [hcalls]; rfl⟩
  simp only [RocketMQContainerPostProcessor.checkAndSet, hc, hinit]
  unfold AbstractRocketMQListener.initMaxReconsumeTimes
  simp only [hann]
  -- an annotation value other than -1 wins on both sides; -1 leaves it to the properties
  by_cases h : ann.maxReconsumeTimes = -1
  · simp [h]
  · simp [h]

/-- A message on its first delivery. -/
def Shipment.first (m : MessageExt) (s : ListenerState σ) : Shipment σ := ⟨m, .inFlight, [], s⟩

/-- Where a message is on its way through a listener and a consumer of budget `N`. -/
structure ShipmentOK (N : ℤ) (sh : Shipment σ) : Prop where
  budget : L.budget sh.listener = N
  alive : sh.fate ≠ .deadLettered
  flying : sh.fate = .inFlight → sh.message.reconsumeTimes = sh.deliveries.length ∧
    (sh.deliveries.length : ℤ) ≤ N ∧ (∀ d ∈ sh.deliveries, d.failed = true ∧ d.success = false) ∧
    errorCalls sh.deliveries = 0
  landed : sh.fate = .consumed → ∃ ds d, sh.deliveries = ds ++ [d] ∧ (ds.length : ℤ) ≤ N ∧
    (∀ d ∈ ds, d.failed = true ∧ d.success = false) ∧ errorCalls ds = 0 ∧ d.success = true ∧
    ((d.failed = false ∧ errorCalls [d] = 0) ∨
      (d.failed = true ∧ errorCalls [d] = 1 ∧ (ds.length : ℤ) = N))

theorem errorCalls_append (ds ds' : List Delivery) :
    errorCalls (ds ++ ds') = errorCalls ds + errorCalls ds' := by
  simp [errorCalls]

theorem errorCalls_single (d : Delivery) : errorCalls [d] = d.calls.countP HookCall.isError := by
  simp [errorCalls]

/-- One delivery of a message that comes alone. -/
theorem redeliver_inFlight {N : ℤ} (mode : ConsumeMode) {sh : Shipment σ} (h : ShipmentOK L N sh)
    (hf : sh.fate = .inFlight) :
    ∃ d s', L.budget s' = N ∧ d.batch = [sh.message] ∧
      ((d.success = true ∧ redeliver L mode N sh =
          { sh with fate := .consumed, deliveries := sh.deliveries ++ [d], listener := s' } ∧
        ((d.failed = false ∧ errorCalls [d] = 0) ∨
          (d.failed = true ∧ errorCalls [d] = 1 ∧ N ≤ sh.message.reconsumeTimes))) ∨
      (d.success = false ∧ sh.message.reconsumeTimes < N ∧ d.failed = true ∧ errorCalls [d] = 0 ∧
        redeliver L mode N sh =
          { sh with message := sh.message.again, deliveries := sh.deliveries ++ [d], listener := s' })) := by
  obtain ⟨segs, b, s', hc, hcalls, hbud, htr⟩ := consume_spec L mode [sh.message] sh.listener
  rw [h.budget] at hbud htr
  obtain ⟨seg, r, rfl, ht, hb⟩ := htr.single
  have hdrop : s'.calls.drop sh.listener.calls.length = seg := by
    rw [hcalls]; simp
  refine ⟨⟨[sh.message], seg, b⟩, s', hbud, rfl, ?_⟩
  unfold redeliver
  simp only [hf, hc, hdrop, errorCalls_single, Delivery.failed]
  rcases hb with ⟨rfl, rfl⟩ | ⟨rfl, e, rfl⟩
  · refine Or.inl ⟨rfl, if_pos rfl, ?_⟩
    rcases ht.of_return with hq | ⟨hN, hfail, herr⟩
    · exact Or.inl hq
    · exact Or.inr ⟨hfail, herr, hN⟩
  · obtain ⟨hlt, hfail, herr⟩ := ht.of_throw
    refine Or.inr ⟨rfl, hlt, hfail, herr, ?_⟩
    rw [if_neg (by simp), if_neg (Int.not_le.2 hlt)]

theorem redeliver_consumed {N : ℤ} {mode : ConsumeMode} {sh : Shipment σ} (hf : sh.fate = .consumed) :
    redeliver L mode N sh = sh := by
  unfold redeliver; rw [hf]

theorem redeliver_ok {N : ℤ} (mode : ConsumeMode) {sh : Shipment σ} (h : ShipmentOK L N sh) :
    ShipmentOK L N (redeliver L mode N sh) := by
  cases hf : sh.fate with
  | deadLettered => exact absurd hf h.alive
  | consumed => rw [redeliver_consumed L hf]; exact h
  | inFlight =>
    obtain ⟨hrc, hlen, hds, herr⟩ := h.flying hf
    obtain ⟨d, s', hbud, -, ⟨hs, heq, hd⟩ | ⟨hs, hlt, hfail, hnone, heq⟩⟩ :=
      redeliver_inFlight L mode h hf
    · -- consumed by this delivery
      rw [heq]
      refine ⟨hbud, by simp, by simp, fun _ => ⟨sh.deliveries, d, rfl, hlen, hds, herr, hs, ?_⟩⟩
      rcases hd with hq | ⟨hfail, hone, hN⟩
      · exact Or.inl hq
      · exact Or.inr ⟨hfail, hone, by omega⟩
    · -- to be delivered again, with the counter at the number of deliveries
      rw [heq]
      refine ⟨hbud, by simp [hf], fun _ => ⟨?_, ?_, ?_, ?_⟩, by simp [hf]⟩
      · simp [MessageExt.again, hrc]
      · simp only [List.length_append, List.length_singleton]; omega
      · intro d' hd'
        rcases List.mem_append.1 hd' with hd' | hd'
        · exact hds d' hd'
        · rw [List.mem_singleton.1 hd']; exact ⟨hfail, hs⟩
      · rw [errorCalls_append, herr, hnone]

theorem first_ok {m : MessageExt} (hm : m.reconsumeTimes = 0) {s : ListenerState σ}
    (hN : 0 ≤ L.budget s) : ShipmentOK L (L.budget s) (.first m s) := by
  refine ⟨rfl, by simp [Shipment.first], fun _ => ⟨by simpa [Shipment.first] using hm, ?_, ?_, rfl⟩, ?_⟩
  · simpa [Shipment.first] using hN
  · intro d hd; simp [Shipment.first] at hd
  · intro hc; simp [Shipment.first] at hc

theorem redeliver_iterate_ok {N : ℤ} (mode : ConsumeMode) {sh : Shipment σ} (h : ShipmentOK L N sh)
    (n : ℕ) : ShipmentOK L N ((redeliver L mode N)^[n] sh) := by
  induction n with
  | zero => exact h
  | succ n ih => rw [Function.iterate_succ_apply']; exact redeliver_ok L mode ih

/-- As long as a message flies, each round is one more delivery. -/
theorem redeliver_progress {N : ℤ} (mode : ConsumeMode) {sh : Shipment σ} (h : ShipmentOK L N sh) :
    ∀ n, ((redeliver L mode N)^[n] sh).fate = .inFlight →
      ((redeliver L mode N)^[n] sh).deliveries.length = sh.deliveries.length + n := by
  intro n
  induction n with
  | zero => intro _; rfl
  | succ n ih =>
    intro hn
    rw [Function.iterate_succ_apply'] at hn ⊢
    have hok := redeliver_iterate_ok L mode h n
    have hfn : ((redeliver L mode N)^[n] sh).fate = .inFlight := by
      cases hfn : ((redeliver L mode N)^[n] sh).fate with
      | inFlight => rfl
      | consumed => rw [redeliver_consumed L hfn, hfn] at hn; cases hn
      | deadLettered => exact absurd hfn hok.alive
    obtain ⟨d, s', -, -, ⟨-, heq, -⟩ | ⟨-, -, -, -, heq⟩⟩ := redeliver_inFlight L mode hok hfn
    · rw [heq] at hn; simp at hn
    · rw [heq]; simp only [List.length_append, List.length_singleton, ih hfn]; omega

/-- **Retry budget and dead letters.** Let a container of an annotated listener, whose
consumer starts with the annotation's value, go through the post-processor, and let
`N ≥ 0` be the listener's `getMaxReconsumeTimes`. Whatever the callbacks do, a message
that comes alone has at most `N + 1` deliveries; the error handler is called at most
once, and exactly when all `N + 1` failed; after `N + 1` deliveries at the latest the
last one was a success; and the message is never dead-lettered. -/
theorem retry_budget (p : RocketMQContainerPostProcessor) {ann : RocketMQMessageListener}
    (hann : L.annotation = some ann) (hover : L.overriddenMaxReconsumeTimes = none)
    (c : DefaultRocketMQListenerContainer σ P) (hl : c.rocketMQListener = some L)
    (hc : c.consumer = some ⟨ann.maxReconsumeTimes⟩) (w : σ) {N : ℤ}
    (hN : (L.getMaxReconsumeTimes (.fresh w)).1 = .ok N) (h0 : 0 ≤ N) :
    ∃ c' s' consumer, p.postProcessAfterInitialization (.container c) (.fresh w) =
        (.ok (.container c'), s') ∧ c'.consumer = some consumer ∧
      ∀ (m : MessageExt), m.reconsumeTimes = 0 → ∀ (mode : ConsumeMode) (n : ℕ),
        let sh := (redeliver L mode consumer.maxReconsumeTimes)^[n] (.first m s')
        sh.fate ≠ .deadLettered ∧ (sh.deliveries.length : ℤ) ≤ N + 1 ∧
          errorCalls sh.deliveries ≤ 1 ∧
          (errorCalls sh.deliveries = 1 ↔
            (sh.deliveries.length : ℤ) = N + 1 ∧ ∀ d ∈ sh.deliveries, d.failed = true) ∧
          (N < n → sh.fate = .consumed) ∧
          (sh.fate = .consumed → ∃ ds d, sh.deliveries = ds ++ [d] ∧ d.success = true) := by
  have hinit : L.initMaxReconsumeTimes = N := by
    obtain ⟨s, hm, -, -, -⟩ := L.getMaxReconsumeTimes_spec (.fresh w)
    rw [hm] at hN
    simpa [AbstractRocketMQListener.budget, hover, ListenerState.fresh] using hN
  obtain ⟨c', s', hp, hcons, hbud, -⟩ := postProcess_consumer L p hann hover c hl hc w
  rw [hinit] at hcons hbud
  refine ⟨c', s', _, hp, hcons, fun m hm mode n => ?_⟩
  have hfirst := first_ok L (s := s') hm (by rw [hbud]; exact h0)
  rw [hbud] at hfirst
  have hok := redeliver_iterate_ok L mode hfirst n
  have hprog := redeliver_progress L mode hfirst n
  simp only
  set sh := (redeliver L mode N)^[n] (.first m s') with hsh
  refine ⟨hok.alive, ?_⟩
  cases hf : sh.fate with
  | deadLettered => exact absurd hf hok.alive
  | inFlight =>
    obtain ⟨-, hlen, -, herr⟩ := hok.flying hf
    -- every round was a delivery that failed, so there were at most `N` of them
    have hn : sh.deliveries.length = n := by simpa [Shipment.first] using hprog hf
    refine ⟨by omega, by omega, ⟨fun h => by omega, fun h => by omega⟩, fun h => by omega, ?_⟩
    intro h; cases h
  | consumed =>
    obtain ⟨ds, d, heq, hlen, hds, herr, hs, hd⟩ := hok.landed hf
    -- only the last delivery can have called the error handler
    have hcalls : errorCalls sh.deliveries = errorCalls [d] := by rw [heq, errorCalls_append, herr]; omega
    have hlength : sh.deliveries.length = ds.length + 1 := by rw [heq]; simp
    refine ⟨by omega, ?_, ?_, fun _ => rfl, fun _ => ⟨ds, d, heq, hs⟩⟩
    · rcases hd with ⟨-, h⟩ | ⟨-, h, -⟩ <;> omega
    · rw [hcalls]
      rcases hd with ⟨hq, h⟩ | ⟨hfail, h, hN'⟩
      · refine ⟨fun h1 => by omega, fun ⟨_, hall⟩ => ?_⟩
        rw [hall d (by rw [heq]; simp)] at hq; cases hq
      · refine ⟨fun _ => ⟨by omega, fun d' hd' => ?_⟩, fun _ => h⟩
        rw [heq] at hd'
        rcases List.mem_append.1 hd' with hd' | hd'
        · exact (hds d' hd').1
        · rw [List.mem_singleton.1 hd']; exact hfail

/-- The budget at work: an annotation value of 2, and a handler and an error handler
that always throw. -/
theorem retry_budget_failing :
    let L := failingListener 2 ⟨"java.lang.IllegalArgumentException", some "XXOO"⟩
      ⟨"java.lang.IllegalStateException", none⟩
    ∃ c' s' consumer, (RocketMQContainerPostProcessor.mk {}).postProcessAfterInitialization
        (.container { rocketMQListener := some L, consumer := some ⟨2⟩ }) (.fresh ()) =
        (.ok (.container c'), s') ∧ c'.consumer = some consumer ∧
      ∀ (m : MessageExt), m.reconsumeTimes = 0 → ∀ (mode : ConsumeMode),
        ((redeliver L mode consumer.maxReconsumeTimes)^[3] (.first m s')).fate = .consumed := by
  intro L
  obtain ⟨c', s', consumer, hp, hc, h⟩ := retry_budget L ⟨{}⟩ rfl rfl
    { rocketMQListener := some L, consumer := some ⟨2⟩ } rfl rfl () (N := 2) rfl (by decide)
  exact ⟨c', s', consumer, hp, hc, fun m hm mode => (h m hm mode 3).2.2.2.2.1 (by decide)⟩

end StudyTech
