import StudyTech.Spec.Repeat
import StudyTech.Proof.Listener

/-!
# Suppression of repeated messages by the listener

The listener's hook after a handled message calls `beforeHandle`, which only reads, so
no call of the listener ever records a message (`onMessage_redis`). What the hook
before a message sees is what Redis held from the start, and a message that was
handled is handled again unless that suppresses it (`no_repeat_iff`).
-/

namespace StudyTech

open Lib

/-- The handler was run. -/
def Invoked (seg : List HookCall) : Prop := ∃ m r, .handle m r ∈ seg

/-- The handler was run and returned. -/
def HandledOk (seg : List HookCall) : Prop := ∃ m, .handle m (.ok ()) ∈ seg

section Calls

variable {xs ys : List HookCall} {m : MessageExt}

theorem invoked_append : Invoked (xs ++ ys) ↔ Invoked xs ∨ Invoked ys := by
  simp only [Invoked, List.mem_append, exists_or]

theorem handledOk_append : HandledOk (xs ++ ys) ↔ HandledOk xs ∨ HandledOk ys := by
  simp only [HandledOk, List.mem_append, exists_or]

@[simp] theorem not_invoked_nil : ¬ Invoked [] := by simp [Invoked]

@[simp] theorem not_handledOk_nil : ¬ HandledOk [] := by simp [HandledOk]

@[simp] theorem invoked_before {r : Except JavaException Bool} :
    Invoked (.before m r :: xs) ↔ Invoked xs := by simp [Invoked]

@[simp] theorem handledOk_before {r : Except JavaException Bool} :
    HandledOk (.before m r :: xs) ↔ HandledOk xs := by simp [HandledOk]

@[simp] theorem invoked_convert {r : Except JavaException Unit} :
    Invoked (.convert m r :: xs) ↔ Invoked xs := by simp [Invoked]

@[simp] theorem handledOk_convert {r : Except JavaException Unit} :
    HandledOk (.convert m r :: xs) ↔ HandledOk xs := by simp [HandledOk]

@[simp] theorem invoked_handle {r : Except JavaException Unit} : Invoked (.handle m r :: xs) :=
  ⟨m, r, List.mem_cons_self⟩

@[simp] theorem handledOk_handle {r : Except JavaException Unit} :
    HandledOk (.handle m r :: xs) ↔ r = .ok () ∨ HandledOk xs := by
  simp only [HandledOk, List.mem_cons, HookCall.handle.injEq, exists_or]
  constructor
  · rintro (⟨m', -, hr⟩ | h)
    · exact Or.inl hr.symm
    · exact Or.inr h
  · rintro (hr | h)
    · exact Or.inl ⟨m, rfl, hr.symm⟩
    · exact Or.inr h

@[simp] theorem invoked_after {r : Except JavaException Bool} :
    Invoked (.after m r :: xs) ↔ Invoked xs := by simp [Invoked]

@[simp] theorem handledOk_after {r : Except JavaException Bool} :
    HandledOk (.after m r :: xs) ↔ HandledOk xs := by simp [HandledOk]

@[simp] theorem invoked_error {e : JavaException} {r : Except JavaException Unit} :
    Invoked (.error m e r :: xs) ↔ Invoked xs := by simp [Invoked]

@[simp] theorem handledOk_error {e : JavaException} {r : Except JavaException Unit} :
    HandledOk (.error m e r :: xs) ↔ HandledOk xs := by simp [HandledOk]

end Calls

variable {P : Type} (L : AbstractRocketMQListener RedisSite P) (p : RepeatConsumeProcessor)

/-- What the conversion of a message returns during an attempt. -/
def conversion (a : Attempt P) (message : MessageExt) : Except JavaException P :=
  if L.messageType.isStringClass then .ok (L.ofString (L.decodeUtf8 message.body))
  else
    let converted := match L.messageType with
      | .cls _ => a.converted
      | .parameterized _ _ =>
        if L.messageConverter.smart then a.converted else .error ⟨"java.lang.ClassCastException", none⟩
      | .typeVariable _ => .error ⟨"java.lang.ClassCastException", none⟩
    match converted with
    | .ok payload => .ok payload
    | .error _ => .error (runtimeException (some ("cannot convert message to " ++ L.messageType.toString)))

/-- The conversion of the attempt's message succeeds. -/
def Converts (a : Attempt P) : Prop := ∃ payload, conversion L a a.message = .ok payload

/-- The two attempts are deliveries of one message. -/
def SameMessage (a b : Attempt P) : Prop :=
  a.message.topic = b.message.topic ∧ a.message.msgId = b.message.msgId

/-- Redis holds no key of the attempt's message when the attempt starts. -/
def Unseen (redis : TtlStore String String) (context : MessageContext) (a : Attempt P) : Prop :=
  redis.get a.start (p.getKey a.message context) = none

/-- **Duplicate suppression**: after a run of the handler that returned, no attempt at the
same message that starts within `cacheTime` runs the handler again. -/
def NoRepeat (as : List (Attempt P)) (segs : List (List HookCall)) : Prop :=
  (as.zip segs).Pairwise fun x y => SameMessage x.1 y.1 → HandledOk x.2 →
    y.1.start < x.1.finish + secondsToMillis p.cacheTime → ¬ Invoked y.2

variable {L p}

theorem doConvertMessage_during (a : Attempt P) (m : MessageExt) (w : RedisSite) :
    (L.during p a).doConvertMessage m w = (conversion L a m, w) := by
  have hty : (L.during p a).messageType = L.messageType := rfl
  have hrethrow : ∀ (x : Action JavaException RedisSite P) (r : Except JavaException P) (e : JavaException),
      x w = (r, w) → (tryCatch x fun _ => throw e : Action JavaException RedisSite P) w =
        (match r with | .ok payload => .ok payload | .error _ => .error e, w) := by
    intro x r e hx
    cases r with
    | ok payload => exact Action.tryCatch_ok hx
    | error e' => exact Action.tryCatch_error hx
  unfold AbstractRocketMQListener.doConvertMessage conversion
  rw [hty]
  cases L.messageType.isStringClass with
  | true => rfl
  | false =>
    refine hrethrow _ _ _ ?_
    cases L.messageType with
    | cls clazz => rfl
    | parameterized raw args =>
      show (if L.messageConverter.smart then _ else _ : Action JavaException RedisSite P) w = _
      cases L.messageConverter.smart <;> rfl
    | typeVariable name => rfl

theorem beforeHandle_eq {context : MessageContext} (hmodel : context.messageModel = some .clustering)
    (m : MessageExt) (w : RedisSite) :
    p.beforeHandle m context w = (.ok (w.redis.get w.now (p.getKey m context)).isNone, w) := by
  unfold RepeatConsumeProcessor.beforeHandle TtlStore.hasKey
  rw [if_neg (by rw [hmodel]; decide)]
  cases w.redis.get w.now (p.getKey m context) <;> rfl

/-- `beforeHandle` only reads. -/
theorem beforeHandle_snd (m : MessageExt) (context : MessageContext) (w : RedisSite) :
    (p.beforeHandle m context w).2 = w := by
  unfold RepeatConsumeProcessor.beforeHandle
  split
  · rfl
  · split <;> rfl

variable (L p)

/-- **No call of the listener writes to Redis.** -/
theorem onMessage_redis (a : Attempt P) (m : MessageExt) (s : ListenerState RedisSite) :
    ((L.during p a).onMessage m s).2.world.redis = s.world.redis := by
  have hkeep : (L.during p a).CallbacksKeep fun w => w.redis = s.world.redis := by
    refine ⟨?_, ?_, fun _ _ h => h, fun _ _ _ h => h⟩
    · intro q hq m c w hw
      -- no other processor is active during the attempt
      have hq' : q = p.toMessageProcessor := by
        unfold AbstractRocketMQListener.activeProcessor at hq
        split at hq
        · exact (Option.some.inj hq).symm
        · cases hq
      subst hq'
      rw [show (p.toMessageProcessor.beforeHandle m c w).2 = w from beforeHandle_snd m c w]
      exact hw
    · intro m w hw
      rw [doConvertMessage_during]
      exact hw
  exact AbstractRocketMQListener.onMessage_keeps hkeep m s rfl

variable {L p} {context : MessageContext}

/-- The `try` block runs the handler when the conversion succeeds. -/
theorem body_during (a : Attempt P) (s : ListenerState RedisSite) :
    ∃ seg w r, (L.during p a).body a.message s = (r, { s with calls := s.calls ++ seg, world := w }) ∧
      (Invoked seg ↔ Converts L a) ∧ (HandledOk seg ↔ Converts L a ∧ a.handled = .ok ()) := by
  have hconvert := doConvertMessage_during (L := L) (p := p) a a.message s.world
  unfold AbstractRocketMQListener.body
  rcases hr : conversion L a a.message with e | payload
  · rw [hr] at hconvert
    have hnot : ¬ Converts L a := by
      rintro ⟨payload, hp⟩
      rw [hr] at hp
      cases hp
    exact ⟨_, _, _, Action.bind_error (perform_error hconvert), by simp [hnot], by simp [hnot]⟩
  · rw [hr] at hconvert
    have hyes : Converts L a := ⟨payload, hr⟩
    let s₁ : ListenerState RedisSite := { s with calls := s.calls ++ [.convert a.message (.ok ())] }
    have hperform : perform ((L.during p a).doConvertMessage a.message)
        (fun r => .convert a.message (r.map fun _ => ())) s = (.ok payload, s₁) := perform_ok hconvert
    rw [Action.bind_ok hperform]
    have hhandle : (L.during p a).handleMessage payload s₁.world =
        (a.handled, { s.world with now := a.finish }) := rfl
    rcases hres : a.handled with e | u
    · rw [hres] at hhandle
      rw [Action.bind_error (perform_error hhandle)]
      exact ⟨[.convert a.message (.ok ()), .handle a.message (.error e)], _, _,
        Prod.ext rfl (by simp [s₁]; rfl), by simp [hyes], by simp⟩
    · rw [hres] at hhandle
      rw [Action.bind_ok (perform_ok hhandle)]
      obtain ⟨post, w, hafter, -⟩ := (L.during p a).after_trace a.message _
      rw [hafter]
      exact ⟨[.convert a.message (.ok ()), .handle a.message (.ok u)] ++ post, _, _,
        Prod.ext rfl (by simp [s₁]; rfl), by simp [hyes], by simp [hyes]⟩

/-- The handler ran in the `try` block or not at all. -/
theorem tryCatch_during (a : Attempt P) (s : ListenerState RedisSite) :
    ∃ seg, (tryCatch ((L.during p a).body a.message) ((L.during p a).recover a.message) s :
        Except JavaException Unit × ListenerState RedisSite).2.calls = s.calls ++ seg ∧
      (Invoked seg ↔ Converts L a) ∧ (HandledOk seg ↔ Converts L a ∧ a.handled = .ok ()) := by
  obtain ⟨seg, w, r, hbody, hinv, hok⟩ := body_during (L := L) (p := p) a s
  rcases r with e | u
  · rw [Action.tryCatch_error hbody]
    obtain ⟨s₂, -, ⟨-, hcalls, hrec⟩ | ⟨r, -, hcalls, hrec⟩⟩ := (L.during p a).recover_trace a.message e
      { s with calls := s.calls ++ seg, world := w }
    · rw [hrec]
      exact ⟨seg, hcalls, hinv, hok⟩
    · rw [hrec]
      exact ⟨seg ++ [.error a.message e r], by rw [hcalls, List.append_assoc],
        by simp [invoked_append, hinv], by simp [handledOk_append, hok]⟩
  · rw [Action.tryCatch_ok hbody]
    exact ⟨seg, rfl, hinv, hok⟩

/-- What an attempt did: it ran the handler if Redis held no key of the message and the
conversion succeeded. -/
structure AttemptRan (L : AbstractRocketMQListener RedisSite P) (p : RepeatConsumeProcessor)
    (redis : TtlStore String String) (context : MessageContext) (a : Attempt P) (seg : List HookCall) :
    Prop where
  invoked : Invoked seg ↔ Unseen p redis context a ∧ Converts L a
  handledOk : HandledOk seg ↔ Unseen p redis context a ∧ Converts L a ∧ a.handled = .ok ()

theorem onMessage_during (hexec : L.isExecuteProcessor = true) (hctx : L.getMessageContext = .ok context)
    (hmodel : context.messageModel = some .clustering) (a : Attempt P) (s : ListenerState RedisSite)
    (hnow : s.world.now = a.start) :
    ∃ seg, ((L.during p a).onMessage a.message s).2.calls = s.calls ++ seg ∧
      AttemptRan L p s.world.redis context a seg := by
  set go := (s.world.redis.get a.start (p.getKey a.message context)).isNone with hgo
  have hactive : (L.during p a).activeProcessor = some p.toMessageProcessor := by
    unfold AbstractRocketMQListener.activeProcessor
    rw [if_pos (show (L.during p a).isExecuteProcessor = true from hexec)]
    rfl
  have hbefore : (L.during p a).before a.message s =
      (.ok go, { s with calls := s.calls ++ [.before a.message (.ok go)] }) := by
    unfold AbstractRocketMQListener.before
    rw [hactive, show (L.during p a).getMessageContext = .ok context from hctx, hgo, ← hnow]
    exact Action.tryCatch_ok (perform_ok (beforeHandle_eq hmodel a.message s.world))
  rw [AbstractRocketMQListener.onMessage_eq, Action.bind_ok hbefore]
  by_cases hunseen : Unseen p s.world.redis context a
  · rw [if_pos (by rw [hgo, hunseen]; rfl)]
    obtain ⟨seg, hcalls, hinv, hok⟩ := tryCatch_during (L := L) (p := p) a
      { s with calls := s.calls ++ [.before a.message (.ok go)] }
    exact ⟨_, by rw [hcalls, List.append_assoc], by simp [hinv, hunseen], by simp [hok, hunseen]⟩
  · rw [if_neg (by simpa [hgo, Unseen] using hunseen)]
    exact ⟨_, rfl, by simp [hunseen], by simp [hunseen]⟩

/-- Every attempt of a sequence finds in Redis what was there from the start. -/
theorem runAttempts_ran (hexec : L.isExecuteProcessor = true)
    (hctx : L.getMessageContext = .ok context) (hmodel : context.messageModel = some .clustering)
    (as : List (Attempt P)) (s : ListenerState RedisSite) :
    List.Forall₂ (AttemptRan L p s.world.redis context) as (runAttempts L p s as) := by
  induction as generalizing s with
  | nil => exact .nil
  | cons a as ih =>
    let arrived : ListenerState RedisSite := { s with world := { s.world with now := a.start } }
    obtain ⟨seg, hcalls, hran⟩ := onMessage_during (p := p) hexec hctx hmodel a arrived rfl
    have hrest := ih ((L.during p a).onMessage a.message arrived).2
    rw [onMessage_redis] at hrest
    refine .cons ?_ hrest
    show AttemptRan L p s.world.redis context a
      (((L.during p a).onMessage a.message arrived).2.calls.drop s.calls.length)
    rw [hcalls, List.drop_left]
    exact hran

/-- A relation between the elements of a zip, read off the first list. -/
theorem pairwise_zip_iff {α β : Type} {R : α → β → Prop} {S : α × β → α × β → Prop} {T : α → α → Prop}
    (hST : ∀ a b x y, R a x → R b y → (S (a, x) (b, y) ↔ T a b)) {as : List α} {xs : List β}
    (h : List.Forall₂ R as xs) : (as.zip xs).Pairwise S ↔ as.Pairwise T := by
  induction h with
  | nil => simp
  | @cons a x as xs hax hrest ih =>
    rw [List.zip_cons_cons, List.pairwise_cons, List.pairwise_cons, ih]
    -- the first attempt against each of the later ones
    have hhead : (∀ y ∈ as.zip xs, S (a, x) y) ↔ ∀ b ∈ as, T a b := by
      clear ih
      induction hrest with
      | nil => simp
      | cons hby _ ih => simp only [List.zip_cons_cons, List.forall_mem_cons, ih, hST _ _ _ _ hax hby]
    rw [hhead]

/-- **When repeats are suppressed.** For any calls, redeliveries and outcomes, the
listener suppresses repeats exactly when no message is delivered twice within
`cacheTime`, handled the first time and convertible the second, with no key of it in
Redis from before the first call. -/
theorem no_repeat_iff (hexec : L.isExecuteProcessor = true)
    (hctx : L.getMessageContext = .ok context) (hmodel : context.messageModel = some .clustering)
    (s : ListenerState RedisSite) (as : List (Attempt P)) :
    NoRepeat p as (runAttempts L p s as) ↔
      as.Pairwise fun a b => SameMessage a b → b.start < a.finish + secondsToMillis p.cacheTime →
        ¬ (Unseen p s.world.redis context a ∧ Converts L a ∧ a.handled = .ok () ∧
          Unseen p s.world.redis context b ∧ Converts L b) := by
  refine pairwise_zip_iff ?_ (runAttempts_ran hexec hctx hmodel as s)
  intro a b x y hx hy
  rw [hx.handledOk, hy.invoked]
  constructor
  · rintro h hsame htime ⟨h₁, h₂, h₃, h₄⟩
    exact h hsame ⟨h₁, h₂, h₃⟩ htime h₄
  · rintro h hsame ⟨h₁, h₂, h₃⟩ htime h₄
    exact h hsame htime ⟨h₁, h₂, h₃, h₄⟩

/-- A listener of strings in the group `order`. -/
def orderListener : AbstractRocketMQListener RedisSite String where
  className := "class OrderListener"
  annotation := some { consumerGroup := "order" }
  messageType := .cls "java.lang.String"
  methodParameter := some { parameterClass := "java.lang.String" }
  messageContext := none
  customProperties := {}
  resolveRequiredPlaceholders := .ok
  messageConverter := ⟨false, fun str _ _ => pure str⟩
  errorHandler := fun _ _ => pure ()
  messageProcessor := none
  decodeUtf8 := fun _ => "paid"
  ofString := id
  handleMessage := fun _ => pure ()

/-- A delivery of the order message that takes ten milliseconds. -/
def orderAttempt (reconsumeTimes : ℤ) (start : ℕ) (handled : Except JavaException Unit) : Attempt String :=
  ⟨⟨"orders", "7F0001", [], reconsumeTimes⟩, start, .ok "", handled, start + 10, .ok ()⟩

/-- A message that fails once and is then handled. -/
theorem no_repeat_iff_after_failure :
    let p := repeatConsumeProcessor orderListener.customProperties
    let as := [orderAttempt 0 0 (.error (runtimeException none)), orderAttempt 1 1000 (.ok ())]
    NoRepeat p as (runAttempts orderListener p (.fresh ⟨0, .empty⟩) as) := by
  intro p as
  refine (no_repeat_iff rfl rfl rfl _ as).2 ?_
  simp [as, orderAttempt]

/-- **A handled message is handled again**: the second delivery comes a second after the first. -/
theorem handled_twice :
    let p := repeatConsumeProcessor orderListener.customProperties
    let as := [orderAttempt 0 0 (.ok ()), orderAttempt 1 1000 (.ok ())]
    ¬ NoRepeat p as (runAttempts orderListener p (.fresh ⟨0, .empty⟩) as) := by
  intro p as
  let calls (m : MessageExt) : List HookCall :=
    [.before m (.ok true), .convert m (.ok ()), .handle m (.ok ()), .after m (.ok true)]
  have hsegs : runAttempts orderListener p (.fresh ⟨0, .empty⟩) as =
      [calls ⟨"orders", "7F0001", [], 0⟩, calls ⟨"orders", "7F0001", [], 1⟩] := rfl
  rw [hsegs]
  simp [NoRepeat, as, calls, orderAttempt, SameMessage, p, repeatConsumeProcessor, orderListener,
    secondsToMillis]

end StudyTech
