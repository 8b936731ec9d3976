import StudyTech.Spec.Listener

/-!
# What one call of the listener can do

`onMessage_trace` lists the calls that `onMessage` can make for a message, with its
result, whatever the callbacks do; `consume_trace` does so for the loop of
`consumeMessage`. Everything else about the listener is derived from these.
-/

namespace StudyTech

open Lib

/-- The message a call is about. -/
def HookCall.message : HookCall → MessageExt
  | .before m _ => m
  | .convert m _ => m
  | .handle m _ => m
  | .after m _ => m
  | .error m _ _ => m

/-- The calls of `before`, and whether the message goes on. -/
inductive BeforeTrace (m : MessageExt) : List HookCall → Bool → Prop
  | none : BeforeTrace m [] true
  | hook (go : Bool) : BeforeTrace m [.before m (.ok go)] go
  | swallowed (e : JavaException) : BeforeTrace m [.before m (.error e)] true

/-- The calls of a conversion or a handler that throws `e`. -/
inductive FailTrace (m : MessageExt) : List HookCall → JavaException → Prop
  | convert (e : JavaException) : FailTrace m [.convert m (.error e)] e
  | handle (e : JavaException) : FailTrace m [.convert m (.ok ()), .handle m (.error e)] e

/-- The calls of `after`. -/
inductive AfterTrace (m : MessageExt) : List HookCall → Prop
  | none : AfterTrace m []
  | hook (r : Except JavaException Bool) : AfterTrace m [.after m r]

/-- The calls of `onMessage` under the retry budget `N`, and its result. -/
inductive Trace (m : MessageExt) (N : ℤ) : List HookCall → Except JavaException Unit → Prop
  | skipped : Trace m N [.before m (.ok false)] (.ok ())
  | handled {pre post : List HookCall} : BeforeTrace m pre true → AfterTrace m post →
      Trace m N (pre ++ [.convert m (.ok ()), .handle m (.ok ())] ++ post) (.ok ())
  | retry {pre bad : List HookCall} {e : JavaException} : BeforeTrace m pre true → FailTrace m bad e →
      m.reconsumeTimes < N → Trace m N (pre ++ bad) (.error (runtimeException e.message))
  | error {pre bad : List HookCall} {e : JavaException} (r : Except JavaException Unit) :
      BeforeTrace m pre true → FailTrace m bad e → N ≤ m.reconsumeTimes →
      Trace m N (pre ++ bad ++ [.error m e r]) (.ok ())

/-- The calls of the loop of `consumeMessage`, message by message, and its verdict. -/
inductive ConsumeTrace (N : ℤ) : List MessageExt → List (List HookCall) → Bool → Prop
  | nil : ConsumeTrace N [] [] true
  | next {m : MessageExt} {msgs : List MessageExt} {seg : List HookCall} {segs : List (List HookCall)}
      {b : Bool} : Trace m N seg (.ok ()) → ConsumeTrace N msgs segs b →
      ConsumeTrace N (m :: msgs) (seg :: segs) b
  | stop {m : MessageExt} {msgs : List MessageExt} {seg : List HookCall} {e : JavaException} :
      Trace m N seg (.error e) → ConsumeTrace N (m :: msgs) [seg] false

section Perform

variable {σ α : Type} {f : Action JavaException σ α} {log : Except JavaException α → HookCall}
  {s : ListenerState σ} {w : σ}

theorem perform_ok {a : α} (h : f s.world = (.ok a, w)) :
    perform f log s = (.ok a, { s with calls := s.calls ++ [log (.ok a)], world := w }) := by
  simp only [perform, h]

theorem perform_error {e : JavaException} (h : f s.world = (.error e, w)) :
    perform f log s = (.error e, { s with calls := s.calls ++ [log (.error e)], world := w }) := by
  simp only [perform, h]

end Perform

namespace AbstractRocketMQListener

variable {σ P : Type} (L : AbstractRocketMQListener σ P)

/-- What `getMaxReconsumeTimes` returns in a state. -/
def budget (s : ListenerState σ) : ℤ :=
  L.overriddenMaxReconsumeTimes.getD (s.maxReconsumeTimes.getD L.initMaxReconsumeTimes)

theorem getMaxReconsumeTimes_spec (s : ListenerState σ) :
    ∃ s', L.getMaxReconsumeTimes s = (.ok (L.budget s), s') ∧ s'.calls = s.calls ∧
      s'.world = s.world ∧ L.budget s' = L.budget s := by
  unfold getMaxReconsumeTimes budget
  cases L.overriddenMaxReconsumeTimes with
  | some n => exact ⟨s, rfl, rfl, rfl, rfl⟩
  | none =>
    cases h : s.maxReconsumeTimes with
    | some n => exact ⟨s, rfl, rfl, rfl, by simp [h]⟩
    | none => exact ⟨_, rfl, rfl, rfl, rfl⟩

/-- Both hooks: run the processor, if there is one and its context can be had, and go on with
`default` after an exception. -/
def hook {α : Type} (default : α) (f : MessageProcessor σ → MessageContext → Act σ α) : Act σ α :=
  match L.activeProcessor with
  | none => pure default
  | some messageProcessor =>
    tryCatch
      (match L.getMessageContext with
        | .ok context => f messageProcessor context
        | .error e => throw e)
      fun _ => pure default

theorem before_eq (m : MessageExt) :
    L.before m = L.hook true fun p c => perform (p.beforeHandle m c) (.before m) := rfl

theorem after_eq (m : MessageExt) :
    L.after m = L.hook () fun p c => perform (p.beforeHandle m c) (.after m) >>= fun _ => pure () := rfl

/-- A hook does nothing, or calls the processor. -/
theorem hook_cases {α : Type} (default : α) (f : MessageProcessor σ → MessageContext → Act σ α)
    (s : ListenerState σ) : L.hook default f s = (.ok default, s) ∨
      ∃ p c, L.activeProcessor = some p ∧
        L.hook default f s = (tryCatch (f p c) fun _ => pure default : Act σ α) s := by
  unfold hook
  cases L.activeProcessor with
  | none => exact Or.inl rfl
  | some p =>
    cases L.getMessageContext with
    | error e => exact Or.inl (Action.tryCatch_error (Action.throw_apply e s))
    | ok c => exact Or.inr ⟨p, c, rfl, rfl⟩

theorem before_trace (m : MessageExt) (s : ListenerState σ) :
    ∃ seg go w, L.before m s = (.ok go, { s with calls := s.calls ++ seg, world := w }) ∧
      BeforeTrace m seg go := by
  rw [before_eq]
  rcases L.hook_cases true (fun p c => perform (p.beforeHandle m c) (.before m)) s with hskip | ⟨p, c, -, hcall⟩
  · exact ⟨[], true, s.world, by rw [hskip, List.append_nil], .none⟩
  · rw [hcall]
    rcases hf : p.beforeHandle m c s.world with ⟨r, w⟩
    cases r with
    | ok go => exact ⟨_, go, w, Action.tryCatch_ok (perform_ok hf), .hook go⟩
    | error e => exact ⟨_, true, w, Action.tryCatch_error (perform_error hf), .swallowed e⟩

theorem after_trace (m : MessageExt) (s : ListenerState σ) :
    ∃ seg w, L.after m s = (.ok (), { s with calls := s.calls ++ seg, world := w }) ∧
      AfterTrace m seg := by
  rw [after_eq]
  rcases L.hook_cases () (fun p c => perform (p.beforeHandle m c) (.after m) >>= fun _ => pure ()) s with
    hskip | ⟨p, c, -, hcall⟩
  · exact ⟨[], s.world, by rw [hskip, List.append_nil], .none⟩
  · rw [hcall]
    rcases hf : p.beforeHandle m c s.world with ⟨r, w⟩
    cases r with
    | ok go => exact ⟨_, w, Action.tryCatch_ok (Action.bind_ok (perform_ok hf)), .hook _⟩
    | error e => exact ⟨_, w, Action.tryCatch_error (Action.bind_error (perform_error hf)), .hook _⟩

theorem error_trace (m : MessageExt) (e : JavaException) (s : ListenerState σ) :
    ∃ r w, L.error m e s = (.ok (), { s with calls := s.calls ++ [.error m e r], world := w }) := by
  unfold error
  rcases hf : L.errorHandler m e s.world with ⟨r, w⟩
  cases r with
  | ok u => exact ⟨_, w, Action.tryCatch_ok (perform_ok hf)⟩
  | error e' => exact ⟨_, w, Action.tryCatch_error (perform_error hf)⟩

/-- The `try` block of `onMessage`. -/
def body (m : MessageExt) : Act σ Unit := do
  let payload ← perform (L.doConvertMessage m) fun r => .convert m (r.map fun _ => ())
  perform (L.handleMessage payload) (.handle m)
  L.after m

/-- The `try` block ends normally after a handled message, or throws what the
conversion or the handler threw. -/
theorem body_trace (m : MessageExt) (s : ListenerState σ) :
    (∃ post w, L.body m s = (.ok (), { s with
        calls := s.calls ++ ([.convert m (.ok ()), .handle m (.ok ())] ++ post), world := w }) ∧
      AfterTrace m post) ∨
    ∃ bad w e, L.body m s = (.error e, { s with calls := s.calls ++ bad, world := w }) ∧
      FailTrace m bad e := by
  unfold body
  rcases hc : L.doConvertMessage m s.world with ⟨r, w₁⟩
  cases r with
  | error e => exact Or.inr ⟨_, w₁, e, Action.bind_error (perform_error hc), .convert e⟩
  | ok payload =>
    rw [Action.bind_ok (perform_ok hc)]
    rcases hh : L.handleMessage payload w₁ with ⟨r, w₂⟩
    cases r with
    | error e =>
      refine Or.inr ⟨_, w₂, e, ?_, .handle e⟩
      rw [Action.bind_error (perform_error hh)]
      simp [Except.map]
    | ok u =>
      rw [Action.bind_ok (perform_ok hh)]
      obtain ⟨post, w₃, ha, hpost⟩ := L.after_trace m _
      refine Or.inl ⟨post, w₃, ?_, hpost⟩
      rw [ha]
      simp [Except.map]

/-- The `catch` block of `onMessage`. -/
def recover (m : MessageExt) (e : JavaException) : Act σ Unit := do
  if m.reconsumeTimes < (← L.getMaxReconsumeTimes) then throw (runtimeException e.message)
  else L.error m e

theorem onMessage_eq (m : MessageExt) :
    L.onMessage m = L.before m >>= fun go =>
      if go = true then tryCatch (L.body m) (L.recover m) else pure () := rfl

theorem recover_trace (m : MessageExt) (e : JavaException) (s : ListenerState σ) :
    ∃ s', L.budget s' = L.budget s ∧
      ((m.reconsumeTimes < L.budget s ∧ s'.calls = s.calls ∧
          L.recover m e s = (.error (runtimeException e.message), s')) ∨
        ∃ r, L.budget s ≤ m.reconsumeTimes ∧ s'.calls = s.calls ++ [.error m e r] ∧
          L.recover m e s = (.ok (), s')) := by
  obtain ⟨s₁, hm, hcalls, -, hbud⟩ := L.getMaxReconsumeTimes_spec s
  unfold recover
  rw [Action.bind_ok hm]
  by_cases hlt : m.reconsumeTimes < L.budget s
  · rw [if_pos hlt]
    exact ⟨s₁, hbud, Or.inl ⟨hlt, hcalls, rfl⟩⟩
  · rw [if_neg hlt]
    obtain ⟨r, w, herr⟩ := L.error_trace m e s₁
    exact ⟨{ s₁ with calls := s₁.calls ++ [.error m e r], world := w }, hbud,
      Or.inr ⟨r, Int.not_lt.1 hlt, by rw [hcalls], herr⟩⟩

/-- **What `onMessage` can do**, whatever the callbacks do. -/
theorem onMessage_trace (m : MessageExt) (s : ListenerState σ) :
    ∃ seg, (L.onMessage m s).2.calls = s.calls ++ seg ∧ L.budget (L.onMessage m s).2 = L.budget s ∧
      Trace m (L.budget s) seg (L.onMessage m s).1 := by
  obtain ⟨pre, go, w, hb, hpre⟩ := L.before_trace m s
  rw [onMessage_eq, Action.bind_ok hb]
  cases go with
  | false =>
    -- only a hook that returned false drops the message
    have hskip : pre = [.before m (.ok false)] := by cases hpre; rfl
    subst hskip
    exact ⟨_, rfl, rfl, .skipped⟩
  | true =>
    rw [if_pos rfl]
    rcases L.body_trace m { s with calls := s.calls ++ pre, world := w } with
      ⟨post, w', hbody, hpost⟩ | ⟨bad, w', e, hbody, hbad⟩
    · rw [Action.tryCatch_ok hbody]
      exact ⟨_, by simp only [List.append_assoc], rfl, .handled hpre hpost⟩
    · rw [Action.tryCatch_error hbody]
      obtain ⟨s₂, hbud, ⟨hlt, hcalls, hrec⟩ | ⟨r, hge, hcalls, hrec⟩⟩ := L.recover_trace m e
        { s with calls := s.calls ++ pre ++ bad, world := w' }
      · rw [hrec]
        exact ⟨_, by rw [hcalls, List.append_assoc], hbud, .retry hpre hbad hlt⟩
      · rw [hrec]
        exact ⟨_, by rw [hcalls]; simp only [List.append_assoc], hbud, .error r hpre hbad hge⟩

/-- The loop with any pair of verdicts is the loop with `true` and `false`. -/
theorem consumeLoop_eq {R : Type} (success retry : R) (msgs : List MessageExt) (s : ListenerState σ) :
    L.consumeLoop success retry msgs s =
      ((L.consumeLoop true false msgs s).1.map fun b => if b then success else retry,
        (L.consumeLoop true false msgs s).2) := by
  induction msgs generalizing s with
  | nil => rfl
  | cons m msgs ih =>
    unfold consumeLoop
    rcases L.onMessage m s with ⟨r, s'⟩
    cases r with
    | error e => rfl
    | ok u => exact ih s'

/-- **What the loop of `consumeMessage` can do.** -/
theorem consume_trace (msgs : List MessageExt) (s : ListenerState σ) :
    ∃ segs b, (L.consumeLoop true false msgs s).1 = .ok b ∧
      (L.consumeLoop true false msgs s).2.calls = s.calls ++ segs.flatten ∧
      L.budget (L.consumeLoop true false msgs s).2 = L.budget s ∧
      ConsumeTrace (L.budget s) msgs segs b := by
  induction msgs generalizing s with
  | nil => exact ⟨[], true, rfl, by simp [consumeLoop], rfl, .nil⟩
  -- the budget is the same for every message of the batch
  | cons m msgs ih =>
    obtain ⟨seg, hcalls, hbud, htr⟩ := L.onMessage_trace m s
    unfold consumeLoop
    rcases hr : L.onMessage m s with ⟨r, s'⟩
    rw [hr] at hcalls hbud htr
    cases r with
    | error e => exact ⟨[seg], false, rfl, by simpa using hcalls, hbud, .stop htr⟩
    | ok u =>
      obtain ⟨segs, b, h1, h2, h3, h4⟩ := ih s'
      simp only at hcalls hbud
      rw [hbud] at h3 h4
      exact ⟨seg :: segs, b, h1, by rw [h2, hcalls]; simp, h3, .next htr h4⟩

/-! ## What the callbacks keep, the listener keeps -/

/-- The callbacks keep an invariant of the world they act on. -/
structure CallbacksKeep (J : σ → Prop) : Prop where
  processor : ∀ p, L.activeProcessor = some p → ∀ m c, Action.Keeps J (p.beforeHandle m c)
  convert : ∀ m, Action.Keeps J (L.doConvertMessage m)
  handle : ∀ payload, Action.Keeps J (L.handleMessage payload)
  error : ∀ m e, Action.Keeps J (L.errorHandler m e)

theorem perform_keeps {α : Type} {J : σ → Prop} {f : Action JavaException σ α}
    {log : Except JavaException α → HookCall} (h : Action.Keeps J f) :
    Action.Keeps (fun s => J s.world) (perform f log) := fun s hs => h s.world hs

theorem hook_keeps {α : Type} {J : ListenerState σ → Prop} {default : α}
    {f : MessageProcessor σ → MessageContext → Act σ α}
    (hf : ∀ p, L.activeProcessor = some p → ∀ c, Action.Keeps J (f p c)) :
    Action.Keeps J (L.hook default f) := by
  intro s hs
  rcases L.hook_cases default f s with hskip | ⟨p, c, hp, hcall⟩
  · rw [hskip]
    exact hs
  · rw [hcall]
    exact (hf p hp c).tryCatch (fun _ => Action.keeps_pure _) s hs

variable {L} in
theorem onMessage_keeps {J : σ → Prop} (h : L.CallbacksKeep J) (m : MessageExt) :
    Action.Keeps (fun s => J s.world) (L.onMessage m) := by
  have hbefore : Action.Keeps (fun s => J s.world) (L.before m) :=
    L.hook_keeps fun p hp c => perform_keeps (h.processor p hp m c)
  have hafter : Action.Keeps (fun s => J s.world) (L.after m) :=
    L.hook_keeps fun p hp c => (perform_keeps (h.processor p hp m c)).bind fun _ => Action.keeps_pure _
  have hbody : Action.Keeps (fun s => J s.world) (L.body m) :=
    (perform_keeps (h.convert m)).bind fun payload => (perform_keeps (h.handle payload)).bind fun _ => hafter
  have hrecover : ∀ e, Action.Keeps (fun s => J s.world) (L.recover m e) := by
    intro e
    refine Action.Keeps.bind ?_ fun N => ?_
    · intro s hs
      obtain ⟨s', hm, -, hw, -⟩ := L.getMaxReconsumeTimes_spec s
      rw [hm]; simp only [hw]; exact hs
    · split
      · exact Action.keeps_throw _
      · exact (perform_keeps (h.error m e)).tryCatch fun _ => Action.keeps_pure _
  rw [onMessage_eq]
  refine hbefore.bind fun go => ?_
  split
  · exact hbody.tryCatch hrecover
  · exact Action.keeps_pure _

end AbstractRocketMQListener

/-- A listener of strings, without a processor, whose handler throws `e` and whose
error handler throws `e'`. -/
def failingListener (maxReconsumeTimes : ℤ) (e e' : JavaException) :
    AbstractRocketMQListener Unit String where
  className := "class FailingListener"
  annotation := some { consumerGroup := "group", maxReconsumeTimes }
  messageType := .cls "java.lang.String"
  methodParameter := some { parameterClass := "java.lang.String" }
  messageContext := some ⟨some "group", some .clustering⟩
  customProperties := {}
  resolveRequiredPlaceholders := .ok
  messageConverter := ⟨false, fun str _ _ => pure str⟩
  errorHandler := fun _ _ => throw e'
  messageProcessor := none
  decodeUtf8 := fun _ => ""
  ofString := id
  handleMessage := fun _ => throw e

end StudyTech
