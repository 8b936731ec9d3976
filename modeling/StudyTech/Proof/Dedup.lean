import Mathlib.Data.List.Induction
import StudyTech.Lib.Split
import StudyTech.Spec.Repeat

/-!
# An exact store of what was handled

The key of a message is made of the prefix, the topic, the group and the id, with colons
between them. Topics and groups have no colon, so the key tells messages of different
topics, groups or ids apart (`getKey_inj`), and `beforeHandle` returns false exactly for what
was recorded within the last `cacheTime` (`exact_dedup`).
-/

namespace StudyTech

open Lib

/-- The topic and the group are names without a colon. -/
structure ColonFree (message : MessageExt) (context : MessageContext) : Prop where
  topic : ':' ∉ message.topic.toList
  group : ∃ group, context.consumerGroup = some group ∧ ':' ∉ group.toList

/-- The event records the message of the context, and is not older than `cacheTime` at `t`. -/
def RepeatConsumeProcessor.Recorded (p : RepeatConsumeProcessor) (message : MessageExt) (context : MessageContext)
    (t : ℕ) (e : HookEvent) : Prop :=
  e.hook = .afterHandle ∧ e.context.messageModel ≠ some .broadcasting ∧ e.message.topic = message.topic ∧
    e.context.consumerGroup = context.consumerGroup ∧ e.message.msgId = message.msgId ∧ e.time ≤ t ∧
    t < e.time + secondsToMillis p.cacheTime

variable {p : RepeatConsumeProcessor} {m m' : MessageExt} {c c' : MessageContext} {e : HookEvent}
  {events : List HookEvent} {t : ℕ}

/-- **The key tells apart what differs in topic, group or id.** -/
theorem getKey_inj (h : ColonFree m c) (h' : ColonFree m' c') :
    p.getKey m c = p.getKey m' c' ↔
      m.topic = m'.topic ∧ c.consumerGroup = c'.consumerGroup ∧ m.msgId = m'.msgId := by
  obtain ⟨g, hg, hgroup⟩ := h.group
  obtain ⟨g', hg', hgroup'⟩ := h'.group
  unfold RepeatConsumeProcessor.getKey
  rw [hg, hg', Option.some_inj]
  simp only [Option.getD_some, String.append_assoc]
  -- the prefix is the same; the topic and the group end at the next colon
  rw [String.append_right_inj, String.append_right_inj, colon_inj h.topic h'.topic, colon_inj hgroup hgroup']

/-- A recording call writes the key of its message, any other leaves the store. -/
theorem invoke_redis (site : RedisSite) (e : HookEvent) :
    (p.invoke site e).redis =
      if e.hook = .afterHandle ∧ e.context.messageModel ≠ some .broadcasting ∧ 0 < p.cacheTime then
        site.redis.set e.time (p.getKey e.message e.context) "1" (secondsToMillis p.cacheTime)
      else site.redis := by
  unfold RepeatConsumeProcessor.invoke
  cases e.hook with
  | beforeHandle =>
    unfold RepeatConsumeProcessor.beforeHandle
    simp only [reduceCtorEq, false_and, if_false]
    split
    · rfl
    · split <;> rfl
  | afterHandle =>
    unfold RepeatConsumeProcessor.afterHandle
    by_cases hmodel : e.context.messageModel = some .broadcasting
    · simp [hmodel]
    · by_cases hcache : p.cacheTime ≤ 0
      · have hnot : ¬ 0 < p.cacheTime := by omega
        simp [hmodel, hcache, hnot]
      · have hpos : 0 < p.cacheTime := by omega
        simp [hmodel, hcache, hpos]

theorem secondsToMillis_pos {seconds : ℤ} : 0 < secondsToMillis seconds ↔ 0 < seconds := by
  unfold secondsToMillis
  omega

/-- **The keys that are there**, after any sequence of calls: those that were recorded within
the last `cacheTime`. -/
theorem hasKey_invokeAll (hsorted : events.Pairwise fun e e' => e.time ≤ e'.time)
    (hnames : ∀ e ∈ events, ColonFree e.message e.context) (hpast : ∀ e ∈ events, e.time ≤ t) (h : ColonFree m c) :
    (p.invokeAll events).redis.hasKey t (p.getKey m c) = true ↔ ∃ e ∈ events, p.Recorded m c t e := by
  induction events using List.reverseRecOn with
  | nil => simp [RepeatConsumeProcessor.invokeAll, TtlStore.hasKey]
  | append_singleton events e ih =>
    obtain ⟨hsorted, -, hlast⟩ := List.pairwise_append.1 hsorted
    have hold := ih hsorted (fun e' he' => hnames e' (List.mem_append_left _ he'))
      fun e' he' => hpast e' (List.mem_append_left _ he')
    have he : e ∈ events ++ [e] := List.mem_append_right _ (List.mem_singleton_self e)
    have hstep : p.invokeAll (events ++ [e]) = p.invoke (p.invokeAll events) e := by
      simp [RepeatConsumeProcessor.invokeAll]
    have hkey := getKey_inj (p := p) h (hnames e he)
    rw [hstep, invoke_redis]
    simp only [List.mem_append, List.mem_singleton, or_and_right, exists_or, exists_eq_left]
    split
    · rename_i hrec
      obtain ⟨hhook, hmodel, hcache⟩ := hrec
      rw [TtlStore.hasKey_set, hkey, hold]
      constructor
      · rintro (⟨⟨htopic, hgroup, hid⟩, ht⟩ | ⟨-, hrec⟩)
        · exact Or.inr ⟨hhook, hmodel, htopic.symm, hgroup.symm, hid.symm, hpast e he, ht⟩
        · exact Or.inl hrec
      · rintro (⟨e', he', hrec⟩ | ⟨-, -, htopic, hgroup, hid, -, ht⟩)
        · by_cases hsame : m.topic = e.message.topic ∧ c.consumerGroup = e.context.consumerGroup ∧
            m.msgId = e.message.msgId
          · -- the new record of the message is the younger one
            have hle : e'.time ≤ e.time := hlast e' he' e (List.mem_singleton_self e)
            exact Or.inl ⟨hsame, Nat.lt_of_lt_of_le hrec.2.2.2.2.2.2 (Nat.add_le_add_right hle _)⟩
          · exact Or.inr ⟨fun heq => hsame (hkey.1 heq), e', he', hrec⟩
        · exact Or.inl ⟨⟨htopic.symm, hgroup.symm, hid.symm⟩, ht⟩
    · rename_i hnot
      rw [hold]
      constructor
      · exact Or.inl
      · rintro (hrec | ⟨hhook, hmodel, -, -, -, htime, ht⟩)
        · exact hrec
        · have hpos : 0 < secondsToMillis p.cacheTime := by omega
          exact absurd ⟨hhook, hmodel, secondsToMillis_pos.1 hpos⟩ hnot

/-- **`RepeatConsumeProcessor` is an exact store of what was handled.** After any sequence of
calls of the two hooks, `beforeHandle` returns false if and only if the context is not
broadcasting and `afterHandle` was called for the same topic, group and id within the last
`cacheTime`; otherwise it returns true, and it changes nothing. -/
theorem exact_dedup (p : RepeatConsumeProcessor) {events : List HookEvent} {m : MessageExt} {c : MessageContext}
    {t : ℕ} (hsorted : events.Pairwise fun e e' => e.time ≤ e'.time)
    (hnames : ∀ e ∈ events, ColonFree e.message e.context) (hpast : ∀ e ∈ events, e.time ≤ t) (h : ColonFree m c) :
    let site : RedisSite := { p.invokeAll events with now := t }
    ∃ b, p.beforeHandle m c site = (.ok b, site) ∧
      (b = false ↔ c.messageModel ≠ some .broadcasting ∧ ∃ e ∈ events, p.Recorded m c t e) := by
  intro site
  have hkeys : site.redis.hasKey site.now (p.getKey m c) = true ↔ ∃ e ∈ events, p.Recorded m c t e :=
    hasKey_invokeAll hsorted hnames hpast h
  unfold RepeatConsumeProcessor.beforeHandle
  by_cases hmodel : c.messageModel = some .broadcasting
  · exact ⟨true, if_pos hmodel, by simp [hmodel]⟩
  · by_cases hkey : site.redis.hasKey site.now (p.getKey m c) = true
    · refine ⟨false, ?_, iff_of_true rfl ⟨hmodel, hkeys.1 hkey⟩⟩
      rw [if_neg hmodel, if_pos hkey]
    · refine ⟨true, ?_, iff_of_false (fun hb => nomatch hb) fun hrec => hkey (hkeys.2 hrec.2)⟩
      rw [if_neg hmodel, if_neg hkey]

/-- A message that was handled at 0 and at 3000 s is a repeat at 4000 s, for the second record. -/
theorem exact_dedup_refreshed :
    let p : RepeatConsumeProcessor := ⟨"rocketmq:repeat", 3600⟩
    let m : MessageExt := ⟨"orders", "a:b", [], 0⟩
    let c : MessageContext := ⟨some "group", some .clustering⟩
    let events : List HookEvent := [⟨0, .afterHandle, m, c⟩, ⟨3000000, .afterHandle, m, c⟩]
    (p.beforeHandle m c { p.invokeAll events with now := 4000000 }).1 = .ok false := by
  intro p m c events
  have hfree : ColonFree m c := ⟨by decide, "group", rfl, by decide⟩
  have hnames : ∀ e ∈ events, ColonFree e.message e.context := by
    intro e he
    rcases List.mem_cons.1 he with rfl | he
    · exact hfree
    · obtain rfl := List.mem_singleton.1 he
      exact hfree
  have hsorted : events.Pairwise fun e e' => e.time ≤ e'.time := by decide
  obtain ⟨b, hb, hiff⟩ := exact_dedup p (t := 4000000) hsorted hnames (by decide) hfree
  have hfalse : b = false :=
    hiff.2 ⟨by decide, ⟨3000000, .afterHandle, m, c⟩, by decide, by decide, by decide, rfl, rfl,
    rfl, by decide, by decide⟩
  rw [hb, hfalse]

end StudyTech
