import StudyTech.Proof.Listener

/-!
# What an acknowledged message went through

`consume_settled`: when `consumeMessage` reports success, each message was dropped by
the hook, or handled, or handed to the error handler; when it reports a retry, this
holds of the messages before some message of the list, not of that one, and the later
ones were not touched. Both variants do the same.

A message that only reached an error handler which threw is acknowledged too: `error`
logs the exception and drops it (`acknowledged_unaccounted`).
-/

namespace StudyTech

open Lib

/-- The calls `seg` account for `m`: the hook dropped it, the handler took it, or the
error handler took it. -/
def Accounted (m : MessageExt) (seg : List HookCall) : Prop :=
  .before m (.ok false) ∈ seg ∨ .handle m (.ok ()) ∈ seg ∨ ∃ e, .error m e (.ok ()) ∈ seg

/-- As `Accounted`, with an error handler that may have thrown. -/
def Settled (m : MessageExt) (seg : List HookCall) : Prop :=
  .before m (.ok false) ∈ seg ∨ .handle m (.ok ()) ∈ seg ∨ ∃ e r, .error m e r ∈ seg

/-- The calls are all about `m`. -/
def About (m : MessageExt) (seg : List HookCall) : Prop := ∀ c ∈ seg, c.message = m

variable {m : MessageExt} {N : ℤ} {pre bad post seg : List HookCall} {e : JavaException}

theorem BeforeTrace.about {go : Bool} (h : BeforeTrace m pre go) : About m pre := by
  intro c hc
  cases h with
  | none => simp at hc
  | hook => simp only [List.mem_singleton] at hc; subst hc; rfl
  | swallowed => simp only [List.mem_singleton] at hc; subst hc; rfl

theorem FailTrace.about (h : FailTrace m bad e) : About m bad := by
  intro c hc
  cases h with
  | convert => simp only [List.mem_singleton] at hc; subst hc; rfl
  | handle => simp only [List.mem_cons, List.not_mem_nil, or_false] at hc; rcases hc with rfl | rfl <;> rfl

theorem AfterTrace.about (h : AfterTrace m post) : About m post := by
  intro c hc
  cases h with
  | none => simp at hc
  | hook => simp only [List.mem_singleton] at hc; subst hc; rfl

theorem About.append (h : About m pre) (h' : About m post) : About m (pre ++ post) := by
  intro c hc
  rcases List.mem_append.1 hc with hc | hc
  · exact h c hc
  · exact h' c hc

theorem Trace.about {r : Except JavaException Unit} (h : Trace m N seg r) : About m seg := by
  cases h with
  | skipped => exact (BeforeTrace.hook false).about
  | handled hpre hpost =>
    refine (hpre.about.append ?_).append hpost.about
    intro c hc
    simp only [List.mem_cons, List.not_mem_nil, or_false] at hc
    rcases hc with rfl | rfl <;> rfl
  | retry hpre hbad _ => exact hpre.about.append hbad.about
  | error r hpre hbad _ =>
    refine (hpre.about.append hbad.about).append ?_
    intro c hc
    simp only [List.mem_singleton] at hc; subst hc; rfl

/-- A message for which `onMessage` returns is settled. -/
theorem Trace.settled (h : Trace m N seg (.ok ())) : Settled m seg := by
  cases h with
  | skipped => exact Or.inl (by simp)
  | handled _ _ => exact Or.inr (Or.inl (by simp))
  | error r _ _ _ => exact Or.inr (Or.inr ⟨_, r, List.mem_append_right _ (List.mem_singleton_self _)⟩)

/-- A message for which `onMessage` throws is not. -/
theorem Trace.not_settled {e : JavaException} (h : Trace m N seg (.error e)) : ¬ Settled m seg := by
  cases h with
  -- the calls are one of six lists, none of which settles the message
  | retry hpre hbad _ => cases hpre <;> cases hbad <;> simp [Settled]

/-- On success every message was settled, by calls about it alone. -/
theorem ConsumeTrace.success {msgs : List MessageExt} {segs : List (List HookCall)}
    (h : ConsumeTrace N msgs segs true) :
    List.Forall₂ (fun m seg => Settled m seg ∧ About m seg) msgs segs := by
  generalize hb : true = b at h
  induction h with
  | nil => exact .nil
  | next ht _ ih => exact .cons ⟨ht.settled, ht.about⟩ (ih hb)
  | stop _ => cases hb

/-- On a retry the messages before one of the list were settled, it was not, and
nothing after it was touched. -/
theorem ConsumeTrace.retry {msgs : List MessageExt} {segs : List (List HookCall)}
    (h : ConsumeTrace N msgs segs false) :
    ∃ before m after segs' seg, msgs = before ++ m :: after ∧ segs = segs' ++ [seg] ∧
      List.Forall₂ (fun m seg => Settled m seg ∧ About m seg) before segs' ∧
      ¬ Settled m seg ∧ About m seg := by
  generalize hb : false = b at h
  induction h with
  | nil => cases hb
  | next ht _ ih =>
    obtain ⟨before, m, after, segs', seg, rfl, rfl, hf, hns, hab⟩ := ih hb
    exact ⟨_ :: before, m, after, _ :: segs', seg, rfl, rfl, .cons ⟨ht.settled, ht.about⟩ hf, hns, hab⟩
  | stop ht => exact ⟨[], _, _, [], _, rfl, rfl, .nil, ht.not_settled, ht.about⟩

variable {σ P : Type} (L : AbstractRocketMQListener σ P)

/-- **Every acknowledged message is settled.** The calls of `consumeMessage` come
message by message (`segs`). On success all messages are settled; on a retry those
before some message `m` are, `m` is not, and there are no calls for the messages
after it. The orderly and the concurrent variant make the same calls, leave the same
state and report the same verdict. -/
theorem consume_settled (msgs : List MessageExt) (s : ListenerState σ)
    (oc : ConsumeOrderlyContext) (cc : ConsumeConcurrentlyContext) :
    (L.consumeMessageOrderly msgs oc s).2 = (L.consumeMessageConcurrently msgs cc s).2 ∧
      ∃ segs, (L.consumeMessageOrderly msgs oc s).2.calls = s.calls ++ segs.flatten ∧
        (((L.consumeMessageOrderly msgs oc s).1 = .ok (.success, oc) ∧
          (L.consumeMessageConcurrently msgs cc s).1 = .ok (.consumeSuccess, cc) ∧
          List.Forall₂ (fun m seg => Settled m seg ∧ About m seg) msgs segs) ∨
        ((L.consumeMessageOrderly msgs oc s).1 = .ok (.suspendCurrentQueueAMoment,
            ⟨L.customProperties.suspendCurrentQueueTimeMillis⟩) ∧
          (L.consumeMessageConcurrently msgs cc s).1 = .ok (.reconsumeLater,
            ⟨L.customProperties.delayLevelWhenNextConsume⟩) ∧
          ∃ before m after segs' seg, msgs = before ++ m :: after ∧ segs = segs' ++ [seg] ∧
            List.Forall₂ (fun m seg => Settled m seg ∧ About m seg) before segs' ∧
            ¬ Settled m seg ∧ About m seg)) := by
  obtain ⟨segs, b, hres, hcalls, -, htr⟩ := L.consume_trace msgs s
  unfold AbstractRocketMQListener.consumeMessageOrderly
    AbstractRocketMQListener.consumeMessageConcurrently
  rw [L.consumeLoop_eq (ConsumeOrderlyStatus.success, oc),
    L.consumeLoop_eq (ConsumeConcurrentlyStatus.consumeSuccess, cc)]
  refine ⟨rfl, segs, hcalls, ?_⟩
  simp only [hres]
  cases b with
  | true => exact Or.inl ⟨rfl, rfl, htr.success⟩
  | false => exact Or.inr ⟨rfl, rfl, htr.retry⟩

/-- **An error handler that throws leaves an acknowledged message unaccounted for.**
The handler fails in the last delivery and so does the error handler; both variants
report success. -/
theorem acknowledged_unaccounted :
    let m : MessageExt := ⟨"topic", "id", [], 0⟩
    let L := failingListener 0 ⟨"java.lang.IllegalArgumentException", some "XXOO"⟩
      ⟨"java.lang.IllegalStateException", some "fatal"⟩
    (L.consumeMessageOrderly [m] ⟨1000⟩ (.fresh ())).1 = .ok (.success, ⟨1000⟩) ∧
      (L.consumeMessageConcurrently [m] ⟨0⟩ (.fresh ())).1 = .ok (.consumeSuccess, ⟨0⟩) ∧
      ¬ Accounted m (L.consumeMessageOrderly [m] ⟨1000⟩ (.fresh ())).2.calls := by
  intro m L
  have hcalls : (L.consumeMessageOrderly [m] ⟨1000⟩ (.fresh ())).2.calls =
      [.convert m (.ok ()), .handle m (.error ⟨"java.lang.IllegalArgumentException", some "XXOO"⟩),
        .error m ⟨"java.lang.IllegalArgumentException", some "XXOO"⟩
          (.error ⟨"java.lang.IllegalStateException", some "fatal"⟩)] := rfl
  refine ⟨rfl, rfl, ?_⟩
  rw [hcalls]
  simp [Accounted]

end StudyTech
