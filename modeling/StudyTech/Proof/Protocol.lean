import Mathlib.Order.Nat
import StudyTech.Spec.Repeat

/-!
# The repeat-consume protocol under concurrency

The key of a message is read before its handler and written after it, so a recorded
message suppresses every delivery that comes later (`recorded_suppresses`), and
deliveries that do not overlap run one handler to completion between them. Deliveries
that overlap can all complete (`both_complete`).
-/

namespace StudyTech

open Lib

/-- The handler completed normally. -/
def Completed (ph : Phase) : Prop := ph = .handled ∨ ph = .recorded

instance (ph : Phase) : Decidable (Completed ph) := inferInstanceAs (Decidable (_ ∨ _))

/-- The delivery passed its first hook and did not fail. -/
def Busy (ph : Phase) : Prop := ph = .running ∨ Completed ph

/-- The phase is a last one. -/
def Final (ph : Phase) : Prop := ph = .skipped ∨ ph = .failed ∨ ph = .recorded

/-- A delivery starts only while no other one is between its two hooks. -/
def Serial {D : Type} (s : Protocol D) : ProtocolLabel D → Prop
  | .before _ => ∀ d, s.phase d ≠ .running ∧ s.phase d ≠ .handled
  | _ => True

variable {D : Type} [DecidableEq D] {p : RepeatConsumeProcessor} {message : D → MessageExt}
  {context : MessageContext} {topic msgId : String}

/-- The store holds the message's key. -/
def Held (p : RepeatConsumeProcessor) (context : MessageContext) (topic msgId : String) (site : RedisSite) : Prop :=
  site.redis.get site.now (p.getKey ⟨topic, msgId, [], 0⟩ context) ≠ none

/-- The clock does not let a key expire that a delivery recorded. -/
def KeyStays (p : RepeatConsumeProcessor) (context : MessageContext) (topic msgId : String) (s : Protocol D) :
    ProtocolLabel D → Prop
  | .advance ms => ∀ d, s.phase d = .recorded → Held p context topic msgId s.site →
      Held p context topic msgId { s.site with now := s.site.now + ms }
  | _ => True

theorem getKey_congr {m : MessageExt} (htopic : m.topic = topic) (hid : m.msgId = msgId) :
    p.getKey m context = p.getKey ⟨topic, msgId, [], 0⟩ context := by
  unfold RepeatConsumeProcessor.getKey
  rw [htopic, hid]

theorem afterHandle_eq (hmodel : context.messageModel = some .clustering) (hcache : 0 < p.cacheTime)
    (m : MessageExt) (w : RedisSite) :
    (p.afterHandle m context w).2 = { w with
      redis := w.redis.set w.now (p.getKey m context) "1" (secondsToMillis p.cacheTime) } := by
  unfold RepeatConsumeProcessor.afterHandle
  rw [if_neg (by rw [hmodel]; decide), if_neg (by omega)]

/-- **What a step can do.** -/
theorem protocolStep_cases (hmodel : context.messageModel = some .clustering) {s s' : Protocol D}
    {l : ProtocolLabel D} (h : protocolStep p message context s l = some s') :
    (∃ d, l = .before d ∧ s.phase d = .waiting ∧ s'.site = s.site ∧
      ((s.site.redis.get s.site.now (p.getKey (message d) context) = none ∧
          s'.phase = Function.update s.phase d .running) ∨
        (s.site.redis.get s.site.now (p.getKey (message d) context) ≠ none ∧
          s'.phase = Function.update s.phase d .skipped))) ∨
    (∃ d ok, l = .handle d ok ∧ s.phase d = .running ∧ s'.site = s.site ∧
      s'.phase = Function.update s.phase d (if ok then .handled else .failed)) ∨
    (∃ d, l = .after d ∧ s.phase d = .handled ∧
      s'.site = (p.afterHandle (message d) context s.site).2 ∧
      s'.phase = Function.update s.phase d .recorded) ∨
    (∃ ms, l = .advance ms ∧ s'.site = { s.site with now := s.site.now + ms } ∧ s'.phase = s.phase) := by
  cases l with
  | before d =>
    refine Or.inl ⟨d, rfl, ?_⟩
    simp only [protocolStep] at h
    by_cases hw : s.phase d = .waiting
    · rw [if_pos hw] at h
      cases hg : s.site.redis.get s.site.now (p.getKey (message d) context) with
      | none =>
        have hb : p.beforeHandle (message d) context s.site = (.ok true, s.site) := by
          simp [RepeatConsumeProcessor.beforeHandle, hmodel, TtlStore.hasKey, hg]
        rw [hb] at h
        cases h
        exact ⟨hw, rfl, Or.inl ⟨rfl, rfl⟩⟩
      | some v =>
        have hb : p.beforeHandle (message d) context s.site = (.ok false, s.site) := by
          simp [RepeatConsumeProcessor.beforeHandle, hmodel, TtlStore.hasKey, hg]
        rw [hb] at h
        cases h
        exact ⟨hw, rfl, Or.inr ⟨by simp, rfl⟩⟩
    · rw [if_neg hw] at h
      cases h
  | handle d ok =>
    refine Or.inr (Or.inl ⟨d, ok, rfl, ?_⟩)
    simp only [protocolStep, Option.ite_none_right_eq_some] at h
    obtain ⟨hr, h⟩ := h
    cases h
    exact ⟨hr, rfl, rfl⟩
  | after d =>
    refine Or.inr (Or.inr (Or.inl ⟨d, rfl, ?_⟩))
    simp only [protocolStep, Option.ite_none_right_eq_some] at h
    obtain ⟨hh, h⟩ := h
    cases h
    exact ⟨hh, rfl, rfl⟩
  | advance ms =>
    cases h
    exact Or.inr (Or.inr (Or.inr ⟨ms, rfl, rfl, rfl⟩))

/-- A last phase stays. -/
theorem protocolStep_final (hmodel : context.messageModel = some .clustering) {s s' : Protocol D}
    {l : ProtocolLabel D} (h : protocolStep p message context s l = some s') {d : D} {ph : Phase}
    (hfin : Final ph) (hd : s.phase d = ph) : s'.phase d = ph := by
  -- the delivery that steps is in a phase that is not a last one
  have hother : ∀ e ph', ¬ Final (s.phase e) → Function.update s.phase e ph' d = ph := by
    intro e ph' he
    have hne : d ≠ e := by rintro rfl; exact he (hd ▸ hfin)
    rw [Function.update_of_ne hne]
    exact hd
  rcases protocolStep_cases hmodel h with ⟨e, -, he, -, ⟨-, hph⟩ | ⟨-, hph⟩⟩ | ⟨e, ok, -, he, -, hph⟩ |
    ⟨e, -, he, -, hph⟩ | ⟨ms, -, -, hph⟩
  · rw [hph]; exact hother e _ (by rw [he]; simp [Final])
  · rw [hph]; exact hother e _ (by rw [he]; simp [Final])
  · rw [hph]; exact hother e _ (by rw [he]; simp [Final])
  · rw [hph]; exact hother e _ (by rw [he]; simp [Final])
  · rw [hph]; exact hd

/-- **What the runs keep**: a message that is recorded has its key. -/
def KeyKept (p : RepeatConsumeProcessor) (context : MessageContext) (topic msgId : String) (s : Protocol D) : Prop :=
  ∀ d, s.phase d = .recorded → Held p context topic msgId s.site

theorem keyKept_step (hmodel : context.messageModel = some .clustering) (hcache : 0 < p.cacheTime)
    (hmsg : ∀ d, (message d).topic = topic ∧ (message d).msgId = msgId) {s s' : Protocol D}
    {l : ProtocolLabel D} (hkept : KeyKept p context topic msgId s) (hstays : KeyStays p context topic msgId s l)
    (h : protocolStep p message context s l = some s') : KeyKept p context topic msgId s' := by
  -- a step that records nothing and keeps the site
  have hsame : ∀ e ph, s'.site = s.site → s'.phase = Function.update s.phase e ph →
      ph ≠ .recorded → KeyKept p context topic msgId s' := by
    intro e ph hsite hph hne d hd
    rw [hsite]
    by_cases hde : d = e
    · subst hde; rw [hph, Function.update_self] at hd; exact absurd hd hne
    · rw [hph, Function.update_of_ne hde] at hd; exact hkept d hd
  rcases protocolStep_cases hmodel h with ⟨e, -, -, hsite, ⟨-, hph⟩ | ⟨-, hph⟩⟩ |
    ⟨e, ok, -, -, hsite, hph⟩ | ⟨e, -, -, hsite, -⟩ | ⟨ms, rfl, hsite, hph⟩
  · exact hsame e _ hsite hph (by decide)
  · exact hsame e _ hsite hph (by decide)
  · exact hsame e _ hsite hph (by cases ok <;> decide)
  · -- the key is set for `cacheTime` from now
    intro d _
    have httl : 0 < secondsToMillis p.cacheTime := by
      unfold secondsToMillis
      omega
    rw [hsite, afterHandle_eq hmodel hcache, getKey_congr (hmsg e).1 (hmsg e).2]
    simp only [Held, TtlStore.get_set_self]
    rw [if_pos (by omega)]
    simp
  · intro d hd
    rw [hph] at hd
    rw [hsite]
    exact hstays d hd (hkept d hd)

/-- What serial runs keep: at most one delivery runs its handler, or has completed it. -/
def OneBusy (s : Protocol D) : Prop :=
  ∀ d d', Busy (s.phase d) → Busy (s.phase d') → d = d'

theorem oneBusy_step (hmodel : context.messageModel = some .clustering)
    (hmsg : ∀ d, (message d).topic = topic ∧ (message d).msgId = msgId) {s s' : Protocol D}
    {l : ProtocolLabel D} (hkept : KeyKept p context topic msgId s) (hone : OneBusy s)
    (hser : Serial s l) (h : protocolStep p message context s l = some s') : OneBusy s' := by
  -- a step after which only deliveries are busy that were busy before
  have hfewer : ∀ e ph, s'.phase = Function.update s.phase e ph → (Busy ph → Busy (s.phase e)) →
      OneBusy s' := by
    intro e ph hph hbusy d d' hd hd'
    have hback : ∀ x, Busy (s'.phase x) → Busy (s.phase x) := by
      intro x hx
      rw [hph] at hx
      by_cases hxe : x = e
      · subst hxe; rw [Function.update_self] at hx; exact hbusy hx
      · rwa [Function.update_of_ne hxe] at hx
    exact hone d d' (hback d hd) (hback d' hd')
  rcases protocolStep_cases hmodel h with ⟨e, rfl, -, -, ⟨hfree, hph⟩ | ⟨-, hph⟩⟩ |
    ⟨e, ok, -, he, -, hph⟩ | ⟨e, -, he, -, hph⟩ | ⟨ms, -, -, hph⟩
  · -- the key is free, so nothing was recorded, and nothing else is between its hooks
    have hidle : ∀ x, ¬ Busy (s.phase x) := by
      rintro x (hx | hx | hx)
      · exact (hser x).1 hx
      · exact (hser x).2 hx
      · have hheld := hkept x hx
        unfold Held at hheld
        rw [← getKey_congr (hmsg e).1 (hmsg e).2] at hheld
        exact hheld hfree
    have honly : ∀ x, Busy (s'.phase x) → x = e := by
      intro x hx
      by_contra hxe
      rw [hph, Function.update_of_ne hxe] at hx
      exact hidle x hx
    intro d d' hd hd'
    rw [honly d hd, honly d' hd']
  · exact hfewer e _ hph (by simp [Busy, Completed])
  · exact hfewer e _ hph (fun _ => Or.inl he)
  · exact hfewer e _ hph (fun _ => Or.inr (Or.inl he))
  · intro d d'
    rw [hph]
    exact hone d d'

/-- The second hook records the delivery. -/
theorem after_recorded (hmodel : context.messageModel = some .clustering) {s s' : Protocol D} {d : D}
    (h : protocolStep p message context s (.after d) = some s') : s'.phase d = .recorded := by
  rcases protocolStep_cases hmodel h with ⟨e, hl, -⟩ | ⟨e, ok, hl, -⟩ | ⟨e, hl, -, -, hph⟩ | ⟨ms, hl, -⟩
  · cases hl
  · cases hl
  · cases hl; rw [hph, Function.update_self]
  · cases hl

/-- The first hook drops the delivery while the key is held. -/
theorem before_skipped (hmodel : context.messageModel = some .clustering)
    (hmsg : ∀ d, (message d).topic = topic ∧ (message d).msgId = msgId) {s s' : Protocol D} {d : D}
    (hheld : Held p context topic msgId s.site) (h : protocolStep p message context s (.before d) = some s') :
    s'.phase d = .skipped := by
  rcases protocolStep_cases hmodel h with ⟨e, hl, -, -, ⟨hfree, -⟩ | ⟨-, hph⟩⟩ | ⟨e, ok, hl, -⟩ |
    ⟨e, hl, -⟩ | ⟨ms, hl, -⟩
  · rw [getKey_congr (hmsg e).1 (hmsg e).2] at hfree
    exact absurd hfree hheld
  · cases hl; rw [hph, Function.update_self]
  · cases hl
  · cases hl
  · cases hl

/-- **A recorded message suppresses its later deliveries.** In a run in which no recorded
key expires, every delivery whose first hook runs after the second hook of another one
is dropped. If no first hook runs between the hooks of another delivery, at most one
delivery completes its handler. -/
theorem recorded_suppresses (hmodel : context.messageModel = some .clustering) (hcache : 0 < p.cacheTime)
    (hmsg : ∀ d, (message d).topic = topic ∧ (message d).msgId = msgId) {s s' : Protocol D}
    {ls : List (ProtocolLabel D)} (hinit : ∀ d, s.phase d = .waiting)
    (hrun : exec (protocolStep p message context) s ls = some s')
    (hstays : Along (protocolStep p message context) (KeyStays p context topic msgId) s ls) :
    (∀ l₁ l₂ d d', ls = l₁ ++ .after d :: l₂ → .before d' ∈ l₂ → s'.phase d' = .skipped) ∧
      (Along (protocolStep p message context) Serial s ls →
        ∀ d d', Completed (s'.phase d) → Completed (s'.phase d') → d = d') := by
  have hkey : KeyKept p context topic msgId s := fun d hd => by rw [hinit d] at hd; cases hd
  constructor
  · rintro l₁ l₂ d d' rfl hmem
    obtain ⟨l₃, l₄, rfl⟩ := List.append_of_mem hmem
    -- the states before and after the hooks of `d` and `d'`
    obtain ⟨s₁, hrun₁, hrun⟩ := exec_append_inv hrun
    obtain ⟨s₂, hafter, hrun⟩ := exec_cons_inv hrun
    obtain ⟨s₃, hrun₃, hrun⟩ := exec_append_inv hrun
    obtain ⟨s₄, hbefore, hrun₄⟩ := exec_cons_inv hrun
    -- the condition on the two parts of the run
    obtain ⟨hstays₁, hstays⟩ := along_append.1 hstays
    obtain ⟨hstays₂, hstays⟩ := along_cons.1 (hstays s₁ hrun₁)
    obtain ⟨hstays₃, -⟩ := along_append.1 (hstays s₂ hafter)
    have hstep : ∀ a l b, KeyKept p context topic msgId a → KeyStays p context topic msgId a l →
        protocolStep p message context a l = some b → KeyKept p context topic msgId b :=
      fun _ _ _ ha hok hab => keyKept_step hmodel hcache hmsg ha hok hab
    have hkey₁ : KeyKept p context topic msgId s₁ := inv_of_along hstep hkey hstays₁ hrun₁
    have hkey₃ : KeyKept p context topic msgId s₃ :=
      inv_of_along hstep (hstep _ _ _ hkey₁ hstays₂ hafter) hstays₃ hrun₃
    have hrec₃ : s₃.phase d = .recorded :=
      inv_of_exec (fun a l b ha hab => protocolStep_final hmodel hab (Or.inr (Or.inr rfl)) ha)
        (after_recorded hmodel hafter) hrun₃
    have hskip : s₄.phase d' = .skipped := before_skipped hmodel hmsg (hkey₃ d hrec₃) hbefore
    exact inv_of_exec (fun a l b ha hab => protocolStep_final hmodel hab (Or.inl rfl) ha) hskip hrun₄
  · intro hser d d' hd hd'
    have hend : KeyKept p context topic msgId s' ∧ OneBusy s' :=
      inv_of_along (I := fun a => KeyKept p context topic msgId a ∧ OneBusy a)
        (fun a l b ha hok hab =>
          ⟨keyKept_step hmodel hcache hmsg ha.1 hok.1 hab, oneBusy_step hmodel hmsg ha.1 ha.2 hok.2 hab⟩)
        ⟨hkey, fun d _ hd => by rw [hinit d] at hd; simp [Busy, Completed] at hd⟩ (hstays.and hser) hrun
    exact hend.2 d d' (Or.inr hd) (Or.inr hd')

/-- All deliveries of the order message are still to come, at time zero. -/
def Protocol.start (D : Type) : Protocol D := ⟨⟨0, .empty⟩, fun _ => .waiting⟩

/-- One delivery after the other, in a run that is longer than `cacheTime`: the second is
dropped. -/
theorem recorded_suppresses_second :
    let message (d : Bool) : MessageExt := ⟨"orders", "7F0001", [], if d then 1 else 0⟩
    let step := protocolStep (repeatConsumeProcessor {}) message ⟨some "order", some .clustering⟩
    ∃ s, exec step (.start Bool) [.before false, .advance 7200000, .handle false true, .after false,
        .advance 1000, .before true] = some s ∧
      s.phase true = .skipped ∧ ∀ d d', Completed (s.phase d) → Completed (s.phase d') → d = d' := by
  intro message step
  let ls : List (ProtocolLabel Bool) := [.before false, .advance 7200000, .handle false true, .after false,
    .advance 1000, .before true]
  have hsome : (exec step (.start Bool) ls).isSome = true := by decide +kernel
  let s : Protocol Bool := (exec step (.start Bool) ls).get hsome
  have hrun : exec step (.start Bool) ls = some s := (Option.some_get hsome).symm
  have hser : Along step Serial (.start Bool) ls := by
    refine ⟨fun d => by cases d <;> decide, ?_⟩
    rintro s₁ ⟨⟩
    refine ⟨trivial, ?_⟩
    rintro s₂ ⟨⟩
    refine ⟨trivial, ?_⟩
    rintro s₃ ⟨⟩
    refine ⟨trivial, ?_⟩
    rintro s₄ ⟨⟩
    refine ⟨trivial, ?_⟩
    rintro s₅ ⟨⟩
    exact ⟨fun d => by cases d <;> decide, fun _ _ => trivial⟩
  have hstays : Along step (KeyStays (repeatConsumeProcessor {}) ⟨some "order", some .clustering⟩ "orders" "7F0001")
      (.start Bool) ls := by
    refine ⟨trivial, ?_⟩
    rintro s₁ ⟨⟩
    refine ⟨fun d hd => by (cases d <;> cases hd), ?_⟩
    rintro s₂ ⟨⟩
    refine ⟨trivial, ?_⟩
    rintro s₃ ⟨⟩
    refine ⟨trivial, ?_⟩
    rintro s₄ ⟨⟩
    refine ⟨fun _ _ _ => by unfold Held; decide, ?_⟩
    rintro s₅ ⟨⟩
    exact ⟨trivial, fun _ _ => trivial⟩
  have hmsg : ∀ d, (message d).topic = "orders" ∧ (message d).msgId = "7F0001" := fun _ => ⟨rfl, rfl⟩
  have h := recorded_suppresses rfl (by decide) hmsg (fun _ => rfl) hrun hstays
  exact ⟨s, hrun, h.1 [.before false, .advance 7200000, .handle false true] [.advance 1000, .before true] false true
    rfl (by simp), h.2 hser⟩

/-- **Two deliveries that overlap both complete**, and two that do not when nothing is
recorded: in broadcasting, or when Redis refuses the cache time. -/
theorem both_complete :
    let step (p : RepeatConsumeProcessor) (model : MessageModel) := protocolStep (D := Bool) p
      (fun _ => ⟨"orders", "7F0001", [], 0⟩) ⟨some "order", some model⟩
    let one (d : Bool) : List (ProtocolLabel Bool) := [.before d, .handle d true, .after d]
    (∃ s, exec (step (repeatConsumeProcessor {}) .clustering) (.start Bool) [.before false, .before true,
        .handle false true, .handle true true, .after false, .after true] = some s ∧ ∀ d, Completed (s.phase d)) ∧
      (∃ s, exec (step (repeatConsumeProcessor {}) .broadcasting) (.start Bool) (one false ++ one true) = some s ∧
        ∀ d, Completed (s.phase d)) ∧
      ∃ s, exec (step (repeatConsumeProcessor { repeatCacheTime := 0 }) .clustering) (.start Bool)
        (one false ++ one true) = some s ∧ ∀ d, Completed (s.phase d) := by
  intro step one
  refine ⟨?_, ?_, ?_⟩
  · exact ⟨_, rfl, fun d => by cases d <;> decide⟩
  · exact ⟨_, rfl, fun d => by cases d <;> decide⟩
  · exact ⟨_, rfl, fun d => by cases d <;> decide⟩

end StudyTech
