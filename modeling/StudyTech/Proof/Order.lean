import StudyTech.Spec.Order

/-!
# One winner per order

`grab` reads the flag of an order, sleeps and writes it, all while its call holds the lock
of the order. So the flag that was read is still in the cache when it is written
(`OrderInv.flag`), and the first call to write it is the only one whose `grab` returns
true (`one_winner`).
-/

namespace StudyTech

open Lib

variable {τ : Type}

/-- `grab` returned true in this call for the order. -/
def Won (w : OrderWorld τ) (id : ℤ) (t : τ) : Prop :=
  (w.call t).orderId = some id ∧ (w.call t).grabbed = some true

instance (w : OrderWorld τ) (id : ℤ) (t : τ) : Decidable (Won w id t) := inferInstanceAs (Decidable (_ ∧ _))

/-- The invariant of the runs that start with the given cache. -/
structure OrderInv (start : ℤ → Option Bool) (w : OrderWorld τ) : Prop where
  holds : ∀ t id, (w.call t).inside = true → (w.call t).orderId = some id → w.holder (getLockName id) = some t
  read : ∀ t id flag, w.call t = .sleep id flag → w.cache id = some flag
  write : ∀ t id, w.call t = .put id → w.cache id = some false
  won : ∀ t id, Won w id t → w.cache id = some true
  unique : ∀ t t' id, Won w id t → Won w id t' → t = t'
  lost : ∀ t id, (w.call t).orderId = some id → (w.call t).grabbed = some false → w.cache id = some true
  taken : ∀ id, start id = some false → w.cache id ≠ some false → ∃ t, Won w id t

theorem orderInv_init (start : ℤ → Option Bool) : OrderInv start (.init τ start) := by
  refine ⟨?_, ?_, ?_, ?_, ?_, ?_, ?_⟩
  · intro t id h; cases h
  · intro t id flag h; cases h
  · intro t id h; cases h
  · intro t id h; cases h.1
  · intro t t' id h; cases h.1
  · intro t id h; cases h
  · intro id h hne; exact absurd h hne

variable {start : ℤ → Option Bool} {w w' : OrderWorld τ}

/-- Two calls for one order are not inside at once. -/
theorem OrderInv.alone (h : OrderInv start w) {t t' : τ} {id : ℤ} (ht : (w.call t).inside = true)
    (hid : (w.call t).orderId = some id) (ht' : (w.call t').inside = true) (hid' : (w.call t').orderId = some id) :
    t = t' := by
  have hholder := h.holds t id ht hid
  have hholder' := h.holds t' id ht' hid'
  rw [hholder] at hholder'
  exact Option.some.inj hholder'

section Steps

variable [DecidableEq τ]

/-- What a step can do. -/
inductive OrderEffect (w : OrderWorld τ) : OrderLabel τ → OrderWorld τ → Prop
  | refuse {t : τ} : w.call t = .fresh → OrderEffect w (.grabOrder t none) (w.goto t (.threw none none))
  | call {t : τ} {id : ℤ} : w.call t = .fresh → OrderEffect w (.grabOrder t (some id)) (w.goto t (.lock id))
  | lock {t : τ} {id : ℤ} : w.call t = .lock id → w.holder (getLockName id) = none →
      OrderEffect w (.step t) ((w.acquire t id).goto t (.get id))
  | lockLost {t : τ} {id : ℤ} : w.call t = .lock id → w.holder (getLockName id) = none →
      OrderEffect w (.throws t true) ((w.acquire t id).goto t (.threw (some id) none))
  | lockFailed {t : τ} {id : ℤ} : w.call t = .lock id →
      OrderEffect w (.throws t false) (w.goto t (.threw (some id) none))
  | noOrder {t : τ} {id : ℤ} : w.call t = .get id → OrderEffect w (.step t) (w.goto t (.unlock id none))
  | get {t : τ} {id : ℤ} {flag : Bool} : w.call t = .get id → w.cache id = some flag →
      OrderEffect w (.step t) (w.goto t (.sleep id flag))
  | free {t : τ} {id : ℤ} : w.call t = .sleep id false → OrderEffect w (.step t) (w.goto t (.put id))
  | taken {t : τ} {id : ℤ} : w.call t = .sleep id true →
      OrderEffect w (.step t) (w.goto t (.unlock id (some false)))
  | interrupted {t : τ} {id : ℤ} {flag effect : Bool} : w.call t = .sleep id flag →
      OrderEffect w (.throws t effect) (w.goto t (.unlock id none))
  | put {t : τ} {id : ℤ} : w.call t = .put id → OrderEffect w (.step t)
      { w.goto t (.unlock id (some true)) with cache := Function.update w.cache id (some true) }
  | unlock {t : τ} {id : ℤ} {r : Option Bool} {c : GrabPc} : w.call t = .unlock id r → c.inside = false →
      c.orderId = some id → c.grabbed = r → OrderEffect w (.step t) ((w.release id).goto t c)
  | unlockThrew {t : τ} {id : ℤ} {r : Option Bool} : w.call t = .unlock id r →
      OrderEffect w (.throws t true) ((w.release id).goto t (.threw (some id) r))
  | unlockFailed {t : τ} {id : ℤ} {r : Option Bool} : w.call t = .unlock id r →
      OrderEffect w (.throws t false) (w.goto t (.threw (some id) r))

/-- **What a step can do.** -/
theorem orderStep_effect {l : OrderLabel τ} (h : orderStep w l = some w') : OrderEffect w l w' := by
  cases l with
  | grabOrder t orderId =>
    simp only [orderStep] at h
    split at h
    · rename_i hfresh
      cases h
      exact .refuse hfresh
    · rename_i hfresh
      cases h
      exact .call hfresh
    · cases h
  | step t =>
    simp only [orderStep] at h
    split at h
    · rename_i hpc
      split at h
      · rename_i hholder
        cases h
        exact .lock hpc hholder
      · cases h
    · rename_i hpc
      split at h
      · cases h; exact .noOrder hpc
      · rename_i hflag
        cases h
        exact .get hpc hflag
    · rename_i flag hpc
      cases flag with
      | false => cases h; exact .free hpc
      | true => cases h; exact .taken hpc
    · rename_i hpc
      cases h
      exact .put hpc
    · rename_i id grabbed hpc
      -- the call returns what `grab` returned, or throws what it threw
      cases grabbed with
      | none =>
        cases h
        exact .unlock hpc rfl rfl rfl
      | some r =>
        cases h
        exact .unlock hpc rfl rfl rfl
    · cases h
  | throws t effect =>
    simp only [orderStep] at h
    split at h
    · rename_i hpc
      cases effect with
      | false => cases h; exact .lockFailed hpc
      | true =>
        rw [if_pos rfl] at h
        split at h
        · rename_i hholder
          cases h
          exact .lockLost hpc hholder
        · cases h
    · rename_i hpc
      cases h
      exact .interrupted hpc
    · rename_i hpc
      cases effect with
      | false => cases h; exact .unlockFailed hpc
      | true => cases h; exact .unlockThrew hpc
    · cases h

/-- The call `t` goes on to `c`, and the cache stays as it is. -/
theorem OrderInv.move (h : OrderInv start w) {t : τ} {c : GrabPc} {holder : String → Option τ}
    (hothers : ∀ t' id, t' ≠ t → (w.call t').inside = true → (w.call t').orderId = some id →
      holder (getLockName id) = some t')
    (hself : ∀ id, c.inside = true → c.orderId = some id → holder (getLockName id) = some t)
    (hread : ∀ id flag, c = .sleep id flag → w.cache id = some flag)
    (hwrite : ∀ id, c = .put id → w.cache id = some false)
    (hresult : ∀ id b, c.orderId = some id → c.grabbed = some b →
      ((w.call t).orderId = some id ∧ (w.call t).grabbed = some b) ∨ (b = false ∧ w.cache id = some true))
    (hkeep : ∀ id, Won w id t → c.orderId = some id ∧ c.grabbed = some true) :
    OrderInv start ⟨w.cache, holder, Function.update w.call t c⟩ := by
  -- a call has won after the step if and only if it had won before
  have hwon : ∀ id t', Won ⟨w.cache, holder, Function.update w.call t c⟩ id t' ↔ Won w id t' := by
    intro id t'
    unfold Won
    by_cases ht : t' = t
    · subst ht
      simp only [Function.update_self]
      constructor
      · rintro ⟨hid, hgrabbed⟩
        rcases hresult id true hid hgrabbed with hw | ⟨hb, -⟩
        · exact hw
        · cases hb
      · exact hkeep id
    · simp only [Function.update_of_ne ht]
  refine ⟨fun t' id hin hid => ?_, fun t' id flag hpc => ?_, fun t' id hpc => ?_, fun t' id hw => ?_,
    fun t₁ t₂ id h₁ h₂ => ?_, fun t' id hid hg => ?_, fun id hstart hne => ?_⟩
  · simp only at hin hid
    by_cases ht : t' = t
    · subst ht
      rw [Function.update_self] at hin hid
      exact hself id hin hid
    · rw [Function.update_of_ne ht] at hin hid
      exact hothers t' id ht hin hid
  · simp only at hpc
    by_cases ht : t' = t
    · subst ht
      rw [Function.update_self] at hpc
      exact hread id flag hpc
    · rw [Function.update_of_ne ht] at hpc
      exact h.read t' id flag hpc
  · simp only at hpc
    by_cases ht : t' = t
    · subst ht
      rw [Function.update_self] at hpc
      exact hwrite id hpc
    · rw [Function.update_of_ne ht] at hpc
      exact h.write t' id hpc
  · exact h.won t' id ((hwon id t').1 hw)
  · exact h.unique t₁ t₂ id ((hwon id t₁).1 h₁) ((hwon id t₂).1 h₂)
  · simp only at hid hg
    by_cases ht : t' = t
    · subst ht
      rw [Function.update_self] at hid hg
      rcases hresult id false hid hg with ⟨hid', hg'⟩ | ⟨-, hcache⟩
      · exact h.lost t' id hid' hg'
      · exact hcache
    · rw [Function.update_of_ne ht] at hid hg
      exact h.lost t' id hid hg
  · obtain ⟨t', hw⟩ := h.taken id hstart hne
    exact ⟨t', (hwon id t').2 hw⟩

/-- The call that writes the flag is the one that wins. -/
theorem won_put {t t' : τ} {id id' : ℤ} (hpc : w.call t = .put id) :
    Won { w.goto t (.unlock id (some true)) with cache := Function.update w.cache id (some true) } id' t' ↔
      (id' = id ∧ t' = t) ∨ Won w id' t' := by
  unfold Won OrderWorld.goto
  by_cases ht : t' = t
  · subst ht
    simp only [Function.update_self]
    constructor
    · rintro ⟨heq, -⟩
      cases heq
      exact Or.inl ⟨rfl, trivial⟩
    · rintro (⟨rfl, -⟩ | ⟨-, hg⟩)
      · exact ⟨rfl, rfl⟩
      · rw [hpc] at hg
        cases hg
  · simp only [Function.update_of_ne ht]
    constructor
    · exact Or.inr
    · rintro (⟨-, heq⟩ | hw)
      · exact absurd heq ht
      · exact hw

omit [DecidableEq τ] in
/-- The write leaves the flags of the other orders, and all flags that are true. -/
theorem cache_put {id id' : ℤ} {b : Bool} (hor : id' ≠ id ∨ b = true) (hb : w.cache id' = some b) :
    Function.update w.cache id (some true) id' = some b := by
  by_cases heq : id' = id
  · subst heq
    rw [Function.update_self, hor.resolve_left (fun hne => hne rfl)]
  · rw [Function.update_of_ne heq]
    exact hb

/-- The call writes the flag of the order. -/
theorem OrderInv.put (h : OrderInv start w) {t : τ} {id : ℤ} (hpc : w.call t = .put id) :
    OrderInv start { w.goto t (.unlock id (some true)) with cache := Function.update w.cache id (some true) } := by
  have hin : (w.call t).inside = true := by rw [hpc]; rfl
  have hid : (w.call t).orderId = some id := by rw [hpc]; rfl
  have hfalse : w.cache id = some false := h.write t id hpc
  -- nobody has won the order, and nobody else is inside for it
  have hnone : ∀ t', ¬ Won w id t' := by
    intro t' hw
    have htrue := h.won t' id hw
    rw [hfalse] at htrue
    cases htrue
  have hother : ∀ t' id', t' ≠ t → (w.call t').inside = true → (w.call t').orderId = some id' → id' ≠ id := by
    rintro t' id' ht hin' hid' rfl
    exact ht (h.alone hin' hid' hin hid)
  refine ⟨fun t' id' hin' hid' => ?_, fun t' id' flag hpc' => ?_, fun t' id' hpc' => ?_, fun t' id' hw => ?_,
    fun t₁ t₂ id' h₁ h₂ => ?_, fun t' id' hid' hg => ?_, fun id' hstart hne => ?_⟩
  · simp only [OrderWorld.goto] at hin' hid' ⊢
    by_cases ht : t' = t
    · subst ht
      rw [Function.update_self] at hid'
      cases hid'
      exact h.holds t' id hin hid
    · rw [Function.update_of_ne ht] at hin' hid'
      exact h.holds t' id' hin' hid'
  · simp only [OrderWorld.goto] at hpc'
    by_cases ht : t' = t
    · subst ht
      rw [Function.update_self] at hpc'
      cases hpc'
    · rw [Function.update_of_ne ht] at hpc'
      have hne := hother t' id' ht (by rw [hpc']; rfl) (by rw [hpc']; rfl)
      exact cache_put (Or.inl hne) (h.read t' id' flag hpc')
  · simp only [OrderWorld.goto] at hpc'
    by_cases ht : t' = t
    · subst ht
      rw [Function.update_self] at hpc'
      cases hpc'
    · rw [Function.update_of_ne ht] at hpc'
      have hne := hother t' id' ht (by rw [hpc']; rfl) (by rw [hpc']; rfl)
      exact cache_put (Or.inl hne) (h.write t' id' hpc')
  · rcases (won_put hpc).1 hw with ⟨rfl, -⟩ | hw
    · exact Function.update_self _ _ _
    · exact cache_put (Or.inr rfl) (h.won t' id' hw)
  · rcases (won_put hpc).1 h₁ with ⟨hid₁, heq₁⟩ | hold₁
    · rcases (won_put hpc).1 h₂ with ⟨-, heq₂⟩ | hold₂
      · rw [heq₁, heq₂]
      · exact absurd (hid₁ ▸ hold₂) (hnone t₂)
    · rcases (won_put hpc).1 h₂ with ⟨hid₂, -⟩ | hold₂
      · exact absurd (hid₂ ▸ hold₁) (hnone t₁)
      · exact h.unique t₁ t₂ id' hold₁ hold₂
  · simp only [OrderWorld.goto] at hid' hg
    by_cases ht : t' = t
    · subst ht
      rw [Function.update_self] at hg
      cases hg
    · rw [Function.update_of_ne ht] at hid' hg
      exact cache_put (Or.inr rfl) (h.lost t' id' hid' hg)
  · by_cases heq : id' = id
    · subst heq
      exact ⟨t, (won_put hpc).2 (Or.inl ⟨rfl, rfl⟩)⟩
    · simp only [Function.update_of_ne heq] at hne
      obtain ⟨t', hw⟩ := h.taken id' hstart hne
      exact ⟨t', (won_put hpc).2 (Or.inr hw)⟩

omit [DecidableEq τ] in
/-- Other calls hold their locks when the call takes one that is free. -/
theorem OrderInv.holds_acquire (h : OrderInv start w) {t : τ} {id : ℤ} (hfree : w.holder (getLockName id) = none)
    {t' : τ} {id' : ℤ} (hin : (w.call t').inside = true) (hid : (w.call t').orderId = some id') :
    (w.acquire t id).holder (getLockName id') = some t' := by
  have hholder := h.holds t' id' hin hid
  have hne : getLockName id' ≠ getLockName id := by
    intro heq
    rw [heq, hfree] at hholder
    cases hholder
  simp only [OrderWorld.acquire, Function.update_of_ne hne]
  exact hholder

omit [DecidableEq τ] in
/-- Other calls hold their locks when the call that holds one releases it. -/
theorem OrderInv.holds_release (h : OrderInv start w) {t : τ} {id : ℤ} (hin : (w.call t).inside = true)
    (hid : (w.call t).orderId = some id) {t' : τ} {id' : ℤ} (ht : t' ≠ t) (hin' : (w.call t').inside = true)
    (hid' : (w.call t').orderId = some id') : (w.release id).holder (getLockName id') = some t' := by
  have hholder := h.holds t' id' hin' hid'
  have hne : getLockName id' ≠ getLockName id := by
    intro heq
    rw [heq, h.holds t id hin hid] at hholder
    exact ht (Option.some.inj hholder).symm
  simp only [OrderWorld.release, Function.update_of_ne hne]
  exact hholder

/-- A call that has not been in `grab` goes on outside. -/
theorem OrderInv.outside (h : OrderInv start w) {t : τ} {c : GrabPc} (hnone : (w.call t).grabbed = none)
    (hout : c.inside = false) (hnone' : c.grabbed = none) {holder : String → Option τ}
    (hothers : ∀ t' id, t' ≠ t → (w.call t').inside = true → (w.call t').orderId = some id →
      holder (getLockName id) = some t') : OrderInv start ⟨w.cache, holder, Function.update w.call t c⟩ := by
  refine h.move hothers (fun id hin => ?_) (fun id flag hc => ?_) (fun id hc => ?_) (fun id b _ hb => ?_)
    (fun id hw => ?_)
  · rw [hout] at hin
    cases hin
  · rw [hc] at hout
    cases hout
  · rw [hc] at hout
    cases hout
  · rw [hnone'] at hb
    cases hb
  · rw [Won, hnone] at hw
    cases hw.2

/-- A call goes on in `grab`, without a result yet or with the result false. -/
theorem OrderInv.inGrab (h : OrderInv start w) {t : τ} {c : GrabPc} (id : ℤ) (hin : (w.call t).inside = true)
    (hid : (w.call t).orderId = some id) (hnone : (w.call t).grabbed = none) (hid' : c.orderId = some id)
    (hread : ∀ id flag, c = .sleep id flag → w.cache id = some flag)
    (hwrite : ∀ id, c = .put id → w.cache id = some false)
    (hresult : ∀ b, c.grabbed = some b → b = false ∧ w.cache id = some true) : OrderInv start (w.goto t c) := by
  refine h.move (fun t' id' _ hin' hid' => h.holds t' id' hin' hid') (fun id' _ hc => ?_) hread hwrite
    (fun id' b hc hb => Or.inr ?_) (fun id' hw => ?_)
  · rw [hid'] at hc
    cases hc
    exact h.holds t id hin hid
  · rw [hid'] at hc
    cases hc
    exact hresult b hb
  · rw [Won, hnone] at hw
    cases hw.2

/-- A call leaves `unlock` with the result it came with. -/
theorem OrderInv.leave (h : OrderInv start w) {t : τ} {c : GrabPc} {id : ℤ} {r : Option Bool}
    (hpc : w.call t = .unlock id r) (hout : c.inside = false) (hid : c.orderId = some id) (hr : c.grabbed = r)
    {holder : String → Option τ}
    (hothers : ∀ t' id, t' ≠ t → (w.call t').inside = true → (w.call t').orderId = some id →
      holder (getLockName id) = some t') : OrderInv start ⟨w.cache, holder, Function.update w.call t c⟩ := by
  have hid' : (w.call t).orderId = some id := by rw [hpc]; rfl
  have hr' : (w.call t).grabbed = r := by rw [hpc]; rfl
  refine h.move hothers (fun id hin => ?_) (fun id flag hc => ?_) (fun id hc => ?_) (fun id' b hc hb => Or.inl ?_)
    (fun id' hw => ?_)
  · rw [hout] at hin
    cases hin
  · rw [hc] at hout
    cases hout
  · rw [hc] at hout
    cases hout
  · rw [hid', hr', ← hid, ← hr]
    exact ⟨hc, hb⟩
  · rw [hid, hr, ← hid', ← hr']
    exact hw

/-- **The invariant is preserved by every step.** -/
theorem orderInv_step (h : OrderInv start w) {l : OrderLabel τ} (hs : orderStep w l = some w') :
    OrderInv start w' := by
  have hsame : ∀ {t : τ} t' id, t' ≠ t → (w.call t').inside = true → (w.call t').orderId = some id →
      w.holder (getLockName id) = some t' := fun t' id _ hin hid => h.holds t' id hin hid
  cases orderStep_effect hs with
  | refuse hpc => exact h.outside (by rw [hpc]; rfl) rfl rfl hsame
  | call hpc => exact h.outside (by rw [hpc]; rfl) rfl rfl hsame
  | @lock t id hpc hfree =>
    -- the call is inside from now on, and holds the lock
    refine h.move (fun t' id' _ hin hid => h.holds_acquire hfree hin hid) (fun id' _ hid => ?_)
      (fun _ _ hc => nomatch hc) (fun _ hc => nomatch hc) (fun _ _ _ hb => nomatch hb) (fun id hw => ?_)
    · cases hid
      exact Function.update_self _ _ _
    · rw [Won, hpc] at hw
      cases hw.2
  | lockLost hpc hfree =>
    exact h.outside (by rw [hpc]; rfl) rfl rfl fun t' id' _ hin hid => h.holds_acquire hfree hin hid
  | lockFailed hpc => exact h.outside (by rw [hpc]; rfl) rfl rfl hsame
  | @noOrder t id hpc =>
    exact h.inGrab id (by rw [hpc]; rfl) (by rw [hpc]; rfl) (by rw [hpc]; rfl) rfl
      (fun _ _ hc => nomatch hc) (fun _ hc => nomatch hc) (fun _ hb => nomatch hb)
  | @get t id flag hpc hflag =>
    refine h.inGrab id (by rw [hpc]; rfl) (by rw [hpc]; rfl) (by rw [hpc]; rfl) rfl
      (fun id' flag' hc => ?_) (fun _ hc => nomatch hc) (fun _ hb => nomatch hb)
    cases hc
    exact hflag
  | @free t id hpc =>
    refine h.inGrab id (by rw [hpc]; rfl) (by rw [hpc]; rfl) (by rw [hpc]; rfl) rfl
      (fun _ _ hc => nomatch hc) (fun id' hc => ?_) (fun _ hb => nomatch hb)
    cases hc
    exact h.read t id false hpc
  | @taken t id hpc =>
    refine h.inGrab id (by rw [hpc]; rfl) (by rw [hpc]; rfl) (by rw [hpc]; rfl) rfl
      (fun _ _ hc => nomatch hc) (fun _ hc => nomatch hc) (fun b hb => ?_)
    cases hb
    exact ⟨rfl, h.read t id true hpc⟩
  | @interrupted t id flag effect hpc =>
    exact h.inGrab id (by rw [hpc]; rfl) (by rw [hpc]; rfl) (by rw [hpc]; rfl) rfl
      (fun _ _ hc => nomatch hc) (fun _ hc => nomatch hc) (fun _ hb => nomatch hb)
  | put hpc => exact h.put hpc
  | unlock hpc hout hid hr =>
    exact h.leave hpc hout hid hr fun t' id' ht hin hid =>
      h.holds_release (by rw [hpc]; rfl) (by rw [hpc]; rfl) ht hin hid
  | unlockThrew hpc =>
    exact h.leave hpc rfl rfl rfl fun t' id' ht hin hid =>
      h.holds_release (by rw [hpc]; rfl) (by rw [hpc]; rfl) ht hin hid
  | unlockFailed hpc => exact h.leave hpc rfl rfl rfl hsame

/-- **One winner per order.** In every run of any number of calls, from any cache: `grab`
returns true in at most one call for an order; if the order was not taken at the start
and some call for it returned, `grab` returned true in exactly one; and only a call for
the order changes its entry. -/
theorem one_winner (cache : ℤ → Option Bool) {ls : List (OrderLabel τ)} {w : OrderWorld τ}
    (hrun : exec orderStep (.init τ cache) ls = some w) (id : ℤ) :
    (∀ t t', Won w id t → Won w id t' → t = t') ∧
      (cache id = some false → (∃ t b, w.call t = .returned id b) → ∃ t, Won w id t ∧ ∀ t', Won w id t' → t' = t) ∧
      ∀ l w', orderStep w l = some w' → w'.cache id ≠ w.cache id →
        ∃ t, l = .step t ∧ (w.call t).orderId = some id := by
  have h : OrderInv cache w := inv_of_exec (fun _ _ _ ha hs => orderInv_step ha hs) (orderInv_init cache) hrun
  refine ⟨fun t t' => h.unique t t' id, ?_, ?_⟩
  · rintro hstart ⟨t, b, hreturned⟩
    have hid : (w.call t).orderId = some id := by rw [hreturned]; rfl
    -- the call that returned saw the flag of the order set
    have htrue : w.cache id = some true := by
      cases b with
      | false => exact h.lost t id hid (by rw [hreturned]; rfl)
      | true => exact h.won t id ⟨hid, by rw [hreturned]; rfl⟩
    have hne : w.cache id ≠ some false := by
      rw [htrue]
      simp
    obtain ⟨t', hw⟩ := h.taken id hstart hne
    exact ⟨t', hw, fun t'' hw' => h.unique t'' t' id hw' hw⟩
  · intro l w' hs hne
    cases orderStep_effect hs with
    | @put t id' hpc =>
      refine ⟨t, rfl, ?_⟩
      have heq : id = id' := by
        by_contra hother
        exact hne (Function.update_of_ne hother _ _)
      rw [hpc, heq]
      rfl
    | _ => exact absurd rfl hne

end Steps

/-- Two calls for one order, one after the other at the lock. -/
def twoGrabs : List (OrderLabel Bool) :=
  [.grabOrder false (some 1), .grabOrder true (some 1), .step false, .step false, .step false, .step false,
    .step false, .step true, .step true, .step true, .step true]

/-- The first of two calls wins. -/
theorem one_winner_of_two : ∃ w, exec orderStep (.init Bool fun _ => some false) twoGrabs = some w ∧
    w.call true = .returned 1 false ∧ Won w 1 false ∧ ∀ t, Won w 1 t → t = false := by
  have heval : (exec orderStep (.init Bool fun _ => some false) twoGrabs).any (fun w =>
      decide (w.call true = .returned 1 false ∧ Won w 1 false)) = true := by decide +kernel
  obtain ⟨w, hrun, heval⟩ := (Option.any_eq_true _ _).1 heval
  obtain ⟨hreturned, hwon⟩ := of_decide_eq_true heval
  obtain ⟨-, hone, -⟩ := one_winner (fun _ => some false) hrun 1
  obtain ⟨t, -, hunique⟩ := hone rfl ⟨true, false, hreturned⟩
  exact ⟨w, hrun, hreturned, hwon, fun t' hw => (hunique t' hw).trans (hunique false hwon).symm⟩

end StudyTech
