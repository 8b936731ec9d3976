import StudyTech.Lib.Simulation
import StudyTech.Proof.Order
import StudyTech.Proof.RedisStep
import StudyTech.Spec.GrabOrder

/-!
# The orders are grabbed over Redis as over an ideal lock

In a JVM, `grabOrder` with a `RedisLock` for each call does what it does with locks that exclude each
other (`grab_refines`), as long as no entry expires while the call that stored it is inside. The
invariant is `GrabInv`: such a call finds its own uuid under the name of its order, so no other
call, of this JVM or another one, takes the lock.
-/

namespace StudyTech

open Lib

variable {τ ν : Type}

/-- The method of its lock that a call is in. -/
def GrabPc.LockPlace : GrabPc → Call → Prop
  | .lock _, c => c = .lock ∨ ∃ wake, c = .lockSleep wake
  | .unlock _ _, c => c = .unlock ∨ c = .unlockDelete
  | _, c => c.isIdle = true

/-- A live call that holds its lock; its entry is there. -/
def GrabFleet.Stored (G : GrabFleet τ ν) (s : LockWorld τ τ) (t : τ) : Prop :=
  s.alive t = true → s.holds t = true → G.locks.stored s t = some (G.uuid t)

/-- Time does not end the entry of a call that holds its lock. -/
def LeaseKept (G : GrabFleet τ ν) (w : GrabWorld τ ν) : GrabLabel τ ν → Prop
  | .advance ms => ∀ t, w.locks.alive t = true → (w.call t).inside = true →
      G.locks.stored w.locks t = some (G.uuid t) →
      G.locks.stored { w.locks with now := w.locks.now + ms } t = some (G.uuid t)
  | _ => True

/-- The invariant of the runs along `LeaseKept`. -/
structure GrabInv (G : GrabFleet τ ν) (w : GrabWorld τ ν) : Prop where
  holds : ∀ t, w.locks.holds t = (w.call t).inside
  place : ∀ t, (w.call t).LockPlace (w.locks.call t)
  order : ∀ t id, (w.call t).orderId = some id → G.orderId t = some id
  stored : ∀ t, G.Stored w.locks t
  jvm : ∀ t t', G.jvm t = G.jvm t' → w.locks.alive t = w.locks.alive t'

theorem grabInv_init (G : GrabFleet τ ν) (now : ℕ) (redis : TtlStore String String)
    (cache : ν → ℤ → Option Bool) : GrabInv G (.init τ ν now redis cache) := by
  refine ⟨fun t => rfl, fun t => rfl, fun t id h => ?_, fun t _ h => ?_, fun t t' _ => rfl⟩
  · cases h
  · cases h

theorem getLockName_not_blank (id : ℤ) : isBlank (some (getLockName id)) = false := by
  unfold isBlank getLockName
  simp only [String.toList_append, List.all_append]
  have hfront : "dlc:order:grab:".toList.all isWhitespace = false := by decide +kernel
  rw [hfront, Bool.false_and]

/-- A call for an order locks the name of the order. -/
theorem key_of_order {G : GrabFleet τ ν} {t : τ} {id : ℤ} (h : G.orderId t = some id) :
    G.locks.key t = getLockName id := by
  unfold Fleet.key GrabFleet.locks RedisLock.new defaultIfBlank
  simp only [h, Option.map_some, getLockName_not_blank, Bool.false_eq_true, if_false, Option.getD_some]

variable {G : GrabFleet τ ν} {w w' : GrabWorld τ ν}

/-- Two live calls that hold one key are one call. -/
theorem GrabInv.holder_unique (h : GrabInv G w) (huuid : Function.Injective G.uuid) {t t' : τ}
    (halive : w.locks.alive t = true) (hin : (w.call t).inside = true) (halive' : w.locks.alive t' = true)
    (hin' : (w.call t').inside = true) (hkey : G.locks.key t = G.locks.key t') : t = t' := by
  have hst := h.stored t halive (by rw [h.holds, hin])
  have hst' := h.stored t' halive' (by rw [h.holds, hin'])
  have hsame : G.locks.stored w.locks t = G.locks.stored w.locks t' := by
    unfold Fleet.stored
    rw [hkey]
  rw [hsame, hst'] at hst
  exact huuid (Option.some.inj hst).symm

/-- Where the key of a live call is free, no live call holds it. -/
theorem GrabInv.free_key (h : GrabInv G w) {t t' : τ} (hfree : G.locks.stored w.locks t = none)
    (halive' : w.locks.alive t' = true) (hin' : (w.call t').inside = true) : G.locks.key t' ≠ G.locks.key t := by
  intro hkey
  have hst' := h.stored t' halive' (by rw [h.holds, hin'])
  have hsame : G.locks.stored w.locks t' = G.locks.stored w.locks t := by
    unfold Fleet.stored
    rw [hkey]
  rw [hsame, hfree] at hst'
  cases hst'

section Steps

variable [DecidableEq τ]

/-- What the lock of a call can do in `lock`: take the free key and return, or go on waiting. -/
theorem lock_method {s s' : LockWorld τ τ} {t : τ} {l : ThreadLabel}
    (hcall : s.call t = .lock ∨ ∃ wake, s.call t = .lockSleep wake)
    (hs : lockStep G.locks s (.thread t l) = some s') :
    s.alive t = true ∧
      ((G.locks.stored s t = none ∧ s' = s.acquire (G.locks.lock t) t t (.idle none)) ∨
        ∃ c, (c = .lock ∨ ∃ wake, c = .lockSleep wake) ∧ s' = s.goto t c) := by
  simp only [lockStep, Option.ite_none_right_eq_some] at hs
  obtain ⟨halive, hs⟩ := hs
  refine ⟨halive, ?_⟩
  rcases hcall with hcall | ⟨wake, hcall⟩
  · cases l with
    | setIfAbsent =>
      simp only [threadStep, hcall, Call.afterAttempt, Option.map_some, Option.some.injEq] at hs
      by_cases hstatus : (s.redis.setIfAbsent s.now (G.locks.lock (G.locks.inst t)).name
          (G.locks.lock (G.locks.inst t)).uuid RedisLock.ttl).1 = true
      · rw [if_pos hstatus, if_pos hstatus] at hs
        exact .inl ⟨TtlStore.setIfAbsent_fst.1 hstatus, hs.symm⟩
      · rw [if_neg hstatus, if_neg hstatus] at hs
        exact .inr ⟨_, .inr ⟨_, rfl⟩, hs.symm⟩
    | _ =>
      simp only [threadStep, hcall] at hs
      cases hs
  · cases l with
    | setIfAbsent =>
      simp only [threadStep, hcall, Call.afterAttempt] at hs
      cases hs
    | wake interrupted =>
      simp only [threadStep, hcall] at hs
      split at hs
      · cases hs
        exact .inr ⟨.lock, .inl rfl, rfl⟩
      · cases hs
    | _ =>
      simp only [threadStep, hcall] at hs
      cases hs

/-- What the lock of a call can do in `unlock`: go on to the delete, or end. -/
theorem unlock_method {s s' : LockWorld τ τ} {t : τ} {l : ThreadLabel}
    (hcall : s.call t = .unlock ∨ s.call t = .unlockDelete)
    (hs : lockStep G.locks s (.thread t l) = some s') :
    s.alive t = true ∧
      (s' = s.goto t .unlockDelete ∨
        ∃ redis, (redis = s.redis ∨ redis = s.redis.delete (G.locks.key t)) ∧ s' = s.release t redis) := by
  simp only [lockStep, Option.ite_none_right_eq_some] at hs
  obtain ⟨halive, hs⟩ := hs
  refine ⟨halive, ?_⟩
  rcases hcall with hcall | hcall
  · cases l with
    | setIfAbsent =>
      simp only [threadStep, hcall, Call.afterAttempt] at hs
      cases hs
    | get =>
      simp only [threadStep, hcall] at hs
      split at hs
      · cases hs
        exact .inl rfl
      · cases hs
        exact .inr ⟨_, .inl rfl, rfl⟩
    | _ =>
      simp only [threadStep, hcall] at hs
      cases hs
  · cases l with
    | setIfAbsent =>
      simp only [threadStep, hcall, Call.afterAttempt] at hs
      cases hs
    | delete =>
      simp only [threadStep, hcall] at hs
      cases hs
      exact .inr ⟨_, .inr rfl, rfl⟩
    | _ =>
      simp only [threadStep, hcall] at hs
      cases hs

/-- What the lock of a call does to the call. -/
inductive LockMove (G : GrabFleet τ ν) (w : GrabWorld τ ν) (t : τ) : GrabWorld τ ν → Prop
  | wait {c : Call} : (w.call t).LockPlace c → c.isIdle = false →
      LockMove G w t { w with locks := w.locks.goto t c }
  | acquire {id : ℤ} : w.call t = .lock id → G.locks.stored w.locks t = none →
      LockMove G w t { w with
        locks := w.locks.acquire (G.locks.lock t) t t (.idle none)
        call := Function.update w.call t (.get id) }
  | release {id : ℤ} {grabbed : Option Bool} {redis : TtlStore String String} : w.call t = .unlock id grabbed →
      redis = w.locks.redis ∨ redis = w.locks.redis.delete (G.locks.key t) →
      LockMove G w t { w with
        locks := w.locks.release t redis
        call := Function.update w.call t (.afterUnlock id grabbed) }

/-- The call waits on: it stays where it is. -/
theorem afterLock_goto (w : GrabWorld τ ν) (t : τ) {c : Call} (hc : c.isIdle = false) :
    w.afterLock t (w.locks.goto t c) = { w with locks := w.locks.goto t c } := by
  have hcall : ((w.locks.goto t c).call t).isIdle = false := by
    show (Function.update w.locks.call t c t).isIdle = false
    rw [Function.update_self, hc]
  unfold GrabWorld.afterLock
  rw [hcall, if_neg Bool.false_ne_true, Function.update_eq_self]

theorem lockMove_of_step (h : GrabInv G w) {t : τ} {l : ThreadLabel} [DecidableEq ν]
    (hs : grabStep G w (.lock t l) = some w') : w.locks.alive t = true ∧ LockMove G w t w' := by
  have hplace := h.place t
  simp only [grabStep] at hs
  split at hs
  · rename_i id hpc
    obtain ⟨s', hs', rfl⟩ := Option.map_eq_some_iff.1 hs
    rw [hpc] at hplace
    obtain ⟨halive, hmethod⟩ := lock_method hplace hs'
    refine ⟨halive, ?_⟩
    rcases hmethod with ⟨hfree, rfl⟩ | ⟨c, hc, rfl⟩
    · have hend : w.afterLock t (w.locks.acquire (G.locks.lock t) t t (.idle none)) = { w with
          locks := w.locks.acquire (G.locks.lock t) t t (.idle none)
          call := Function.update w.call t (.get id) } := by
        unfold GrabWorld.afterLock LockWorld.acquire
        simp only [Function.update_self, hpc]
        rfl
      rw [hend]
      exact .acquire hpc hfree
    · have hidle : c.isIdle = false := by
        rcases hc with rfl | ⟨wake, rfl⟩
        · rfl
        · rfl
      rw [afterLock_goto w t hidle]
      exact .wait (by rw [hpc]; exact hc) hidle
  · rename_i id grabbed hpc
    obtain ⟨s', hs', rfl⟩ := Option.map_eq_some_iff.1 hs
    rw [hpc] at hplace
    obtain ⟨halive, hmethod⟩ := unlock_method hplace hs'
    refine ⟨halive, ?_⟩
    rcases hmethod with rfl | ⟨redis, hredis, rfl⟩
    · rw [afterLock_goto w t rfl]
      exact .wait (by rw [hpc]; exact Or.inr rfl) rfl
    · have hend : w.afterLock t (w.locks.release t redis) = { w with
          locks := w.locks.release t redis
          call := Function.update w.call t (.afterUnlock id grabbed) } := by
        unfold GrabWorld.afterLock LockWorld.release
        simp only [Function.update_self, hpc]
        rfl
      rw [hend]
      exact .release hpc hredis
  · cases hs

/-- What a step of `grab` does. -/
inductive BodyMove (G : GrabFleet τ ν) [DecidableEq ν] (w : GrabWorld τ ν) (t : τ) : GrabWorld τ ν → Prop
  | noOrder {id : ℤ} : w.call t = .get id → w.cache (G.jvm t) id = none →
      BodyMove G w t (w.enter t .unlock (.unlock id none))
  | get {id : ℤ} {flag : Bool} : w.call t = .get id → w.cache (G.jvm t) id = some flag →
      BodyMove G w t (w.goto t (.sleep id flag))
  | free {id : ℤ} : w.call t = .sleep id false → BodyMove G w t (w.goto t (.put id))
  | taken {id : ℤ} : w.call t = .sleep id true → BodyMove G w t (w.enter t .unlock (.unlock id (some false)))
  | put {id : ℤ} : w.call t = .put id → BodyMove G w t { w.enter t .unlock (.unlock id (some true)) with
      cache := Function.update w.cache (G.jvm t) (Function.update (w.cache (G.jvm t)) id (some true)) }

theorem bodyMove_of_step [DecidableEq ν] {t : τ} (hs : grabBody G w t = some w') : BodyMove G w t w' := by
  unfold grabBody at hs
  split at hs
  · rename_i id hpc
    split at hs
    · rename_i hnone
      cases hs
      exact .noOrder hpc hnone
    · rename_i flag hflag
      cases hs
      exact .get hpc hflag
  · rename_i id flag hpc
    cases hs
    cases flag with
    | false => exact .free hpc
    | true => exact .taken hpc
  · rename_i id hpc
    cases hs
    exact .put hpc
  · cases hs

/-- A renewal task changes no place of a thread and no value. -/
theorem task_frame {s s' : LockWorld τ τ} {k : ℕ} {l : TaskLabel} (hs : lockStep G.locks s (.task k l) = some s') :
    s'.call = s.call ∧ s'.holds = s.holds ∧ s'.alive = s.alive ∧
      ∀ t, G.locks.stored s' t = G.locks.stored s t := by
  cases lockStep_effect hs with
  | taskGet _ _ => exact ⟨rfl, rfl, rfl, fun _ => rfl⟩
  | taskWake _ _ _ => exact ⟨rfl, rfl, rfl, fun _ => rfl⟩
  | taskExpire _ _ => exact ⟨rfl, rfl, rfl, fun t => stored_expire _ _ t _⟩

/-- The call `t` makes a step, and every entry of a holder is there after it. -/
theorem GrabInv.thread (h : GrabInv G w) {t : τ} {c : GrabPc} {method : Call} {s : LockWorld τ τ}
    {cache : ν → ℤ → Option Bool} (hcall : s.call = Function.update w.locks.call t method)
    (hholds : s.holds = Function.update w.locks.holds t c.inside) (halive : s.alive = w.locks.alive)
    (hplace : c.LockPlace method) (horder : ∀ id, c.orderId = some id → G.orderId t = some id)
    (hstored : ∀ t, G.Stored s t) : GrabInv G ⟨s, cache, Function.update w.call t c⟩ := by
  refine ⟨fun t' => ?_, fun t' => ?_, fun t' id hid => ?_, hstored, fun t₁ t₂ hjvm => ?_⟩
  · show s.holds t' = (Function.update w.call t c t').inside
    rw [hholds]
    by_cases ht : t' = t
    · rw [ht, Function.update_self, Function.update_self]
    · rw [Function.update_of_ne ht, Function.update_of_ne ht]
      exact h.holds t'
  · show (Function.update w.call t c t').LockPlace (s.call t')
    rw [hcall]
    by_cases ht : t' = t
    · rw [ht, Function.update_self, Function.update_self]
      exact hplace
    · rw [Function.update_of_ne ht, Function.update_of_ne ht]
      exact h.place t'
  · simp only at hid
    by_cases ht : t' = t
    · rw [ht, Function.update_self] at hid
      rw [ht]
      exact horder id hid
    · rw [Function.update_of_ne ht] at hid
      exact h.order t' id hid
  · show s.alive t₁ = s.alive t₂
    rw [halive]
    exact h.jvm t₁ t₂ hjvm

/-- A call goes on, in or out of a method of its lock, and holds its lock as before. -/
theorem GrabInv.same (h : GrabInv G w) {t : τ} {c : GrabPc} (cache : ν → ℤ → Option Bool) (method : Call)
    (hin : c.inside = (w.call t).inside) (hplace : c.LockPlace method)
    (horder : ∀ id, c.orderId = some id → G.orderId t = some id) :
    GrabInv G ⟨w.locks.goto t method, cache, Function.update w.call t c⟩ := by
  refine h.thread rfl ?_ rfl hplace horder h.stored
  rw [hin, ← h.holds, Function.update_eq_self]
  rfl

/-- The same, where the call makes no step of its lock. -/
theorem GrabInv.goto (h : GrabInv G w) {t : τ} {c : GrabPc} (hin : c.inside = (w.call t).inside)
    (hplace : c.LockPlace (w.locks.call t)) (horder : ∀ id, c.orderId = some id → G.orderId t = some id) :
    GrabInv G (w.goto t c) := by
  have hsame : w.locks.goto t (w.locks.call t) = w.locks := by
    unfold LockWorld.goto
    rw [Function.update_eq_self]
  have hnext := h.same w.cache (w.locks.call t) hin hplace horder
  rwa [hsame] at hnext

theorem grabInv_lockMove (h : GrabInv G w) (huuid : Function.Injective G.uuid) {t : τ}
    (halive : w.locks.alive t = true) (hmove : LockMove G w t w') : GrabInv G w' := by
  cases hmove with
  | @wait c hplace hidle =>
    have hnext := h.same w.cache c rfl hplace (h.order t)
    rwa [Function.update_eq_self] at hnext
  | @acquire id hpc hfree =>
    refine h.thread rfl rfl rfl rfl (fun id' hid' => h.order t id' (by rw [hpc]; exact hid'))
      fun t' halive' hholds => ?_
    by_cases ht : t' = t
    · rw [ht]
      exact stored_acquire_self (F := G.locks) rfl
    · -- another holder has another key
      have hin' : (w.call t').inside = true := by
        rw [← h.holds]
        simpa only [LockWorld.acquire, Function.update_of_ne ht] using hholds
      have hkey := h.free_key hfree halive' hin'
      exact (stored_acquire_ne (F := G.locks) hkey).trans (h.stored t' halive' (by rw [h.holds, hin']))
  | @release id grabbed redis hpc hredis =>
    have hout : (GrabPc.afterUnlock id grabbed).inside = false := by cases grabbed <;> rfl
    have hid : (GrabPc.afterUnlock id grabbed).orderId = some id := by cases grabbed <;> rfl
    have hin : (w.call t).inside = true := by rw [hpc]; rfl
    refine h.thread rfl (by rw [hout]; rfl) rfl (by cases grabbed <;> rfl)
      (fun id' hid' => h.order t id' (by rw [hpc, ← hid', hid]; rfl)) fun t' halive' hholds => ?_
    have ht : t' ≠ t := by
      rintro rfl
      simp only [LockWorld.release, Function.update_self] at hholds
      cases hholds
    have hholds' : w.locks.holds t' = true := by
      simpa only [LockWorld.release, Function.update_of_ne ht] using hholds
    have hst := h.stored t' halive' hholds'
    rcases hredis with rfl | rfl
    · exact hst
    · have hkey : G.locks.key t' ≠ G.locks.key t := fun hkey =>
        ht (h.holder_unique huuid halive' (by rw [← h.holds, hholds']) halive hin hkey)
      exact (stored_delete_ne (F := G.locks) hkey).trans hst

theorem grabInv_bodyMove (h : GrabInv G w) [DecidableEq ν] {t : τ} (hmove : BodyMove G w t w') : GrabInv G w' := by
  have hplace := h.place t
  have horder := h.order t
  cases hmove with
  | noOrder hpc _ =>
    rw [hpc] at horder
    exact h.same _ _ (by rw [hpc]; rfl) (Or.inl rfl) horder
  | get hpc _ =>
    rw [hpc] at horder hplace
    exact h.goto (by rw [hpc]; rfl) hplace horder
  | free hpc =>
    rw [hpc] at horder hplace
    exact h.goto (by rw [hpc]; rfl) hplace horder
  | taken hpc =>
    rw [hpc] at horder
    exact h.same _ _ (by rw [hpc]; rfl) (Or.inl rfl) horder
  | put hpc =>
    rw [hpc] at horder
    exact h.same _ _ (by rw [hpc]; rfl) (Or.inl rfl) horder

omit [DecidableEq τ] in
/-- The locks change, but no call, no holder and no entry of one. -/
theorem GrabInv.quiet (h : GrabInv G w) {s : LockWorld τ τ} (hcall : s.call = w.locks.call)
    (hholds : s.holds = w.locks.holds) (hjvm : ∀ t t', G.jvm t = G.jvm t' → s.alive t = s.alive t')
    (hstored : ∀ t, G.Stored s t) : GrabInv G { w with locks := s } := by
  refine ⟨fun t => ?_, fun t => ?_, h.order, hstored, hjvm⟩
  · rw [hholds]
    exact h.holds t
  · rw [hcall]
    exact h.place t

/-- **The invariant is preserved by every step.** -/
theorem grabInv_step (h : GrabInv G w) (huuid : Function.Injective G.uuid) [DecidableEq ν] {l : GrabLabel τ ν}
    (hok : LeaseKept G w l) (hs : grabStep G w l = some w') : GrabInv G w' := by
  cases l with
  | grabOrder t =>
    have hplace := h.place t
    simp only [grabStep, Option.ite_none_right_eq_some] at hs
    obtain ⟨-, hs⟩ := hs
    split at hs
    · rename_i hpc _
      cases hs
      rw [hpc] at hplace
      exact h.goto (by rw [hpc]; rfl) hplace fun id hid => nomatch hid
    · rename_i id hpc hid
      cases hs
      exact h.same _ _ (by rw [hpc]; rfl) (Or.inl rfl) fun id' hid' => by rw [hid]; exact hid'
    · cases hs
  | lock t l =>
    obtain ⟨halive, hmove⟩ := lockMove_of_step h hs
    exact grabInv_lockMove h huuid halive hmove
  | grab t =>
    simp only [grabStep, Option.ite_none_right_eq_some] at hs
    exact grabInv_bodyMove h (bodyMove_of_step hs.2)
  | interrupt t =>
    have horder := h.order t
    simp only [grabStep, Option.ite_none_right_eq_some] at hs
    obtain ⟨-, hs⟩ := hs
    split at hs
    · rename_i hpc
      cases hs
      rw [hpc] at horder
      exact h.same _ _ (by rw [hpc]; rfl) (Or.inl rfl) horder
    · cases hs
  | task k l =>
    simp only [grabStep] at hs
    obtain ⟨s, htask, rfl⟩ := Option.map_eq_some_iff.1 hs
    obtain ⟨hcall, hholds, halive, hstored⟩ := task_frame htask
    refine h.quiet hcall hholds (by rw [halive]; exact h.jvm) fun t ht hh => ?_
    rw [hstored]
    exact h.stored t (by rw [← halive]; exact ht) (by rw [← hholds]; exact hh)
  | crash j =>
    cases hs
    refine h.quiet rfl rfl (fun t t' hjvm => ?_) fun t ht hh => ?_
    · simp only
      rw [h.jvm t t' hjvm, hjvm]
    · exact h.stored t (Bool.and_eq_true_iff.1 ht).1 hh
  | advance ms =>
    cases hs
    exact h.quiet rfl rfl h.jvm fun t ht hh => hok t ht (by rw [← h.holds]; exact hh) (h.stored t ht hh)

/-! ## The simulation -/

/-- The calls of one JVM, as calls over an ideal lock: a lock is held by the call that is inside. -/
structure GrabSim (G : GrabFleet τ ν) [DecidableEq ν] (j : ν) (w : GrabWorld τ ν) (o : OrderWorld τ) : Prop where
  inv : GrabInv G w
  cache : o.cache = w.cache j
  call : ∀ t, o.call t = if G.jvm t = j then w.call t else .fresh
  holder : ∀ name t, o.holder name = some t ↔
    G.jvm t = j ∧ (w.call t).inside = true ∧ (w.call t).orderId.map getLockName = some name

variable [DecidableEq ν] {j : ν} {o : OrderWorld τ}

omit [DecidableEq τ] in
theorem GrabSim.call_of (h : GrabSim G j w o) {t : τ} (ht : G.jvm t = j) : o.call t = w.call t := by
  rw [h.call, if_pos ht]

omit [DecidableEq τ] in
/-- No call of the JVM changes. -/
theorem GrabSim.stays (h : GrabSim G j w o) (hinv : GrabInv G w')
    (hcall : ∀ t, G.jvm t = j → w'.call t = w.call t) (hcache : w'.cache j = w.cache j) : GrabSim G j w' o := by
  refine ⟨hinv, h.cache.trans hcache.symm, fun t => ?_, fun name t => ?_⟩
  · rw [h.call]
    by_cases ht : G.jvm t = j
    · rw [if_pos ht, if_pos ht, hcall t ht]
    · rw [if_neg ht, if_neg ht]
  · rw [h.holder]
    by_cases ht : G.jvm t = j
    · rw [hcall t ht]
    · simp only [ht, false_and]

/-- A call of another JVM goes on. -/
theorem GrabSim.elsewhere (h : GrabSim G j w o) (hinv : GrabInv G w') {t : τ} {c : GrabPc} (ht : G.jvm t ≠ j)
    (hcall : w'.call = Function.update w.call t c) (hcache : w'.cache j = w.cache j) : GrabSim G j w' o := by
  refine h.stays hinv (fun t' ht' => ?_) hcache
  have hne : t' ≠ t := fun heq => ht (heq ▸ ht')
  rw [hcall, Function.update_of_ne hne]

/-- A call of the JVM goes on, with the holders `holder` after the step. -/
theorem GrabSim.moves (h : GrabSim G j w o) (hinv : GrabInv G w') {t : τ} {c : GrabPc} (ht : G.jvm t = j)
    (hcall : w'.call = Function.update w.call t c) {cache : ℤ → Option Bool} (hcache : w'.cache j = cache)
    {holder : String → Option τ}
    (hself : ∀ name, holder name = some t ↔ c.inside = true ∧ c.orderId.map getLockName = some name)
    (hothers : ∀ name t', t' ≠ t → (holder name = some t' ↔ o.holder name = some t')) :
    GrabSim G j w' ⟨cache, holder, Function.update o.call t c⟩ := by
  refine ⟨hinv, hcache.symm, fun t' => ?_, fun name t' => ?_⟩
  · simp only [hcall]
    by_cases htt : t' = t
    · rw [htt, Function.update_self, Function.update_self, if_pos ht]
    · rw [Function.update_of_ne htt, Function.update_of_ne htt]
      exact h.call t'
  · simp only [hcall]
    by_cases htt : t' = t
    · rw [htt, Function.update_self, hself]
      simp only [ht, true_and]
    · rw [Function.update_of_ne htt, hothers name t' htt]
      exact h.holder name t'

/-- A call of the JVM goes on, and the locks are held as before. -/
theorem GrabSim.moves_same (h : GrabSim G j w o) (hinv : GrabInv G w') {t : τ} {c : GrabPc} (ht : G.jvm t = j)
    (hcall : w'.call = Function.update w.call t c) {cache : ℤ → Option Bool} (hcache : w'.cache j = cache)
    (hin : c.inside = (w.call t).inside) (hid : c.inside = true → c.orderId = (w.call t).orderId) :
    GrabSim G j w' { o.goto t c with cache := cache } := by
  refine h.moves hinv ht hcall hcache (fun name => ?_) fun name t' _ => Iff.rfl
  show o.holder name = some t ↔ _
  rw [h.holder, hin]
  constructor
  · rintro ⟨-, hinside, hname⟩
    exact ⟨hinside, by rw [hid (hin.trans hinside)]; exact hname⟩
  · rintro ⟨hinside, hname⟩
    exact ⟨ht, hinside, by rw [← hid (hin.trans hinside)]; exact hname⟩

omit [DecidableEq τ] in
/-- The ideal lock of an order is free where the key of a live call for it is. -/
theorem GrabSim.free (h : GrabSim G j w o) {t : τ} {id : ℤ} (ht : G.jvm t = j) (halive : w.locks.alive t = true)
    (hid : (w.call t).orderId = some id) (hfree : G.locks.stored w.locks t = none) :
    o.holder (getLockName id) = none := by
  cases hholder : o.holder (getLockName id) with
  | none => rfl
  | some t' =>
    obtain ⟨ht', hin', hname⟩ := (h.holder _ _).1 hholder
    obtain ⟨id', hid', hname⟩ := Option.map_eq_some_iff.1 hname
    have halive' : w.locks.alive t' = true := by rw [h.inv.jvm t' t (ht'.trans ht.symm), halive]
    have hkey : G.locks.key t' = G.locks.key t := by
      rw [key_of_order (h.inv.order t' id' hid'), key_of_order (h.inv.order t id hid), hname]
    exact absurd hkey (h.inv.free_key hfree halive' hin')

theorem afterUnlock_inside (id : ℤ) (grabbed : Option Bool) : (GrabPc.afterUnlock id grabbed).inside = false := by
  cases grabbed <;> rfl

theorem leave_eq (o : OrderWorld τ) (t : τ) (id : ℤ) (grabbed : Option Bool) :
    o.leave t id grabbed = o.goto t (.afterUnlock id grabbed) := by
  cases grabbed <;> rfl

/-- The lock of a call of the JVM makes a step. -/
theorem grabSim_lockMove (h : GrabSim G j w o) (hinv : GrabInv G w') {t : τ} (ht : G.jvm t = j)
    (halive : w.locks.alive t = true) (hmove : LockMove G w t w') :
    ∃ ms o', exec orderStep o ms = some o' ∧ GrabSim G j w' o' := by
  cases hmove with
  | wait _ _ => exact matched_nil (h.stays hinv (fun _ _ => rfl) rfl)
  | @acquire id hpc hfree =>
    have hid : (w.call t).orderId = some id := by rw [hpc]; rfl
    have hnone := h.free ht halive hid hfree
    have hstep : orderStep o (.step t) = some ((o.acquire t id).goto t (.get id)) := by
      simp only [orderStep, h.call_of ht, hpc, hnone, if_true]
    refine matched_one hstep (h.moves hinv ht rfl h.cache.symm (fun name => ?_) fun name t' hne => ?_)
    · simp only [OrderWorld.acquire]
      by_cases hname : name = getLockName id
      · rw [hname, Function.update_self]
        exact ⟨fun _ => ⟨rfl, rfl⟩, fun _ => rfl⟩
      · rw [Function.update_of_ne hname, h.holder]
        refine ⟨fun hold => ?_, fun hnew => absurd (Option.some.inj hnew.2).symm hname⟩
        rw [hpc] at hold
        cases hold.2.1
    · simp only [OrderWorld.acquire]
      by_cases hname : name = getLockName id
      · rw [hname, Function.update_self, hnone]
        refine ⟨fun heq => absurd (Option.some.inj heq).symm hne, fun heq => ?_⟩
        cases heq
      · rw [Function.update_of_ne hname]
  | @release id grabbed redis hpc _ =>
    have hheld : o.holder (getLockName id) = some t := by
      rw [h.holder, hpc]
      exact ⟨ht, rfl, rfl⟩
    have hstep : orderStep o (.step t) = some ((o.release id).goto t (.afterUnlock id grabbed)) := by
      simp only [orderStep, h.call_of ht, hpc, leave_eq]
    refine matched_one hstep (h.moves hinv ht rfl h.cache.symm (fun name => ?_) fun name t' hne => ?_)
    · simp only [OrderWorld.release]
      rw [afterUnlock_inside]
      by_cases hname : name = getLockName id
      · rw [hname, Function.update_self]
        constructor
        · intro heq
          cases heq
        · rintro ⟨hin, -⟩
          cases hin
      · rw [Function.update_of_ne hname, h.holder, hpc]
        refine ⟨fun hold => absurd (Option.some.inj hold.2.2).symm hname, fun hnew => ?_⟩
        cases hnew.1
    · simp only [OrderWorld.release]
      by_cases hname : name = getLockName id
      · rw [hname, Function.update_self, hheld]
        refine ⟨fun heq => ?_, fun heq => absurd (Option.some.inj heq).symm hne⟩
        cases heq
      · rw [Function.update_of_ne hname]

/-- `grab` of a call of the JVM makes a step. -/
theorem grabSim_bodyMove (h : GrabSim G j w o) (hinv : GrabInv G w') {t : τ} (ht : G.jvm t = j)
    (hmove : BodyMove G w t w') : ∃ ms o', exec orderStep o ms = some o' ∧ GrabSim G j w' o' := by
  have hcall := h.call_of ht
  cases hmove with
  | @noOrder id hpc hnone =>
    have hstep : orderStep o (.step t) = some (o.goto t (.unlock id none)) := by
      simp only [orderStep, hcall, hpc, h.cache, ← ht, hnone]
    exact matched_one hstep (h.moves_same hinv ht rfl h.cache.symm (by rw [hpc]; rfl) fun _ => by rw [hpc]; rfl)
  | @get id flag hpc hflag =>
    have hstep : orderStep o (.step t) = some (o.goto t (.sleep id flag)) := by
      simp only [orderStep, hcall, hpc, h.cache, ← ht, hflag]
    exact matched_one hstep (h.moves_same hinv ht rfl h.cache.symm (by rw [hpc]; rfl) fun _ => by rw [hpc]; rfl)
  | @free id hpc =>
    have hstep : orderStep o (.step t) = some (o.goto t (.put id)) := by
      simp only [orderStep, hcall, hpc, if_true]
    exact matched_one hstep (h.moves_same hinv ht rfl h.cache.symm (by rw [hpc]; rfl) fun _ => by rw [hpc]; rfl)
  | @taken id hpc =>
    have hstep : orderStep o (.step t) = some (o.goto t (.unlock id (some false))) := by
      simp only [orderStep, hcall, hpc, Bool.true_eq_false, if_false]
    exact matched_one hstep (h.moves_same hinv ht rfl h.cache.symm (by rw [hpc]; rfl) fun _ => by rw [hpc]; rfl)
  | @put id hpc =>
    have hstep : orderStep o (.step t) = some { o.goto t (.unlock id (some true)) with
        cache := Function.update o.cache id (some true) } := by
      simp only [orderStep, hcall, hpc]
    refine matched_one hstep (h.moves_same hinv ht rfl ?_ (by rw [hpc]; rfl) fun _ => by rw [hpc]; rfl)
    rw [h.cache, ← ht]
    exact Function.update_self _ _ _

/-- **A JVM over Redis does what a JVM over an ideal lock does.** -/
theorem grab_simulates (huuid : Function.Injective G.uuid) (j : ν) :
    Simulates (grabStep G) (LeaseKept G) orderStep (GrabSim G j) := by
  intro w l w' o h hok hs
  have hinv : GrabInv G w' := grabInv_step h.inv huuid hok hs
  have hother : ∀ {t : τ} {c : GrabPc}, G.jvm t ≠ j → w'.call = Function.update w.call t c →
      w'.cache j = w.cache j → ∃ ms o', exec orderStep o ms = some o' ∧ GrabSim G j w' o' :=
    fun ht hcall hcache => matched_nil (h.elsewhere hinv ht hcall hcache)
  cases l with
  | grabOrder t =>
    simp only [grabStep, Option.ite_none_right_eq_some] at hs
    obtain ⟨-, hs⟩ := hs
    split at hs
    · rename_i hpc hnone
      cases hs
      by_cases ht : G.jvm t = j
      · have hstep : orderStep o (.grabOrder t none) = some (o.goto t (.threw none none)) := by
          simp only [orderStep, h.call_of ht, hpc]
        exact matched_one hstep (h.moves_same hinv ht rfl h.cache.symm (by rw [hpc]; rfl)
          fun hin => absurd hin Bool.false_ne_true)
      · exact hother ht rfl rfl
    · rename_i id hpc hid
      cases hs
      by_cases ht : G.jvm t = j
      · have hstep : orderStep o (.grabOrder t (some id)) = some (o.goto t (.lock id)) := by
          simp only [orderStep, h.call_of ht, hpc]
        exact matched_one hstep (h.moves_same hinv ht rfl h.cache.symm (by rw [hpc]; rfl)
          fun hin => absurd hin Bool.false_ne_true)
      · exact hother ht rfl rfl
    · cases hs
  | lock t l =>
    obtain ⟨halive, hmove⟩ := lockMove_of_step h.inv hs
    by_cases ht : G.jvm t = j
    · exact grabSim_lockMove h hinv ht halive hmove
    · cases hmove with
      | wait _ _ => exact matched_nil (h.stays hinv (fun _ _ => rfl) rfl)
      | acquire _ _ => exact hother ht rfl rfl
      | release _ _ => exact hother ht rfl rfl
  | grab t =>
    simp only [grabStep, Option.ite_none_right_eq_some] at hs
    have hmove := bodyMove_of_step hs.2
    by_cases ht : G.jvm t = j
    · exact grabSim_bodyMove h hinv ht hmove
    · cases hmove with
      | noOrder _ _ => exact hother ht rfl rfl
      | get _ _ => exact hother ht rfl rfl
      | free _ => exact hother ht rfl rfl
      | taken _ => exact hother ht rfl rfl
      | put _ => exact hother ht rfl (Function.update_of_ne (Ne.symm ht) _ _)
  | interrupt t =>
    simp only [grabStep, Option.ite_none_right_eq_some] at hs
    obtain ⟨-, hs⟩ := hs
    split at hs
    · rename_i id flag hpc
      cases hs
      by_cases ht : G.jvm t = j
      · have hstep : orderStep o (.throws t false) = some (o.goto t (.unlock id none)) := by
          simp only [orderStep, h.call_of ht, hpc]
        exact matched_one hstep (h.moves_same hinv ht rfl h.cache.symm (by rw [hpc]; rfl) fun _ => by rw [hpc]; rfl)
      · exact hother ht rfl rfl
    · cases hs
  | task k l =>
    obtain ⟨s, -, rfl⟩ := Option.map_eq_some_iff.1 hs
    exact matched_nil (h.stays hinv (fun _ _ => rfl) rfl)
  | crash k =>
    cases hs
    exact matched_nil (h.stays hinv (fun _ _ => rfl) rfl)
  | advance ms =>
    cases hs
    exact matched_nil (h.stays hinv (fun _ _ => rfl) rfl)

omit [DecidableEq τ] in
theorem grabSim_init (G : GrabFleet τ ν) (j : ν) (now : ℕ) (redis : TtlStore String String)
    (cache : ν → ℤ → Option Bool) : GrabSim G j (.init τ ν now redis cache) (.init τ (cache j)) := by
  refine ⟨grabInv_init G now redis cache, rfl, fun t => (ite_self _).symm, fun name t => ?_⟩
  constructor
  · intro h
    cases h
  · rintro ⟨-, h, -⟩
    cases h

/-- **Over Redis as over an ideal lock.** Along every run in which no entry of a live call that is
inside expires: in each JVM the calls and the cache are those of a run over locks that exclude
each other, and no two live calls, of whatever JVMs, are inside for one order. -/
theorem grab_refines (huuid : Function.Injective G.uuid) {now : ℕ} {redis : TtlStore String String}
    {cache : ν → ℤ → Option Bool} {ls : List (GrabLabel τ ν)}
    (hok : Along (grabStep G) (LeaseKept G) (.init τ ν now redis cache) ls)
    (hrun : exec (grabStep G) (.init τ ν now redis cache) ls = some w) :
    (∀ j, ∃ os o, exec orderStep (.init τ (cache j)) os = some o ∧ o.cache = w.cache j ∧
      ∀ t, G.jvm t = j → o.call t = w.call t) ∧
      ∀ t t' id, w.locks.alive t = true → (w.call t).inside = true → (w.call t).orderId = some id →
        w.locks.alive t' = true → (w.call t').inside = true → (w.call t').orderId = some id → t = t' := by
  refine ⟨fun j => ?_, fun t t' id halive hin hid halive' hin' hid' => ?_⟩
  · obtain ⟨os, o, hos, hsim⟩ := (grab_simulates huuid j).run (grabSim_init G j now redis cache) hok hrun
    exact ⟨os, o, hos, hsim.cache, fun t ht => hsim.call_of ht⟩
  · have hinv : GrabInv G w :=
      inv_of_along (fun _ _ _ h hok hs => grabInv_step h huuid hok hs) (grabInv_init G now redis cache) hok hrun
    have hkey : G.locks.key t = G.locks.key t' := by
      rw [key_of_order (hinv.order t id hid), key_of_order (hinv.order t' id hid')]
    exact hinv.holder_unique huuid halive hin halive' hin' hkey

/-- `grab` returned true in this call of the JVM for the order. -/
def GrabWon (G : GrabFleet τ ν) (w : GrabWorld τ ν) (j : ν) (id : ℤ) (t : τ) : Prop :=
  G.jvm t = j ∧ (w.call t).orderId = some id ∧ (w.call t).grabbed = some true

omit [DecidableEq τ] in
theorem GrabSim.won (h : GrabSim G j w o) {id : ℤ} {t : τ} : Won o id t ↔ GrabWon G w j id t := by
  unfold Won GrabWon
  rw [h.call]
  by_cases ht : G.jvm t = j
  · simp only [ht, if_true, true_and]
  · simp only [ht, if_false, false_and, iff_false]
    rintro ⟨hid, -⟩
    cases hid

/-- **One winner per order and JVM.** Along every such run `grab` returns true in at most one call
of a JVM for an order; if the order was free in the JVM and a call of it returned, in exactly one. -/
theorem grab_one_winner (huuid : Function.Injective G.uuid) {now : ℕ} {redis : TtlStore String String}
    {cache : ν → ℤ → Option Bool} {ls : List (GrabLabel τ ν)}
    (hok : Along (grabStep G) (LeaseKept G) (.init τ ν now redis cache) ls)
    (hrun : exec (grabStep G) (.init τ ν now redis cache) ls = some w) (j : ν) (id : ℤ) :
    (∀ t t', GrabWon G w j id t → GrabWon G w j id t' → t = t') ∧
      (cache j id = some false → (∃ t b, G.jvm t = j ∧ w.call t = .returned id b) → ∃ t, GrabWon G w j id t) := by
  obtain ⟨o, hsim, hinv⟩ := (grab_simulates huuid j).inv (fun _ _ _ h hs => orderInv_step h hs)
    (grabSim_init G j now redis cache) (orderInv_init (cache j)) hok hrun
  refine ⟨fun t t' h h' => hinv.unique t t' id (hsim.won.2 h) (hsim.won.2 h'), ?_⟩
  rintro hstart ⟨t, b, ht, hreturned⟩
  have hcall : o.call t = .returned id b := (hsim.call_of ht).trans hreturned
  have hid : (o.call t).orderId = some id := by rw [hcall]; rfl
  -- the call that returned saw the flag of the order set
  have htrue : o.cache id = some true := by
    cases b with
    | false => exact hinv.lost t id hid (by rw [hcall]; rfl)
    | true => exact hinv.won t id ⟨hid, by rw [hcall]; rfl⟩
  obtain ⟨t', hwon⟩ := hinv.taken id hstart (by rw [htrue]; simp)
  exact ⟨t', hsim.won.1 hwon⟩

end Steps

/-- Two calls for one order in one JVM. -/
def twoCalls : GrabFleet Bool Unit := ⟨fun _ => some 1, fun _ => (), twoUuids⟩

instance (w : GrabWorld Bool Unit) : DecidablePred (LeaseKept twoCalls w)
  | .advance _ => inferInstanceAs (Decidable (∀ _, _))
  | .grabOrder _ => isTrue trivial
  | .lock _ _ => isTrue trivial
  | .grab _ => isTrue trivial
  | .interrupt _ => isTrue trivial
  | .task _ _ => isTrue trivial
  | .crash _ => isTrue trivial

/-- The second call waits until the first one has released the lock. -/
def grabsTwice : List (GrabLabel Bool Unit) :=
  [.grabOrder false, .grabOrder true, .lock false .setIfAbsent, .lock true .setIfAbsent, .grab false, .advance 3000,
    .grab false, .grab false, .lock false .get, .lock false .delete, .lock true (.wake false), .lock true .setIfAbsent,
    .grab true, .grab true, .lock true .get, .lock true .delete]

theorem grabsTwice_kept : Along (grabStep twoCalls) (LeaseKept twoCalls)
    (.init Bool Unit 0 .empty fun _ _ => some false) grabsTwice := by decide +kernel

/-- The run over Redis is a run over an ideal lock. -/
theorem grab_refines_twice : ∃ w, exec (grabStep twoCalls) (.init Bool Unit 0 .empty fun _ _ => some false)
    grabsTwice = some w ∧ w.call true = .returned 1 false ∧
    ∃ os o, exec orderStep (.init Bool fun _ => some false) os = some o ∧ o.call true = .returned 1 false := by
  have heval : (exec (grabStep twoCalls) (.init Bool Unit 0 .empty fun _ _ => some false) grabsTwice).any
      (fun w => decide (w.call true = .returned 1 false)) = true := by decide +kernel
  obtain ⟨w, hrun, heval⟩ := (Option.any_eq_true _ _).1 heval
  have hreturned := of_decide_eq_true heval
  obtain ⟨os, o, hos, -, hcall⟩ := (grab_refines twoUuids_injective grabsTwice_kept hrun).1 ()
  exact ⟨w, hrun, hreturned, os, o, hos, (hcall true rfl).trans hreturned⟩

/-- The first call is the one that wins. -/
theorem grab_one_winner_twice : ∃ w, exec (grabStep twoCalls) (.init Bool Unit 0 .empty fun _ _ => some false)
    grabsTwice = some w ∧ GrabWon twoCalls w () 1 false ∧ ∀ t, GrabWon twoCalls w () 1 t → t = false := by
  have heval : (exec (grabStep twoCalls) (.init Bool Unit 0 .empty fun _ _ => some false) grabsTwice).any
      (fun w => decide (w.call false = .returned 1 true)) = true := by decide +kernel
  obtain ⟨w, hrun, heval⟩ := (Option.any_eq_true _ _).1 heval
  have hreturned := of_decide_eq_true heval
  have hwon : GrabWon twoCalls w () 1 false := by
    unfold GrabWon
    rw [hreturned]
    exact ⟨rfl, rfl, rfl⟩
  obtain ⟨hone, hsome⟩ := grab_one_winner twoUuids_injective grabsTwice_kept hrun () 1
  obtain ⟨t, ht⟩ := hsome rfl ⟨false, true, rfl, hreturned⟩
  obtain rfl : t = false := hone t false ht hwon
  exact ⟨w, hrun, ht, fun t' ht' => hone t' false ht' ht⟩

end StudyTech
