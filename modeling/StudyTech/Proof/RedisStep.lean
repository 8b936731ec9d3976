import Mathlib.Order.Nat
import StudyTech.Spec.RedisLock

/-!
# What a step of the Redis locks can do

`Effect` lists the ways a step can change the world, with the guards it passed;
`lockStep_effect` says that there are no others. The invariants of the locks are
proved by cases on it.
-/

namespace StudyTech

open Lib

variable {ι τ : Type} [DecidableEq ι] [DecidableEq τ] {F : Fleet ι τ} {s s' : LockWorld ι τ}
  {l : LockLabel ι τ}

/-- The instances created for one name, each with its own uuid. -/
def Fleet.named {ι τ : Type} (name : Option String) (uuid : ι → String) (inst : τ → ι) : Fleet ι τ :=
  ⟨fun i => RedisLock.new name (uuid i), inst⟩

def twoUuids (i : Bool) : String := if i then "uuid-1" else "uuid-0"

theorem twoUuids_injective : Function.Injective twoUuids := by
  intro i j h
  cases i <;> cases j <;> first | rfl | exact absurd h (by decide)

/-- Two instances on the name `order`, each used by one thread. -/
def twoLocks : Fleet Bool Bool := .named (some "order") twoUuids id

/-- The key of an instance. -/
def Fleet.key (F : Fleet ι τ) (i : ι) : String := (F.lock i).name

/-- What an instance stores. -/
def Fleet.uuid (F : Fleet ι τ) (i : ι) : String := (F.lock i).uuid

/-- What is stored under the key of an instance. -/
def Fleet.stored (F : Fleet ι τ) (s : LockWorld ι τ) (i : ι) : Option String := s.redis.get s.now (F.key i)

/-- The ways a step can change the world. -/
inductive Effect (F : Fleet ι τ) (s : LockWorld ι τ) : LockLabel ι τ → LockWorld ι τ → Prop
  /-- a step outside `unlock` that changes nothing but the thread's place -/
  | move {t : τ} {l : ThreadLabel} {c : Call} : s.alive (F.inst t) = true → l ≠ .delete →
      (l = .setIfAbsent → F.stored s (F.inst t) ≠ none) → c ≠ .unlockDelete →
      (c = .unlock → l = .unlock) → Effect F s (.thread t l) (s.goto t c)
  | acquire {t : τ} {c : Call} : s.alive (F.inst t) = true → F.stored s (F.inst t) = none →
      c ≠ .unlock → c ≠ .unlockDelete →
      Effect F s (.thread t .setIfAbsent) (s.acquire (F.lock (F.inst t)) (F.inst t) t c)
  | own {t : τ} : s.alive (F.inst t) = true → s.call t = .unlock →
      F.stored s (F.inst t) = some (F.uuid (F.inst t)) → Effect F s (.thread t .get) (s.goto t .unlockDelete)
  | notOwn {t : τ} : s.alive (F.inst t) = true → s.call t = .unlock →
      F.stored s (F.inst t) ≠ some (F.uuid (F.inst t)) → Effect F s (.thread t .get) (s.release t s.redis)
  | delete {t : τ} : s.alive (F.inst t) = true → s.call t = .unlockDelete →
      Effect F s (.thread t .delete) (s.release t (s.redis.delete (F.key (F.inst t))))
  | taskGet {k : ℕ} {i : ι} : s.alive i = true → s.tasks[k]? = some ⟨i, .start⟩ →
      Effect F s (.task k .get) (s.gotoTask k i (renewLoop (F.lock i) s.now (F.stored s i)))
  | taskWake {k : ℕ} {i : ι} {v : Option String} {wake : ℕ} : s.alive i = true →
      s.tasks[k]? = some ⟨i, .sleeping v wake⟩ → wake ≤ s.now →
      Effect F s (.task k .wake) (s.gotoTask k i (.expiring v))
  | taskExpire {k : ℕ} {i : ι} {v : Option String} : s.alive i = true →
      s.tasks[k]? = some ⟨i, .expiring v⟩ →
      Effect F s (.task k .expire) { s.gotoTask k i (renewLoop (F.lock i) s.now v) with
        redis := s.redis.expire s.now (F.key i) RedisLock.ttl
        renewed := Function.update s.renewed i s.now }
  | crash (i : ι) : Effect F s (.crash i) { s with alive := Function.update s.alive i false }
  | advance (ms : ℕ) : Effect F s (.advance ms) { s with now := s.now + ms }

/-- An attempt belongs to no `unlock`, and does not lead into one. -/
theorem afterAttempt_place {now : ℕ} {status : Bool} {c c' : Call} (h : c.afterAttempt now status = some c') :
    c' ≠ .unlock ∧ c' ≠ .unlockDelete := by
  unfold Call.afterAttempt at h
  cases c <;> cases status <;> cases h <;> simp

theorem threadStep_effect {t : τ} {tl : ThreadLabel} (halive : s.alive (F.inst t) = true)
    (h : threadStep F s t tl = some s') : Effect F s (.thread t tl) s' := by
  have hmove : ∀ c, tl ≠ .delete → (tl = .setIfAbsent → F.stored s (F.inst t) ≠ none) →
      c ≠ .unlockDelete → (c = .unlock → tl = .unlock) → Effect F s (.thread t tl) (s.goto t c) :=
    fun c h₁ h₂ h₃ h₄ => .move halive h₁ h₂ h₃ h₄
  unfold threadStep at h
  simp only at h
  split at h
  case h_1 => cases h; exact hmove _ (by simp) (by simp) (by simp) (by simp)
  case h_2 => cases h; exact hmove _ (by simp) (by simp) (by simp) (by simp)
  case h_3 => cases h; exact hmove _ (by simp) (by simp) (by simp) (by simp)
  case h_4 => cases h; exact hmove _ (by simp) (by simp) (by simp) (by simp)
  case h_5 =>
    -- `setIfAbsent`, in any of the three methods that acquire
    obtain ⟨c', hc', h⟩ := Option.map_eq_some_iff.1 h
    obtain ⟨hunlock, hdelete⟩ := afterAttempt_place hc'
    by_cases hstatus : (s.redis.setIfAbsent s.now (F.lock (F.inst t)).name (F.lock (F.inst t)).uuid
        RedisLock.ttl).1 = true
    · rw [if_pos hstatus] at h
      subst h
      exact .acquire halive (TtlStore.setIfAbsent_fst.1 hstatus) hunlock hdelete
    · rw [if_neg hstatus] at h
      subst h
      refine hmove _ (by simp) (fun _ hfree => hstatus ?_) hdelete (fun h => absurd h hunlock)
      exact TtlStore.setIfAbsent_fst.2 hfree
  case h_6 =>
    split at h
    · cases h; exact hmove _ (by simp) (by simp) (by simp) (by simp)
    · cases h
  case h_7 =>
    cases h
    refine hmove _ (by simp) (by simp) ?_ ?_ <;> split <;> simp
  case h_8 hc =>
    cases h
    -- `get`, in `unlock`
    by_cases hown : F.stored s (F.inst t) = some (F.uuid (F.inst t))
    · rw [if_pos (by exact hown)]
      exact .own halive hc hown
    · rw [if_neg (by exact hown)]
      exact .notOwn halive hc hown
  case h_9 hc => cases h; exact .delete halive hc
  case h_10 => cases h

theorem taskStep_effect {k : ℕ} {task : RenewTask ι} {tl : TaskLabel} (halive : s.alive task.owner = true)
    (htask : s.tasks[k]? = some task) (h : taskStep F s k task tl = some s') :
    Effect F s (.task k tl) s' := by
  obtain ⟨i, pc⟩ := task
  unfold taskStep at h
  simp only at h
  split at h
  · cases h; exact .taskGet halive htask
  · split at h
    · cases h; exact .taskWake halive htask ‹_›
    · cases h
  · cases h; exact .taskExpire halive htask
  · cases h

/-- **What a step can do.** -/
theorem lockStep_effect (h : lockStep F s l = some s') : Effect F s l s' := by
  cases l with
  | thread t tl =>
    simp only [lockStep, Option.ite_none_right_eq_some] at h
    exact threadStep_effect h.1 h.2
  | task k tl =>
    simp only [lockStep] at h
    split at h
    · rename_i task htask
      simp only [Option.ite_none_right_eq_some] at h
      exact taskStep_effect h.1 htask h.2
    · cases h
  | crash i => cases h; exact .crash i
  | advance ms => cases h; exact .advance ms

/-! ## Steps that are enabled -/

theorem lockStep_delete {t : τ} (halive : s.alive (F.inst t) = true) (hcall : s.call t = .unlockDelete) :
    lockStep F s (.thread t .delete) = some (s.release t (s.redis.delete (F.key (F.inst t)))) := by
  have hthread : threadStep F s t .delete = some (s.release t (s.redis.delete (F.key (F.inst t)))) := by
    unfold threadStep
    simp only [hcall]
    rfl
  exact (if_pos halive).trans hthread

theorem lockStep_taskWake {k : ℕ} {i : ι} {v : Option String} {wake : ℕ} (halive : s.alive i = true)
    (htask : s.tasks[k]? = some ⟨i, .sleeping v wake⟩) (hwake : wake ≤ s.now) :
    lockStep F s (.task k .wake) = some (s.gotoTask k i (.expiring v)) := by
  simp only [lockStep, htask, taskStep, halive, hwake, if_true]

theorem lockStep_taskExpire {k : ℕ} {i : ι} {v : Option String} (halive : s.alive i = true)
    (htask : s.tasks[k]? = some ⟨i, .expiring v⟩) :
    lockStep F s (.task k .expire) = some { s.gotoTask k i (renewLoop (F.lock i) s.now v) with
      redis := s.redis.expire s.now (F.key i) RedisLock.ttl
      renewed := Function.update s.renewed i s.now } := by
  simp only [lockStep, htask, taskStep, halive, if_true]
  rfl

/-! ## Threads and instances that a step does not touch -/

omit [DecidableEq ι] in
/-- A thread that is at `d` and did not just go on to another place was there before. -/
theorem update_place {call : τ → Call} {t t' : τ} {c d : Call} (hc : c ≠ d)
    (h : Function.update call t c t' = d) : t' ≠ t ∧ call t' = d := by
  by_cases htt : t' = t
  · rw [htt, Function.update_self] at h
    exact absurd h hc
  · rw [Function.update_of_ne htt] at h
    exact ⟨htt, h⟩

omit [DecidableEq τ] in
/-- Nothing comes back from a crash. -/
theorem alive_of_crash {i j : ι} {alive : ι → Bool} (h : Function.update alive i false j = true) :
    alive j = true := by
  by_cases hji : j = i
  · rw [hji, Function.update_self] at h
    cases h
  · rwa [Function.update_of_ne hji] at h

/-! ## The stored value -/

omit [DecidableEq τ] in
/-- A renewal changes no value. -/
theorem stored_expire (k : ℕ) (i j : ι) (pc : Renew) :
    F.stored { s.gotoTask k i pc with
      redis := s.redis.expire s.now (F.key i) RedisLock.ttl
      renewed := Function.update s.renewed i s.now } j = F.stored s j :=
  TtlStore.get_expire (by decide)

theorem stored_acquire_self {t : τ} {c : Call} {j : ι} (hj : F.key j = F.key (F.inst t)) :
    F.stored (s.acquire (F.lock (F.inst t)) (F.inst t) t c) j = some (F.uuid (F.inst t)) := by
  unfold Fleet.stored
  rw [hj]
  exact TtlStore.get_set_self.trans (if_pos (Nat.lt_add_of_pos_right (by decide)))

theorem stored_acquire_ne {t : τ} {c : Call} {j : ι} (hj : F.key j ≠ F.key (F.inst t)) :
    F.stored (s.acquire (F.lock (F.inst t)) (F.inst t) t c) j = F.stored s j :=
  TtlStore.get_set_ne hj

omit [DecidableEq ι] in
theorem stored_delete_self {t : τ} {i j : ι} (hj : F.key j = F.key i) :
    F.stored (s.release t (s.redis.delete (F.key i))) j = none := by
  unfold Fleet.stored
  rw [hj]
  exact TtlStore.get_delete_self

omit [DecidableEq ι] in
theorem stored_delete_ne {t : τ} {i j : ι} (hj : F.key j ≠ F.key i) :
    F.stored (s.release t (s.redis.delete (F.key i))) j = F.stored s j :=
  TtlStore.get_delete_ne hj

omit [DecidableEq ι] [DecidableEq τ] in
theorem stored_advance (ms : ℕ) (j : ι) :
    F.stored { s with now := s.now + ms } j = none ∨
      F.stored { s with now := s.now + ms } j = F.stored s j :=
  TtlStore.get_later (Nat.le_add_right _ _) s.redis (F.key j)

end StudyTech
