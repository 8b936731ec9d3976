import Mathlib.Data.Int.Order.Basic
import StudyTech.Proof.RedisStep

/-!
# The timeout of `tryLock(time, unit)`

The loop of the timed `tryLock` tries, reads the clock, and goes on while the reading is not
past the deadline (`TimedLoop`); any run of the locks contains it as the steps of its thread
(`timed_run`). The deadline is a sum of `long`s. Where the sum overflows it lies in the past,
and a first attempt that fails ends the call at once (`timed_gives_up`); where it does not,
`false` is returned only after the time has passed (`timed_tryLock`).
-/

namespace StudyTech

open Lib

/-- The value fits in a `long`. -/
def IsLong (x : ℤ) : Prop := -2 ^ 63 ≤ x ∧ x < 2 ^ 63

instance (x : ℤ) : Decidable (IsLong x) := inferInstanceAs (Decidable (_ ∧ _))

/-- The loop up to its return: whether each attempt stored the uuid, and the readings of the
clock after the attempts that did not. -/
inductive TimedLoop (deadline : ℤ) : List Bool → List ℤ → Bool → Prop
  | stored : TimedLoop deadline [true] [] true
  | expired {n : ℤ} : deadline < n → TimedLoop deadline [false] [n] false
  | again {n : ℤ} {attempts : List Bool} {readings : List ℤ} {status : Bool} : n ≤ deadline →
      TimedLoop deadline attempts readings status → TimedLoop deadline (false :: attempts) (n :: readings) status

section Loop

variable {deadline : ℤ} {attempts : List Bool} {readings : List ℤ} {status : Bool}

theorem TimedLoop.attempts_ne_nil (h : TimedLoop deadline attempts readings status) : attempts ≠ [] := by
  cases h <;> exact List.cons_ne_nil _ _

/-- The loop returns true if and only if an attempt stored the uuid. -/
theorem TimedLoop.status_iff (h : TimedLoop deadline attempts readings status) : status = true ↔ true ∈ attempts := by
  induction h with
  | stored => simp
  | expired _ => simp
  | again _ _ ih => simpa using ih

/-- The loop returns false after a reading past the deadline. -/
theorem TimedLoop.past_deadline (h : TimedLoop deadline attempts readings false) :
    ∃ n ∈ readings.getLast?, deadline < n := by
  generalize hstatus : false = status at h
  induction h with
  | stored => cases hstatus
  | expired hn => exact ⟨_, rfl, hn⟩
  | @again n attempts readings status _ hrest ih =>
    obtain ⟨m, hm, hlt⟩ := ih hstatus
    refine ⟨m, ?_, hlt⟩
    cases readings with
    | nil => cases hm
    | cons r rs => rwa [List.getLast?_cons_cons]

/-- Where the deadline lies before the first reading, the loop makes one attempt. -/
theorem TimedLoop.single (h : TimedLoop deadline attempts readings status) (hpast : ∀ n ∈ readings, deadline < n) :
    attempts = [status] := by
  cases h with
  | stored => rfl
  | expired _ => rfl
  | again hn _ => exact absurd (hpast _ List.mem_cons_self) (not_lt.2 hn)

end Loop

/-- Where the sum does not overflow, it is the deadline, or it lies before any time at which the
loop could give up. -/
theorem deadline_le {x : ℤ} (h : x < 2 ^ 63) : x ≤ toLong x := by
  unfold toLong
  omega

/-- Where the sum overflows, it lies in the past. -/
theorem deadline_past {start nanos : ℤ} (hstart : IsLong start) (hnanos : nanos < 2 ^ 63)
    (h : 2 ^ 63 ≤ start + nanos) : toLong (start + nanos) < start := by
  obtain ⟨hlow, hhigh⟩ := hstart
  unfold toLong
  omega

theorem toNanos_bounds (unit : TimeUnit) (time : ℤ) : -2 ^ 63 ≤ unit.toNanos time ∧ unit.toNanos time < 2 ^ 63 := by
  unfold TimeUnit.toNanos
  omega

section Runs

variable {ι τ : Type} [DecidableEq ι] [DecidableEq τ] {F : Fleet ι τ} {s s' : LockWorld ι τ} {t : τ} {deadline : ℤ}
  {ls : List (LockLabel ι τ)} {status : Bool}

/-- What the attempts of the thread return along a run. -/
def attemptsOf (F : Fleet ι τ) (t : τ) (s : LockWorld ι τ) : List (LockLabel ι τ) → List Bool
  | [] => []
  | l :: ls =>
    (if l = .thread t .setIfAbsent then [(s.redis.setIfAbsent s.now (F.key (F.inst t)) (F.uuid (F.inst t))
      RedisLock.ttl).1] else []) ++ ((lockStep F s l).elim [] fun s' => attemptsOf F t s' ls)

/-- A reading of the clock by the thread. -/
def LockLabel.reading (t : τ) : LockLabel ι τ → Option ℤ
  | .thread t' (.check nanoTime) => if t' = t then some nanoTime else none
  | _ => none

/-- The readings of the clock by the thread along a run. -/
def readingsOf (t : τ) (ls : List (LockLabel ι τ)) : List ℤ := ls.filterMap (·.reading t)

/-- The label is no step of the thread, or one inside the timed `tryLock`. -/
def InTimedCall (t : τ) : LockLabel ι τ → Prop
  | .thread t' l => t' = t → l = .setIfAbsent ∨ ∃ nanoTime, l = .check nanoTime
  | _ => True

/-- The thread is in the loop, or in no call. -/
def InLoop (deadline : ℤ) : Call → Prop
  | .idle _ => True
  | .timed d => d = deadline
  | .timedCheck d => d = deadline
  | _ => False

/-- What is left of the loop at a place of the thread. -/
def LoopRest (deadline : ℤ) (attempts : List Bool) (readings : List ℤ) (status : Bool) : Call → Prop
  | .timed _ => TimedLoop deadline attempts readings status
  | .timedCheck _ => ∃ n rest, readings = n :: rest ∧ ((deadline < n ∧ attempts = [] ∧ rest = [] ∧ status = false) ∨
      (n ≤ deadline ∧ TimedLoop deadline attempts rest status))
  | .idle result => result = some status ∧ attempts = [] ∧ readings = []
  | _ => False

/-- A step of another thread, or of no thread, leaves the place of the thread. -/
theorem lockStep_call {l : LockLabel ι τ} (h : lockStep F s l = some s') (hl : ∀ tl, l ≠ .thread t tl) :
    s'.call t = s.call t := by
  have hne : ∀ {t' : τ} {tl : ThreadLabel}, l = .thread t' tl → t ≠ t' := by
    rintro t' tl rfl rfl
    exact hl tl rfl
  cases lockStep_effect h with
  | move _ _ _ _ _ => exact Function.update_of_ne (hne rfl) ..
  | acquire _ _ _ _ => exact Function.update_of_ne (hne rfl) ..
  | own _ _ _ => exact Function.update_of_ne (hne rfl) ..
  | notOwn _ _ _ => exact Function.update_of_ne (hne rfl) ..
  | delete _ _ => exact Function.update_of_ne (hne rfl) ..
  | taskGet _ _ => rfl
  | taskWake _ _ _ => rfl
  | taskExpire _ _ => rfl
  | crash i => rfl
  | advance ms => rfl

/-- An attempt in the timed `tryLock` ends it or goes on to the clock. -/
theorem timed_attempt (hcall : s.call t = .timed deadline) (h : lockStep F s (.thread t .setIfAbsent) = some s') :
    s'.call t = if (s.redis.setIfAbsent s.now (F.key (F.inst t)) (F.uuid (F.inst t)) RedisLock.ttl).1 = true then
      .idle (some true) else .timedCheck deadline := by
  simp only [lockStep, Option.ite_none_right_eq_some] at h
  obtain ⟨-, h⟩ := h
  simp only [threadStep, hcall, Call.afterAttempt, Option.map_some, Option.some.injEq] at h
  unfold Fleet.key Fleet.uuid
  split at h
  · rename_i hstored
    rw [← h, if_pos hstored]
    exact Function.update_self ..
  · rename_i hfailed
    rw [← h, if_neg hfailed]
    exact Function.update_self ..

theorem timed_check {nanoTime : ℤ} (hcall : s.call t = .timedCheck deadline)
    (h : lockStep F s (.thread t (.check nanoTime)) = some s') :
    s'.call t = if nanoTime ≤ deadline then .timed deadline else .idle (some false) := by
  simp only [lockStep, Option.ite_none_right_eq_some] at h
  obtain ⟨-, h⟩ := h
  simp only [threadStep, hcall, Option.some.injEq] at h
  subst h
  exact Function.update_self ..

/-- Where the loop of the thread goes on: an attempt is made in `timed`, the clock is read in
`timedCheck`. -/
theorem inLoop_step {tl : ThreadLabel} (hin : InLoop deadline (s.call t))
    (htl : tl = .setIfAbsent ∨ ∃ nanoTime, tl = .check nanoTime) (h : lockStep F s (.thread t tl) = some s') :
    (tl = .setIfAbsent ∧ s.call t = .timed deadline) ∨
      ∃ nanoTime, tl = .check nanoTime ∧ s.call t = .timedCheck deadline := by
  simp only [lockStep, Option.ite_none_right_eq_some] at h
  obtain ⟨-, h⟩ := h
  cases hcall : s.call t with
  | idle result => rcases htl with rfl | ⟨n, rfl⟩ <;> simp [threadStep, hcall, Call.afterAttempt] at h
  | timed d =>
    rw [hcall] at hin
    obtain rfl : d = deadline := hin
    rcases htl with rfl | ⟨n, rfl⟩
    · exact .inl ⟨rfl, rfl⟩
    · simp [threadStep, hcall] at h
  | timedCheck d =>
    rw [hcall] at hin
    obtain rfl : d = deadline := hin
    rcases htl with rfl | ⟨n, rfl⟩
    · simp [threadStep, hcall, Call.afterAttempt] at h
    · exact .inr ⟨n, rfl, rfl⟩
  | _ => rw [hcall] at hin; exact hin.elim

/-- **A run up to the return of the timed `tryLock` is a run of its loop.** -/
theorem timed_run (hin : InLoop deadline (s.call t)) (hown : ∀ l ∈ ls, InTimedCall t l)
    (hrun : exec (lockStep F) s ls = some s') (hend : s'.call t = .idle (some status)) :
    LoopRest deadline (attemptsOf F t s ls) (readingsOf t ls) status (s.call t) := by
  induction ls generalizing s with
  | nil =>
    cases hrun
    rw [hend]
    exact ⟨rfl, rfl, rfl⟩
  | cons l ls ih =>
    obtain ⟨m, hm, hlater⟩ := exec_cons_inv hrun
    have hown' : ∀ l ∈ ls, InTimedCall t l := fun l' hl' => hown l' (List.mem_cons_of_mem _ hl')
    by_cases hl : ∃ tl, l = .thread t tl
    · obtain ⟨tl, rfl⟩ := hl
      rcases inLoop_step hin (hown _ List.mem_cons_self rfl) hm with ⟨rfl, hcall⟩ | ⟨n, rfl, hcall⟩
      · have hnext := timed_attempt hcall hm
        have hrest := ih (by rw [hnext]; split <;> trivial) hown' hlater
        have hreadings : readingsOf t (.thread t .setIfAbsent :: ls) = readingsOf t ls := rfl
        rw [hcall, hreadings]
        simp only [attemptsOf, if_true, hm, Option.elim_some]
        rw [hnext] at hrest
        split at hrest
        · rename_i hstored
          obtain ⟨hstatus, hnil, hnil'⟩ := hrest
          rw [hstored, hnil, hnil', ← Option.some.inj hstatus]
          exact .stored
        · rename_i hfailed
          rw [Bool.not_eq_true] at hfailed
          obtain ⟨n, rest, hreadings, ⟨hn, hnil, rfl, rfl⟩ | ⟨hn, hloop⟩⟩ := hrest
          · rw [hfailed, hnil, hreadings]
            exact .expired hn
          · rw [hfailed, hreadings]
            exact .again hn hloop
      · have hnext := timed_check hcall hm
        have hrest := ih (by rw [hnext]; split <;> trivial) hown' hlater
        have hreadings : readingsOf t (.thread t (.check n) :: ls) = n :: readingsOf t ls := by
          simp [readingsOf, LockLabel.reading]
        rw [hcall, hreadings]
        simp only [attemptsOf, LockLabel.thread.injEq, reduceCtorEq, and_false, if_false, hm, Option.elim_some,
          List.nil_append]
        refine ⟨n, readingsOf t ls, rfl, ?_⟩
        rw [hnext] at hrest
        split at hrest
        · rename_i hle
          exact .inr ⟨hle, hrest⟩
        · rename_i hlt
          obtain ⟨hstatus, hnil, hnil'⟩ := hrest
          exact .inl ⟨not_le.1 hlt, hnil, hnil', (Option.some.inj hstatus).symm⟩
    · -- the step is not of the thread
      have hne : ∀ tl, l ≠ .thread t tl := fun tl heq => hl ⟨tl, heq⟩
      have hsame := lockStep_call hm hne
      have hreading : l.reading t = none := by
        unfold LockLabel.reading
        split
        · rename_i t' n
          exact if_neg fun heq => hne (.check n) (by rw [heq])
        · rfl
      have hrest := ih (by rw [hsame]; exact hin) hown' hlater
      rw [hsame] at hrest
      simp only [attemptsOf, if_neg (hne _), hm, Option.elim_some, List.nil_append, readingsOf,
        List.filterMap_cons, hreading]
      exact hrest

/-- **The timeout of `tryLock(time, unit)`**, in any run of the locks, from its first reading of
the clock up to its return. It makes an attempt, and returns true if and only if one of its
attempts stored the uuid. It returns false only after the time has passed if and only if the
first attempt stores the uuid or the sum that is the deadline does not overflow. -/
theorem timed_tryLock (F : Fleet ι τ) {time start : ℤ} {unit : TimeUnit}
    (hrun : exec (lockStep F) s (.thread t (.timedTryLock time unit start) :: ls) = some s')
    (hown : ∀ l ∈ ls, InTimedCall t l) (hend : s'.call t = .idle (some status)) (hstart : IsLong start)
    (hlong : ∀ n ∈ readingsOf t ls, IsLong n) (hclock : (start :: readingsOf t ls).Pairwise (· ≤ ·)) :
    let attempts := attemptsOf F t s (.thread t (.timedTryLock time unit start) :: ls)
    (status = true ↔ true ∈ attempts) ∧ attempts ≠ [] ∧
      ((status = false → ∃ n ∈ (readingsOf t ls).getLast?, unit.toNanos time < n - start) ↔
        attempts.head? = some true ∨ start + unit.toNanos time < 2 ^ 63) := by
  intro attempts
  obtain ⟨m, hm, hlater⟩ := exec_cons_inv hrun
  have hattempts : attempts = attemptsOf F t m ls := by
    show attemptsOf F t s _ = _
    simp [attemptsOf, hm]
  have hcall : m.call t = .timed (toLong (start + unit.toNanos time)) := by
    simp only [lockStep, Option.ite_none_right_eq_some] at hm
    obtain ⟨-, hm⟩ := hm
    cases hidle : s.call t with
    | idle result =>
      simp only [threadStep, hidle, Option.some.injEq] at hm
      rw [← hm]
      exact Function.update_self ..
    | _ => simp [threadStep, hidle] at hm
  have hloop : TimedLoop (toLong (start + unit.toNanos time)) attempts (readingsOf t ls) status := by
    have hin : InLoop (toLong (start + unit.toNanos time)) (m.call t) := by rw [hcall]; rfl
    have hrest := timed_run hin hown hlater hend
    rw [hcall] at hrest
    rw [hattempts]
    exact hrest
  obtain ⟨hafter, -⟩ := List.pairwise_cons.1 hclock
  refine ⟨hloop.status_iff, hloop.attempts_ne_nil, fun htime => ?_, fun hok hfalse => ?_⟩
  · by_cases hsum : start + unit.toNanos time < 2 ^ 63
    · exact .inr hsum
    · -- the deadline is in the past, so the first attempt is the only one
      have hpast := deadline_past hstart (toNanos_bounds unit time).2 (not_lt.1 hsum)
      have hsingle := hloop.single fun n hn => lt_of_lt_of_le hpast (hafter n hn)
      cases status with
      | true => exact .inl (by rw [hsingle]; rfl)
      | false =>
        obtain ⟨n, hn, hlt⟩ := htime rfl
        have hbound := (hlong n (List.mem_of_getLast? hn)).2
        omega
  · subst hfalse
    obtain ⟨n, hn, hlt⟩ := hloop.past_deadline
    refine ⟨n, hn, ?_⟩
    rcases hok with hfirst | hsum
    · have htrue : false = true := hloop.status_iff.2 (List.mem_of_mem_head? hfirst)
      cases htrue
    · have hle := deadline_le hsum
      omega

end Runs

/-- While the lock is taken, a call with a timeout of one second tries twice. -/
theorem timed_tryLock_expires : ∃ s s', exec (lockStep twoLocks) (.init Bool Bool 0 .empty)
      [.thread false .tryLock, .thread false .setIfAbsent] = some s ∧
    exec (lockStep twoLocks) s [.thread true (.timedTryLock 1 .seconds 5), .thread true .setIfAbsent,
      .thread true (.check 6), .thread true .setIfAbsent, .thread true (.check 1000000006)] = some s' ∧
    s'.call true = .idle (some false) ∧ TimeUnit.seconds.toNanos 1 < 1000000006 - 5 := by
  let ls : List (LockLabel Bool Bool) := [.thread true .setIfAbsent, .thread true (.check 6), .thread true .setIfAbsent,
    .thread true (.check 1000000006)]
  let s := (exec (lockStep twoLocks) (.init Bool Bool 0 .empty)
    [.thread false .tryLock, .thread false .setIfAbsent]).getD (.init Bool Bool 0 .empty)
  let s' := (exec (lockStep twoLocks) s (.thread true (.timedTryLock 1 .seconds 5) :: ls)).getD s
  have hrun : exec (lockStep twoLocks) s (.thread true (.timedTryLock 1 .seconds 5) :: ls) = some s' := rfl
  have hown : ∀ l ∈ ls, InTimedCall true l := by
    intro l hl
    simp only [ls, List.mem_cons, List.not_mem_nil, or_false] at hl
    rcases hl with rfl | rfl | rfl | rfl <;> simp [InTimedCall]
  have hend : s'.call true = .idle (some false) := rfl
  obtain ⟨-, -, htime⟩ := timed_tryLock twoLocks hrun hown hend (by decide) (by decide) (by decide)
  obtain ⟨n, hn, hlt⟩ := htime.2 (.inr (by decide)) rfl
  cases hn
  exact ⟨s, s', rfl, hrun, rfl, hlt⟩

/-- A call with the longest timeout gives up at once: its deadline overflows. -/
theorem timed_gives_up : ∃ s s', exec (lockStep twoLocks) (.init Bool Bool 0 .empty)
      [.thread false .tryLock, .thread false .setIfAbsent] = some s ∧
    exec (lockStep twoLocks) s [.thread true (.timedTryLock (2 ^ 63 - 1) .nanoseconds 5), .thread true .setIfAbsent,
      .thread true (.check 5)] = some s' ∧
    s'.call true = .idle (some false) ∧ ¬ TimeUnit.nanoseconds.toNanos (2 ^ 63 - 1) < 5 - 5 := by
  let s := (exec (lockStep twoLocks) (.init Bool Bool 0 .empty)
    [.thread false .tryLock, .thread false .setIfAbsent]).getD (.init Bool Bool 0 .empty)
  let s' := (exec (lockStep twoLocks) s [.thread true (.timedTryLock (2 ^ 63 - 1) .nanoseconds 5),
    .thread true .setIfAbsent, .thread true (.check 5)]).getD s
  exact ⟨s, s', rfl, rfl, rfl, by decide⟩

end StudyTech
