import StudyTech.Proof.RedisStep

/-!
# What a renewal task prolongs

The loop of a renewal task tests the value read before the loop, so a task that entered
its loop never leaves it. As long as the instance's uuid stays stored while a task of it
loops, every renewal is one of the instance's own lease (`renew_own`); once it is
removed the task goes on renewing whatever is stored.
-/

namespace StudyTech

open Lib

variable {ι τ : Type}

/-- The task is in its loop, to stay there. -/
def Looping (F : Fleet ι τ) (task : RenewTask ι) : Prop :=
  (∃ wake, task.pc = .sleeping (some (F.uuid task.owner)) wake) ∨
    task.pc = .expiring (some (F.uuid task.owner))

/-- The step removes no uuid of a live instance of which a renewal task loops. -/
def StaysStored (F : Fleet ι τ) (s : LockWorld ι τ) (l : LockLabel ι τ) : Prop :=
  ∀ task ∈ s.tasks, s.alive task.owner = true → Looping F task →
    F.stored s task.owner = some (F.uuid task.owner) →
    match l with
    | .thread t .delete => F.key (F.inst t) ≠ F.key task.owner
    | .advance ms => F.stored { s with now := s.now + ms } task.owner = some (F.uuid task.owner)
    | _ => True

instance (F : Fleet ι τ) (task : RenewTask ι) : Decidable (Looping F task) :=
  decidable_of_iff ((match task.pc with
    | .sleeping v _ => decide (v = some (F.uuid task.owner))
    | .expiring v => decide (v = some (F.uuid task.owner))
    | _ => false) = true) (by
    obtain ⟨i, pc⟩ := task
    cases pc <;> simp [Looping])

instance (F : Fleet ι τ) (s : LockWorld ι τ) : DecidablePred (StaysStored F s) := fun l =>
  decidable_of_iff (∀ task ∈ s.tasks, s.alive task.owner = true → Looping F task →
    F.stored s task.owner = some (F.uuid task.owner) → (match l with
      | .thread t .delete => decide (F.key (F.inst t) ≠ F.key task.owner)
      | .advance ms => decide (F.stored { s with now := s.now + ms } task.owner = some (F.uuid task.owner))
      | _ => true) = true) (by
    unfold StaysStored
    cases l with
    | thread t l => cases l <;> simp
    | _ => simp)

/-- A renewal applies to the instance's own entry or to none. -/
def ExpiresOwn (F : Fleet ι τ) (s : LockWorld ι τ) : LockLabel ι τ → Prop
  | .task k .expire => ∀ task, s.tasks[k]? = some task →
      F.stored s task.owner = none ∨ F.stored s task.owner = some (F.uuid task.owner)
  | _ => True

/-- No thread of the instance acquires the lock. -/
def NoAcquire (F : Fleet ι τ) (i : ι) (s : LockWorld ι τ) : LockLabel ι τ → Prop
  | .thread t .setIfAbsent => F.inst t = i → F.stored s i ≠ none
  | _ => True

/-- **Renewal tasks prolong their own leases only**, in a run from `s₀` to `s`. -/
structure RenewsOwn [DecidableEq ι] [DecidableEq τ] (F : Fleet ι τ) (s₀ : LockWorld ι τ)
    (ls : List (LockLabel ι τ)) (s : LockWorld ι τ) : Prop where
  own : Along (lockStep F) (ExpiresOwn F) s₀ ls
  /-- Once the uuid is not stored and not acquired again, a task renews at most once more. -/
  once : ∀ l₁ l₂ m k task, ls = l₁ ++ l₂ → exec (lockStep F) s₀ l₁ = some m → m.tasks[k]? = some task →
    F.stored m task.owner ≠ some (F.uuid task.owner) →
    Along (lockStep F) (NoAcquire F task.owner) m l₂ → l₂.count (.task k .expire) ≤ 1
  /-- An entry outlives the last renewal of its crashed owner by less than `DEF_TIME`. -/
  crashed : ∀ i, s.alive i = false → F.stored s i = some (F.uuid i) → s.now < s.renewed i + RedisLock.ttl

/-- The invariant: a live task that loops finds its uuid stored, and an entry expires in
`DEF_TIME` from its owner's last renewal. -/
structure LeaseInv (F : Fleet ι τ) (s : LockWorld ι τ) : Prop where
  task : ∀ task ∈ s.tasks, s.alive task.owner = true → task.pc = .start ∨ task.pc = .finished ∨
    (Looping F task ∧ F.stored s task.owner = some (F.uuid task.owner))
  lease : ∀ i t, s.redis.get t (F.key i) = some (F.uuid i) → t < s.renewed i + RedisLock.ttl

theorem leaseInv_init {F : Fleet ι τ} {now : ℕ} {redis : TtlStore String String}
    (hfresh : ∀ i t, redis.get t (F.key i) ≠ some (F.uuid i)) : LeaseInv F (.init ι τ now redis) := by
  refine ⟨fun task h => ?_, fun i t h => absurd h (hfresh i t)⟩
  simp [LockWorld.init] at h

theorem renewLoop_own {F : Fleet ι τ} (i : ι) (now : ℕ) :
    Looping F ⟨i, renewLoop (F.lock i) now (some (F.uuid i))⟩ := by
  have hloop : renewLoop (F.lock i) now (some (F.uuid i)) =
      .sleeping (some (F.uuid i)) (now + RedisLock.renewSleep) := if_pos rfl
  rw [hloop]
  exact Or.inl ⟨_, rfl⟩

theorem renewLoop_other {lock : RedisLock} {now : ℕ} {v : Option String} (h : v ≠ some lock.uuid) :
    renewLoop lock now v = .finished := if_neg h

/-- A task that sleeps, or is about to renew, and loops, read its own uuid. -/
theorem looping_sleeping {F : Fleet ι τ} {i : ι} {v : Option String} {wake : ℕ}
    (h : Looping F ⟨i, .sleeping v wake⟩) : v = some (F.uuid i) := by
  rcases h with ⟨w, hw⟩ | hw
  · exact (Renew.sleeping.inj hw).1
  · cases hw

theorem looping_expiring {F : Fleet ι τ} {i : ι} {v : Option String}
    (h : Looping F ⟨i, .expiring v⟩) : v = some (F.uuid i) := by
  rcases h with ⟨w, hw⟩ | hw
  · cases hw
  · exact Renew.expiring.inj hw

variable [DecidableEq ι] [DecidableEq τ] {F : Fleet ι τ} {s s' : LockWorld ι τ} {l : LockLabel ι τ}

omit [DecidableEq ι] [DecidableEq τ] in
/-- A task goes on; it is its own business where. -/
theorem LeaseInv.setTask (h : LeaseInv F s) {k : ℕ} {i : ι} {pc : Renew} (hpc : pc = .start ∨ pc = .finished ∨
    (Looping F ⟨i, pc⟩ ∧ F.stored s i = some (F.uuid i))) : ∀ task ∈ s.tasks.set k ⟨i, pc⟩,
      s.alive task.owner = true → task.pc = .start ∨ task.pc = .finished ∨
        (Looping F task ∧ F.stored s task.owner = some (F.uuid task.owner)) := by
  intro task hmem halive
  rcases List.mem_or_eq_of_mem_set hmem with hmem | rfl
  · exact h.task task hmem halive
  · exact hpc

omit [DecidableEq ι] [DecidableEq τ] in
/-- A task that is neither new nor finished loops, and its uuid is stored. -/
theorem LeaseInv.looping (h : LeaseInv F s) {k : ℕ} {i : ι} {pc : Renew} (htask : s.tasks[k]? = some ⟨i, pc⟩)
    (halive : s.alive i = true) (hstart : pc ≠ .start) (hfinished : pc ≠ .finished) :
    Looping F ⟨i, pc⟩ ∧ F.stored s i = some (F.uuid i) := by
  rcases h.task _ (List.mem_of_getElem? htask) halive with hpc | hpc | hloop
  · exact absurd hpc hstart
  · exact absurd hpc hfinished
  · exact hloop

omit [DecidableEq ι] [DecidableEq τ] in
/-- A task that stays where it is only needs its uuid to stay stored while it loops. -/
theorem LeaseInv.keep (h : LeaseInv F s) {task : RenewTask ι} (hmem : task ∈ s.tasks)
    (halive : s.alive task.owner = true)
    (hkeep : Looping F task → F.stored s task.owner = some (F.uuid task.owner) →
      F.stored s' task.owner = some (F.uuid task.owner)) :
    task.pc = .start ∨ task.pc = .finished ∨
      (Looping F task ∧ F.stored s' task.owner = some (F.uuid task.owner)) := by
  rcases h.task task hmem halive with hpc | hpc | ⟨hloop, hown⟩
  · exact Or.inl hpc
  · exact Or.inr (Or.inl hpc)
  · exact Or.inr (Or.inr ⟨hloop, hkeep hloop hown⟩)

/-- An attempt that succeeds finds no task in its loop, and starts a lease. -/
theorem LeaseInv.acquire (huuid : Function.Injective F.uuid) (h : LeaseInv F s) {t : τ} {c : Call}
    (hfree : F.stored s (F.inst t) = none) :
    LeaseInv F (s.acquire (F.lock (F.inst t)) (F.inst t) t c) := by
  refine ⟨fun task hmem halive => ?_, fun i now hget => ?_⟩
  · simp only [LockWorld.acquire, List.mem_append, List.mem_singleton] at hmem
    rcases hmem with hmem | rfl
    · refine h.keep hmem halive fun _ hown => ?_
      by_cases hkey : F.key task.owner = F.key (F.inst t)
      · -- the key was free, so no task on it loops
        unfold Fleet.stored at hown hfree
        rw [hkey, hfree] at hown
        cases hown
      · rw [stored_acquire_ne hkey]
        exact hown
    · exact Or.inl rfl
  · simp only [LockWorld.acquire] at hget ⊢
    by_cases hkey : F.key i = F.key (F.inst t)
    · rw [hkey] at hget
      have hset : (s.redis.set s.now (F.key (F.inst t)) (F.uuid (F.inst t)) RedisLock.ttl).get now (F.key (F.inst t)) =
          if now < s.now + RedisLock.ttl then some (F.uuid (F.inst t)) else none := TtlStore.get_set_self
      have hsome := hset.symm.trans hget
      split at hsome
      · have hi : i = F.inst t := (huuid (Option.some.inj hsome)).symm
        rw [hi, Function.update_self]
        assumption
      · cases hsome
    · have hset : (s.redis.set s.now (F.key (F.inst t)) (F.uuid (F.inst t)) RedisLock.ttl).get now (F.key i) =
          s.redis.get now (F.key i) := TtlStore.get_set_ne hkey
      have hget' : s.redis.get now (F.key i) = some (F.uuid i) := hset.symm.trans hget
      have hi : i ≠ F.inst t := by rintro rfl; exact hkey rfl
      rw [Function.update_of_ne hi]
      exact h.lease i now hget'

omit [DecidableEq τ] in
/-- A renewal of the own entry moves the lease. -/
theorem LeaseInv.renew (huuid : Function.Injective F.uuid) (h : LeaseInv F s) {i : ι}
    (hown : F.stored s i = some (F.uuid i)) (j : ι) (t : ℕ)
    (hget : (s.redis.expire s.now (F.key i) RedisLock.ttl).get t (F.key j) = some (F.uuid j)) :
    t < Function.update s.renewed i s.now j + RedisLock.ttl := by
  by_cases hkey : F.key j = F.key i
  · rw [hkey] at hget
    rcases TtlStore.get_of_expire hget with ⟨hj, ht⟩ | ⟨hnone, -⟩
    · have hji : j = i := huuid (Option.some.inj (hj.symm.trans hown))
      rw [hji, Function.update_self]
      exact ht
    · exact absurd (hnone.symm.trans hown) (by simp)
  · rw [TtlStore.get_expire_ne hkey] at hget
    have hji : j ≠ i := by rintro rfl; exact hkey rfl
    rw [Function.update_of_ne hji]
    exact h.lease j t hget

/-- **The invariant is preserved** by every step that leaves the uuid of a looping task
stored. -/
theorem leaseInv_step (huuid : Function.Injective F.uuid) (h : LeaseInv F s) (hok : StaysStored F s l)
    (hs : lockStep F s l = some s') : LeaseInv F s' := by
  cases lockStep_effect hs with
  | move _ _ _ _ _ => exact ⟨h.task, h.lease⟩
  | acquire _ hfree _ _ => exact h.acquire huuid hfree
  | own _ _ _ => exact ⟨h.task, h.lease⟩
  | notOwn _ _ _ => exact ⟨h.task, h.lease⟩
  | @delete t _ _ =>
    refine ⟨fun task hmem halive => h.keep hmem halive fun hloop hown => ?_, fun i now hget => ?_⟩
    · have hkey := hok task hmem halive hloop hown
      rw [stored_delete_ne (Ne.symm hkey)]
      exact hown
    · -- the deleted entry is nobody's lease any more
      by_cases hkey : F.key i = F.key (F.inst t)
      · simp only [LockWorld.release, hkey, TtlStore.get_delete_self] at hget
        cases hget
      · simp only [LockWorld.release, TtlStore.get_delete_ne hkey] at hget
        exact h.lease i now hget
  | @taskGet k i _ _ =>
    refine ⟨h.setTask (Or.inr ?_), h.lease⟩
    -- the only read of the task: it decides once whether the loop is ever left
    by_cases hown : F.stored s i = some (F.uuid i)
    · rw [hown]
      exact Or.inr ⟨renewLoop_own i s.now, rfl⟩
    · exact Or.inl (renewLoop_other hown)
  | @taskWake k i v wake halive htask _ =>
    refine ⟨h.setTask (Or.inr (Or.inr ?_)), h.lease⟩
    obtain ⟨hloop, hown⟩ := h.looping htask halive (by simp) (by simp)
    rw [looping_sleeping hloop]
    exact ⟨Or.inr rfl, hown⟩
  | @taskExpire k i v halive htask =>
    obtain ⟨hloop, hown⟩ := h.looping htask halive (by simp) (by simp)
    refine ⟨fun task hmem ha => ?_, h.renew huuid hown⟩
    rw [stored_expire]
    rw [looping_expiring hloop] at hmem
    exact h.setTask (Or.inr (Or.inr ⟨renewLoop_own i s.now, hown⟩)) task hmem ha
  | crash i => exact ⟨fun task hmem halive => h.task task hmem (alive_of_crash halive), h.lease⟩
  | advance ms =>
    exact ⟨fun task hmem halive => h.keep hmem halive (hok task hmem halive), h.lease⟩

/-- A renewal is made by a task that loops. -/
theorem LeaseInv.stored_of_expire (h : LeaseInv F s) {k : ℕ} {task : RenewTask ι}
    (htask : s.tasks[k]? = some task) (hs : lockStep F s (.task k .expire) = some s') :
    F.stored s task.owner = some (F.uuid task.owner) := by
  cases lockStep_effect hs with
  | @taskExpire _ i v halive htask' =>
    rw [htask'] at htask
    cases htask
    exact (h.looping htask' halive (by simp) (by simp)).2

/-- A task keeps its owner. -/
theorem owner_step {k : ℕ} {task : RenewTask ι} (htask : s.tasks[k]? = some task)
    (hs : lockStep F s l = some s') : ∃ task', s'.tasks[k]? = some task' ∧ task'.owner = task.owner := by
  have hset : ∀ k' i pc pc', s.tasks[k']? = some ⟨i, pc'⟩ →
      ∃ task', (s.tasks.set k' ⟨i, pc⟩)[k]? = some task' ∧ task'.owner = task.owner := by
    intro k' i pc pc' hk'
    by_cases hkk : k' = k
    · subst hkk
      rw [htask] at hk'
      cases hk'
      have hlt : k' < s.tasks.length := (List.getElem?_eq_some_iff.1 htask).1
      exact ⟨_, List.getElem?_set_self hlt, rfl⟩
    · exact ⟨task, by rw [List.getElem?_set_ne hkk]; exact htask, rfl⟩
  cases lockStep_effect hs with
  | acquire _ _ _ _ =>
    have hlt : k < s.tasks.length := (List.getElem?_eq_some_iff.1 htask).1
    exact ⟨task, by simp only [LockWorld.acquire]; rw [List.getElem?_append_left hlt]; exact htask, rfl⟩
  | taskGet _ hk => exact hset _ _ _ _ hk
  | taskWake _ hk _ => exact hset _ _ _ _ hk
  | taskExpire _ hk => exact hset _ _ _ _ hk
  | _ => exact ⟨task, htask, rfl⟩

/-- The uuid of an instance that does not acquire the lock does not come back. -/
theorem notStored_step (huuid : Function.Injective F.uuid) {i : ι} (h : F.stored s i ≠ some (F.uuid i))
    (hok : NoAcquire F i s l) (hs : lockStep F s l = some s') : F.stored s' i ≠ some (F.uuid i) := by
  cases lockStep_effect hs with
  | @acquire t c _ hfree _ _ =>
    by_cases hkey : F.key i = F.key (F.inst t)
    · rw [stored_acquire_self hkey]
      intro hown
      have hi : F.inst t = i := huuid (Option.some.inj hown)
      exact hok hi (hi ▸ hfree)
    · rw [stored_acquire_ne hkey]
      exact h
  | @delete t _ _ =>
    by_cases hkey : F.key i = F.key (F.inst t)
    · rw [stored_delete_self hkey]
      simp
    · rw [stored_delete_ne hkey]
      exact h
  | taskExpire _ _ => rw [stored_expire]; exact h
  | advance ms =>
    rcases stored_advance (F := F) (s := s) ms i with hnone | hsame
    · rw [hnone]; simp
    · rw [hsame]; exact h
  | _ => exact h

/-- A task whose owner's uuid is not stored does not renew. -/
theorem no_expire_of_notStored (huuid : Function.Injective F.uuid) {m : LockWorld ι τ} {k : ℕ}
    {task : RenewTask ι} {ls : List (LockLabel ι τ)} (h : LeaseInv F m) (htask : m.tasks[k]? = some task)
    (hnot : F.stored m task.owner ≠ some (F.uuid task.owner))
    (hstays : Along (lockStep F) (StaysStored F) m ls)
    (hno : Along (lockStep F) (NoAcquire F task.owner) m ls) (hrun : exec (lockStep F) m ls = some s') :
    ls.count (.task k .expire) = 0 := by
  have hnever : Along (lockStep F) (fun _ l => l ≠ .task k .expire) m ls := by
    have hok := hstays.and hno
    refine along_of_run (I := fun a => LeaseInv F a ∧ F.stored a task.owner ≠ some (F.uuid task.owner) ∧
        ∃ task', a.tasks[k]? = some task' ∧ task'.owner = task.owner) ?_ ?_ ⟨h, hnot, task, htask, rfl⟩ hok hrun
    · rintro a l b ⟨ha, hna, task', htask', howner⟩ ⟨hst, hno⟩ hab
      obtain ⟨task'', htask'', howner'⟩ := owner_step htask' hab
      exact ⟨leaseInv_step huuid ha hst hab, notStored_step huuid hna hno hab, task'', htask'',
        howner'.trans howner⟩
    · rintro a l b ⟨ha, hna, task', htask', howner⟩ - hab rfl
      have hown := ha.stored_of_expire htask' hab
      rw [howner] at hown
      exact hna hown
  exact List.count_eq_zero.2 (not_mem_of_along hnever hrun)

/-- A run along `StaysStored` renews own leases only. -/
theorem renewsOwn_of_stays (huuid : Function.Injective F.uuid) {ls : List (LockLabel ι τ)}
    (h : LeaseInv F s) (hok : Along (lockStep F) (StaysStored F) s ls)
    (hrun : exec (lockStep F) s ls = some s') : RenewsOwn F s ls s' := by
  have hstep : ∀ a l b, LeaseInv F a → StaysStored F a l → lockStep F a l = some b → LeaseInv F b :=
    fun _ _ _ ha hok hab => leaseInv_step huuid ha hok hab
  refine ⟨along_of_run hstep ?_ h hok hrun, ?_, fun i _ hown => ?_⟩
  · intro a l b ha _ hab
    cases l with
    | task k tl =>
      cases tl with
      | expire => exact fun task htask => Or.inr (ha.stored_of_expire htask hab)
      | _ => trivial
    | _ => trivial
  · rintro l₁ l₂ m k task rfl hm htask hnot hno
    obtain ⟨hok₁, hok₂⟩ := along_append.1 hok
    obtain ⟨m', hm', hrun₂⟩ := exec_append_inv hrun
    obtain rfl := Option.some.inj (hm.symm.trans hm')
    rw [no_expire_of_notStored huuid (inv_of_along hstep h hok₁ hm) htask hnot (hok₂ m hm) hno hrun₂]
    exact Nat.zero_le 1
  · exact (inv_of_along hstep h hok hrun).lease i s'.now hown

/-- The label belongs to no thread. -/
def NoThread : LockLabel ι τ → Prop
  | .thread _ _ => False
  | _ => True

theorem noAcquire_of_noThread {i : ι} {ls : List (LockLabel ι τ)} (h : ∀ l ∈ ls, NoThread l) :
    Along (lockStep F) (NoAcquire F i) s ls := by
  induction ls generalizing s with
  | nil => trivial
  | cons l ls ih =>
    refine ⟨?_, fun s' _ => ih fun l' hl' => h l' (List.mem_cons_of_mem _ hl')⟩
    have hl := h l List.mem_cons_self
    cases l with
    | thread t tl => exact hl.elim
    | _ => trivial

/-- A task in its loop can renew, and is in its loop again. -/
theorem renew_round {k : ℕ} {task : RenewTask ι} (htask : s.tasks[k]? = some task)
    (halive : s.alive task.owner = true) (hloop : Looping F task) :
    ∃ ls s' task', exec (lockStep F) s ls = some s' ∧ ls.count (.task k .expire) = 1 ∧
      (∀ l ∈ ls, NoThread l) ∧ s'.tasks[k]? = some task' ∧ task'.owner = task.owner ∧
      s'.alive task'.owner = true ∧ Looping F task' := by
  obtain ⟨i, pc⟩ := task
  -- the second half of the round, from any state in which the task is about to renew
  have hexpire : ∀ a : LockWorld ι τ, a.alive i = true →
      a.tasks[k]? = some ⟨i, .expiring (some (F.uuid i))⟩ →
      ∃ b, lockStep F a (.task k .expire) = some b ∧ b.alive i = true ∧
        ∃ pc', b.tasks[k]? = some ⟨i, pc'⟩ ∧ Looping F ⟨i, pc'⟩ := by
    intro a ha hk
    have hlt : k < a.tasks.length := (List.getElem?_eq_some_iff.1 hk).1
    exact ⟨_, lockStep_taskExpire ha hk, ha, _, List.getElem?_set_self hlt, renewLoop_own i a.now⟩
  rcases hloop with ⟨wake, hpc⟩ | hpc
  · simp only at hpc
    subst hpc
    let late : LockWorld ι τ := { s with now := s.now + wake }
    have hlt : k < s.tasks.length := (List.getElem?_eq_some_iff.1 htask).1
    have hwake := lockStep_taskWake (F := F) (s := late) halive htask (Nat.le_add_left wake s.now)
    obtain ⟨b, hb, hab, pc', hk', hloop'⟩ := hexpire (late.gotoTask k i (.expiring (some (F.uuid i)))) halive
      (List.getElem?_set_self hlt)
    refine ⟨[.advance wake, .task k .wake, .task k .expire], b, ⟨i, pc'⟩, ?_, ?_, ?_, hk', rfl, hab, hloop'⟩
    · have hadvance : lockStep F s (.advance wake) = some late := rfl
      simp only [exec_cons, hadvance, hwake, hb, exec_nil, Option.bind_some]
    · simp
    · simp [NoThread]
  · simp only at hpc
    subst hpc
    obtain ⟨b, hb, hab, pc', hk', hloop'⟩ := hexpire s halive htask
    refine ⟨[.task k .expire], b, ⟨i, pc'⟩, ?_, ?_, ?_, hk', rfl, hab, hloop'⟩
    · simp only [exec_cons, hb, exec_nil, Option.bind_some]
    · simp
    · simp [NoThread]

/-- A step that removes the uuid keeps the tasks and the instances as they are. -/
theorem not_staysStored_cases (hs : lockStep F s l = some s') (hbad : ¬ StaysStored F s l) :
    ∃ task ∈ s.tasks, s.alive task.owner = true ∧ Looping F task ∧ s'.tasks = s.tasks ∧
      s'.alive = s.alive ∧ F.stored s' task.owner ≠ some (F.uuid task.owner) := by
  unfold StaysStored at hbad
  push Not at hbad
  obtain ⟨task, hmem, halive, hloop, hown, hbad⟩ := hbad
  refine ⟨task, hmem, halive, hloop, ?_⟩
  cases lockStep_effect hs with
  | @delete t _ _ =>
    have hkey : F.key task.owner = F.key (F.inst t) := (not_not.1 hbad).symm
    exact ⟨rfl, rfl, by rw [stored_delete_self hkey]; simp⟩
  | advance ms => exact ⟨rfl, rfl, hbad⟩
  | @move t tl => cases tl <;> first | exact absurd trivial hbad | contradiction
  | _ => exact absurd trivial hbad

/-- **A task whose uuid was removed goes on renewing.** -/
theorem renews_after_removal (hs : lockStep F s l = some s') (hbad : ¬ StaysStored F s l) :
    ∃ k task ls s'', s'.tasks[k]? = some task ∧ F.stored s' task.owner ≠ some (F.uuid task.owner) ∧
      Along (lockStep F) (NoAcquire F task.owner) s' ls ∧ exec (lockStep F) s' ls = some s'' ∧
      ls.count (.task k .expire) = 2 := by
  obtain ⟨task, hmem, halive, hloop, htasks, halives, hnot⟩ := not_staysStored_cases hs hbad
  obtain ⟨k, hk⟩ := List.getElem?_of_mem hmem
  rw [← htasks] at hk
  rw [← halives] at halive
  obtain ⟨l₁, s₁, task₁, hrun₁, hcount₁, hthread₁, hk₁, howner, halive₁, hloop₁⟩ :=
    renew_round hk halive hloop
  obtain ⟨l₂, s₂, task₂, hrun₂, hcount₂, hthread₂, -⟩ := renew_round hk₁ halive₁ hloop₁
  refine ⟨k, task, l₁ ++ l₂, s₂, hk, hnot, noAcquire_of_noThread ?_, exec_append_some hrun₁ hrun₂, ?_⟩
  · intro l hl
    rcases List.mem_append.1 hl with hl | hl
    · exact hthread₁ l hl
    · exact hthread₂ l hl
  · rw [List.count_append, hcount₁, hcount₂]

/-- **What a renewal task prolongs.** Take instances on one name with different uuids, none
of which Redis held before. In every run in which the uuid of a live instance stays
stored while a renewal task of it loops, the tasks prolong their own leases only. A step
that removes such a uuid can be followed by two renewals of that task with no
acquisition of its instance. -/
theorem renew_own {name : Option String} {uuid : ι → String} (huuid : Function.Injective uuid)
    {inst : τ → ι} {now : ℕ} {redis : TtlStore String String}
    (hfresh : ∀ i t, redis.get t ((Fleet.named name uuid inst).key i) ≠ some (uuid i)) :
    (∀ ls s, exec (lockStep (.named name uuid inst)) (.init ι τ now redis) ls = some s →
      Along (lockStep (.named name uuid inst)) (StaysStored (.named name uuid inst)) (.init ι τ now redis) ls →
      RenewsOwn (.named name uuid inst) (.init ι τ now redis) ls s) ∧
    (∀ s l s', lockStep (.named name uuid inst) s l = some s' → ¬ StaysStored (.named name uuid inst) s l →
      ∃ k task ls s'', s'.tasks[k]? = some task ∧
        (Fleet.named name uuid inst).stored s' task.owner ≠ some (uuid task.owner) ∧
        Along (lockStep (.named name uuid inst)) (NoAcquire (.named name uuid inst) task.owner) s' ls ∧
        exec (lockStep (.named name uuid inst)) s' ls = some s'' ∧ ls.count (.task k .expire) = 2) := by
  constructor
  · intro ls s hrun hok
    exact renewsOwn_of_stays (F := .named name uuid inst) huuid (leaseInv_init hfresh) hok hrun
  · intro s l s' hs hbad
    exact renews_after_removal hs hbad

/-- Instance `false` renews its lock, for which `true` waits, and crashes; `true` gets the lock when the entry has
expired, and renews it. -/
def renewedByBoth : List (LockLabel Bool Bool) :=
  [.thread false .tryLock, .thread false .setIfAbsent, .thread true .lock, .thread true .setIfAbsent, .task 0 .get,
    .advance 3000, .task 0 .wake, .task 0 .expire, .thread true (.wake false), .thread true .setIfAbsent,
    .crash false, .advance 10000, .thread true (.wake false), .thread true .setIfAbsent, .task 1 .get,
    .advance 3000, .task 1 .wake, .task 1 .expire]

/-- Both tasks renew what their own instances stored. -/
theorem renew_own_both : ∃ s, exec (lockStep twoLocks) (.init Bool Bool 0 .empty) renewedByBoth = some s ∧
    RenewsOwn twoLocks (.init Bool Bool 0 .empty) renewedByBoth s := by
  have hok : Along (lockStep twoLocks) (StaysStored twoLocks) (.init Bool Bool 0 .empty) renewedByBoth := by
    decide +kernel
  obtain ⟨s, hrun⟩ : ∃ s, exec (lockStep twoLocks) (.init Bool Bool 0 .empty) renewedByBoth = some s :=
    Option.isSome_iff_exists.1 (by decide +kernel)
  exact ⟨s, hrun, (renew_own twoUuids_injective (fun i t => by simp)).1 renewedByBoth s hrun hok⟩

/-- **A task renews the lease of another, crashed instance**, which outlives its deadline. -/
theorem renew_foreign :
    let ls : List (LockLabel Bool Bool) :=
      [.thread false .tryLock, .thread false .setIfAbsent, .task 0 .get, .thread false .unlock,
        .thread false .get, .thread false .delete, .thread true .tryLock, .thread true .setIfAbsent,
        .crash true, .advance 3000, .task 0 .wake, .task 0 .expire, .advance 9000]
    ∃ s, exec (lockStep twoLocks) (.init Bool Bool 0 .empty) ls = some s ∧
      ¬ RenewsOwn twoLocks (.init Bool Bool 0 .empty) ls s := by
  intro ls
  refine ⟨_, rfl, fun h => ?_⟩
  have hcrashed := h.crashed true rfl (by decide)
  exact absurd hcrashed (by decide)

end StudyTech
