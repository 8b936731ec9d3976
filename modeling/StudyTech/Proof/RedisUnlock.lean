import Mathlib.Data.Fintype.Basic
import StudyTech.Proof.RedisStep

/-!
# What `unlock` deletes

`unlock` compares the stored value in one command and deletes the key in another. As
long as no other instance takes the key between the two, every delete removes the
instance's own entry or nothing; an acquisition in between can always be followed by a
delete of the new owner's entry (`delete_own`).
-/

namespace StudyTech

open Lib

variable {ι τ : Type}

/-- A delete removes nothing or the instance's own entry. -/
def DeletesOwn (F : Fleet ι τ) (s : LockWorld ι τ) : LockLabel ι τ → Prop
  | .thread t .delete => F.stored s (F.inst t) = none ∨ F.stored s (F.inst t) = some (F.uuid (F.inst t))
  | _ => True

/-- No instance takes a free key while a thread of another one is about to delete it. -/
def NotBetween (F : Fleet ι τ) (s : LockWorld ι τ) : LockLabel ι τ → Prop
  | .thread t .setIfAbsent => F.stored s (F.inst t) = none →
      ∀ t', s.alive (F.inst t') = true → s.call t' = .unlockDelete → F.key (F.inst t') = F.key (F.inst t) →
        F.inst t' = F.inst t
  | _ => True

instance [Fintype τ] [DecidableEq ι] (F : Fleet ι τ) (s : LockWorld ι τ) : DecidablePred (NotBetween F s)
  | .thread t .setIfAbsent => inferInstanceAs (Decidable (F.stored s (F.inst t) = none →
      ∀ t', s.alive (F.inst t') = true → s.call t' = .unlockDelete → F.key (F.inst t') = F.key (F.inst t) →
        F.inst t' = F.inst t))
  | .thread _ .lock => isTrue trivial
  | .thread _ .tryLock => isTrue trivial
  | .thread _ (.timedTryLock _ _ _) => isTrue trivial
  | .thread _ .unlock => isTrue trivial
  | .thread _ (.wake _) => isTrue trivial
  | .thread _ (.check _) => isTrue trivial
  | .thread _ .get => isTrue trivial
  | .thread _ .delete => isTrue trivial
  | .task _ _ => isTrue trivial
  | .crash _ => isTrue trivial
  | .advance _ => isTrue trivial

/-- The invariant: what a thread about to delete compared is still there, or nothing. -/
def ComparedOwn (F : Fleet ι τ) (s : LockWorld ι τ) : Prop :=
  ∀ t, s.alive (F.inst t) = true → s.call t = .unlockDelete →
    F.stored s (F.inst t) = none ∨ F.stored s (F.inst t) = some (F.uuid (F.inst t))

variable [DecidableEq ι] [DecidableEq τ] {F : Fleet ι τ} {s s' : LockWorld ι τ} {l : LockLabel ι τ}

/-- **The invariant is preserved** while nobody takes a key that is about to be deleted. -/
theorem comparedOwn_step (h : ComparedOwn F s) (hok : NotBetween F s l) (hs : lockStep F s l = some s') :
    ComparedOwn F s' := by
  intro t' halive' hcall'
  cases lockStep_effect hs with
  | move _ _ _ hc _ => exact h t' halive' (update_place hc hcall').2
  | @acquire t c _ hfree _ hc =>
    obtain ⟨-, hcall⟩ := update_place hc hcall'
    -- whoever is about to delete the key is of the instance that takes it
    by_cases hkey : F.key (F.inst t') = F.key (F.inst t)
    · rw [stored_acquire_self hkey, hok hfree t' halive' hcall hkey]
      exact Or.inr rfl
    · rw [stored_acquire_ne hkey]
      exact h t' halive' hcall
  | @own t _ _ hown =>
    by_cases htt : t' = t
    · rw [htt]
      exact Or.inr hown
    · simp only [LockWorld.goto, Function.update_of_ne htt] at hcall'
      exact h t' halive' hcall'
  | notOwn _ _ _ => exact h t' halive' (update_place (by simp) hcall').2
  | @delete t _ _ =>
    by_cases hkey : F.key (F.inst t') = F.key (F.inst t)
    · exact Or.inl (stored_delete_self hkey)
    · rw [stored_delete_ne hkey]
      exact h t' halive' (update_place (by simp) hcall').2
  | taskGet _ _ => exact h t' halive' hcall'
  | taskWake _ _ _ => exact h t' halive' hcall'
  | taskExpire _ _ => rw [stored_expire]; exact h t' halive' hcall'
  | crash i => exact h t' (alive_of_crash halive') hcall'
  | advance ms =>
    rcases stored_advance (F := F) (s := s) ms (F.inst t') with hnone | hsame
    · exact Or.inl hnone
    · rw [hsame]
      exact h t' halive' hcall'

/-- A delete is the second step of an `unlock`. -/
theorem deletesOwn_of_comparedOwn (h : ComparedOwn F s) (hs : lockStep F s l = some s') :
    DeletesOwn F s l := by
  cases lockStep_effect hs with
  | delete halive hcall => exact h _ halive hcall
  | @move t tl => cases tl <;> trivial
  | _ => trivial

/-- An acquisition between the two commands of an `unlock` can be followed by the delete
of the new entry. -/
theorem delete_after_acquire (huuid : Function.Injective F.uuid) (hs : lockStep F s l = some s')
    (hbad : ¬ NotBetween F s l) :
    ∃ t s'', lockStep F s' (.thread t .delete) = some s'' ∧ ¬ DeletesOwn F s' (.thread t .delete) := by
  cases lockStep_effect hs with
  | @acquire t c _ hfree _ _ =>
    simp only [NotBetween, not_forall] at hbad
    obtain ⟨-, t', halive, hcall, hkey, hne⟩ := hbad
    have htt : t' ≠ t := fun h => hne (by rw [h])
    have hcall' : (s.acquire (F.lock (F.inst t)) (F.inst t) t c).call t' = .unlockDelete := by
      simp only [LockWorld.acquire, Function.update_of_ne htt]
      exact hcall
    refine ⟨t', _, lockStep_delete halive hcall', ?_⟩
    rintro (hnone | hown)
    · rw [stored_acquire_self hkey] at hnone
      cases hnone
    · rw [stored_acquire_self hkey] at hown
      exact hne (huuid (Option.some.inj hown)).symm
  | @move t tl c _ _ htaken _ _ =>
    refine absurd ?_ hbad
    cases tl with
    | setIfAbsent => exact fun hfree => absurd hfree (htaken rfl)
    | _ => trivial
  | _ => exact absurd trivial hbad

omit [DecidableEq ι] [DecidableEq τ] in
theorem comparedOwn_init (now : ℕ) (redis : TtlStore String String) :
    ComparedOwn F (.init ι τ now redis) := by
  intro t _ hcall
  cases hcall

/-- **What `unlock` deletes.** In every run in which no instance takes the key between the
two commands of another one's `unlock`, every delete removes the instance's own entry or
nothing. A step that takes the key there leads to a state in which the delete that is
still to come removes an entry of another instance. -/
theorem delete_own {name : Option String} {uuid : ι → String} (huuid : Function.Injective uuid)
    {inst : τ → ι} {now : ℕ} {redis : TtlStore String String} :
    (∀ ls s, exec (lockStep (.named name uuid inst)) (.init ι τ now redis) ls = some s →
      Along (lockStep (.named name uuid inst)) (NotBetween (.named name uuid inst)) (.init ι τ now redis) ls →
      Along (lockStep (.named name uuid inst)) (DeletesOwn (.named name uuid inst)) (.init ι τ now redis) ls) ∧
    (∀ s l s', lockStep (.named name uuid inst) s l = some s' → ¬ NotBetween (.named name uuid inst) s l →
      ∃ t s'', lockStep (.named name uuid inst) s' (.thread t .delete) = some s'' ∧
        ¬ DeletesOwn (.named name uuid inst) s' (.thread t .delete)) := by
  constructor
  · intro ls s hrun hok
    exact along_of_run (fun _ _ _ h hok hs => comparedOwn_step h hok hs)
      (fun _ _ _ h _ hs => deletesOwn_of_comparedOwn h hs) (comparedOwn_init now redis) hok hrun
  · intro s l s' hs hbad
    exact delete_after_acquire huuid hs hbad

/-- Instance `false` releases the lock while `true` waits for it; `true` takes it and releases it while `false`
tries. -/
def handedOver : List (LockLabel Bool Bool) :=
  [.thread false .tryLock, .thread false .setIfAbsent, .thread true .lock, .thread false .unlock, .thread false .get,
    .thread true .setIfAbsent, .thread false .delete, .advance 100, .thread true (.wake false),
    .thread true .setIfAbsent, .thread true .unlock, .thread true .get, .thread false .tryLock,
    .thread false .setIfAbsent, .thread true .delete]

/-- Both instances delete what they stored. -/
theorem delete_own_handedOver : ∃ s, exec (lockStep twoLocks) (.init Bool Bool 0 .empty) handedOver = some s ∧
    Along (lockStep twoLocks) (DeletesOwn twoLocks) (.init Bool Bool 0 .empty) handedOver := by
  have hok : Along (lockStep twoLocks) (NotBetween twoLocks) (.init Bool Bool 0 .empty) handedOver := by
    decide +kernel
  obtain ⟨s, hrun⟩ : ∃ s, exec (lockStep twoLocks) (.init Bool Bool 0 .empty) handedOver = some s :=
    Option.isSome_iff_exists.1 (by decide +kernel)
  exact ⟨s, hrun, (delete_own twoUuids_injective).1 handedOver s hrun hok⟩

/-- **`unlock` deletes the lock of another instance.** The entry expires between the two
commands of `unlock`, and another instance takes the lock. -/
theorem delete_foreign :
    let ls : List (LockLabel Bool Bool) :=
      [.thread false .tryLock, .thread false .setIfAbsent, .thread false .unlock, .thread false .get,
        .advance 10000, .thread true .tryLock, .thread true .setIfAbsent]
    ∃ s, exec (lockStep twoLocks) (.init Bool Bool 0 .empty) ls = some s ∧
      (lockStep twoLocks s (.thread false .delete)).isSome ∧
      ¬ DeletesOwn twoLocks s (.thread false .delete) := by
  intro ls
  refine ⟨_, rfl, rfl, ?_⟩
  rintro (hnone | hown)
  · exact absurd hnone (by decide)
  · exact absurd hown (by decide)

end StudyTech
