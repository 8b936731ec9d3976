import StudyTech.Proof.RedisStep

/-!
# Mutual exclusion of `RedisLock`

While no entry expires under a live holder, the uuid of the holder is stored under the
name (`HolderStored`), so an attempt succeeds only while nobody alive holds the lock
(`mutual_exclusion`). Renewal tasks left from earlier acquisitions change expiry times
only.
-/

namespace StudyTech

open Lib

variable {ι τ : Type}

/-- A live thread is between a successful `tryLock` and the end of its `unlock`. -/
def Holder (F : Fleet ι τ) (s : LockWorld ι τ) (t : τ) : Prop :=
  s.alive (F.inst t) = true ∧ s.holds t = true

/-- `unlock` is called by holders only, and time does not end the entry of one. -/
def Disciplined (F : Fleet ι τ) (s : LockWorld ι τ) : LockLabel ι τ → Prop
  | .thread t .unlock => s.holds t = true
  | .advance ms => ∀ t, Holder F s t → F.stored s (F.inst t) = some (F.uuid (F.inst t)) →
      F.stored { s with now := s.now + ms } (F.inst t) = some (F.uuid (F.inst t))
  | _ => True

/-- The invariant: only holders are in `unlock`, what a holder stored is there, and no
two threads hold. -/
structure HolderStored (F : Fleet ι τ) (s : LockWorld ι τ) : Prop where
  unlocking : ∀ t, s.call t = .unlock ∨ s.call t = .unlockDelete → s.holds t = true
  stored : ∀ t, Holder F s t → F.stored s (F.inst t) = some (F.uuid (F.inst t))
  unique : ∀ t t', Holder F s t → Holder F s t' → t = t'

theorem holderStored_init (F : Fleet ι τ) (now : ℕ) (redis : TtlStore String String) :
    HolderStored F (.init ι τ now redis) := by
  refine ⟨?_, ?_, ?_⟩
  · rintro t (h | h) <;> cases h
  · rintro t ⟨-, h⟩; cases h
  · rintro t t' ⟨-, h⟩; cases h

variable [DecidableEq ι] [DecidableEq τ] {F : Fleet ι τ} {s s' : LockWorld ι τ} {l : LockLabel ι τ}

omit [DecidableEq ι] in
/-- The thread goes on at a place outside `unlock`, or in an `unlock` that it may call. -/
theorem HolderStored.goto (h : HolderStored F s) {t : τ} {c : Call}
    (hc : c = .unlock ∨ c = .unlockDelete → s.holds t = true) : HolderStored F (s.goto t c) := by
  refine ⟨fun t' ht' => ?_, h.stored, h.unique⟩
  simp only [LockWorld.goto] at ht' ⊢
  by_cases htt : t' = t
  · subst htt
    rw [Function.update_self] at ht'
    exact hc ht'
  · rw [Function.update_of_ne htt] at ht'
    exact h.unlocking t' ht'

/-- An attempt that succeeds finds no live holder. -/
theorem HolderStored.acquire (h : HolderStored F s) (hkey : ∀ i j, F.key i = F.key j) {t : τ} {c : Call}
    (hfree : F.stored s (F.inst t) = none) :
    HolderStored F (s.acquire (F.lock (F.inst t)) (F.inst t) t c) := by
  -- the key is free, so nobody holds
  have hnone : ∀ t', ¬ Holder F s t' := by
    intro t' ht'
    have hst := h.stored t' ht'
    have hsame : F.stored s (F.inst t') = F.stored s (F.inst t) := by
      unfold Fleet.stored
      rw [hkey (F.inst t') (F.inst t)]
    rw [hsame, hfree] at hst
    cases hst
  have honly : ∀ t', Holder F (s.acquire (F.lock (F.inst t)) (F.inst t) t c) t' → t' = t := by
    rintro t' ⟨halive, hholds⟩
    by_contra htt
    simp only [LockWorld.acquire, Function.update_of_ne htt] at hholds
    exact hnone t' ⟨halive, hholds⟩
  refine ⟨fun t' ht' => ?_, fun t' ht' => ?_, fun t₁ t₂ h₁ h₂ => ?_⟩
  · simp only [LockWorld.acquire] at ht' ⊢
    by_cases htt : t' = t
    · rw [htt, Function.update_self]
    · rw [Function.update_of_ne htt] at ht' ⊢
      exact h.unlocking t' ht'
  · rw [honly t' ht']
    exact stored_acquire_self rfl
  · rw [honly t₁ h₁, honly t₂ h₂]

omit [DecidableEq ι] in
/-- The end of an `unlock` leaves one holder less; the others keep their entry. -/
theorem HolderStored.release (h : HolderStored F s) {t : τ} {redis : TtlStore String String}
    (hother : ∀ t', t' ≠ t → Holder F s t' →
      F.stored (s.release t redis) (F.inst t') = some (F.uuid (F.inst t'))) :
    HolderStored F (s.release t redis) := by
  have hback : ∀ t', Holder F (s.release t redis) t' → t' ≠ t ∧ Holder F s t' := by
    rintro t' ⟨halive, hholds⟩
    simp only [LockWorld.release] at hholds
    by_cases htt : t' = t
    · rw [htt, Function.update_self] at hholds
      cases hholds
    · rw [Function.update_of_ne htt] at hholds
      exact ⟨htt, halive, hholds⟩
  refine ⟨fun t' ht' => ?_, fun t' ht' => ?_, fun t₁ t₂ h₁ h₂ => ?_⟩
  · simp only [LockWorld.release] at ht' ⊢
    by_cases htt : t' = t
    · rw [htt, Function.update_self] at ht'
      rcases ht' with ht' | ht' <;> cases ht'
    · rw [Function.update_of_ne htt] at ht' ⊢
      exact h.unlocking t' ht'
  · exact hother t' (hback t' ht').1 (hback t' ht').2
  · exact h.unique t₁ t₂ (hback t₁ h₁).2 (hback t₂ h₂).2

/-- **The invariant is preserved by every disciplined step.** -/
theorem holderStored_step (hkey : ∀ i j, F.key i = F.key j) (h : HolderStored F s)
    (hok : Disciplined F s l) (hs : lockStep F s l = some s') : HolderStored F s' := by
  cases lockStep_effect hs with
  | move _ _ _ hc hu =>
    refine h.goto ?_
    rintro (hunlock | hdelete)
    · rw [hu hunlock] at hok; exact hok
    · exact absurd hdelete hc
  | acquire _ hfree _ _ => exact h.acquire hkey hfree
  | own _ hcall _ => exact h.goto fun _ => h.unlocking _ (Or.inl hcall)
  | notOwn _ _ _ => exact h.release fun t' _ ht' => h.stored t' ht'
  | delete halive hcall =>
    -- the thread that deletes is the only live holder
    refine h.release fun t' hne ht' => absurd ?_ hne
    exact h.unique t' _ ht' ⟨halive, h.unlocking _ (Or.inr hcall)⟩
  | taskGet _ _ => exact ⟨h.unlocking, h.stored, h.unique⟩
  | taskWake _ _ _ => exact ⟨h.unlocking, h.stored, h.unique⟩
  | taskExpire _ _ => exact ⟨h.unlocking, fun t ht => (stored_expire _ _ _ _).trans (h.stored t ht), h.unique⟩
  | crash i =>
    have hback : ∀ t, Holder F { s with alive := Function.update s.alive i false } t → Holder F s t :=
      fun t ht => ⟨alive_of_crash ht.1, ht.2⟩
    exact ⟨h.unlocking, fun t ht => h.stored t (hback t ht),
      fun t t' ht ht' => h.unique t t' (hback t ht) (hback t' ht')⟩
  | advance ms => exact ⟨h.unlocking, fun t ht => hok t ht (h.stored t ht), h.unique⟩

omit [DecidableEq ι] [DecidableEq τ] in
theorem key_named {name : String} (hname : isBlank (some name) = false) (uuid : ι → String) (inst : τ → ι)
    (i : ι) : (Fleet.named (some name) uuid inst).key i = name := by
  unfold Fleet.key Fleet.named RedisLock.new defaultIfBlank
  simp only [hname, Bool.false_eq_true, if_false, Option.getD_some]

/-- **Mutual exclusion.** For instances on one name: in every state that a disciplined run
reaches, at most one live thread is between a successful `tryLock` and the end of its
`unlock`, and the uuid of its instance is stored under the name. -/
theorem mutual_exclusion {name : String} (hname : isBlank (some name) = false) {uuid : ι → String}
    {inst : τ → ι} {now : ℕ} {redis : TtlStore String String} {ls : List (LockLabel ι τ)}
    {s : LockWorld ι τ}
    (hok : Along (lockStep (.named (some name) uuid inst)) (Disciplined (.named (some name) uuid inst))
      (.init ι τ now redis) ls)
    (hrun : exec (lockStep (.named (some name) uuid inst)) (.init ι τ now redis) ls = some s) :
    (∀ t t', Holder (.named (some name) uuid inst) s t → Holder (.named (some name) uuid inst) s t' → t = t') ∧
      ∀ t, Holder (.named (some name) uuid inst) s t → s.redis.get s.now name = some (uuid (inst t)) := by
  have hkey := key_named hname uuid inst
  have hinv : HolderStored (.named (some name) uuid inst) s :=
    inv_of_along (fun _ _ _ h hok hs => holderStored_step (fun i j => by rw [hkey i, hkey j]) h hok hs)
      (holderStored_init _ now redis) hok hrun
  refine ⟨hinv.unique, fun t ht => ?_⟩
  have hst := hinv.stored t ht
  unfold Fleet.stored at hst
  rw [hkey] at hst
  exact hst

/-- One instance takes and releases the lock, then the other one takes it. -/
theorem mutual_exclusion_handover :
    ∃ s, exec (lockStep twoLocks) (.init Bool Bool 0 .empty)
        [.thread false .tryLock, .thread false .setIfAbsent, .advance 3000, .thread false .unlock,
          .thread false .get, .thread false .delete, .thread true .lock, .thread true .setIfAbsent] = some s ∧
      Holder twoLocks s true ∧ (∀ t, Holder twoLocks s t → t = true) ∧
      s.redis.get s.now "order" = some "uuid-1" := by
  let ls : List (LockLabel Bool Bool) :=
    [.thread false .tryLock, .thread false .setIfAbsent, .advance 3000, .thread false .unlock,
      .thread false .get, .thread false .delete, .thread true .lock, .thread true .setIfAbsent]
  let s := (exec (lockStep twoLocks) (.init Bool Bool 0 .empty) ls).getD (.init Bool Bool 0 .empty)
  have hrun : exec (lockStep twoLocks) (.init Bool Bool 0 .empty) ls = some s := rfl
  have hok : Along (lockStep twoLocks) (Disciplined twoLocks) (.init Bool Bool 0 .empty) ls := by
    refine ⟨trivial, ?_⟩
    rintro _ ⟨⟩
    refine ⟨trivial, ?_⟩
    rintro _ ⟨⟩
    refine ⟨fun t _ _ => ?_, ?_⟩
    · cases t with
      | false => decide
      | true => contradiction
    rintro _ ⟨⟩
    refine ⟨rfl, ?_⟩
    rintro _ ⟨⟩
    refine ⟨trivial, ?_⟩
    rintro _ ⟨⟩
    refine ⟨trivial, ?_⟩
    rintro _ ⟨⟩
    refine ⟨trivial, ?_⟩
    rintro _ ⟨⟩
    exact ⟨trivial, fun _ _ => trivial⟩
  have hmutex := mutual_exclusion (by decide) hok hrun
  have hholder : Holder twoLocks s true := ⟨rfl, rfl⟩
  exact ⟨s, hrun, hholder, fun t ht => hmutex.1 t true ht hholder, hmutex.2 true hholder⟩

end StudyTech
