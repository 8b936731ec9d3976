import StudyTech.Proof.ZkOrder
import StudyTech.Spec.ZkCalls

/-!
# The record of the calls

What a step adds to the record of the calls (`callStep_refused`, `callStep_past`), and what
holds of the children in it: a call has none before its create, and its child belongs to
the instance (`CallInv`).
-/

namespace StudyTech

open Lib

variable {ι τ : Type}

/-- The call has not come past its create. -/
def UserPc.beforeCreate : UserPc → Bool
  | .rootExists _ => true
  | .rootCreate _ => true
  | .create _ => true
  | _ => false

variable [DecidableEq ι] [DecidableEq τ] {F : ZkFleet ι τ} {w w' : ZkWorld ι τ} {s s' : CallWorld ι τ}
  {l : ZkLabel ι τ} {t : τ} {r : Reply}

section Record

theorem callStep_world (h : callStep F s l = some s') : zkStep F s.world l = some s'.world := by
  obtain ⟨w', hw, rfl⟩ := Option.map_eq_some_iff.1 h
  rw [hw]
  cases l with
  | user t r =>
    simp only
    split
    · rfl
    · split <;> rfl
  | _ => rfl

theorem callStep_node (h : callStep F s l = some s') : s'.node = nodeAfter F s l := by
  obtain ⟨w', -, rfl⟩ := Option.map_eq_some_iff.1 h
  cases l with
  | user t r =>
    simp only
    split
    · rfl
    · split <;> rfl
  | _ => rfl

/-- A child is refused when its call returns false. -/
theorem callStep_refused (h : callStep F s l = some s') {c : String} (hc : c ∈ s'.refused) :
    c ∈ s.refused ∨ ∃ t r, l = .user t r ∧ s'.world.user t = .idle (some false) ∧ s'.node t = some c := by
  obtain ⟨w', -, rfl⟩ := Option.map_eq_some_iff.1 h
  cases l with
  | user t r =>
    simp only at hc ⊢
    split at hc
    · exact .inl hc
    · rename_i hreturns
      split at hc
      · rename_i hfalse
        rcases List.mem_append.1 hc with hc | hc
        · have hnode : nodeAfter F s (.user t r) t = some c := by simpa using hc
          refine .inr ⟨t, r, rfl, ?_⟩
          simp only [if_neg hreturns, if_pos hfalse]
          exact ⟨hfalse, hnode⟩
        · exact .inl hc
      · exact .inl hc
  | _ => exact .inl hc

/-- An instance is past `lock` since the step, or was before and is not unlocked by it. -/
theorem callStep_past (h : callStep F s l = some s') {i : ι} (hpast : s'.past i = true) :
    (s.past i = true ∧ s'.held i = s.held i ∧ ∀ t, l = .unlock t → F.inst t ≠ i) ∨
      ∃ t r, l = .user t r ∧ F.inst t = i ∧ Returns s.world s'.world t ∧ s'.held i = s.node t := by
  obtain ⟨w', -, rfl⟩ := Option.map_eq_some_iff.1 h
  cases l with
  | user t r =>
    simp only at hpast ⊢
    split at hpast
    · rename_i hreturns
      by_cases hi : i = F.inst t
      · subst hi
        refine .inr ⟨t, r, rfl, rfl, ?_⟩
        rw [if_pos hreturns]
        exact ⟨hreturns, Function.update_self ..⟩
      · simp only [Function.update_of_ne hi] at hpast
        refine .inl ⟨hpast, ?_, fun t' h' => nomatch h'⟩
        rw [if_pos hreturns]
        exact Function.update_of_ne hi ..
    · rename_i hreturns
      refine .inl ⟨?_, ?_, fun t' h' => nomatch h'⟩
      · split at hpast <;> exact hpast
      · rw [if_neg hreturns]
        split <;> rfl
  | unlock t =>
    simp only at hpast
    by_cases hi : i = F.inst t
    · subst hi
      rw [Function.update_self] at hpast
      cases hpast
    · rw [Function.update_of_ne hi] at hpast
      refine .inl ⟨hpast, rfl, fun t' h' => ?_⟩
      cases h'
      exact Ne.symm hi
  | _ => exact .inl ⟨hpast, rfl, fun t' h' => nomatch h'⟩

end Record

section Threads

/-- A step moves one user thread at most. -/
theorem zkStep_other (hs : zkStep F w l = some w') (ht : l.thread ≠ some t) : w'.user t = w.user t := by
  have hne : ∀ t', some t' ≠ some t → t ≠ t' := by
    rintro t' hne rfl
    exact hne rfl
  cases zkStep_effect hs with
  | lock _ => exact Function.update_of_ne (hne _ ht) ..
  | tryLock _ => exact Function.update_of_ne (hne _ ht) ..
  | unlock _ => exact Function.update_of_ne (hne _ ht) ..
  | user hu =>
    have hne := hne _ ht
    cases hu with
    | @isMin r locking m zk st result =>
      show ((w.setLock _ st).userMin _ locking result).user t = w.user t
      rw [(userMin_eq _ _ locking result).2]
      exact Function.update_of_ne hne ..
    | _ => exact Function.update_of_ne hne ..
  | event he =>
    cases he with
    | @isMin r m zk st result =>
      show (w.eventMin _ st result).user t = w.user t
      rw [(eventMin_eq w _ st result).1]
    | _ => rfl
  | expire => rfl

/-- A step writes the lock of one instance at most. -/
theorem zkStep_lock_other (hs : zkStep F w l = some w') {i : ι} (hi : i ≠ l.session F) : w'.lock i = w.lock i := by
  cases zkStep_effect hs with
  | lock _ => rfl
  | tryLock _ => rfl
  | unlock _ => rfl
  | user hu =>
    cases hu with
    | @isMin r locking m zk st result =>
      show ((w.setLock _ st).userMin _ locking result).lock i = w.lock i
      rw [(userMin_eq _ _ locking result).1]
      exact Function.update_of_ne hi ..
    | assignSelf _ => exact Function.update_of_ne hi ..
    | newLatch _ => exact Function.update_of_ne hi ..
    | _ => rfl
  | event he =>
    cases he with
    | @isMin r m zk st result =>
      show (w.eventMin _ st result).lock i = w.lock i
      rw [(eventMin_eq w _ st result).2]
      exact Function.update_of_ne hi ..
    | _ => exact Function.update_of_ne hi ..
  | expire => rfl

omit [DecidableEq ι] [DecidableEq τ] in
theorem session_of_thread (ht : l.thread = some t) : l.session F = F.inst t := by
  cases l with
  | event i r => cases ht
  | expire i => cases ht
  | _ => cases ht; rfl

theorem zkStep_unlock (hs : zkStep F w (.unlock t) = some w') : w'.user t = .unlockExists := by
  cases zkStep_effect hs with
  | unlock _ => exact Function.update_self ..

omit [DecidableEq ι] in
theorem nodeAfter_other (ht : l.thread ≠ some t) : nodeAfter F s l t = s.node t := by
  have hne : ∀ t', some t' ≠ some t → t ≠ t' := by
    rintro t' hne rfl
    exact hne rfl
  cases l with
  | lock t' => exact Function.update_of_ne (hne _ ht) ..
  | tryLock t' => exact Function.update_of_ne (hne _ ht) ..
  | user t' r => exact Function.update_of_ne (hne _ ht) ..
  | _ => rfl

omit [DecidableEq ι] in
/-- A step that creates a child gives it to its call; other steps leave the child of the call. -/
theorem nodeAfter_user (r : Reply) :
    (∃ locking seq, s.world.user t = .create locking ∧ (r = .ok seq ∨ ∃ b, r = .fail b (some seq)) ∧
        nodeAfter F s (.user t r) t = some (F.child t seq)) ∨
      nodeAfter F s (.user t r) t = s.node t := by
  have hnode : nodeAfter F s (.user t r) t = (F.created s.world t r).or (s.node t) := Function.update_self ..
  rw [hnode]
  unfold ZkFleet.created
  split
  · rename_i locking seq hu
    exact .inl ⟨locking, seq, hu, .inl rfl, rfl⟩
  · rename_i locking b seq hu
    exact .inl ⟨locking, seq, hu, .inr ⟨b, rfl⟩, rfl⟩
  · exact .inr rfl

end Threads

/-- The children of the calls: a call has none before its create, and its child belongs to
the instance. -/
structure CallInv (F : ZkFleet ι τ) (s : CallWorld ι τ) : Prop where
  grant : GrantInv F s.world
  fresh : ∀ t, (s.world.user t).beforeCreate = true → s.node t = none
  owned : ∀ t c, s.node t = some c → Owned s.world.zk (F.name (F.inst t)) (F.inst t) (childPath c)

omit [DecidableEq ι] [DecidableEq τ] in
theorem callInv_init (F : ZkFleet ι τ) : CallInv F (.init ι τ) := by
  refine ⟨grantInv_init F, ?_, ?_⟩
  · intro t h; cases h
  · intro t c h; cases h

/-- The child that a step creates is a new node of the instance. -/
theorem created_owned (hs : zkStep F w (.user t r) = some w') {locking : Bool} {seq : ℕ}
    (hu : w.user t = .create locking) (hr : r = .ok seq ∨ ∃ b, r = .fail b (some seq)) :
    Owned w'.zk (F.name (F.inst t)) (F.inst t) (childPath (F.child t seq)) ∧
      w'.zk.hasLive (F.child t seq) = true := by
  have hmem : (⟨F.name (F.inst t), seq, F.inst t, w.zk.zxid + 1, none⟩ : ZNode ι) ∈
      (w.zk.create (F.inst t) (F.name (F.inst t)) seq).nodes :=
    List.mem_append_right _ (List.mem_singleton_self _)
  have hzk : w'.zk = w.zk.create (F.inst t) (F.name (F.inst t)) seq := by
    rcases hr with rfl | ⟨b, rfl⟩
    · simp only [zkStep, userStep, hu] at hs
      split at hs
      · cases hs; rfl
      · cases hs
    · simp only [zkStep, userStep, hu] at hs
      split at hs
      · cases hs; rfl
      · cases hs
  rw [hzk]
  exact ⟨⟨_, hmem, rfl, rfl, rfl⟩, ZooKeeper.hasLive_iff.2 ⟨_, hmem, rfl, rfl⟩⟩

omit [DecidableEq ι] [DecidableEq τ] in
theorem afterTry_past (locking status : Bool) : (afterTry locking status).beforeCreate = false := by
  cases locking <;> cases status <;> rfl

omit [DecidableEq ι] [DecidableEq τ] in
/-- A user thread comes to a place before the create from such a place only. -/
theorem UserMove.before {pc pc' : UserPc} (h : UserMove pc pc') (hb : pc'.beforeCreate = true) :
    ∃ locking, pc = .rootExists locking ∨ pc = .rootCreate locking := by
  cases h with
  | root hpc _ => exact ⟨_, hpc⟩
  | notCreated => rw [afterTry_past] at hb; cases hb
  | afterMin => rw [afterTry_past] at hb; cases hb
  | unlock hpc => rcases hpc with rfl | rfl <;> cases hb
  | _ => cases hb

theorem callInv_step (h : CallInv F s) (hs : callStep F s l = some s') : CallInv F s' := by
  have hzk := callStep_world hs
  have hgrows := (history_step h.grant hzk).2
  have hnode := callStep_node hs
  refine ⟨grantInv_step h.grant hzk, fun t hb => ?_, fun t c hc => ?_⟩
  · rw [hnode]
    by_cases ht : l.thread = some t
    · cases l with
      | lock t' => cases ht; exact Function.update_self ..
      | tryLock t' => cases ht; exact Function.update_self ..
      | unlock t' =>
        cases ht
        rw [zkStep_unlock hzk] at hb
        cases hb
      | user t' r =>
        cases ht
        cases zkStep_effect hzk with
        | user hu =>
          obtain ⟨locking, hpc⟩ := hu.move.before hb
          have hnone : s.node t = none := h.fresh t (by rcases hpc with hpc | hpc <;> rw [hpc] <;> rfl)
          rcases nodeAfter_user (F := F) (s := s) (t := t) r with ⟨_, seq, hcreate, -⟩ | hsame
          · rw [hcreate] at hpc
            rcases hpc with hpc | hpc <;> cases hpc
          · rw [hsame, hnone]
      | event i r => cases ht
      | expire i => cases ht
    · rw [zkStep_other hzk ht] at hb
      rw [nodeAfter_other ht]
      exact h.fresh t hb
  · rw [hnode] at hc
    by_cases ht : l.thread = some t
    · cases l with
      | lock t' =>
        cases ht
        rw [nodeAfter, Function.update_self] at hc
        cases hc
      | tryLock t' =>
        cases ht
        rw [nodeAfter, Function.update_self] at hc
        cases hc
      | unlock t' => exact (h.owned t c hc).mono hgrows
      | user t' r =>
        cases ht
        rcases nodeAfter_user (F := F) (s := s) (t := t) r with ⟨_, seq, hcreate, hr, heq⟩ | hsame
        · rw [heq] at hc
          cases hc
          exact (created_owned hzk hcreate hr).1
        · rw [hsame] at hc
          exact (h.owned t c hc).mono hgrows
      | event i r => cases ht
      | expire i => cases ht
    · rw [nodeAfter_other ht] at hc
      exact (h.owned t c hc).mono hgrows

end StudyTech
