import StudyTech.Spec.ZkLock

/-!
# What the steps of a ZooKeeper lock can do

`MinEffect` lists what a step of `isMinPath` can do, for either thread, `UserEffect` and
`EventEffect` what a step of a thread can do, and `ZkEffect` what a step can do. The
invariants of the lock are proved by cases on them.
-/

namespace StudyTech

open Lib

variable {ι τ : Type}

/-- The thread that the label is about. -/
def ZkLabel.thread : ZkLabel ι τ → Option τ
  | .lock t => some t
  | .tryLock t => some t
  | .unlock t => some t
  | .user t _ => some t
  | .event _ _ => none
  | .expire _ => none

/-- The instance whose session the label is about. -/
def ZkLabel.session (F : ZkFleet ι τ) : ZkLabel ι τ → ι
  | .lock t => F.inst t
  | .tryLock t => F.inst t
  | .unlock t => F.inst t
  | .user t _ => F.inst t
  | .event i _ => i
  | .expire i => i

variable [DecidableEq ι] [DecidableEq τ]

@[simp] theorem childName_childPath (c : String) : childName (childPath c) = c :=
  substring_append (lockPath ++ "/") c

theorem childPath_inj {c c' : String} (h : childPath c = childPath c') : c = c' := by
  rw [← childName_childPath c, h, childName_childPath]

/-- A call that threw. -/
def Reply.Failed : Reply → Prop
  | .fail _ _ => True
  | _ => False

instance : DecidablePred Reply.Failed
  | .fail _ _ => isTrue trivial
  | .silent | .ok _ => isFalse id

/-- What a step of `isMinPath` can do. -/
inductive MinEffect (zk : ZooKeeper ι) (i : ι) (st : DistributedLock) :
    MinPc → Reply → ZooKeeper ι → DistributedLock → MinResult → Prop
  | read {z : ℕ} : zk.seen i ≤ z → z ≤ zk.zxid →
      MinEffect zk i st .getChildren (.ok z) zk st (.goto (.indexOf (sortStrings (zk.children z))))
  | unlisted {subNodes : List String} {self : String} : st.selfPath = some self → childName self ∉ subNodes →
      MinEffect zk i st (.indexOf subNodes) .silent zk st .refused
  | first {subNodes : List String} {self : String} : st.selfPath = some self →
      subNodes.idxOf? (childName self) = some 0 →
      MinEffect zk i st (.indexOf subNodes) .silent zk st (.goto (.latchNull self))
  | later {subNodes : List String} {self prev : String} {k : ℕ} : st.selfPath = some self →
      subNodes.idxOf? (childName self) = some (k + 1) → subNodes[k]? = some prev →
      MinEffect zk i st (.indexOf subNodes) .silent zk st (.goto (.setWaitPath (childPath prev)))
  | noLatch {self : String} : st.latch = none →
      MinEffect zk i st (.latchNull self) .silent zk st (.granted self)
  | hasLatch {self : String} {k : ℕ} : st.latch = some k →
      MinEffect zk i st (.latchNull self) .silent zk st (.goto (.countDown self))
  | countDown {self : String} {k : ℕ} : st.latch = some k →
      MinEffect zk i st (.countDown self) .silent zk { st with counts := st.counts.modify k (· - 1) }
        (.granted self)
  | setWaitPath {path : String} :
      MinEffect zk i st (.setWaitPath path) .silent zk { st with waitPath := some path } (.goto .getData)
  | watched {path : String} {z : ℕ} : st.waitPath = some path →
      MinEffect zk i st .getData (.ok z) (zk.watch i (childName path)) st .refused
  | noNode {z : ℕ} : MinEffect zk i st .getData (.ok z) zk st (.goto .getChildren)
  | failed {m : MinPc} {r : Reply} {result : MinResult} : r.Failed → m = .getChildren ∨ m = .getData →
      result = .threw ∨ result = .goto .getChildren → MinEffect zk i st m r zk st result

omit [DecidableEq τ] in
/-- **What a step of `isMinPath` can do.** -/
theorem minStep_effect {zk zk' : ZooKeeper ι} {i : ι} {st st' : DistributedLock} {m : MinPc} {r : Reply}
    {result : MinResult} (h : minStep zk i st m r = some (zk', st', result)) :
    MinEffect zk i st m r zk' st' result := by
  unfold minStep at h
  split at h
  case h_1 z =>
    split at h
    · rename_i hread
      cases h
      exact .read hread.2.1 hread.2.2
    · cases h
  case h_2 => cases h; exact .failed trivial (Or.inl rfl) (Or.inl rfl)
  case h_3 subNodes =>
    split at h
    · cases h
    · rename_i self hself
      split at h
      · rename_i hidx
        cases h
        exact .unlisted hself (List.idxOf?_eq_none_iff.1 hidx)
      · rename_i hidx
        cases h
        exact .first hself hidx
      · rename_i k hidx
        obtain ⟨prev, hprev, heq⟩ := Option.map_eq_some_iff.1 h
        cases heq
        exact .later hself hidx hprev
  case h_4 self =>
    cases hlatch : st.latch with
    | none => rw [hlatch] at h; cases h; exact .noLatch hlatch
    | some k => rw [hlatch] at h; cases h; exact .hasLatch hlatch
  case h_5 =>
    obtain ⟨k, hk, heq⟩ := Option.map_eq_some_iff.1 h
    cases heq
    exact .countDown hk
  case h_6 => cases h; exact .setWaitPath
  case h_7 z =>
    split at h
    · cases h
    · rename_i path hpath
      split at h
      · split at h
        · cases h; exact .watched hpath
        · cases h; exact .noNode
      · cases h
  case h_8 interrupted executed =>
    cases h
    -- a failed `getData` is caught in `isMinPath`, unless it was interrupted
    refine .failed trivial (Or.inr rfl) ?_
    cases interrupted
    · exact Or.inr rfl
    · exact Or.inl rfl
  case h_9 => cases h

omit [DecidableEq ι] in
theorem goto_user (w : ZkWorld ι τ) (t : τ) (c : UserPc) : (w.goto t c).user t = c := Function.update_self ..

omit [DecidableEq τ] in
theorem setLock_lock (w : ZkWorld ι τ) (i : ι) (st : DistributedLock) : (w.setLock i st).lock i = st :=
  Function.update_self ..

omit [DecidableEq ι] in
/-- The user thread goes on after a step of `isMinPath`. -/
theorem userMin_eq (w : ZkWorld ι τ) (t : τ) (locking : Bool) (result : MinResult) :
    (w.userMin t locking result).lock = w.lock ∧ (w.userMin t locking result).user = Function.update w.user t
      (match result with
        | .goto m => .isMin locking m
        | .granted _ => afterTry locking true
        | _ => afterTry locking false) := by
  cases result <;> exact ⟨rfl, rfl⟩

omit [DecidableEq τ] in
/-- The event thread goes on after a step of `isMinPath`. -/
theorem eventMin_eq (w : ZkWorld ι τ) (i : ι) (st : DistributedLock) (result : MinResult) :
    (w.eventMin i st result).user = w.user ∧ (w.eventMin i st result).lock = Function.update w.lock i
      { st with event := match result with
        | .goto m => some m
        | _ => none } := by
  cases result <;> exact ⟨rfl, rfl⟩

/-- What a step of a user thread can do, up to the reads it makes. -/
inductive UserEffect (F : ZkFleet ι τ) (w : ZkWorld ι τ) (t : τ) : Reply → ZkWorld ι τ → Prop
  /-- a step to a place before or after `isMinPath` -/
  | root {r : Reply} {locking : Bool} {c : UserPc} (zk : ZooKeeper ι) :
      w.user t = .rootExists locking ∨ w.user t = .rootCreate locking →
      zk = w.zk ∨ zk = w.zk.createRoot →
      c = .create locking ∨ c = .rootCreate locking ∨ (r.Failed ∧ c = afterTry locking false) →
      UserEffect F w t r { w.goto t c with zk := zk }
  | created {locking : Bool} {seq : ℕ} : w.user t = .create locking →
      Creatable w.zk (F.inst t) (F.name (F.inst t)) seq →
      UserEffect F w t (.ok seq)
        { w.goto t (.assignSelf locking (childPath (F.name (F.inst t) ++ paddedDecimal ZNode.seqDigits seq))) with
          zk := w.zk.create (F.inst t) (F.name (F.inst t)) seq }
  | createFailed {r : Reply} {locking : Bool} : w.user t = .create locking → r.Failed →
      UserEffect F w t r (w.goto t (afterTry locking false))
  | createLost {r : Reply} {locking : Bool} {seq : ℕ} : w.user t = .create locking → r.Failed →
      Creatable w.zk (F.inst t) (F.name (F.inst t)) seq →
      UserEffect F w t r { w.goto t (afterTry locking false) with
        zk := w.zk.create (F.inst t) (F.name (F.inst t)) seq }
  | assignSelf {locking : Bool} {path : String} : w.user t = .assignSelf locking path →
      UserEffect F w t .silent ((w.setLock (F.inst t) { w.lock (F.inst t) with selfPath := some path }).goto t
        (.isMin locking .getChildren))
  | isMin {r : Reply} {locking : Bool} {m : MinPc} {zk : ZooKeeper ι} {st : DistributedLock}
      {result : MinResult} : w.user t = .isMin locking m →
      MinEffect w.zk (F.inst t) (w.lock (F.inst t)) m r zk st result →
      UserEffect F w t r { (w.setLock (F.inst t) st).userMin t locking result with zk := zk }
  | newLatch : w.user t = .newLatch →
      UserEffect F w t .silent ((w.setLock (F.inst t) { w.lock (F.inst t) with
        latch := some (w.lock (F.inst t)).counts.length
        counts := (w.lock (F.inst t)).counts ++ [1] }).goto t .awaitLatch)
  | awaitLatch {k : ℕ} : w.user t = .awaitLatch → (w.lock (F.inst t)).latch = some k →
      UserEffect F w t .silent (w.goto t (.parked k))
  | unpark {r : Reply} {k : ℕ} : w.user t = .parked k → UserEffect F w t r (w.goto t (.idle none))
  | unlock {r : Reply} {c : UserPc} : w.user t = .unlockExists → c = .unlockDelete ∨ c = .idle none →
      UserEffect F w t r (w.goto t c)
  | deleted {r : Reply} {self : String} : w.user t = .unlockDelete →
      (w.lock (F.inst t)).selfPath = some self →
      UserEffect F w t r { w.goto t (.idle none) with zk := w.zk.delete (childName self) }
  | deleteFailed {r : Reply} : w.user t = .unlockDelete → UserEffect F w t r (w.goto t (.idle none))

/-- **What a step of a user thread can do.** -/
theorem userStep_effect {F : ZkFleet ι τ} {w w' : ZkWorld ι τ} {t : τ} {r : Reply}
    (h : userStep F w t r = some w') : UserEffect F w t r w' := by
  unfold userStep at h
  simp only at h
  split at h
  -- `createRootPath`
  case h_1 locking z hu =>
    split at h
    · cases h
      refine .root w.zk (Or.inl hu) (Or.inl rfl) ?_
      split
      · exact Or.inl rfl
      · exact Or.inr (Or.inl rfl)
    · cases h
  case h_2 locking b e hu =>
    cases h
    exact .root w.zk (Or.inl hu) (Or.inl rfl) (Or.inr (Or.inr ⟨trivial, rfl⟩))
  case h_3 locking n hu =>
    split at h
    · cases h
      exact .root _ (Or.inr hu) (Or.inr rfl) (Or.inl rfl)
    · cases h
  case h_4 locking b e hu =>
    cases h
    refine .root _ (Or.inr hu) ?_ (Or.inr (Or.inr ⟨trivial, rfl⟩))
    split
    · exact Or.inr rfl
    · exact Or.inl rfl
  -- `tryLock`
  case h_5 locking seq hu =>
    split at h
    · rename_i hc
      cases h
      exact .created hu hc
    · cases h
  case h_6 locking b hu => cases h; exact .createFailed hu trivial
  case h_7 locking b seq hu =>
    split at h
    · rename_i hc
      cases h
      exact .createLost hu trivial hc
    · cases h
  case h_8 locking path hu => cases h; exact .assignSelf hu
  case h_9 locking m r hu =>
    obtain ⟨⟨zk, st, result⟩, hmin, heq⟩ := Option.map_eq_some_iff.1 h
    cases heq
    exact .isMin hu (minStep_effect hmin)
  -- `lock`
  case h_10 hu => cases h; exact .newLatch hu
  case h_11 hu =>
    obtain ⟨k, hk, heq⟩ := Option.map_eq_some_iff.1 h
    cases heq
    exact .awaitLatch hu hk
  case h_12 k hu =>
    split at h
    · cases h; exact .unpark hu
    · cases h
  case h_13 k e hu => cases h; exact .unpark hu
  -- `unLock`
  case h_14 hu =>
    split at h
    · cases h; exact .unlock hu (Or.inr rfl)
    · cases h
  case h_15 z hu =>
    split at h
    · cases h
    · split at h
      · cases h
        refine .unlock hu ?_
        split
        · exact Or.inl rfl
        · exact Or.inr rfl
      · cases h
  case h_16 b e hu => cases h; exact .unlock hu (Or.inr rfl)
  case h_17 n hu =>
    split at h
    · cases h
    · rename_i self hself
      split at h
      · cases h; exact .deleted hu hself
      · cases h
  case h_18 b e hu =>
    cases h
    split
    · rename_i self hself
      exact .deleted hu hself
    · exact .deleteFailed hu
  case h_19 => cases h

/-- What a step of an event thread can do. -/
inductive EventEffect (w : ZkWorld ι τ) (i : ι) : Reply → ZkWorld ι τ → Prop
  | ignore {c : String} {cs : List String} : (w.lock i).event = none → w.zk.events i = c :: cs →
      (w.lock i).waitPath ≠ some (childPath c) →
      EventEffect w i .silent { w.setLock i { w.lock i with event := none } with zk := w.zk.pop i }
  | process {c : String} {cs : List String} : (w.lock i).event = none → w.zk.events i = c :: cs →
      (w.lock i).waitPath = some (childPath c) →
      EventEffect w i .silent { w.setLock i { w.lock i with event := some .getChildren } with zk := w.zk.pop i }
  | isMin {r : Reply} {m : MinPc} {zk : ZooKeeper ι} {st : DistributedLock} {result : MinResult} :
      (w.lock i).event = some m → MinEffect w.zk i (w.lock i) m r zk st result →
      EventEffect w i r { w.eventMin i st result with zk := zk }

omit [DecidableEq τ] in
/-- **What a step of an event thread can do.** -/
theorem eventStep_effect {w w' : ZkWorld ι τ} {i : ι} {r : Reply} (h : eventStep w i r = some w') :
    EventEffect w i r w' := by
  unfold eventStep at h
  simp only at h
  split at h
  case h_1 hev =>
    split at h
    · cases h
    · rename_i c cs hevents
      by_cases hwait : (w.lock i).waitPath = some (childPath c)
      · rw [if_pos hwait] at h
        cases h
        exact .process hev hevents hwait
      · rw [if_neg hwait] at h
        cases h
        exact .ignore hev hevents hwait
  case h_2 => cases h
  case h_3 m hev =>
    obtain ⟨⟨zk, st, result⟩, hmin, heq⟩ := Option.map_eq_some_iff.1 h
    cases heq
    exact .isMin hev (minStep_effect hmin)

/-- What a step can do. -/
inductive ZkEffect (F : ZkFleet ι τ) (w : ZkWorld ι τ) : ZkLabel ι τ → ZkWorld ι τ → Prop
  | lock {t : τ} {result : Option Bool} : w.user t = .idle result →
      ZkEffect F w (.lock t) (w.goto t (.rootExists true))
  | tryLock {t : τ} {result : Option Bool} : w.user t = .idle result →
      ZkEffect F w (.tryLock t) (w.goto t (.rootExists false))
  | unlock {t : τ} {result : Option Bool} : w.user t = .idle result →
      ZkEffect F w (.unlock t) (w.goto t .unlockExists)
  | user {t : τ} {r : Reply} {w' : ZkWorld ι τ} : UserEffect F w t r w' → ZkEffect F w (.user t r) w'
  | event {i : ι} {r : Reply} {w' : ZkWorld ι τ} : EventEffect w i r w' → ZkEffect F w (.event i r) w'
  | expire {i : ι} : ZkEffect F w (.expire i) { w with zk := w.zk.expire i }

/-- **What a step can do.** -/
theorem zkStep_effect {F : ZkFleet ι τ} {w w' : ZkWorld ι τ} {l : ZkLabel ι τ} (h : zkStep F w l = some w') :
    ZkEffect F w l w' := by
  cases l with
  | lock t =>
    simp only [zkStep] at h
    split at h
    · rename_i hu
      cases h
      exact .lock hu
    · cases h
  | tryLock t =>
    simp only [zkStep] at h
    split at h
    · rename_i hu
      cases h
      exact .tryLock hu
    · cases h
  | unlock t =>
    simp only [zkStep] at h
    split at h
    · rename_i hu
      cases h
      exact .unlock hu
    · cases h
  | user t r => exact .user (userStep_effect h)
  | event i r => exact .event (eventStep_effect h)
  | expire i => cases h; exact .expire

/-- How a user thread goes on. -/
inductive UserMove : UserPc → UserPc → Prop
  | root {locking : Bool} {pc pc' : UserPc} : pc = .rootExists locking ∨ pc = .rootCreate locking →
      pc' = .create locking ∨ pc' = .rootCreate locking ∨ pc' = afterTry locking false → UserMove pc pc'
  | created {locking : Bool} {path : String} : UserMove (.create locking) (.assignSelf locking path)
  | notCreated {locking : Bool} : UserMove (.create locking) (afterTry locking false)
  | assignSelf {locking : Bool} {path : String} : UserMove (.assignSelf locking path) (.isMin locking .getChildren)
  | isMin {locking : Bool} {m m' : MinPc} : UserMove (.isMin locking m) (.isMin locking m')
  | afterMin {locking status : Bool} {m : MinPc} : UserMove (.isMin locking m) (afterTry locking status)
  | newLatch : UserMove .newLatch .awaitLatch
  | awaitLatch {k : ℕ} : UserMove .awaitLatch (.parked k)
  | unpark {k : ℕ} : UserMove (.parked k) (.idle none)
  | unlock {pc : UserPc} : pc = .unlockDelete ∨ pc = .idle none → UserMove .unlockExists pc
  | deleted : UserMove .unlockDelete (.idle none)

/-- **How a user thread goes on.** -/
theorem UserEffect.move {F : ZkFleet ι τ} {w w' : ZkWorld ι τ} {t : τ} {r : Reply} (h : UserEffect F w t r w') :
    UserMove (w.user t) (w'.user t) := by
  have hgoto : ∀ {pc pc' : UserPc}, w.user t = pc → (w.goto t pc').user t = w'.user t → UserMove pc pc' →
      UserMove (w.user t) (w'.user t) := by
    intro pc pc' hu hw' hmove
    rw [hu, ← hw', goto_user]
    exact hmove
  cases h with
  | root _ hu _ hpc =>
    have hpc' := hpc.imp_right (Or.imp_right And.right)
    exact hgoto rfl rfl (.root hu hpc')
  | created hu _ => exact hgoto hu rfl .created
  | createFailed hu _ => exact hgoto hu rfl .notCreated
  | createLost hu _ _ => exact hgoto hu rfl .notCreated
  | assignSelf hu => exact hgoto hu rfl .assignSelf
  | @isMin r locking m zk st result hu _ =>
    cases result with
    | goto m' => exact hgoto hu rfl .isMin
    | granted self => exact hgoto hu rfl .afterMin
    | refused => exact hgoto hu rfl .afterMin
    | threw => exact hgoto hu rfl .afterMin
  | newLatch hu => exact hgoto hu rfl .newLatch
  | awaitLatch hu _ => exact hgoto hu rfl .awaitLatch
  | unpark hu => exact hgoto hu rfl .unpark
  | unlock hu hpc => exact hgoto hu rfl (.unlock hpc)
  | deleted hu _ => exact hgoto hu rfl .deleted
  | deleteFailed hu => exact hgoto hu rfl .deleted

/-- What a step can do to the directory. -/
inductive DirEffect (F : ZkFleet ι τ) (w : ZkWorld ι τ) (l : ZkLabel ι τ) : ZooKeeper ι → Prop
  | same : DirEffect F w l w.zk
  | createRoot : DirEffect F w l w.zk.createRoot
  | create {seq : ℕ} : Creatable w.zk (l.session F) (F.name (l.session F)) seq →
      DirEffect F w l (w.zk.create (l.session F) (F.name (l.session F)) seq)
  | watch {path : String} : (w.lock (l.session F)).waitPath = some path →
      DirEffect F w l (w.zk.watch (l.session F) (childName path))
  | pop : DirEffect F w l (w.zk.pop (l.session F))
  | delete {t : τ} {self : String} : l.thread = some t → w.user t = .unlockDelete →
      (w.lock (l.session F)).selfPath = some self → DirEffect F w l (w.zk.delete (childName self))
  | expire : DirEffect F w l (w.zk.expire (l.session F))

omit [DecidableEq τ] in
theorem MinEffect.dir {F : ZkFleet ι τ} {w : ZkWorld ι τ} {l : ZkLabel ι τ} {m : MinPc} {r : Reply}
    {zk : ZooKeeper ι} {st : DistributedLock} {result : MinResult}
    (h : MinEffect w.zk (l.session F) (w.lock (l.session F)) m r zk st result) : DirEffect F w l zk := by
  cases h with
  | watched hwait => exact .watch hwait
  | _ => exact .same

/-- **What a step can do to the directory.** -/
theorem zkStep_dir {F : ZkFleet ι τ} {w w' : ZkWorld ι τ} {l : ZkLabel ι τ} (h : zkStep F w l = some w') :
    DirEffect F w l w'.zk := by
  cases zkStep_effect h with
  | lock _ => exact .same
  | tryLock _ => exact .same
  | unlock _ => exact .same
  | @user t r _ hu =>
    cases hu with
    | root _ _ hzk _ =>
      rcases hzk with rfl | rfl
      · exact .same
      · exact .createRoot
    | created _ hc => exact DirEffect.create (l := .user t _) hc
    | createLost _ _ hc => exact DirEffect.create (l := .user t _) hc
    | isMin _ hmin => exact MinEffect.dir (l := .user t _) hmin
    | deleted hu hself => exact DirEffect.delete (l := .user t _) rfl hu hself
    | _ => exact .same
  | @event i r _ he =>
    cases he with
    | isMin _ hmin => exact MinEffect.dir (l := .event i _) hmin
    | _ => exact DirEffect.pop (l := .event i _)
  | @expire i => exact DirEffect.expire (l := .expire i)

end StudyTech
