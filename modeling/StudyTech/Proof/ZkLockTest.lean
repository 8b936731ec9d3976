import Mathlib.Data.Finset.Card
import Mathlib.Data.Fintype.Card
import StudyTech.Proof.ZkOwner
import StudyTech.Spec.ZkLockTest

/-!
# The test of the ZooKeeper lock loses no addition

Each task has a lock of its own and locks it once, so the latch that an event thread counts down
is always that of the call that waits (`TestInv.ownerSafe`): the tasks meet the conditions under
which `lock` returns to the owner. So a task that is between `lock` and `unlock` is alone there,
what it read is what `sum` is when it writes, and `sum` counts the additions
(`lockTest_sum`). Calls of ZooKeeper may fail at any step.
-/

namespace StudyTech

open Lib

variable {ι τ : Type} [DecidableEq ι] [DecidableEq τ]

section Steps

variable {F : ZkFleet ι τ} {w w' : ZkWorld ι τ} {s s' : CallWorld ι τ} {l : ZkLabel ι τ} {i : ι}

/-- An instance is past `lock` from the step on which `lock` returns, and until `unlock` is called. -/
theorem callStep_past_eq (h : callStep F s l = some s') : s'.past = match l with
    | .user t _ => if Returns s.world s'.world t then Function.update s.past (F.inst t) true else s.past
    | .unlock t => Function.update s.past (F.inst t) false
    | _ => s.past := by
  obtain ⟨w', -, rfl⟩ := Option.map_eq_some_iff.1 h
  cases l with
  | user t r =>
    by_cases hreturns : Returns s.world w' t
    · simp only [if_pos hreturns]
    · by_cases hfalse : w'.user t = .idle (some false)
      · simp only [if_neg hreturns, if_pos hfalse]
      · simp only [if_neg hreturns, if_neg hfalse]
  | _ => rfl

/-- Sessions expire by themselves. -/
theorem zkStep_expired (hs : zkStep F w l = some w') (hl : l ≠ .expire i) (hexpired : w'.zk.expired i = true) :
    w.zk.expired i = true := by
  have hmin : ∀ {st st' : DistributedLock} {j : ι} {m : MinPc} {r : Reply} {zk : ZooKeeper ι} {result : MinResult},
      MinEffect w.zk j st m r zk st' result → zk.expired = w.zk.expired := by
    intro st st' j m r zk result hmin
    cases hmin with
    | watched _ => exact (ZooKeeper.watch_sessions ..).2.1
    | _ => rfl
  cases zkStep_effect hs with
  | user hu =>
    cases hu with
    | root _ _ hzk _ =>
      rcases hzk with rfl | rfl
      · exact hexpired
      · exact hexpired
    | isMin _ he =>
      rw [← hmin he]
      exact hexpired
    | _ => exact hexpired
  | event he =>
    cases he with
    | isMin _ he =>
      rw [← hmin he]
      exact hexpired
    | _ => exact hexpired
  | @expire j =>
    have hne : i ≠ j := by
      rintro rfl
      exact hl rfl
    exact (Function.update_of_ne hne ..).symm.trans hexpired
  | _ => exact hexpired

theorem zkStep_call {t : τ} (hs : zkStep F w (.lock t) = some w') : w'.user t = .rootExists true := by
  cases zkStep_effect hs with
  | lock _ => exact Function.update_self ..

/-- The node for which the event thread is about to count a latch down. -/
def DistributedLock.eventCounting (st : DistributedLock) : Option String := st.event.bind MinPc.counting

omit [DecidableEq τ] in
/-- A step of `isMinPath` leaves `selfPath` and what the event thread does. -/
theorem minEffect_self {zk zk' : ZooKeeper ι} {st st' : DistributedLock} {m : MinPc} {r : Reply} {result : MinResult}
    (h : MinEffect zk i st m r zk' st' result) : st'.selfPath = st.selfPath ∧ st'.event = st.event := by
  cases h <;> exact ⟨rfl, rfl⟩

omit [DecidableEq τ] in
/-- What a step of `isMinPath` is about to count down for is what it was about to count down for, or
`selfPath`. -/
theorem minEffect_counting {zk zk' : ZooKeeper ι} {st st' : DistributedLock} {m m' : MinPc} {r : Reply}
    (h : MinEffect zk i st m r zk' st' (.goto m')) {self : String} (hself : m'.counting = some self) :
    m.counting = some self ∨ st.selfPath = some self := by
  cases h with
  | first hs _ =>
    cases hself
    exact .inr hs
  | hasLatch _ => exact .inl hself
  | failed _ _ hres =>
    rcases hres with hres | hres
    · cases hres
    · cases hres
      cases hself
  | _ => cases hself

/-- `selfPath` is written by `assignSelf` only. -/
theorem zkStep_selfPath (hs : zkStep F w l = some w') (i : ι) :
    (w'.lock i).selfPath = (w.lock i).selfPath ∨ ∃ t r locking path, l = .user t r ∧ F.inst t = i ∧
      w.user t = .assignSelf locking path ∧ (w'.lock i).selfPath = some path := by
  by_cases hi : i = l.session F
  · subst hi
    cases zkStep_effect hs with
    | @user t r _ hu =>
      cases hu with
      | @assignSelf locking path hpc =>
        refine .inr ⟨t, .silent, locking, path, rfl, rfl, hpc, ?_⟩
        exact congrArg DistributedLock.selfPath (setLock_lock w (F.inst t) _)
      | @isMin _ locking m zk st result hpc he =>
        refine .inl ?_
        show (((w.setLock (F.inst t) st).userMin t locking result).lock (F.inst t)).selfPath = _
        rw [(userMin_eq _ _ locking result).1, setLock_lock, (minEffect_self he).1]
        rfl
      | newLatch _ =>
        have hself := congrArg DistributedLock.selfPath (setLock_lock w (F.inst t) { w.lock (F.inst t) with
          latch := some (w.lock (F.inst t)).counts.length
          counts := (w.lock (F.inst t)).counts ++ [1] })
        exact .inl hself
      | _ => exact .inl rfl
    | event he => exact .inl (eventEffect_lock he).1
    | _ => exact .inl rfl
  · exact .inl (by rw [zkStep_lock_other hs hi])

/-- The event thread counts a latch down for what `selfPath` was when it read it. -/
theorem zkStep_eventCounting (hs : zkStep F w l = some w') {self : String}
    (hself : (w'.lock i).eventCounting = some self) :
    (w.lock i).eventCounting = some self ∨ (w.lock i).selfPath = some self := by
  by_cases hi : i = l.session F
  · subst hi
    have hset : ∀ {d : DistributedLock}, w'.lock (l.session F) = d → d.event = (w.lock (l.session F)).event →
        (w.lock (l.session F)).eventCounting = some self := by
      intro d hlock hevent
      unfold DistributedLock.eventCounting at hself ⊢
      rwa [hlock, hevent] at hself
    cases zkStep_effect hs with
    | @user t r _ hu =>
      cases hu with
      | assignSelf _ => exact .inl (hset (Function.update_self ..) rfl)
      | @isMin _ locking m zk st result _ he =>
        refine .inl (hset (d := st) ?_ (minEffect_self he).2)
        show ((w.setLock (F.inst t) st).userMin t locking result).lock (F.inst t) = st
        rw [(userMin_eq _ _ locking result).1, setLock_lock]
      | newLatch _ => exact .inl (hset (Function.update_self ..) rfl)
      | _ => exact .inl (hset rfl rfl)
    | @event j r _ he =>
      cases he with
      | ignore _ _ _ =>
        have hnone : (Function.update w.lock j { w.lock j with event := none } j).eventCounting = some self := hself
        rw [Function.update_self] at hnone
        cases hnone
      | process _ _ _ =>
        have hread : (Function.update w.lock j { w.lock j with event := some .getChildren } j).eventCounting =
            some self := hself
        rw [Function.update_self] at hread
        cases hread
      | @isMin _ m zk st result hev he =>
        have hnext : ((w.eventMin j st result).lock j).eventCounting = some self := hself
        rw [(eventMin_eq w j st result).2, Function.update_self] at hnext
        cases result with
        | goto m' =>
          rcases minEffect_counting he hnext with hold | hold
          · refine .inl ?_
            show (w.lock j).event.bind MinPc.counting = some self
            rw [hev]
            exact hold
          · exact .inr hold
        | _ => cases hnext
    | _ => exact .inl hself
  · rw [zkStep_lock_other hs hi] at hself
    exact .inl hself

omit [DecidableEq ι] [DecidableEq τ] in
/-- A thread in `lock` stays there, or `lock` returns. -/
theorem UserMove.stays {pc pc' : UserPc} (h : UserMove pc pc') (hin : pc.inLock = true) :
    pc'.inLock = true ∨ pc' = .idle none := by
  have hafter : ∀ status, (afterTry true status).inLock = true ∨ afterTry true status = .idle none := by
    intro status
    cases status
    · exact .inl rfl
    · exact .inr rfl
  cases h with
  | @root locking _ _ hpc hpc' =>
    obtain rfl : locking = true := by rcases hpc with rfl | rfl <;> exact hin
    rcases hpc' with rfl | rfl | rfl
    · exact .inl rfl
    · exact .inl rfl
    · exact hafter false
  | @notCreated locking =>
    obtain rfl : locking = true := hin
    exact hafter false
  | @afterMin locking status m =>
    obtain rfl : locking = true := hin
    exact hafter status
  | unpark => exact .inr rfl
  | unlock _ => cases hin
  | deleted => cases hin
  | created => exact .inl hin
  | assignSelf => exact .inl hin
  | isMin => exact .inl hin
  | newLatch => exact .inl rfl
  | awaitLatch => exact .inl rfl

omit [DecidableEq ι] [DecidableEq τ] in
/-- A thread in `unlock` stays there, or `unlock` returns. -/
theorem UserMove.unlocks {pc pc' : UserPc} (h : UserMove pc pc') (hu : pc.unlocking = true) :
    pc'.unlocking = true ∨ pc' = .idle none := by
  cases h with
  | root hpc _ => rcases hpc with rfl | rfl <;> cases hu
  | unlock hpc =>
    rcases hpc with rfl | rfl
    · exact .inl rfl
    · exact .inr rfl
  | deleted => exact .inr rfl
  | _ => cases hu

/-- The call has not written `selfPath` yet. -/
def UserPc.unassigned : UserPc → Bool
  | .rootExists _ => true
  | .rootCreate _ => true
  | .create _ => true
  | .assignSelf _ _ => true
  | _ => false

/-- The thread is about to write `selfPath`. -/
def UserPc.assigning : UserPc → Bool
  | .assignSelf _ _ => true
  | _ => false

omit [DecidableEq ι] [DecidableEq τ] in
theorem UserMove.unassigned {pc pc' : UserPc} (h : UserMove pc pc') (hb : pc'.unassigned = true) :
    pc.unassigned = true ∧ pc.assigning = false := by
  have hafter : ∀ locking status, (afterTry locking status).unassigned = false := by
    intro locking status
    cases locking <;> cases status <;> rfl
  cases h with
  | root hpc _ => rcases hpc with rfl | rfl <;> exact ⟨rfl, rfl⟩
  | created => exact ⟨rfl, rfl⟩
  | notCreated => exact ⟨rfl, rfl⟩
  | afterMin => rw [hafter] at hb; cases hb
  | unlock hpc => rcases hpc with rfl | rfl <;> cases hb
  | _ => cases hb

end Steps

/-- Where the thread of a task is. -/
def TaskPc.Place : TaskPc → UserPc → Prop
  | .submitted, u => u = .idle none
  | .locking, u => u.inLock = true
  | .unlocking, u => u.unlocking = true
  | _, u => u = .idle none

/-- Waiting threads are not interrupted, and no session expires before its task has added. -/
def TestSafe (w : TestWorld ι) : TestLabel ι → Prop
  | .user i r => (w.calls.world.user i).waits = true → ¬ r.Failed
  | .expire i => (w.task i).added = true
  | _ => True

/-- The path that a task locks: it has none before `assignSelf`, then that of the child of its call, for
which the event thread counts down. -/
structure PathInv (s : CallWorld ι ι) (i : ι) (pc : TaskPc) : Prop where
  unset : pc = .submitted ∨ (s.world.user i).unassigned = true → (s.world.lock i).selfPath = none
  node : ∀ path, (s.world.lock i).selfPath = some path → (s.node i).map childPath = some path
  event : ∀ self, (s.world.lock i).eventCounting = some self → (s.world.lock i).selfPath = some self

/-- The invariant of the runs along `TestSafe`, but for the sum. -/
structure TestInv (name : String) (w : TestWorld ι) : Prop where
  owner : OwnerInv (testFleet ι name) w.calls
  place : ∀ i, (w.task i).Place (w.calls.world.user i)
  past : ∀ i, w.calls.past i = (w.task i).inside
  live : ∀ i, (w.task i).added = false → w.calls.world.zk.expired i = false
  path : ∀ i, PathInv w.calls i (w.task i)

omit [DecidableEq ι] in
theorem testInv_init (name : String) : TestInv name (.init ι) := by
  refine ⟨ownerInv_init _, fun i => rfl, fun i => rfl, fun i _ => rfl, fun i => ⟨fun _ => rfl, ?_, ?_⟩⟩
  · intro path h
    cases h
  · intro self h
    cases h

variable {name : String} {w w' : TestWorld ι} {s' : CallWorld ι ι}

omit [DecidableEq ι] in
/-- Two tasks are not inside at once. -/
theorem TestInv.alone (h : TestInv name w) {i j : ι} (hi : (w.task i).inside = true)
    (hj : (w.task j).inside = true) : i = j := by
  have hlive : ∀ k, (w.task k).inside = true → w.calls.world.zk.expired k = false := by
    intro k hk
    refine h.live k ?_
    cases hpc : w.task k with
    | unlocking => rw [hpc] at hk; cases hk
    | done => rw [hpc] at hk; cases hk
    | _ => rfl
  have hpast : ∀ k, (w.task k).inside = true → w.calls.past k = true := fun k hk => (h.past k).trans hk
  exact holds_unique h.owner.call.grant (h.owner.held i (hpast i hi)) (h.owner.held j (hpast j hj)) rfl
    (hlive i hi) (hlive j hj)

/-- A step of the locks that the tasks can make: `lock` is called by a task that was submitted. -/
def TestWorld.Makes (w : TestWorld ι) : ZkLabel ι ι → Prop
  | .lock i => w.task i = .submitted
  | .tryLock _ => False
  | _ => True

/-- A call that has not written `selfPath` had not before the step, which does not write it. -/
theorem TestInv.unset (h : TestInv name w) {l : ZkLabel ι ι} (hl : w.Makes l)
    (hs : callStep (testFleet ι name) w.calls l = some s') {i : ι}
    (hbefore : w.task i = .submitted ∨ (s'.world.user i).unassigned = true) :
    (w.calls.world.lock i).selfPath = none ∧ (l.thread = some i → (w.calls.world.user i).assigning = false) := by
  have hunset := (h.path i).unset
  have hidle : w.task i = .submitted → (w.calls.world.user i).assigning = false := by
    intro hsub
    have hplace := h.place i
    rw [hsub] at hplace
    have hidle : w.calls.world.user i = .idle none := hplace
    rw [hidle]
    rfl
  rcases hbefore with hsub | hbefore
  · exact ⟨hunset (.inl hsub), fun _ => hidle hsub⟩
  · have hzk := callStep_world hs
    by_cases ht : l.thread = some i
    · cases l with
      | lock t =>
        cases ht
        exact ⟨hunset (.inl hl), fun _ => hidle hl⟩
      | tryLock t => exact absurd hl id
      | unlock t =>
        cases ht
        rw [zkStep_unlock hzk] at hbefore
        cases hbefore
      | user t r =>
        cases ht
        cases zkStep_effect hzk with
        | user hu =>
          obtain ⟨hold, hassigning⟩ := hu.move.unassigned hbefore
          exact ⟨hunset (.inr hold), fun _ => hassigning⟩
      | event j r => cases ht
      | expire j => cases ht
    · rw [zkStep_other hzk ht] at hbefore
      exact ⟨hunset (.inr hbefore), fun h => absurd h ht⟩

/-- The child of a call that has written `selfPath` stays. -/
theorem TestInv.node_same (h : TestInv name w) {l : ZkLabel ι ι} (hl : w.Makes l)
    (hs : callStep (testFleet ι name) w.calls l = some s') {i : ι}
    (hset : (w.calls.world.lock i).selfPath ≠ none) : s'.node i = w.calls.node i := by
  have hunset := (h.path i).unset
  rw [callStep_node hs]
  by_cases ht : l.thread = some i
  · cases l with
    | lock t =>
      cases ht
      exact absurd (hunset (.inl hl)) hset
    | tryLock t => exact absurd hl id
    | user t r =>
      cases ht
      rcases nodeAfter_user (F := testFleet ι name) (s := w.calls) (t := i) r with ⟨locking, seq, hcreate, -⟩ | hsame
      · exact absurd (hunset (.inr (by rw [hcreate]; rfl))) hset
      · exact hsame
    | _ => rfl
  · exact nodeAfter_other ht

/-- **The path of a task after a step of the locks.** -/
theorem TestInv.path_step (h : TestInv name w) {l : ZkLabel ι ι} (hl : w.Makes l)
    (hs : callStep (testFleet ι name) w.calls l = some s') (i : ι) {pc : TaskPc}
    (hpc : pc = .submitted → w.task i = .submitted) : PathInv s' i pc := by
  have hzk := callStep_world hs
  have hself := zkStep_selfPath hzk i
  refine ⟨fun hbefore => ?_, fun path hpath => ?_, fun self hcount => ?_⟩
  · obtain ⟨hnone, hassigning⟩ := h.unset hl hs (hbefore.imp_left hpc)
    rcases hself with hself | ⟨t, r, locking, path, rfl, rfl, hu, -⟩
    · rw [hself, hnone]
    · have hfalse := hassigning rfl
      have htrue : (w.calls.world.user t).assigning = true := by rw [hu]; rfl
      exact absurd (htrue.symm.trans hfalse) (by decide)
  · rcases hself with hself | ⟨t, r, locking, path', rfl, rfl, hu, hnew⟩
    · rw [hself] at hpath
      rw [h.node_same hl hs (by rw [hpath]; simp)]
      exact (h.path i).node path hpath
    · -- the path is that of the child of the call
      obtain rfl : path' = path := Option.some.inj (hnew.symm.trans hpath)
      have hplace := h.owner.user t
      rw [hu] at hplace
      obtain ⟨c, hc, rfl, -⟩ := hplace
      have hsame : s'.node t = w.calls.node t :=
        StudyTech.node_same hs fun locking hcreate => by rw [hu] at hcreate; cases hcreate
      show (s'.node t).map childPath = _
      rw [hsame, hc]
      rfl
  · have hold : (w.calls.world.lock i).selfPath = some self := by
      rcases zkStep_eventCounting hzk hcount with hold | hold
      · exact (h.path i).event self hold
      · exact hold
    rcases hself with hself | ⟨t, r, locking, path, rfl, rfl, hu, -⟩
    · rw [hself, hold]
    · have hnone := (h.path t).unset (.inr (by rw [hu]; rfl))
      rw [show (testFleet ι name).inst t = t from rfl, hnone] at hold
      cases hold

omit [DecidableEq ι] in
/-- The tasks meet the conditions under which `lock` returns to the owner. -/
theorem TestInv.ownerSafe (h : TestInv name w) {l : ZkLabel ι ι} (hl : w.Makes l)
    (huser : ∀ i r, l = .user i r → (w.calls.world.user i).waits = true → ¬ r.Failed)
    (hunlock : ∀ i, l = .unlock i → w.calls.world.user i = .idle none) :
    OwnerSafe (testFleet ι name) w.calls l := by
  cases l with
  | lock i =>
    rintro i' (rfl : i' = i)
    have hplace := h.place i'
    have hsub : w.task i' = .submitted := hl
    rw [hsub] at hplace
    have hidle : w.calls.world.user i' = .idle none := hplace
    rw [hidle]
    rfl
  | tryLock i => exact absurd hl id
  | unlock i =>
    rintro i' (rfl : i' = i)
    rw [hunlock i' rfl]
    rfl
  | user i r => exact huser i r rfl
  | event i r =>
    rintro i' (rfl : i' = i) -
    cases hcount : (w.calls.world.lock i').countsDown with
    | none => rfl
    | some self =>
      -- the event thread counts down for `selfPath`, which is the path of the child of the call
      have hcounting : (w.calls.world.lock i').eventCounting = some self := by
        unfold DistributedLock.countsDown at hcount
        unfold DistributedLock.eventCounting
        split at hcount
        · rename_i hev
          cases hcount
          rw [hev]
          rfl
        · cases hcount
      have hnode := (h.path i').node self ((h.path i').event self hcounting)
      simp only [Option.all_some, hnode, decide_true]
  | expire i => trivial

/-- What a step does to the task whose thread makes it. -/
structure TaskMove (w w' : TestWorld ι) (i : ι) : Prop where
  place : (w'.task i).Place (w'.calls.world.user i)
  past : w'.calls.past i = (w'.task i).inside
  forward : (w'.task i).added = false → (w.task i).added = false
  started : w'.task i ≠ .submitted

/-- **The invariant after a step of the locks.** -/
theorem TestInv.calls_step (h : TestInv name w) {l : ZkLabel ι ι} (hl : w.Makes l)
    (hsafe : OwnerSafe (testFleet ι name) w.calls l) (hexpire : ∀ i, l = .expire i → (w.task i).added = true)
    (hs : callStep (testFleet ι name) w.calls l = some w'.calls)
    (hother : ∀ i, l.thread ≠ some i → w'.task i = w.task i) (hthread : ∀ i, l.thread = some i → TaskMove w w' i) :
    TestInv name w' := by
  have hzk := callStep_world hs
  refine ⟨ownerInv_step h.owner hsafe hs, fun i => ?_, fun i => ?_, fun i hadded => ?_, fun i => ?_⟩
  · by_cases ht : l.thread = some i
    · exact (hthread i ht).place
    · rw [hother i ht, zkStep_other hzk ht]
      exact h.place i
  · by_cases ht : l.thread = some i
    · exact (hthread i ht).past
    · rw [hother i ht, ← h.past i, callStep_past_eq hs]
      cases l with
      | user t r =>
        have hne : i ≠ t := by
          rintro rfl
          exact ht rfl
        dsimp only
        split
        · exact Function.update_of_ne hne ..
        · rfl
      | unlock t =>
        have hne : i ≠ t := by
          rintro rfl
          exact ht rfl
        exact Function.update_of_ne hne ..
      | _ => rfl
  · have hbefore : (w.task i).added = false := by
      by_cases ht : l.thread = some i
      · exact (hthread i ht).forward hadded
      · rwa [hother i ht] at hadded
    have hl' : l ≠ .expire i := by
      rintro rfl
      exact Bool.false_ne_true (hbefore.symm.trans (hexpire i rfl))
    -- had the session expired, it had before the step
    cases hexpired : w'.calls.world.zk.expired i with
    | false => rfl
    | true =>
      have hnow := zkStep_expired hzk hl' hexpired
      exact absurd ((h.live i hbefore).symm.trans hnow) Bool.false_ne_true
  · refine h.path_step hl hs i fun hsub => ?_
    by_cases ht : l.thread = some i
    · exact absurd hsub (hthread i ht).started
    · rwa [hother i ht] at hsub

variable {l : TestLabel ι}

/-- What a step is. -/
inductive TestEffect (name : String) (w : TestWorld ι) : TestLabel ι → TestWorld ι → Prop
  | start {i calls} (hpc : w.task i = .submitted) (hs : callStep (testFleet ι name) w.calls (.lock i) = some calls) :
    TestEffect name w (.start i) (w.goto i .locking calls)
  | lock {i r calls} (hpc : w.task i = .locking)
    (hs : callStep (testFleet ι name) w.calls (.user i r) = some calls) :
    TestEffect name w (.user i r)
      (w.goto i (if calls.world.user i = .idle none then .read else .locking) calls)
  | unlock {i r calls} (hpc : w.task i = .unlocking)
    (hs : callStep (testFleet ι name) w.calls (.user i r) = some calls) :
    TestEffect name w (.user i r)
      (w.goto i (if calls.world.user i = .idle none then .done else .unlocking) calls)
  | read {i} (hpc : w.task i = .read) : TestEffect name w (.body i) (w.goto i (.write w.sum) w.calls)
  | write {i value calls} (hpc : w.task i = .write value)
    (hs : callStep (testFleet ι name) w.calls (.unlock i) = some calls) :
    TestEffect name w (.body i) { w.goto i .unlocking calls with sum := toInt (value + 1) }
  | event {i r calls} (hs : callStep (testFleet ι name) w.calls (.event i r) = some calls) :
    TestEffect name w (.event i r) { w with calls := calls }
  | expire {i calls} (hs : callStep (testFleet ι name) w.calls (.expire i) = some calls) :
    TestEffect name w (.expire i) { w with calls := calls }

theorem testStep_effect (hs : testStep name w l = some w') : TestEffect name w l w' := by
  cases l with
  | start i =>
    cases hpc : w.task i with
    | submitted =>
      simp only [testStep, hpc] at hs
      obtain ⟨calls, hcalls, rfl⟩ := Option.map_eq_some_iff.1 hs
      exact .start hpc hcalls
    | _ => simp only [testStep, hpc, reduceCtorEq] at hs
  | user i r =>
    cases hpc : w.task i with
    | locking =>
      simp only [testStep, hpc] at hs
      obtain ⟨calls, hcalls, rfl⟩ := Option.map_eq_some_iff.1 hs
      exact .lock hpc hcalls
    | unlocking =>
      simp only [testStep, hpc] at hs
      obtain ⟨calls, hcalls, rfl⟩ := Option.map_eq_some_iff.1 hs
      exact .unlock hpc hcalls
    | _ => simp only [testStep, hpc, reduceCtorEq] at hs
  | body i =>
    cases hpc : w.task i with
    | read =>
      simp only [testStep, hpc, Option.some.injEq] at hs
      subst hs
      exact .read hpc
    | write value =>
      simp only [testStep, hpc] at hs
      obtain ⟨calls, hcalls, rfl⟩ := Option.map_eq_some_iff.1 hs
      exact .write hpc hcalls
    | _ => simp only [testStep, hpc, reduceCtorEq] at hs
  | event i r =>
    simp only [testStep] at hs
    obtain ⟨calls, hcalls, rfl⟩ := Option.map_eq_some_iff.1 hs
    exact .event hcalls
  | expire i =>
    simp only [testStep] at hs
    obtain ⟨calls, hcalls, rfl⟩ := Option.map_eq_some_iff.1 hs
    exact .expire hcalls

/-- Another task goes on where it is. -/
theorem goto_task_other {i j : ι} {pc : TaskPc} (h : some i ≠ some j) : (w.goto i pc s').task j = w.task j :=
  Function.update_of_ne (fun heq => h (congrArg some heq.symm)) ..

theorem goto_task_self (w : TestWorld ι) (i : ι) (pc : TaskPc) (calls : CallWorld ι ι) :
    (w.goto i pc calls).task i = pc := Function.update_self ..

omit [DecidableEq ι] in
/-- A task inside goes on inside, and the locks stay. -/
theorem TestInv.calls_eq (h : TestInv name w) (hcalls : w'.calls = w.calls)
    (htask : ∀ i, w'.task i = w.task i ∨ (w.task i = .read ∧ ∃ value, w'.task i = .write value)) :
    TestInv name w' := by
  refine ⟨hcalls ▸ h.owner, fun i => ?_, fun i => ?_, fun i hadded => ?_, fun i => ?_⟩
  · have hplace := h.place i
    rcases htask i with heq | ⟨hpc, value, heq⟩
    · rwa [heq, hcalls]
    · rw [hpc] at hplace
      rw [heq, hcalls]
      exact hplace
  · have hpast := h.past i
    rcases htask i with heq | ⟨hpc, value, heq⟩
    · rwa [heq, hcalls]
    · rw [hpc] at hpast
      rw [heq, hcalls]
      exact hpast
  · have hlive := h.live i
    rcases htask i with heq | ⟨hpc, value, heq⟩
    · rw [hcalls]
      exact hlive (by rwa [heq] at hadded)
    · rw [hcalls]
      exact hlive (by rw [hpc]; rfl)
  · obtain ⟨hunset, hnode, hevent⟩ := h.path i
    rw [hcalls]
    refine ⟨fun hbefore => hunset (hbefore.imp_left fun hsub => ?_), hnode, hevent⟩
    rcases htask i with heq | ⟨hpc, value, heq⟩
    · rwa [heq] at hsub
    · rw [heq] at hsub
      cases hsub

section Steps

variable {i : ι} {r : Reply} {calls : CallWorld ι ι}

/-- The executor starts a task, which calls `lock`. -/
theorem TestInv.start (h : TestInv name w) (hpc : w.task i = .submitted)
    (hcalls : callStep (testFleet ι name) w.calls (.lock i) = some calls) : TestInv name (w.goto i .locking calls) := by
  have hzk := callStep_world hcalls
  refine h.calls_step (l := .lock i) hpc (h.ownerSafe hpc nofun nofun) nofun hcalls (fun j => goto_task_other) ?_
  rintro j ⟨⟩
  have hpast := h.past i
  rw [hpc] at hpast
  refine ⟨?_, ?_, fun _ => by rw [hpc]; rfl, ?_⟩
  · rw [goto_task_self]
    show (calls.world.user i).inLock = true
    rw [zkStep_call hzk]
    rfl
  · rw [goto_task_self]
    show calls.past i = false
    rw [callStep_past_eq hcalls]
    exact hpast
  · rw [goto_task_self]
    exact TaskPc.noConfusion

/-- A step in `lock`: the task is inside when it returns. -/
theorem TestInv.lock (h : TestInv name w) (hpc : w.task i = .locking) (hok : TestSafe w (.user i r))
    (hcalls : callStep (testFleet ι name) w.calls (.user i r) = some calls) :
    TestInv name (w.goto i (if calls.world.user i = .idle none then .read else .locking) calls) := by
  have hzk := callStep_world hcalls
  have hplace := h.place i
  rw [hpc] at hplace
  have hin : (w.calls.world.user i).inLock = true := hplace
  have hpast := h.past i
  rw [hpc] at hpast
  have hnext : (calls.world.user i).inLock = true ∨ calls.world.user i = .idle none := by
    cases zkStep_effect hzk with
    | user hu => exact hu.move.stays hin
  refine h.calls_step (l := .user i r) trivial (h.ownerSafe trivial ?_ nofun) nofun hcalls
    (fun j => goto_task_other) ?_
  · rintro j r' ⟨⟩
    exact hok
  · rintro j ⟨⟩
    have hret : Returns w.calls.world calls.world i ↔ calls.world.user i = .idle none := and_iff_right hin
    refine ⟨?_, ?_, fun _ => by rw [hpc]; rfl, ?_⟩
    · rw [goto_task_self]
      show TaskPc.Place _ (calls.world.user i)
      split
      · next hidle => exact hidle
      · next hidle => exact hnext.resolve_right hidle
    · rw [goto_task_self]
      show calls.past i = _
      rw [callStep_past_eq hcalls]
      dsimp only
      by_cases hidle : calls.world.user i = .idle none
      · rw [if_pos (hret.2 hidle), if_pos hidle]
        exact Function.update_self ..
      · rw [if_neg (fun hret' => hidle (hret.1 hret')), if_neg hidle]
        exact hpast
    · rw [goto_task_self]
      split
      · exact TaskPc.noConfusion
      · exact TaskPc.noConfusion

/-- A step in `unlock`: the task is done when it returns. -/
theorem TestInv.unlock (h : TestInv name w) (hpc : w.task i = .unlocking) (hok : TestSafe w (.user i r))
    (hcalls : callStep (testFleet ι name) w.calls (.user i r) = some calls) :
    TestInv name (w.goto i (if calls.world.user i = .idle none then .done else .unlocking) calls) := by
  have hzk := callStep_world hcalls
  have hplace := h.place i
  rw [hpc] at hplace
  have hunlocking : (w.calls.world.user i).unlocking = true := hplace
  have hpast := h.past i
  rw [hpc] at hpast
  have hnext : (calls.world.user i).unlocking = true ∨ calls.world.user i = .idle none := by
    cases zkStep_effect hzk with
    | user hu => exact hu.move.unlocks hunlocking
  have hret : ¬ Returns w.calls.world calls.world i := by
    rintro ⟨hin, -⟩
    cases hu : w.calls.world.user i with
    | unlockExists => rw [hu] at hin; cases hin
    | unlockDelete => rw [hu] at hin; cases hin
    | _ => rw [hu] at hunlocking; cases hunlocking
  refine h.calls_step (l := .user i r) trivial (h.ownerSafe trivial ?_ nofun) nofun hcalls
    (fun j => goto_task_other) ?_
  · rintro j r' ⟨⟩
    exact hok
  · rintro j ⟨⟩
    refine ⟨?_, ?_, ?_, ?_⟩
    · rw [goto_task_self]
      show TaskPc.Place _ (calls.world.user i)
      split
      · next hidle => exact hidle
      · next hidle => exact hnext.resolve_right hidle
    · rw [goto_task_self]
      show calls.past i = _
      rw [callStep_past_eq hcalls]
      dsimp only
      rw [if_neg hret]
      split
      · exact hpast
      · exact hpast
    · rw [goto_task_self]
      intro hadded
      split at hadded
      · cases hadded
      · cases hadded
    · rw [goto_task_self]
      split
      · exact TaskPc.noConfusion
      · exact TaskPc.noConfusion

/-- A task writes, and calls `unlock`. -/
theorem TestInv.write (h : TestInv name w) {value : ℤ} (hpc : w.task i = .write value)
    (hcalls : callStep (testFleet ι name) w.calls (.unlock i) = some calls) :
    TestInv name { w.goto i .unlocking calls with sum := toInt (value + 1) } := by
  have hzk := callStep_world hcalls
  have hplace := h.place i
  rw [hpc] at hplace
  have hidle : w.calls.world.user i = .idle none := hplace
  refine h.calls_step (l := .unlock i) trivial (h.ownerSafe trivial nofun ?_) nofun hcalls
    (fun j hj => @goto_task_other ι _ w calls i j _ hj) ?_
  · rintro j ⟨⟩
    exact hidle
  · rintro j ⟨⟩
    refine ⟨?_, ?_, fun _ => by rw [hpc]; rfl, ?_⟩
    · show (Function.update w.task i .unlocking i).Place (calls.world.user i)
      rw [Function.update_self, zkStep_unlock hzk]
      rfl
    · show calls.past i = (Function.update w.task i .unlocking i).inside
      rw [Function.update_self, callStep_past_eq hcalls]
      exact Function.update_self ..
    · show Function.update w.task i .unlocking i ≠ .submitted
      rw [Function.update_self]
      exact TaskPc.noConfusion

/-- **One step.** -/
theorem testInv_step (h : TestInv name w) (hok : TestSafe w l) (hs : testStep name w l = some w') :
    TestInv name w' := by
  cases testStep_effect hs with
  | start hpc hcalls => exact h.start hpc hcalls
  | lock hpc hcalls => exact h.lock hpc hok hcalls
  | unlock hpc hcalls => exact h.unlock hpc hok hcalls
  | @read i hpc =>
    refine h.calls_eq rfl fun j => ?_
    by_cases hj : j = i
    · subst hj
      exact .inr ⟨hpc, w.sum, goto_task_self ..⟩
    · exact .inl (Function.update_of_ne hj ..)
  | write hpc hcalls => exact h.write hpc hcalls
  | @event i r calls hcalls =>
    exact h.calls_step (l := .event i r) trivial (h.ownerSafe trivial nofun nofun) nofun hcalls (fun _ _ => rfl) nofun
  | @expire i calls hcalls =>
    refine h.calls_step (l := .expire i) trivial trivial ?_ hcalls (fun _ _ => rfl) nofun
    rintro j ⟨⟩
    exact hok

end Steps

section Sum

variable [Fintype ι]

/-- `sum` counts the additions, and a task that is about to write has read what `sum` is. -/
structure SumInv (w : TestWorld ι) : Prop where
  sum : w.sum = toInt ((Finset.univ.filter fun i => (w.task i).added = true).card : ℕ)
  value : ∀ i value, w.task i = .write value → value = w.sum

omit [DecidableEq ι] in
theorem sumInv_init : SumInv (TestWorld.init ι) := by
  refine ⟨?_, ?_⟩
  · have hnone : (Finset.univ.filter fun i : ι => (TaskPc.submitted).added = true) = ∅ :=
      Finset.filter_false_of_mem fun _ _ => Bool.false_ne_true
    show 0 = toInt ((Finset.univ.filter fun i : ι => (TaskPc.submitted).added = true).card : ℕ)
    rw [hnone, Finset.card_empty]
    rfl
  · intro i value h
    cases h

omit [DecidableEq ι] in
/-- A step that adds nothing. -/
theorem SumInv.same (h : SumInv w) (hsum : w'.sum = w.sum)
    (hadded : ∀ i, (w'.task i).added = (w.task i).added)
    (hvalue : ∀ i value, w'.task i = .write value → w.task i = .write value ∨ value = w.sum) : SumInv w' := by
  refine ⟨?_, fun i value hpc => ?_⟩
  · simp only [hsum, hadded]
    exact h.sum
  · rw [hsum]
    rcases hvalue i value hpc with hold | hnew
    · exact h.value i value hold
    · exact hnew

omit [Fintype ι] in
/-- What a task was is what it is, but for the one that goes on. -/
theorem goto_added {i : ι} {pc : TaskPc} (h : pc.added = (w.task i).added) (j : ι) :
    ((w.goto i pc s').task j).added = (w.task j).added := by
  by_cases hj : j = i
  · subst hj
    rw [goto_task_self, h]
  · rw [goto_task_other fun heq => hj (Option.some.inj heq).symm]

omit [Fintype ι] in
theorem goto_value {i j : ι} {pc : TaskPc} {value : ℤ} (hpc : pc = .write value → value = w.sum)
    (h : (w.goto i pc s').task j = .write value) : w.task j = .write value ∨ value = w.sum := by
  by_cases hj : j = i
  · subst hj
    rw [goto_task_self] at h
    exact .inr (hpc h)
  · rw [goto_task_other fun heq => hj (Option.some.inj heq).symm] at h
    exact .inl h

/-- **One step.** The task that writes is alone, so nobody has written since it read. -/
theorem sumInv_step (h : TestInv name w) (hsum : SumInv w) (hs : testStep name w l = some w') : SumInv w' := by
  cases testStep_effect hs with
  | start hpc _ =>
    exact hsum.same rfl (goto_added (by rw [hpc]; rfl)) fun _ _ => goto_value TaskPc.noConfusion
  | lock hpc _ =>
    refine hsum.same rfl (goto_added ?_) fun _ _ => goto_value fun hwrite => ?_
    · rw [hpc]
      split <;> rfl
    · split at hwrite <;> cases hwrite
  | unlock hpc _ =>
    refine hsum.same rfl (goto_added ?_) fun _ _ => goto_value fun hwrite => ?_
    · rw [hpc]
      split <;> rfl
    · split at hwrite <;> cases hwrite
  | read hpc =>
    refine hsum.same rfl (goto_added (by rw [hpc]; rfl)) fun _ _ => goto_value fun hwrite => ?_
    cases hwrite
    rfl
  | @write i value calls hpc _ =>
    have hread := hsum.value i value hpc
    refine ⟨?_, fun j value' hpc' => ?_⟩
    · -- the task is the one addition more
      have hnot : i ∉ Finset.univ.filter fun j => (w.task j).added = true := by
        intro hmem
        have hadded := (Finset.mem_filter.1 hmem).2
        rw [hpc] at hadded
        cases hadded
      have hmore : (Finset.univ.filter fun j => (Function.update w.task i .unlocking j).added = true) =
          insert i (Finset.univ.filter fun j => (w.task j).added = true) := by
        ext j
        rw [Finset.mem_insert, Finset.mem_filter, Finset.mem_filter]
        by_cases hj : j = i
        · subst hj
          rw [Function.update_self]
          exact ⟨fun _ => .inl rfl, fun _ => ⟨Finset.mem_univ _, rfl⟩⟩
        · rw [Function.update_of_ne hj, or_iff_right hj]
      show toInt (value + 1) =
        toInt ((Finset.univ.filter fun j => (Function.update w.task i .unlocking j).added = true).card : ℕ)
      rw [hmore, Finset.card_insert_of_notMem hnot, hread, hsum.sum, toInt_toInt_add]
      push_cast
      rfl
    · by_cases hj : j = i
      · subst hj
        have hself : (Function.update w.task j .unlocking j) = .write value' := hpc'
        rw [Function.update_self] at hself
        cases hself
      · have hother : (Function.update w.task i .unlocking j) = .write value' := hpc'
        rw [Function.update_of_ne hj] at hother
        exact absurd (h.alone (by rw [hother]; rfl) (by rw [hpc]; rfl)) hj
  | event _ => exact hsum.same rfl (fun _ => rfl) fun _ _ => .inl
  | expire _ => exact hsum.same rfl (fun _ => rfl) fun _ _ => .inl

/-- **No addition is lost.** Along `TestSafe`, whatever calls of ZooKeeper fail: one task at most is between
`lock` and `unlock`, `sum` is the number of the tasks that have added, and so that of all tasks when all
are done. -/
theorem lockTest_sum (name : String) {ls : List (TestLabel ι)}
    (hrun : exec (testStep name) (.init ι) ls = some w) (hok : Along (testStep name) TestSafe (.init ι) ls) :
    (∀ i j, (w.task i).inside = true → (w.task j).inside = true → i = j) ∧
    w.sum = toInt ((Finset.univ.filter fun i => (w.task i).added = true).card : ℕ) ∧
      ((∀ i, w.task i = .done) → w.sum = toInt (Fintype.card ι : ℕ)) := by
  have hinv : TestInv name w ∧ SumInv w := by
    refine inv_of_along (I := fun w => TestInv name w ∧ SumInv w) ?_ ⟨testInv_init name, sumInv_init⟩ hok hrun
    rintro w l w' ⟨h, hsum⟩ hsafe hs
    exact ⟨testInv_step h hsafe hs, sumInv_step h hsum hs⟩
  obtain ⟨h, hsum⟩ := hinv
  refine ⟨fun i j => h.alone, hsum.sum, fun hdone => ?_⟩
  have hall : (Finset.univ.filter fun i => (w.task i).added = true) = Finset.univ := by
    refine Finset.filter_true_of_mem fun i _ => ?_
    rw [hdone i]
    rfl
  rw [hsum.sum, hall, Finset.card_univ]

end Sum

instance (w : TestWorld ι) : DecidablePred (TestSafe w)
  | .start _ => isTrue trivial
  | .user _ _ => inferInstanceAs (Decidable (_ → _))
  | .body _ => isTrue trivial
  | .event _ _ => isTrue trivial
  | .expire _ => inferInstanceAs (Decidable (_ = _))

/-- Two tasks: the second waits while the first adds, and is woken by its `unlock`. -/
def addsTwice : List (TestLabel Bool) :=
  [.start false, .user false (.ok 0), .user false (.ok 0), .user false (.ok 0), .user false .silent,
    .user false (.ok 2), .user false .silent, .user false .silent, .body false,
    .start true, .user true (.ok 2), .user true (.ok 1), .user true .silent, .user true (.ok 3), .user true .silent,
    .user true .silent, .user true (.ok 3), .user true .silent, .user true .silent, .body false,
    .user false (.ok 3), .user false (.ok 0), .event true .silent, .event true (.ok 4), .event true .silent,
    .event true .silent, .event true .silent, .user true .silent, .body true, .body true, .user true (.ok 4),
    .user true (.ok 0)]

/-- The two tasks add two. -/
theorem lockTest_sum_twice : ∃ w, exec (testStep "sub") (.init Bool) addsTwice = some w ∧ w.sum = toInt 2 := by
  have heval : (exec (testStep "sub") (.init Bool) addsTwice).any
      (fun w => decide (∀ i, w.task i = .done)) = true := by decide +kernel
  obtain ⟨w, hrun, hw⟩ := (Option.any_eq_true _ _).1 heval
  have hok : Along (testStep "sub") TestSafe (.init Bool) addsTwice := by decide +kernel
  exact ⟨w, hrun, (lockTest_sum "sub" hrun hok).2.2 (of_decide_eq_true hw)⟩

end StudyTech
