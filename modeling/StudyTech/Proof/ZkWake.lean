import StudyTech.Proof.ZkOrder

/-!
# Lost wake-ups of the ZooKeeper lock

`lock` makes its latch after `tryLock` returned false. The event thread may be told of
the removal before that: it finds no latch, or the latch of an earlier `lock`, and the
user thread then waits on a latch that nobody counts down (`wakeup_lost`).

This is the only way: in a run in which the event thread does not signal before the
latch is made (`LatchReady`), no wake-up is lost (`no_lost_wakeup`). While a thread
waits and its node is live, its latch was counted down, or the event for `waitPath` is
still to come, or the event thread still looks for the place of the node (`WillWake`).
-/

namespace StudyTech

open Lib

variable {ι τ : Type}

/-- The thread is not inside `lock` or `tryLock`. -/
def UserPc.Outside : UserPc → Prop
  | .idle _ => True
  | .unlockExists => True
  | .unlockDelete => True
  | _ => False

instance : DecidablePred UserPc.Outside
  | .idle _ | .unlockExists | .unlockDelete => isTrue trivial
  | .rootExists _ | .rootCreate _ | .create _ | .assignSelf _ _ | .isMin _ _ => isFalse id
  | .newLatch | .awaitLatch | .parked _ => isFalse id

/-- No call fails, no session expires, no thread is interrupted, and one thread at a time
is inside `lock` or `tryLock` of an instance. -/
def Calm (F : ZkFleet ι τ) (w : ZkWorld ι τ) : ZkLabel ι τ → Prop
  | .lock t => ∀ t', F.inst t' = F.inst t → (w.user t').Outside
  | .tryLock t => ∀ t', F.inst t' = F.inst t → (w.user t').Outside
  | .unlock _ => True
  | .user _ r => ¬ r.Failed
  | .event _ r => ¬ r.Failed
  | .expire _ => False

/-- The event thread is about to signal: to count the latch down, or to find none. -/
def DistributedLock.signals (st : DistributedLock) : Bool :=
  match st.event with
  | some (.latchNull _) => st.latch.isNone
  | some (.countDown _) => true
  | _ => false

/-- The event thread does not signal while the user thread is about to make a latch. -/
def LatchReady (F : ZkFleet ι τ) (w : ZkWorld ι τ) : ZkLabel ι τ → Prop
  | .event i _ => ∀ t, F.inst t = i → w.user t = .newLatch → (w.lock i).signals = false
  | _ => True

/-- The node of the thread's instance is the smallest child, and no event for `waitPath` is to
be delivered. -/
structure Due (F : ZkFleet ι τ) (w : ZkWorld ι τ) (t : τ) (path : String) : Prop where
  selfPath : (w.lock (F.inst t)).selfPath = some path
  live : w.zk.hasLive (childName path) = true
  smallest : ∀ n ∈ w.zk.nodes, n.Live → n.name ≠ childName path → utf16 (childName path) < utf16 n.name
  events : ∀ c ∈ w.zk.events (F.inst t), (w.lock (F.inst t)).waitPath ≠ some (childPath c)

/-- The thread waits on a latch with count 1 although it is due, and the event thread
processes no event. -/
def LostWakeup (F : ZkFleet ι τ) (w : ZkWorld ι τ) (t : τ) : Prop :=
  ∃ k path, w.user t = .parked k ∧ (w.lock (F.inst t)).counts[k]? = some 1 ∧
    (w.lock (F.inst t)).event = none ∧ Due F w t path

/-- A path of a name that is smaller than the own one. -/
def Below (st : DistributedLock) (path : String) : Prop :=
  ∃ self c, st.selfPath = some self ∧ path = childPath c ∧ utf16 c ≤ utf16 (childName self) ∧ c ≠ childName self

def SelfLive (zk : ZooKeeper ι) (st : DistributedLock) : Prop :=
  ∃ self, st.selfPath = some self ∧ zk.hasLive (childName self) = true

/-- The event for `waitPath` is still to come. -/
def Awaits (zk : ZooKeeper ι) (i : ι) (st : DistributedLock) : Prop :=
  ∃ c, st.waitPath = some (childPath c) ∧ zk.Pending i c

/-- The own node is in the list, if there is one. -/
def Lists (st : DistributedLock) : MinPc → Prop
  | .indexOf subNodes => ∀ self, st.selfPath = some self → childName self ∈ subNodes
  | _ => True

/-- While the own node is live, the latch is `woken`, or the event is still to come, or the
event thread still looks for the place of the node. -/
def WillWake (zk : ZooKeeper ι) (i : ι) (st : DistributedLock) (woken : Prop) : Prop :=
  SelfLive zk st → woken ∨ Awaits zk i st ∨ ∃ m, st.event = some m ∧ Lists st m

/-- What is known of the fields of a lock. -/
structure LockWake (st : DistributedLock) : Prop where
  wait : ∀ path, st.waitPath = some path → Below st path
  event : ∀ path, st.event = some (.setWaitPath path) → Below st path
  counts : ∀ n ∈ st.counts, n ≤ 1

/-- What is known at a place of a user thread. -/
def UserWake (zk : ZooKeeper ι) (i : ι) (st : DistributedLock) : UserPc → Prop
  | .assignSelf _ path => ∀ self, st.selfPath = some self → utf16 (childName self) < utf16 (childName path)
  | .isMin _ m => (SelfLive zk st → Lists st m) ∧ ∀ path, m = .setWaitPath path → Below st path
  | .newLatch => WillWake zk i st False
  | .awaitLatch => ∃ k, st.latch = some k ∧ WillWake zk i st (st.counts[k]? ≠ some 1)
  | .parked k => st.latch = some k ∧ WillWake zk i st (st.counts[k]? ≠ some 1)
  | _ => True

/-- The invariant. -/
structure WakeInv (F : ZkFleet ι τ) (w : ZkWorld ι τ) : Prop where
  grant : GrantInv F w
  notifies : w.zk.Notifies
  alone : ∀ t t', F.inst t' = F.inst t → t' ≠ t → (w.user t).Outside ∨ (w.user t').Outside
  lock : ∀ i, LockWake (w.lock i)
  user : ∀ t, UserWake w.zk (F.inst t) (w.lock (F.inst t)) (w.user t)

theorem wakeInv_init (F : ZkFleet ι τ) : WakeInv F (.init ι τ) := by
  refine ⟨grantInv_init F, .init ι, fun _ _ _ _ => Or.inl trivial, fun i => ⟨?_, ?_, ?_⟩, fun t => trivial⟩
  · intro path h; cases h
  · intro path h; cases h
  · intro n hn; cases hn

theorem userWake_of_outside {zk : ZooKeeper ι} {i : ι} {st : DistributedLock} {c : UserPc} (h : c.Outside) :
    UserWake zk i st c := by
  cases c <;> first | exact trivial | exact h.elim

variable {F : ZkFleet ι τ} {w w' : ZkWorld ι τ}

/-- **The invariant excludes a lost wake-up**: the node of `waitPath` is smaller, so it
is not live, so its removal was told. -/
theorem WakeInv.not_lost (h : WakeInv F w) (t : τ) : ¬ LostWakeup F w t := by
  rintro ⟨k, path, hparked, hcount, hevent, hdue⟩
  have huser := h.user t
  rw [hparked] at huser
  obtain ⟨-, hwake⟩ := huser
  rcases hwake ⟨path, hdue.selfPath, hdue.live⟩ with hne | ⟨c, hwait, hpending⟩ | ⟨m, hm, -⟩
  · exact hne hcount
  · obtain ⟨self, c', hself, hpath, hle, hne⟩ := (h.lock (F.inst t)).wait _ hwait
    obtain rfl : path = self := Option.some.inj (hdue.selfPath.symm.trans hself)
    obtain rfl := childPath_inj hpath
    rcases hpending with hmem | hmem
    · exact hdue.events c hmem hwait
    · -- a watched node is live, and below the own one
      obtain ⟨n, hn, hlive, rfl⟩ := ZooKeeper.hasLive_iff.1 (h.notifies.live _ c hmem)
      exact absurd (hdue.smallest n hn hlive hne) (not_lt.2 hle)
  · rw [hevent] at hm
    cases hm

section Frame

variable {zk zk' : ZooKeeper ι} {i : ι} {st st' : DistributedLock}

theorem Below.of_self {path : String} (h : Below st path) (hself : st'.selfPath = st.selfPath) :
    Below st' path := by
  obtain ⟨self, c, hs, hc⟩ := h
  exact ⟨self, c, hself.trans hs, hc⟩

theorem Lists.of_self {m : MinPc} (h : Lists st m) (hself : st'.selfPath = st.selfPath) : Lists st' m := by
  cases m with
  | indexOf subNodes => exact fun self hs => h self (hself ▸ hs)
  | _ => trivial

theorem SelfLive.of_self (h : SelfLive zk st') (hself : st'.selfPath = st.selfPath) : SelfLive zk st := by
  obtain ⟨self, hs, hlive⟩ := h
  exact ⟨self, hself ▸ hs, hlive⟩

/-- The own node, once removed, stays removed. -/
theorem SelfLive.back (h : SelfLive zk' st) (hok : zk'.Ok) (hg : zk.Grows zk')
    (hown : ∀ self, st.selfPath = some self → Owned zk base i self) : SelfLive zk st := by
  obtain ⟨self, hs, hlive⟩ := h
  obtain ⟨n, hn, rfl, -⟩ := hown self hs
  rw [childName_childPath] at hlive
  refine ⟨_, hs, ?_⟩
  rw [childName_childPath]
  exact ZooKeeper.hasLive_of_grows hok hg hn hlive

theorem WillWake.mono {woken : Prop} (h : WillWake zk i st woken) (hlive : SelfLive zk' st → SelfLive zk st)
    (hpending : ∀ c, zk.Pending i c → zk'.Pending i c) : WillWake zk' i st woken := by
  intro hl
  rcases h (hlive hl) with hwoken | ⟨c, hwait, hp⟩ | hlooks
  · exact Or.inl hwoken
  · exact Or.inr (Or.inl ⟨c, hwait, hpending c hp⟩)
  · exact Or.inr (Or.inr hlooks)

theorem UserWake.mono {c : UserPc} (h : UserWake zk i st c) (hlive : SelfLive zk' st → SelfLive zk st)
    (hpending : ∀ c, zk.Pending i c → zk'.Pending i c) : UserWake zk' i st c := by
  cases c with
  | assignSelf _ path => exact h
  | isMin _ m => exact ⟨fun hl => h.1 (hlive hl), h.2⟩
  | newLatch => exact WillWake.mono h hlive hpending
  | awaitLatch =>
    obtain ⟨k, hk, hwake⟩ := h
    exact ⟨k, hk, hwake.mono hlive hpending⟩
  | parked k => exact ⟨h.1, h.2.mono hlive hpending⟩
  | _ => trivial

end Frame

section MinPath

variable [DecidableEq ι] {zk zk' : ZooKeeper ι} {i : ι} {st st' : DistributedLock} {m : MinPc} {r : Reply}
  {result : MinResult}

/-- The paths that a step of `isMinPath` writes or hands on are below the own one. -/
theorem minEffect_below (h : MinEffect zk i st m r zk' st' result) (hm : MinOk zk m) (hst : LockWake st)
    (hbelow : ∀ path, m = .setWaitPath path → Below st path) :
    st'.selfPath = st.selfPath ∧ LockWake st' ∧ ∀ path, result = .goto (.setWaitPath path) → Below st' path := by
  cases h with
  | @later subNodes self prev k hself hidx hprev =>
    refine ⟨rfl, hst, fun path hpath => ?_⟩
    cases hpath
    -- the list is sorted, so the name before the own one is below it
    obtain ⟨z, -, rfl⟩ := hm
    obtain ⟨-, hle, hne⟩ := prev_sortStrings_le hidx hprev
    exact ⟨self, prev, hself, rfl, hle, hne⟩
  | @countDown self k _ =>
    refine ⟨rfl, ⟨fun path hp => (hst.wait path hp).of_self rfl, fun path hp => (hst.event path hp).of_self rfl,
      fun n hn => ?_⟩, fun _ hpath => by cases hpath⟩
    -- counting down does not raise a count
    obtain ⟨j, hj, rfl⟩ := List.mem_iff_getElem.1 hn
    rw [List.getElem_modify]
    have hle := hst.counts _ (List.getElem_mem (by simpa using hj : j < st.counts.length))
    split <;> omega
  | @setWaitPath path =>
    refine ⟨rfl, ⟨fun path' hp => ?_, fun path' hp => (hst.event path' hp).of_self rfl, hst.counts⟩,
      fun _ hpath => by cases hpath⟩
    cases hp
    exact (hbelow path rfl).of_self rfl
  | failed _ _ hres => exact ⟨rfl, hst, fun path hpath => by rcases hres with rfl | rfl <;> cases hpath⟩
  | _ => exact ⟨rfl, hst, fun path hpath => by cases hpath⟩

omit [DecidableEq ι] in
/-- A read of the session that is not older than its own node lists it. -/
theorem self_listed (hok : zk.Ok) (hn : zk.Notifies) (hlive : SelfLive zk st)
    (hown : ∀ self, st.selfPath = some self → Owned zk base i self) {z : ℕ} (hz : zk.seen i ≤ z) {self : String}
    (hself : st.selfPath = some self) : childName self ∈ sortStrings (zk.children z) := by
  obtain ⟨self', hs', hlive⟩ := hlive
  obtain rfl : self = self' := Option.some.inj (hself.symm.trans hs')
  obtain ⟨n, hmem, hnode, hname⟩ := ZooKeeper.hasLive_iff.1 hlive
  obtain ⟨n', hmem', rfl, howner, -⟩ := hown self hself
  rw [childName_childPath] at hname ⊢
  obtain rfl := hok.eq_of_name hmem hmem' hname
  have hseen := hn.seen n hmem
  rw [howner] at hseen
  exact mem_sortStrings.2 (ZooKeeper.mem_children.2
    ⟨n, hmem, ZooKeeper.existsAt_of_live hnode (le_trans hseen hz), rfl⟩)

/-- **A step of `isMinPath` that looks for the place of a live node goes on, signals, or leaves
a watch.** -/
theorem minEffect_wake (h : MinEffect zk i st m r zk' st' result) (hcalm : ¬ r.Failed) (hok : zk.Ok)
    (hn : zk.Notifies) (hlive : SelfLive zk st) (hown : ∀ self, st.selfPath = some self → Owned zk base i self)
    (hst : LockWake st) (hlists : Lists st m) :
    (∃ m', result = .goto m' ∧ Lists st' m') ∨ (∃ self, result = .granted self) ∨
      (result = .refused ∧ Awaits zk' i st') := by
  cases h with
  | read hz _ => exact Or.inl ⟨_, rfl, fun self hself => self_listed hok hn hlive hown hz hself⟩
  | unlisted hself hnot => exact absurd (hlists _ hself) hnot
  | noLatch _ => exact Or.inr (Or.inl ⟨_, rfl⟩)
  | countDown _ => exact Or.inr (Or.inl ⟨_, rfl⟩)
  | @watched path z hwait =>
    obtain ⟨self, c, hself, rfl, hc⟩ := hst.wait path hwait
    refine Or.inr (Or.inr ⟨rfl, c, hwait, ?_⟩)
    rw [childName_childPath]
    exact ZooKeeper.pending_watch_self
  | failed hfail _ _ => exact absurd hfail hcalm
  | _ => exact Or.inl ⟨_, rfl, trivial⟩

/-- A step of `isMinPath` with a list without the own node changes nothing. -/
theorem minEffect_stale (h : MinEffect zk i st m r zk' st' result) (hlists : ¬ Lists st m) :
    zk' = zk ∧ st' = st := by
  cases h with
  | countDown _ => exact absurd trivial hlists
  | setWaitPath => exact absurd trivial hlists
  | watched _ => exact absurd trivial hlists
  | _ => exact ⟨rfl, rfl⟩

/-- What a step of `isMinPath` does to the directory. -/
theorem minEffect_notifies (h : MinEffect zk i st m r zk' st' result) (hn : zk.Notifies) :
    zk'.Notifies ∧ ∀ j c, zk.Pending j c → zk'.Pending j c := by
  cases h with
  | watched _ => exact ⟨hn.watch i _, fun j c hp => hp.watch i _⟩
  | _ => exact ⟨hn, fun _ _ hp => hp⟩

end MinPath

section Steps

/-- A thread that is inside is alone there. -/
theorem WakeInv.others (h : WakeInv F w) {t : τ} {c : UserPc} (hu : w.user t = c) (hin : ¬ c.Outside) (t' : τ)
    (hinst : F.inst t' = F.inst t) (hne : t' ≠ t) : (w.user t').Outside := by
  refine (h.alone t t' hinst hne).resolve_left ?_
  rw [hu]
  exact hin

variable [DecidableEq ι] [DecidableEq τ]

/-- What a step keeps or establishes anew. -/
theorem WakeInv.frame (h : WakeInv F w) {l : ZkLabel ι τ} (hs : zkStep F w l = some w') (hn : w'.zk.Notifies)
    (halone : ∀ t t', F.inst t' = F.inst t → t' ≠ t → (w'.user t).Outside ∨ (w'.user t').Outside)
    (hlock : ∀ i, LockWake (w'.lock i))
    (huser : ∀ t, (w'.user t = w.user t ∧ w'.lock (F.inst t) = w.lock (F.inst t) ∧
      ∀ c, w.zk.Pending (F.inst t) c → w'.zk.Pending (F.inst t) c) ∨
      UserWake w'.zk (F.inst t) (w'.lock (F.inst t)) (w'.user t)) : WakeInv F w' := by
  have hgrant := grantInv_step h.grant hs
  refine ⟨hgrant, hn, halone, hlock, fun t => ?_⟩
  rcases huser t with ⟨hu, hl, hpending⟩ | hnew
  · rw [hu, hl]
    refine (h.user t).mono (fun hlive => ?_) hpending
    exact hlive.back hgrant.ok (history_step h.grant hs).2 (h.grant.self (F.inst t))
  · exact hnew

/-- A step of the user thread `t`, which is alone inside, or outside. -/
theorem WakeInv.user_frame (h : WakeInv F w) {l : ZkLabel ι τ} {t : τ} (hs : zkStep F w l = some w')
    (husers : ∀ t', t' ≠ t → w'.user t' = w.user t') (hlocks : ∀ j, j ≠ F.inst t → w'.lock j = w.lock j)
    (hn : w'.zk.Notifies) (hpending : ∀ j c, w.zk.Pending j c → w'.zk.Pending j c)
    (hin : (∀ t', F.inst t' = F.inst t → t' ≠ t → (w.user t').Outside) ∨
      ((w'.user t).Outside ∧ w'.lock (F.inst t) = w.lock (F.inst t)))
    (hst : LockWake (w'.lock (F.inst t)))
    (hc : UserWake w'.zk (F.inst t) (w'.lock (F.inst t)) (w'.user t)) : WakeInv F w' := by
  refine h.frame hs hn (fun t₁ t₂ hinst hne => ?_) (fun j => ?_) (fun t' => ?_)
  · -- one of the two threads may be the one that steps
    by_cases h₁ : t₁ = t
    · subst h₁
      rcases hin with hin | ⟨hout, -⟩
      · rw [husers t₂ hne]
        exact Or.inr (hin t₂ hinst hne)
      · exact Or.inl hout
    · by_cases h₂ : t₂ = t
      · subst h₂
        rcases hin with hin | ⟨hout, -⟩
        · rw [husers t₁ h₁]
          exact Or.inl (hin t₁ hinst.symm h₁)
        · exact Or.inr hout
      · rw [husers t₁ h₁, husers t₂ h₂]
        exact h.alone t₁ t₂ hinst hne
  · by_cases hj : j = F.inst t
    · subst hj
      exact hst
    · rw [hlocks j hj]
      exact h.lock j
  · by_cases ht : t' = t
    · subst ht
      exact Or.inr hc
    · rw [husers t' ht]
      by_cases hinst : F.inst t' = F.inst t
      · rcases hin with hin | ⟨-, hsame⟩
        · exact Or.inr (userWake_of_outside (hin t' hinst ht))
        · rw [hinst]
          exact Or.inl ⟨rfl, hsame, hpending _⟩
      · exact Or.inl ⟨rfl, hlocks _ hinst, hpending _⟩

/-- A step of the user thread `t` that writes no field of a lock. -/
theorem WakeInv.move (h : WakeInv F w) {l : ZkLabel ι τ} {t : τ} {c : UserPc} {zk : ZooKeeper ι}
    (hs : zkStep F w l = some { w.goto t c with zk := zk }) (hn : zk.Notifies)
    (hpending : ∀ j c, w.zk.Pending j c → zk.Pending j c)
    (hin : (∀ t', F.inst t' = F.inst t → t' ≠ t → (w.user t').Outside) ∨ c.Outside)
    (hc : UserWake zk (F.inst t) (w.lock (F.inst t)) c) : WakeInv F { w.goto t c with zk := zk } := by
  have hu : Function.update w.user t c t = c := Function.update_self t c w.user
  refine h.user_frame (t := t) hs (fun t' ht => Function.update_of_ne ht _ _) (fun _ _ => rfl) hn hpending ?_
    (h.lock _) ?_
  · rcases hin with hin | hout
    · exact Or.inl hin
    · exact Or.inr ⟨by simpa only [ZkWorld.goto, hu] using hout, rfl⟩
  · simpa only [ZkWorld.goto, hu] using hc

/-- A step of the user thread `t` that makes no call and writes no field. -/
theorem WakeInv.goto (h : WakeInv F w) {l : ZkLabel ι τ} {t : τ} {c : UserPc}
    (hs : zkStep F w l = some (w.goto t c))
    (hin : (∀ t', F.inst t' = F.inst t → t' ≠ t → (w.user t').Outside) ∨ c.Outside)
    (hc : UserWake w.zk (F.inst t) (w.lock (F.inst t)) c) : WakeInv F (w.goto t c) := by
  have hs' : zkStep F w l = some { w.goto t c with zk := w.zk } := hs
  exact h.move hs' h.notifies (fun _ _ hp => hp) hin hc

omit [DecidableEq ι] [DecidableEq τ] in
/-- A node that is created now has a larger name than the own one. -/
theorem self_lt_created (h : GrantInv F w) {i : ι} {seq : ℕ} (hc : Creatable w.zk i (F.name i) seq) {self : String}
    (hself : (w.lock i).selfPath = some self) :
    utf16 (childName self) < utf16 (F.name i ++ paddedDecimal ZNode.seqDigits seq) := by
  obtain ⟨n, hn, rfl, -, hbase⟩ := h.self i self hself
  have hlt : n.seq < seq := Nat.lt_of_lt_of_le (h.ok.bound n hn).1 hc.2.2.2.1
  rw [childName_childPath, ← hbase]
  exact utf16_padded_lt n.base hlt hc.2.2.2.2

/-- Smaller names are smaller than a larger own one, too. -/
theorem Below.assign {st : DistributedLock} {path new : String} (h : Below st path)
    (hlt : ∀ self, st.selfPath = some self → utf16 (childName self) < utf16 (childName new)) :
    Below { st with selfPath := some new } path := by
  obtain ⟨self, c, hself, hpath, hle, -⟩ := h
  have hlt' := lt_of_le_of_lt hle (hlt self hself)
  refine ⟨new, c, rfl, hpath, le_of_lt hlt', ?_⟩
  rintro rfl
  exact lt_irrefl _ hlt'

/-- A step of `isMinPath` by a user thread. -/
theorem WakeInv.userMin (h : WakeInv F w) {t : τ} {r : Reply} {locking : Bool} {m : MinPc} {zk : ZooKeeper ι}
    {st : DistributedLock} {result : MinResult} (hcalm : ¬ r.Failed)
    (hs : zkStep F w (.user t r) = some { (w.setLock (F.inst t) st).userMin t locking result with zk := zk })
    (hu : w.user t = .isMin locking m) (hmin : MinEffect w.zk (F.inst t) (w.lock (F.inst t)) m r zk st result) :
    WakeInv F { (w.setLock (F.inst t) st).userMin t locking result with zk := zk } := by
  have huser := h.user t
  rw [hu] at huser
  have hminOk := h.grant.user t
  rw [hu] at hminOk
  obtain ⟨hself, hst, hbelow⟩ := minEffect_below hmin hminOk (h.lock _) huser.2
  obtain ⟨hn, hpending⟩ := minEffect_notifies hmin h.notifies
  obtain ⟨hlock, huserEq⟩ := userMin_eq (w.setLock (F.inst t) st) t locking result
  have hgrant := grantInv_step h.grant hs
  have hgrows := (history_step h.grant hs).2
  -- the own node was live before the step, so the step went on, signalled or left a watch
  have hwake : SelfLive zk st → (∃ m', result = .goto m' ∧ Lists st m') ∨ (∃ self, result = .granted self) ∨
      (result = .refused ∧ Awaits zk (F.inst t) st) := by
    intro hlive
    have hlive' : SelfLive w.zk (w.lock (F.inst t)) :=
      (hlive.of_self hself).back hgrant.ok hgrows (h.grant.self _)
    exact minEffect_wake hmin hcalm h.grant.ok h.notifies hlive' (h.grant.self _) (h.lock _) (huser.1 hlive')
  refine h.user_frame (t := t) hs (fun t' ht => ?_) (fun j hj => ?_) hn hpending (Or.inl (h.others hu id)) ?_ ?_
  · show (ZkWorld.userMin _ t locking result).user t' = _
    rw [huserEq]
    exact Function.update_of_ne ht _ _
  · show (ZkWorld.userMin _ t locking result).lock j = _
    rw [hlock]
    exact Function.update_of_ne hj _ _
  · show LockWake ((ZkWorld.userMin _ t locking result).lock _)
    rw [hlock]
    simpa only [ZkWorld.setLock, Function.update_self] using hst
  · show UserWake zk _ ((ZkWorld.userMin _ t locking result).lock _) ((ZkWorld.userMin _ t locking result).user t)
    rw [hlock, huserEq]
    simp only [ZkWorld.setLock, Function.update_self]
    cases result with
    | goto m' =>
      refine ⟨fun hlive => ?_, fun path hpath => hbelow path (by rw [hpath])⟩
      rcases hwake hlive with ⟨m'', heq, hlists⟩ | ⟨_, heq⟩ | ⟨heq, -⟩
      · cases heq
        exact hlists
      · cases heq
      · cases heq
    | granted self => cases locking <;> exact trivial
    | refused =>
      cases locking with
      | false => exact trivial
      | true =>
        intro hlive
        rcases hwake hlive with ⟨_, heq, -⟩ | ⟨_, heq⟩ | ⟨-, hawaits⟩
        · cases heq
        · cases heq
        · exact Or.inr (Or.inl hawaits)
    | threw =>
      cases locking with
      | false => exact trivial
      | true =>
        intro hlive
        rcases hwake hlive with ⟨_, heq, -⟩ | ⟨_, heq⟩ | ⟨heq, -⟩ <;> cases heq

/-- A step of a user thread. -/
theorem WakeInv.userStep (h : WakeInv F w) {t : τ} {r : Reply} (hcalm : ¬ r.Failed)
    (hs : zkStep F w (.user t r) = some w') (heffect : UserEffect F w t r w') : WakeInv F w' := by
  have huser := h.user t
  have hsame : ∀ j c, w.zk.Pending j c → w.zk.Pending j c := fun _ _ hp => hp
  cases heffect with
  | @root r locking c zk hu hzk hc =>
    have hin : ∀ t', F.inst t' = F.inst t → t' ≠ t → (w.user t').Outside := by
      rcases hu with hu | hu
      · exact h.others hu id
      · exact h.others hu id
    have hc' : UserWake zk (F.inst t) (w.lock (F.inst t)) c := by
      rcases hc with rfl | rfl | ⟨hfail, -⟩
      · exact trivial
      · exact trivial
      · exact absurd hfail hcalm
    rcases hzk with rfl | rfl
    · exact h.move hs h.notifies hsame (Or.inl hin) hc'
    · exact h.move hs h.notifies.createRoot hsame (Or.inl hin) hc'
  | @created locking seq hu hc =>
    refine h.move hs (h.notifies.create h.grant.ok) (fun _ _ hp => hp) (Or.inl (h.others hu id)) ?_
    intro self hself
    rw [childName_childPath]
    exact self_lt_created h.grant hc hself
  | createFailed _ hfail => exact absurd hfail hcalm
  | createLost _ hfail _ => exact absurd hfail hcalm
  | @assignSelf locking path hu =>
    rw [hu] at huser
    have hst := h.lock (F.inst t)
    refine h.user_frame (t := t) hs (fun t' ht => Function.update_of_ne ht _ _)
      (fun j hj => Function.update_of_ne hj _ _) h.notifies hsame (Or.inl (h.others hu id)) ?_ ?_
    · simp only [ZkWorld.goto, ZkWorld.setLock, Function.update_self]
      exact ⟨fun p hp => (hst.wait p hp).assign huser, fun p hp => (hst.event p hp).assign huser, hst.counts⟩
    · simp only [ZkWorld.goto, ZkWorld.setLock, Function.update_self]
      exact ⟨fun _ => trivial, fun p hp => by cases hp⟩
  | isMin hu hmin => exact h.userMin hcalm hs hu hmin
  | newLatch hu =>
    rw [hu] at huser
    have hst := h.lock (F.inst t)
    refine h.user_frame (t := t) hs (fun t' ht => Function.update_of_ne ht _ _)
      (fun j hj => Function.update_of_ne hj _ _) h.notifies hsame (Or.inl (h.others hu id)) ?_ ?_
    · simp only [ZkWorld.goto, ZkWorld.setLock, Function.update_self]
      refine ⟨fun p hp => (hst.wait p hp).of_self rfl, fun p hp => (hst.event p hp).of_self rfl, fun n hn => ?_⟩
      rcases List.mem_append.1 hn with hn | hn
      · exact hst.counts n hn
      · exact le_of_eq (List.mem_singleton.1 hn)
    · simp only [ZkWorld.goto, ZkWorld.setLock, Function.update_self]
      -- nothing was signalled yet, so whatever will wake the thread is still to come
      refine ⟨_, rfl, fun hlive => Or.inr ?_⟩
      rcases huser (hlive.of_self rfl) with hfalse | ⟨c, hwait, hp⟩ | ⟨m, hm, hlists⟩
      · exact hfalse.elim
      · exact Or.inl ⟨c, hwait, hp⟩
      · exact Or.inr ⟨m, hm, hlists.of_self rfl⟩
  | @awaitLatch k hu hk =>
    rw [hu] at huser
    obtain ⟨k', hk', hwake⟩ := huser
    obtain rfl : k = k' := Option.some.inj (hk.symm.trans hk')
    exact h.goto hs (Or.inl (h.others hu id)) ⟨hk, hwake⟩
  | unpark hu => exact h.goto hs (Or.inr trivial) trivial
  | unlock hu hc =>
    rcases hc with rfl | rfl
    · exact h.goto hs (Or.inr trivial) trivial
    · exact h.goto hs (Or.inr trivial) trivial
  | deleted _ _ => exact h.move hs h.notifies.remove (fun _ _ hp => hp.remove) (Or.inr trivial) trivial
  | deleteFailed _ => exact h.goto hs (Or.inr trivial) trivial

omit [DecidableEq ι] [DecidableEq τ] in
theorem WillWake.imp {zk : ZooKeeper ι} {i : ι} {st : DistributedLock} {woken woken' : Prop}
    (h : WillWake zk i st woken) (himp : woken → woken') : WillWake zk i st woken' :=
  fun hlive => (h hlive).imp himp id

/-- A step of the event thread of `i`, which keeps `selfPath` and the latch. -/
theorem WakeInv.event_frame (h : WakeInv F w) {l : ZkLabel ι τ} {i : ι} (hs : zkStep F w l = some w')
    (husers : w'.user = w.user) (hlocks : ∀ j, j ≠ i → w'.lock j = w.lock j) (hn : w'.zk.Notifies)
    (hpending : ∀ j, j ≠ i → ∀ c, w.zk.Pending j c → w'.zk.Pending j c) (hst : LockWake (w'.lock i))
    (hself : (w'.lock i).selfPath = (w.lock i).selfPath) (hlatch : (w'.lock i).latch = (w.lock i).latch)
    (hcounts : ∀ k, (w.lock i).latch = some k → (w.lock i).counts[k]? ≠ some 1 ∨ (w.lock i).signals = true →
      (w'.lock i).counts[k]? ≠ some 1)
    (hwake : ∀ woken, WillWake w.zk i (w.lock i) woken →
      WillWake w'.zk i (w'.lock i) (woken ∨ (w.lock i).signals = true))
    (hready : ∀ t, F.inst t = i → w.user t = .newLatch → (w.lock i).signals = false) : WakeInv F w' := by
  have hgrant := grantInv_step h.grant hs
  have hback : SelfLive w'.zk (w'.lock i) → SelfLive w.zk (w.lock i) := fun hlive =>
    (hlive.of_self hself).back hgrant.ok (history_step h.grant hs).2 (h.grant.self i)
  have hlatched : ∀ k, (w.lock i).latch = some k → WillWake w.zk i (w.lock i) ((w.lock i).counts[k]? ≠ some 1) →
      WillWake w'.zk i (w'.lock i) ((w'.lock i).counts[k]? ≠ some 1) := fun k hk hw =>
    (hwake _ hw).imp (hcounts k hk)
  refine h.frame hs hn (fun t t' => ?_) (fun j => ?_) (fun t => ?_)
  · rw [husers]
    exact h.alone t t'
  · by_cases hj : j = i
    · subst hj
      exact hst
    · rw [hlocks j hj]
      exact h.lock j
  · by_cases ht : F.inst t = i
    · subst ht
      have huser := h.user t
      rw [husers]
      refine Or.inr ?_
      cases hu : w.user t with
      | assignSelf locking path =>
        rw [hu] at huser
        exact fun self hs => huser self (hself ▸ hs)
      | isMin locking m =>
        rw [hu] at huser
        exact ⟨fun hlive => (huser.1 (hback hlive)).of_self hself, fun p hp => (huser.2 p hp).of_self hself⟩
      | newLatch =>
        rw [hu] at huser
        have hnot := hready t rfl hu
        refine (hwake _ huser).imp ?_
        rintro (hfalse | hsignals)
        · exact hfalse
        · rw [hnot] at hsignals
          cases hsignals
      | awaitLatch =>
        rw [hu] at huser
        obtain ⟨k, hk, hw⟩ := huser
        exact ⟨k, hlatch.trans hk, hlatched k hk hw⟩
      | parked k =>
        rw [hu] at huser
        exact ⟨hlatch.trans huser.1, hlatched k huser.1 huser.2⟩
      | _ => trivial
    · exact Or.inl ⟨by rw [husers], hlocks _ ht, hpending _ ht⟩

omit [DecidableEq τ] in
/-- A step of the event thread in `isMinPath` that grants the lock signals. -/
theorem minEffect_signals {zk zk' : ZooKeeper ι} {i : ι} {st st' : DistributedLock} {m : MinPc} {r : Reply}
    {self : String} (h : MinEffect zk i st m r zk' st' (.granted self)) (hm : st.event = some m) :
    st.signals = true := by
  unfold DistributedLock.signals
  rw [hm]
  cases h with
  | noLatch hlatch => simp [hlatch]
  | countDown _ => rfl
  | failed _ _ hres => rcases hres with hres | hres <;> cases hres

omit [DecidableEq τ] in
/-- What a step of `isMinPath` by the event thread does to the latch and the counts. -/
theorem minEffect_counts {zk zk' : ZooKeeper ι} {i : ι} {st st' : DistributedLock} {m : MinPc} {r : Reply}
    {result : MinResult} (h : MinEffect zk i st m r zk' st' result) (hcalm : ¬ r.Failed) (hm : st.event = some m)
    (hst : LockWake st) : st'.latch = st.latch ∧ ∀ k, st.latch = some k → st.counts[k]? ≠ some 1 ∨ st.signals = true →
      st'.counts[k]? ≠ some 1 := by
  cases h with
  | @countDown self k hk =>
    refine ⟨rfl, fun k' hk' _ hone => ?_⟩
    obtain rfl : k = k' := Option.some.inj (hk.symm.trans hk')
    rw [List.getElem?_modify_eq] at hone
    obtain ⟨n, hn, hone⟩ := Option.map_eq_some_iff.1 hone
    -- a count of at most 1 is 0 after the count-down
    have hle := hst.counts n (List.mem_of_getElem? hn)
    omega
  | noLatch hlatch => exact ⟨rfl, fun k hk => by rw [hlatch] at hk; cases hk⟩
  | failed hfail _ _ => exact absurd hfail hcalm
  | _ =>
    -- elsewhere the event thread does not signal
    refine ⟨rfl, fun k _ hk => hk.resolve_right ?_⟩
    unfold DistributedLock.signals
    rw [hm]
    simp [*]

/-- An event is delivered; if it is for `waitPath`, the event thread looks for the place. -/
theorem WakeInv.deliver (h : WakeInv F w) {i : ι} {c : String} {cs : List String} {event : Option MinPc}
    (hs : zkStep F w (.event i .silent) =
      some { w.setLock i { w.lock i with event := event } with zk := w.zk.pop i })
    (hready : ∀ t, F.inst t = i → w.user t = .newLatch → (w.lock i).signals = false)
    (hev : (w.lock i).event = none) (hevents : w.zk.events i = c :: cs)
    (hnext : (event = none ∧ (w.lock i).waitPath ≠ some (childPath c)) ∨ event = some .getChildren) :
    WakeInv F { w.setLock i { w.lock i with event := event } with zk := w.zk.pop i } := by
  have hst := h.lock i
  have hlock : Function.update w.lock i { w.lock i with event := event } i = { w.lock i with event := event } :=
    Function.update_self i _ _
  refine h.event_frame (i := i) hs rfl (fun j hj => Function.update_of_ne hj _ _) (h.notifies.pop i)
    (fun j hj c hp => hp.pop_of_ne hj) ?_ ?_ ?_ ?_ ?_ hready <;> simp only [ZkWorld.setLock, hlock]
  · refine ⟨fun p hp => (hst.wait p hp).of_self rfl, fun p hp => ?_, hst.counts⟩
    rcases hnext with ⟨rfl, -⟩ | rfl <;> cases hp
  · intro k _ hk
    refine hk.resolve_right ?_
    simp [DistributedLock.signals, hev]
  · intro woken hwake hlive
    rcases hnext with ⟨rfl, hne⟩ | rfl
    · -- the event that is dropped is not for `waitPath`
      have hback : SelfLive w.zk (w.lock i) := hlive.of_self rfl
      rcases hwake hback with hwoken | ⟨c', hwait, hp⟩ | ⟨m, hm, -⟩
      · exact Or.inl (Or.inl hwoken)
      · refine Or.inr (Or.inl ⟨c', hwait, hp.pop hevents ?_⟩)
        rintro rfl
        exact hne hwait
      · rw [hev] at hm
        cases hm
    · exact Or.inr (Or.inr ⟨_, rfl, trivial⟩)

/-- A step of `isMinPath` by an event thread. -/
theorem WakeInv.eventMin (h : WakeInv F w) {i : ι} {r : Reply} {m : MinPc} {zk : ZooKeeper ι}
    {st : DistributedLock} {result : MinResult} (hcalm : ¬ r.Failed)
    (hready : ∀ t, F.inst t = i → w.user t = .newLatch → (w.lock i).signals = false)
    (hs : zkStep F w (.event i r) = some { w.eventMin i st result with zk := zk })
    (hm : (w.lock i).event = some m) (hmin : MinEffect w.zk i (w.lock i) m r zk st result) :
    WakeInv F { w.eventMin i st result with zk := zk } := by
  have hst := h.lock i
  obtain ⟨hself, hst', hbelow⟩ := minEffect_below hmin (h.grant.event i m hm) hst fun p hp => hst.event p (hp ▸ hm)
  obtain ⟨hn, hpending⟩ := minEffect_notifies hmin h.notifies
  obtain ⟨hlatch, hcounts⟩ := minEffect_counts hmin hcalm hm hst
  obtain ⟨huserEq, hlockEq⟩ := eventMin_eq w i st result
  have hgrant := grantInv_step h.grant hs
  have hgrows := (history_step h.grant hs).2
  refine h.event_frame (i := i) hs huserEq (fun j hj => ?_) hn (fun j _ c hp => hpending j c hp) ?_ ?_ ?_ ?_ ?_ hready
  · show (w.eventMin i st result).lock j = _
    rw [hlockEq]
    exact Function.update_of_ne hj _ _
  all_goals
    show _
    simp only [hlockEq, Function.update_self]
  · refine ⟨fun p hp => (hst'.wait p hp).of_self rfl, fun p hp => ?_, hst'.counts⟩
    cases result with
    | goto m' => exact (hbelow p (by cases hp; rfl)).of_self rfl
    | _ => cases hp
  · exact hself
  · exact hlatch
  · exact hcounts
  · intro woken hwake hlive
    have hlive' : SelfLive w.zk (w.lock i) :=
      (hlive.of_self hself).back hgrant.ok hgrows (h.grant.self i)
    by_cases hlists : Lists (w.lock i) m
    · rcases minEffect_wake hmin hcalm h.grant.ok h.notifies hlive' (h.grant.self i) hst hlists with
        ⟨m', rfl, hlists'⟩ | ⟨self, rfl⟩ | ⟨rfl, c, hwait, hp⟩
      · exact Or.inr (Or.inr ⟨m', rfl, hlists'.of_self rfl⟩)
      · exact Or.inl (Or.inr (minEffect_signals hmin hm))
      · exact Or.inr (Or.inl ⟨c, hwait, hp⟩)
    · -- the list is older than the node, so the event thread gives up without a change
      obtain ⟨rfl, rfl⟩ := minEffect_stale hmin hlists
      rcases hwake hlive' with hwoken | ⟨c, hwait, hp⟩ | ⟨m', hm', hlists'⟩
      · exact Or.inl (Or.inl hwoken)
      · exact Or.inr (Or.inl ⟨c, hwait, hp⟩)
      · rw [hm] at hm'
        cases hm'
        exact absurd hlists' hlists

/-- A step of an event thread. -/
theorem WakeInv.eventStep (h : WakeInv F w) {i : ι} {r : Reply} (hcalm : ¬ r.Failed)
    (hready : ∀ t, F.inst t = i → w.user t = .newLatch → (w.lock i).signals = false)
    (hs : zkStep F w (.event i r) = some w') (heffect : EventEffect w i r w') : WakeInv F w' := by
  cases heffect with
  | ignore hev hevents hne => exact h.deliver hs hready hev hevents (Or.inl ⟨rfl, hne⟩)
  | process hev hevents _ => exact h.deliver hs hready hev hevents (Or.inr rfl)
  | isMin hm hmin => exact h.eventMin hcalm hready hs hm hmin

/-- **A calm step that does not signal before the latch is made keeps the invariant.** -/
theorem wakeInv_step (h : WakeInv F w) {l : ZkLabel ι τ} (hcalm : Calm F w l) (hready : LatchReady F w l)
    (hs : zkStep F w l = some w') : WakeInv F w' := by
  cases zkStep_effect hs with
  | lock _ => exact h.goto hs (Or.inl fun t' hinst _ => hcalm t' hinst) trivial
  | tryLock _ => exact h.goto hs (Or.inl fun t' hinst _ => hcalm t' hinst) trivial
  | unlock _ => exact h.goto hs (Or.inr trivial) trivial
  | user hu => exact h.userStep hcalm hs hu
  | event he => exact h.eventStep hcalm hready hs he
  | expire => exact absurd hcalm id

/-- After a signal before the latch is made, the event thread is idle and the user thread
still is about to make the latch. -/
theorem not_latchReady_cases {l : ZkLabel ι τ} (hs : zkStep F w l = some w') (hbad : ¬ LatchReady F w l) :
    ∃ t, w'.user t = .newLatch ∧ (w'.lock (F.inst t)).event = none := by
  cases zkStep_effect hs with
  | @event i r _ heffect =>
    unfold LatchReady at hbad
    push Not at hbad
    obtain ⟨t, rfl, hu, hsignals⟩ := hbad
    refine ⟨t, ?_⟩
    unfold DistributedLock.signals at hsignals
    cases heffect with
    | ignore hev _ _ =>
      rw [hev] at hsignals
      exact absurd rfl hsignals
    | process hev _ _ =>
      rw [hev] at hsignals
      exact absurd rfl hsignals
    | @isMin r m zk st result hev hmin =>
      rw [hev] at hsignals
      obtain ⟨huserEq, hlockEq⟩ := eventMin_eq w (F.inst t) st result
      have hgranted : ∃ self, result = .granted self := by
        cases hmin with
        | noLatch _ => exact ⟨_, rfl⟩
        | countDown _ => exact ⟨_, rfl⟩
        | hasLatch hlatch => exact absurd (by rw [hlatch]; rfl) hsignals
        | failed _ hm _ => rcases hm with rfl | rfl <;> exact absurd rfl hsignals
        | _ => exact absurd rfl hsignals
      obtain ⟨self, rfl⟩ := hgranted
      refine ⟨(congrFun huserEq t).trans hu, ?_⟩
      have hlock := congrFun hlockEq (F.inst t)
      rw [Function.update_self] at hlock
      exact congrArg DistributedLock.event hlock
  | _ => exact absurd trivial hbad

/-- The user thread makes the latch and waits. -/
theorem lost_of_newLatch {t : τ} {path : String} (hu : w.user t = .newLatch)
    (hevent : (w.lock (F.inst t)).event = none) (hdue : Due F w t path) :
    ∃ w', exec (zkStep F) w [.user t .silent, .user t .silent] = some w' ∧ LostWakeup F w' t := by
  let st := w.lock (F.inst t)
  let w₁ := (w.setLock (F.inst t) { st with latch := some st.counts.length, counts := st.counts ++ [1] }).goto t
    .awaitLatch
  have hu₁ : w₁.user t = .awaitLatch := Function.update_self t _ _
  have hlock : w₁.lock (F.inst t) = { st with latch := some st.counts.length, counts := st.counts ++ [1] } :=
    Function.update_self _ _ _
  have h₁ : zkStep F w (.user t .silent) = some w₁ := by
    simp only [zkStep, userStep, hu]
    rfl
  have h₂ : zkStep F w₁ (.user t .silent) = some (w₁.goto t (.parked st.counts.length)) := by
    simp only [zkStep, userStep, hu₁, hlock]
    rfl
  refine ⟨w₁.goto t (.parked st.counts.length), ?_, st.counts.length, path, Function.update_self t _ _, ?_, ?_, ?_⟩
  · simp only [exec_cons, h₁, h₂, exec_nil, Option.bind_some]
  · show (w₁.lock (F.inst t)).counts[_]? = some 1
    rw [hlock]
    exact List.getElem?_concat_length
  · show (w₁.lock (F.inst t)).event = none
    rw [hlock]
    exact hevent
  · refine ⟨?_, hdue.live, hdue.smallest, fun c hc => ?_⟩
    · show (w₁.lock (F.inst t)).selfPath = some path
      rw [hlock]
      exact hdue.selfPath
    · show (w₁.lock (F.inst t)).waitPath ≠ some (childPath c)
      rw [hlock]
      exact hdue.events c hc

/-- **No lost wake-up.** In every calm run in which the event thread never signals while the
user thread is about to make its latch, no thread waits although it is due. A step that
breaks this leads to a lost wake-up as soon as the thread is due. -/
theorem no_lost_wakeup (F : ZkFleet ι τ) :
    (∀ ls w, exec (zkStep F) (.init ι τ) ls = some w → Along (zkStep F) (Calm F) (.init ι τ) ls →
      Along (zkStep F) (LatchReady F) (.init ι τ) ls → ∀ t, ¬ LostWakeup F w t) ∧
    ∀ w l w', zkStep F w l = some w' → ¬ LatchReady F w l → ∃ t, ∀ path, Due F w' t path →
      ∃ w'', exec (zkStep F) w' [.user t .silent, .user t .silent] = some w'' ∧ LostWakeup F w'' t := by
  constructor
  · intro ls w hrun hcalm hready
    have hinv : WakeInv F w := inv_of_along (fun _ _ _ ha hok hs => wakeInv_step ha hok.1 hok.2 hs)
      (wakeInv_init F) (hcalm.and hready) hrun
    exact hinv.not_lost
  · intro w l w' hs hbad
    obtain ⟨t, hu, hevent⟩ := not_latchReady_cases hs hbad
    exact ⟨t, fun path hdue => lost_of_newLatch hu hevent hdue⟩

end Steps

instance (w : ZkWorld Bool Bool) : DecidablePred (Calm twoZkLocks w)
  | .lock _ | .tryLock _ => inferInstanceAs (Decidable (∀ _ : Bool, _ → _))
  | .unlock _ => isTrue trivial
  | .user _ r | .event _ r => inferInstanceAs (Decidable (¬ r.Failed))
  | .expire _ => isFalse id

instance (w : ZkWorld Bool Bool) : DecidablePred (LatchReady twoZkLocks w)
  | .event _ _ => inferInstanceAs (Decidable (∀ _ : Bool, _ → _ → _))
  | .lock _ | .tryLock _ | .unlock _ | .user _ _ | .expire _ => isTrue trivial

/-- In the run that hands the lock over the waiting thread is woken. -/
theorem no_lost_wakeup_handover :
    ∃ w, exec (zkStep twoZkLocks) (.init Bool Bool) (takes ++ handsOver) = some w ∧
      ∀ t, ¬ LostWakeup twoZkLocks w t := by
  have hsome : (exec (zkStep twoZkLocks) (.init Bool Bool) (takes ++ handsOver)).isSome = true := by decide +kernel
  obtain ⟨w, hrun⟩ := Option.isSome_iff_exists.1 hsome
  exact ⟨w, hrun, (no_lost_wakeup twoZkLocks).1 _ w hrun (by decide +kernel) (by decide +kernel)⟩

/-- The first thread unlocks, and the event thread of the second looks for its place, before
the second thread makes its latch. -/
def losesWakeup : List (ZkLabel Bool Bool) :=
  [.lock true, .user true (.ok 2), .user true (.ok 1), .user true .silent, .user true (.ok 3), .user true .silent,
    .user true .silent, .user true (.ok 3), .unlock false, .user false (.ok 3), .user false (.ok 0),
    .event true .silent, .event true (.ok 4), .event true .silent, .event true .silent, .user true .silent,
    .user true .silent]

/-- **A lost wake-up**: the second thread waits for ever, with the only node of the directory. -/
theorem wakeup_lost :
    ∃ w, exec (zkStep twoZkLocks) (.init Bool Bool) (takes ++ losesWakeup) = some w ∧
      Along (zkStep twoZkLocks) (Calm twoZkLocks) (.init Bool Bool) (takes ++ losesWakeup) ∧
      LostWakeup twoZkLocks w true := by
  have heval : (exec (zkStep twoZkLocks) (.init Bool Bool) (takes ++ losesWakeup)).any (fun w =>
      decide (w.user true = .parked 0 ∧ (w.lock true).counts[0]? = some 1 ∧ (w.lock true).event = none ∧
        (w.lock true).selfPath = some "/lock/sub0000000001" ∧ w.zk.events true = [] ∧
        w.zk.nodes = [⟨"sub", 0, false, 2, some 4⟩, ⟨"sub", 1, true, 3, none⟩])) = true := by decide +kernel
  obtain ⟨w, hrun, heval⟩ := (Option.any_eq_true _ _).1 heval
  obtain ⟨hparked, hcount, hevent, hself, hevents, hnodes⟩ := of_decide_eq_true heval
  refine ⟨w, hrun, by decide +kernel, 0, _, hparked, hcount, hevent, hself, ?_, ?_, ?_⟩
  · unfold ZooKeeper.hasLive
    rw [hnodes]
    decide +kernel
  · rw [hnodes]
    decide +kernel
  · show ∀ c ∈ w.zk.events true, _
    rw [hevents]
    exact fun c hc => by cases hc

end StudyTech
