import StudyTech.Proof.ZkCalls

/-!
# `lock` returns to the owner

`lock` catches the interruption of its wait and returns, although it was not granted the lock
(`two_past_lock`). Else it returns to the owner (`lock_returns_owner`), as long as the calls
on one instance do not overlap, and the event thread counts the latch down for the node of
the call that waits on it: it reads `selfPath` before it reads `latch`, so it can count the
latch of the next call down for the node of the last one.
-/

namespace StudyTech

open Lib

variable {ι τ : Type}

def UserPc.isIdle : UserPc → Bool
  | .idle _ => true
  | _ => false

/-- The thread is inside `unlock`. -/
def UserPc.unlocking : UserPc → Bool
  | .unlockExists => true
  | .unlockDelete => true
  | _ => false

/-- The thread waits on its latch. -/
def UserPc.waits : UserPc → Bool
  | .awaitLatch => true
  | .parked _ => true
  | _ => false

/-- The node for which `isMinPath` is about to count the latch down. -/
def MinPc.counting : MinPc → Option String
  | .latchNull self => some self
  | .countDown self => some self
  | _ => none

/-- The node for which a step of `isMinPath` counted down, or is about to. -/
def MinResult.counting : MinResult → Option String
  | .goto m => m.counting
  | .granted self => some self
  | _ => none

/-- The node for which the event thread counts the latch down next. -/
def DistributedLock.countsDown (st : DistributedLock) : Option String :=
  match st.event with
  | some (.countDown self) => some self
  | _ => none

/-- The waiting thread is not interrupted, calls on one instance do not overlap, and the
event thread counts down for the node of the call that waits. -/
def OwnerSafe (F : ZkFleet ι τ) (s : CallWorld ι τ) : ZkLabel ι τ → Prop
  | .lock t => ∀ t', F.inst t' = F.inst t → (s.world.user t').isIdle = true
  | .tryLock t => ∀ t', F.inst t' = F.inst t → (s.world.user t').isIdle = true
  | .unlock t => ∀ t', F.inst t' = F.inst t → (s.world.user t').isIdle = true
  | .user t r => (s.world.user t).waits = true → ¬ r.Failed
  | .event i _ => ∀ t, F.inst t = i → (s.world.user t).waits = true →
      (s.world.lock i).countsDown.all (fun self => decide ((s.node t).map childPath = some self)) = true
  | .expire _ => True

/-- The node is there, unless the session expired. -/
def NodeKept (zk : ZooKeeper ι) (i : ι) (c : String) : Prop := zk.hasLive c = true ∨ zk.expired i = true

/-- A thread whose call has the child `node` waits on the latch `k`: the latch is counted down
only if the node was granted. -/
def Waits (w : ZkWorld ι τ) (i : ι) (node : Option String) (k : ℕ) : Prop :=
  (∀ c, node = some c → NodeKept w.zk i c) ∧
    ((w.lock i).counts[k]? = some 0 → ∃ c, node = some c ∧ childPath c ∈ w.grants)

/-- What is known at a place of a user thread whose call has the child `node`. -/
def OwnerPlace (w : ZkWorld ι τ) (i : ι) (node : Option String) : UserPc → Prop
  | .assignSelf _ path => ∃ c, node = some c ∧ path = childPath c ∧ NodeKept w.zk i c
  | .isMin _ m => ∃ c, node = some c ∧ (w.lock i).selfPath = some (childPath c) ∧ NodeKept w.zk i c ∧
      ∀ self, m.counting = some self → self = childPath c
  | .newLatch => ∀ c, node = some c → NodeKept w.zk i c
  | .awaitLatch => ∃ k, (w.lock i).latch = some k ∧ Waits w i node k
  | .parked k => Waits w i node k
  | _ => True

/-- The instance is past `lock` with a node that was granted and is kept. -/
def Holds (F : ZkFleet ι τ) (w : ZkWorld ι τ) (i : ι) (node : Option String) : Prop :=
  ∃ c, node = some c ∧ childPath c ∈ w.grants ∧ Owned w.zk (F.name i) i (childPath c) ∧ NodeKept w.zk i c

/-- The invariant of the runs along `OwnerSafe`. -/
structure OwnerInv (F : ZkFleet ι τ) (s : CallWorld ι τ) : Prop where
  call : CallInv F s
  alone : ∀ t t', F.inst t' = F.inst t → t' ≠ t →
    (s.world.user t).isIdle = true ∨ (s.world.user t').isIdle = true
  user : ∀ t, OwnerPlace s.world (F.inst t) (s.node t) (s.world.user t)
  held : ∀ i, s.past i = true → Holds F s.world i (s.held i)
  free : ∀ t, s.past (F.inst t) = true → (s.world.user t).unlocking = false

theorem ownerInv_init (F : ZkFleet ι τ) : OwnerInv F (.init ι τ) := by
  refine ⟨callInv_init F, fun _ _ _ _ => .inl rfl, fun _ => trivial, fun i h => ?_, fun t h => ?_⟩
  · cases h
  · cases h

variable [DecidableEq ι] [DecidableEq τ] {F : ZkFleet ι τ} {w w' : ZkWorld ι τ} {s s' : CallWorld ι τ}
  {l : ZkLabel ι τ} {t : τ} {i : ι} {r : Reply} {c : String}

section Frame

omit [DecidableEq τ] in
theorem NodeKept.watch {zk : ZooKeeper ι} {j : ι} {c' : String} (h : NodeKept zk i c) :
    NodeKept (zk.watch j c') i c := by
  unfold NodeKept ZooKeeper.hasLive at h ⊢
  rw [(ZooKeeper.watch_nodes ..).1, (ZooKeeper.watch_sessions ..).2.1]
  exact h

omit [DecidableEq ι] [DecidableEq τ] in
theorem hasLive_remove {zk : ZooKeeper ι} {p : ZNode ι → Bool} (h : zk.hasLive c = true)
    (hp : ∀ n ∈ zk.nodes, n.name = c → p n = false) : (zk.remove p).hasLive c = true := by
  obtain ⟨n, hn, hlive, hname⟩ := ZooKeeper.hasLive_iff.1 h
  exact ZooKeeper.hasLive_iff.2 ⟨n, ZooKeeper.mem_remove_of_not hn fun _ => hp n hn hname, hlive, hname⟩

omit [DecidableEq τ] in
/-- A node is kept by every step but that of `unlock` of its instance. -/
theorem DirEffect.nodeKept {zk : ZooKeeper ι} (hdir : DirEffect F w l zk) (hgrant : GrantInv F w)
    (howned : Owned w.zk (F.name i) i (childPath c)) (h : NodeKept w.zk i c)
    (hunlock : ∀ t, l.thread = some t → l.session F = i → w.user t ≠ .unlockDelete) : NodeKept zk i c := by
  obtain ⟨n, hn, hpath, howner, -⟩ := howned
  obtain rfl := childPath_inj hpath
  have hown : ∀ n' ∈ w.zk.nodes, n'.name = n.name → n'.owner = i := by
    intro n' hn' hname
    rw [hgrant.ok.eq_of_name hn' hn hname]
    exact howner
  cases hdir with
  | same => exact h
  | createRoot => exact h
  | create _ =>
    refine h.imp (fun hlive => ?_) id
    obtain ⟨n', hn', hlive, hname⟩ := ZooKeeper.hasLive_iff.1 hlive
    exact ZooKeeper.hasLive_iff.2 ⟨n', List.mem_append_left _ hn', hlive, hname⟩
  | watch _ => exact h.watch
  | pop => exact h
  | @delete t self ht hu hself =>
    -- another instance deletes its own node
    refine h.imp (fun hlive => ?_) id
    refine hasLive_remove hlive fun n' hn' hname => ?_
    obtain ⟨m, hm, rfl, hmowner, -⟩ := hgrant.self _ _ hself
    rw [childName_childPath, beq_eq_false_iff_ne]
    intro hname'
    have heq := hgrant.ok.eq_of_name hn' hm hname'
    refine hunlock t ht ?_ hu
    rw [← hmowner, ← heq]
    exact hown n' hn' hname
  | expire =>
    by_cases hj : i = l.session F
    · subst hj
      exact .inr (Function.update_self ..)
    · refine h.imp (fun hlive => ?_) fun hexpired => ?_
      · refine hasLive_remove hlive fun n' hn' hname => ?_
        rw [hown n' hn' hname]
        exact beq_eq_false_iff_ne.2 hj
      · exact (Function.update_of_ne hj ..).trans hexpired

end Frame

section Places

omit [DecidableEq ι] [DecidableEq τ] in
theorem Waits.mono {node : Option String} {k : ℕ} (h : Waits w i node k)
    (hcount : (w'.lock i).counts[k]? = some 0 →
      (w.lock i).counts[k]? = some 0 ∨ ∃ c, node = some c ∧ childPath c ∈ w'.grants)
    (hgrants : ∀ path ∈ w.grants, path ∈ w'.grants)
    (hkept : ∀ c, node = some c → NodeKept w.zk i c → NodeKept w'.zk i c) : Waits w' i node k := by
  obtain ⟨hnode, hzero⟩ := h
  refine ⟨fun c hc => hkept c hc (hnode c hc), fun hz => ?_⟩
  rcases hcount hz with hz | hgranted
  · obtain ⟨c, hc, hgranted⟩ := hzero hz
    exact ⟨c, hc, hgrants _ hgranted⟩
  · exact hgranted

omit [DecidableEq ι] [DecidableEq τ] in
/-- What is known at a place depends on `selfPath`, the latch, the grants, which grow, and the
node, which is kept. -/
theorem OwnerPlace.mono {node : Option String} {pc : UserPc} (h : OwnerPlace w i node pc)
    (hself : (w'.lock i).selfPath = (w.lock i).selfPath) (hlatch : (w'.lock i).latch = (w.lock i).latch)
    (hcount : pc.waits = true → ∀ k : ℕ, (w'.lock i).counts[k]? = some 0 →
      (w.lock i).counts[k]? = some 0 ∨ ∃ c, node = some c ∧ childPath c ∈ w'.grants)
    (hgrants : ∀ path ∈ w.grants, path ∈ w'.grants)
    (hkept : ∀ c, node = some c → NodeKept w.zk i c → NodeKept w'.zk i c) : OwnerPlace w' i node pc := by
  cases pc with
  | assignSelf locking path =>
    obtain ⟨c, hc, hpath, hnode⟩ := h
    exact ⟨c, hc, hpath, hkept c hc hnode⟩
  | isMin locking m =>
    obtain ⟨c, hc, hpath, hnode, hcounting⟩ := h
    exact ⟨c, hc, by rw [hself]; exact hpath, hkept c hc hnode, hcounting⟩
  | newLatch => exact fun c hc => hkept c hc (h c hc)
  | awaitLatch =>
    obtain ⟨k, hk, hwaits⟩ := h
    exact ⟨k, by rw [hlatch]; exact hk, hwaits.mono (hcount rfl k) hgrants hkept⟩
  | parked k => exact Waits.mono h (hcount rfl k) hgrants hkept
  | _ => trivial

omit [DecidableEq ι] [DecidableEq τ] in
theorem ownerPlace_afterTry {node : Option String} (locking status : Bool)
    (h : ∀ c, node = some c → NodeKept w.zk i c) : OwnerPlace w i node (afterTry locking status) := by
  cases locking with
  | false => exact trivial
  | true =>
    cases status with
    | false => exact h
    | true => exact trivial

omit [DecidableEq τ] in
/-- What a step of `isMinPath` does where the node of the call is the own one: it counts down
for that node only, and leaves `selfPath`, the latch and the node. -/
theorem minEffect_owner {zk zk' : ZooKeeper ι} {st st' : DistributedLock} {m : MinPc} {result : MinResult}
    (h : MinEffect zk i st m r zk' st' result) (hself : st.selfPath = some (childPath c))
    (hm : ∀ self, m.counting = some self → self = childPath c) :
    ∀ self, result.counting = some self → self = childPath c := by
  intro self hcounting
  cases h with
  | first hs _ =>
    cases hcounting
    exact Option.some.inj (hs.symm.trans hself)
  | noLatch _ => exact hm self hcounting
  | hasLatch _ => exact hm self hcounting
  | countDown _ => exact hm self hcounting
  | failed _ _ hres => rcases hres with rfl | rfl <;> cases hcounting
  | _ => cases hcounting

omit [DecidableEq τ] in
/-- A step of `isMinPath` leaves `selfPath`, the latch and all nodes. -/
theorem minEffect_keeps {zk zk' : ZooKeeper ι} {st st' : DistributedLock} {m : MinPc} {result : MinResult}
    (h : MinEffect zk i st m r zk' st' result) : st'.selfPath = st.selfPath ∧ st'.latch = st.latch ∧
      ∀ j c', NodeKept zk j c' → NodeKept zk' j c' := by
  cases h with
  | watched _ => exact ⟨rfl, rfl, fun _ _ hnode => hnode.watch⟩
  | _ => exact ⟨rfl, rfl, fun _ _ hnode => hnode⟩

end Places

section Steps

omit [DecidableEq ι] [DecidableEq τ] in
theorem beforeCreate_none (h : CallInv F s) {locking : Bool} (hu : s.world.user t = .rootExists locking ∨
    s.world.user t = .rootCreate locking ∨ s.world.user t = .create locking) : s.node t = none := by
  refine h.fresh t ?_
  rcases hu with hu | hu | hu <;> rw [hu] <;> rfl

/-- A step that is no create leaves the child of the call. -/
theorem node_same (hs : callStep F s (.user t r) = some s') (hu : ∀ locking, s.world.user t ≠ .create locking) :
    s'.node t = s.node t := by
  rw [callStep_node hs]
  rcases nodeAfter_user (F := F) (s := s) (t := t) r with ⟨locking, seq, hcreate, -⟩ | hsame
  · exact absurd hcreate (hu locking)
  · exact hsame

/-- After a create the call has no child, or one that is there. -/
theorem node_created (h : CallInv F s) (hs : callStep F s (.user t r) = some s') {locking : Bool}
    (hu : s.world.user t = .create locking) : ∀ c, s'.node t = some c → NodeKept s'.world.zk (F.inst t) c := by
  intro c hc
  rw [callStep_node hs] at hc
  rcases nodeAfter_user (F := F) (s := s) (t := t) r with ⟨locking', seq, hcreate, hr, heq⟩ | hsame
  · rw [heq] at hc
    cases hc
    exact .inl (created_owned (callStep_world hs) hcreate hr).2
  · rw [hsame, beforeCreate_none h (.inr (.inr hu))] at hc
    cases hc

/-- The place of the thread that makes the step, from what its call has for a child. -/
theorem ownerPlace_effect {node node' : Option String} (h : UserEffect F w t r w')
    (hplace : OwnerPlace w (F.inst t) node (w.user t))
    (hsame : (∀ locking, w.user t ≠ .create locking) → node' = node)
    (hfresh : ∀ locking, w.user t = .rootExists locking ∨ w.user t = .rootCreate locking → node = none)
    (hnew : ∀ locking, w.user t = .create locking → ∀ c, node' = some c → NodeKept w'.zk (F.inst t) c)
    (hchild : ∀ locking seq, w.user t = .create locking → r = .ok seq → node' = some (F.child t seq)) :
    OwnerPlace w' (F.inst t) node' (w'.user t) := by
  have hgoto : ∀ {zk : ZooKeeper ι} {lock : ι → DistributedLock} {grants : List String} {pc : UserPc},
      OwnerPlace ⟨zk, lock, Function.update w.user t pc, grants⟩ (F.inst t) node' pc →
      OwnerPlace ⟨zk, lock, Function.update w.user t pc, grants⟩ (F.inst t) node'
        (Function.update w.user t pc t) := by
    intro zk lock grants pc hpc
    rw [Function.update_self]
    exact hpc
  have hnode_of : ∀ {pc : UserPc}, w.user t = pc → (∀ locking, pc ≠ .create locking) → node' = node := by
    intro pc hu hpc
    exact hsame fun locking hcreate => hpc locking (hu.symm.trans hcreate)
  cases h with
  | @root r locking pc zk hu hzk hpc =>
    have hnode : node' = none := by
      rw [← hfresh locking hu]
      rcases hu with hu | hu
      · exact hnode_of hu (by simp)
      · exact hnode_of hu (by simp)
    refine hgoto ?_
    rcases hpc with rfl | rfl | ⟨-, rfl⟩
    · exact trivial
    · exact trivial
    · exact ownerPlace_afterTry locking false fun c hc => by rw [hnode] at hc; cases hc
  | @created locking seq hu hc =>
    refine hgoto ⟨F.child t seq, hchild locking seq hu rfl, rfl, ?_⟩
    exact hnew locking hu _ (hchild locking seq hu rfl)
  | @createFailed r locking hu _ => exact hgoto (ownerPlace_afterTry locking false (hnew locking hu))
  | @createLost r locking seq hu _ _ => exact hgoto (ownerPlace_afterTry locking false (hnew locking hu))
  | @assignSelf locking path hu =>
    rw [hu] at hplace
    obtain ⟨c, hc, rfl, hkept⟩ := hplace
    have hnode : node' = some c := by rw [hnode_of hu (by simp), hc]
    refine hgoto ⟨c, hnode, ?_, hkept, fun self hself => nomatch hself⟩
    show (Function.update w.lock _ _ _).selfPath = _
    rw [Function.update_self]
  | @isMin r locking m zk st result hu hmin =>
    rw [hu] at hplace
    obtain ⟨c, hc, hself, hkept, hcounting⟩ := hplace
    have hnode : node' = some c := by rw [hnode_of hu (by simp), hc]
    obtain ⟨hself', -, hkeep⟩ := minEffect_keeps hmin
    have hnext := minEffect_owner hmin hself hcounting
    have hkept' := hkeep _ _ hkept
    have hlock : (Function.update w.lock (F.inst t) st (F.inst t)).selfPath = some (childPath c) := by
      rw [Function.update_self, hself', hself]
    have hafter : ∀ c', node' = some c' → NodeKept zk (F.inst t) c' := by
      intro c' hc'
      rw [hnode] at hc'
      cases hc'
      exact hkept'
    cases result with
    | goto m' => exact hgoto ⟨c, hnode, hlock, hkept', hnext⟩
    | granted self => exact hgoto (ownerPlace_afterTry locking true hafter)
    | refused => exact hgoto (ownerPlace_afterTry locking false hafter)
    | threw => exact hgoto (ownerPlace_afterTry locking false hafter)
  | newLatch hu =>
    rw [hu] at hplace
    have hnode : node' = node := hnode_of hu (by simp)
    have hwaits : Waits ((w.setLock (F.inst t) { w.lock (F.inst t) with
        latch := some (w.lock (F.inst t)).counts.length
        counts := (w.lock (F.inst t)).counts ++ [1] }).goto t .awaitLatch) (F.inst t) node'
        (w.lock (F.inst t)).counts.length := by
      rw [hnode]
      refine ⟨hplace, fun hzero => ?_⟩
      -- the new latch has count 1
      have hlock : ((w.setLock (F.inst t) { w.lock (F.inst t) with
          latch := some (w.lock (F.inst t)).counts.length
          counts := (w.lock (F.inst t)).counts ++ [1] }).goto t .awaitLatch).lock (F.inst t) = _ := setLock_lock ..
      rw [hlock] at hzero
      simp at hzero
    refine hgoto ⟨(w.lock (F.inst t)).counts.length, ?_, hwaits⟩
    show (Function.update w.lock _ _ _).latch = _
    rw [Function.update_self]
  | @awaitLatch k hu hk =>
    rw [hu] at hplace
    have hnode : node' = node := hnode_of hu (by simp)
    obtain ⟨k', hk', hwaits⟩ := hplace
    obtain rfl : k = k' := Option.some.inj (hk.symm.trans hk')
    rw [hnode] at hgoto ⊢
    exact hgoto hwaits
  | unpark _ => exact hgoto trivial
  | unlock _ hpc => rcases hpc with rfl | rfl <;> exact hgoto trivial
  | deleted _ _ => exact hgoto trivial
  | deleteFailed _ => exact hgoto trivial

/-- The place of the thread that makes the step. -/
theorem ownerPlace_user (h : OwnerInv F s) (hs : callStep F s (.user t r) = some s') :
    OwnerPlace s'.world (F.inst t) (s'.node t) (s'.world.user t) := by
  have hchild : ∀ locking seq, s.world.user t = .create locking → r = .ok seq → s'.node t = some (F.child t seq) := by
    rintro locking seq hu rfl
    rw [callStep_node hs]
    simp [nodeAfter, ZkFleet.created, hu]
  cases zkStep_effect (callStep_world hs) with
  | user hu =>
    refine ownerPlace_effect hu (h.user t) (node_same hs) (fun locking hpc => ?_) (fun locking hpc => ?_) hchild
    · exact beforeCreate_none h.call (hpc.imp_right Or.inl)
    · exact node_created h.call hs hpc

omit [DecidableEq τ] in
/-- A step of the event thread leaves `selfPath` and `latch`, and counts down for a node that it
grants. -/
theorem eventEffect_lock (he : EventEffect w i r w') : (w'.lock i).selfPath = (w.lock i).selfPath ∧
    (w'.lock i).latch = (w.lock i).latch ∧ ((w'.lock i).counts = (w.lock i).counts ∨
      ∃ self, (w.lock i).event = some (.countDown self) ∧ self ∈ w'.grants) := by
  have hset : ∀ (st : DistributedLock) (event : Option MinPc), st.selfPath = (w.lock i).selfPath →
      st.latch = (w.lock i).latch → w'.lock = Function.update w.lock i { st with event := event } →
      (st.counts = (w.lock i).counts ∨ ∃ self, (w.lock i).event = some (.countDown self) ∧ self ∈ w'.grants) →
      (w'.lock i).selfPath = (w.lock i).selfPath ∧ (w'.lock i).latch = (w.lock i).latch ∧
        ((w'.lock i).counts = (w.lock i).counts ∨
          ∃ self, (w.lock i).event = some (.countDown self) ∧ self ∈ w'.grants) := by
    intro st event hself hlatch hlock hcounts
    rw [hlock, Function.update_self]
    exact ⟨hself, hlatch, hcounts⟩
  cases he with
  | ignore _ _ _ => exact hset (w.lock i) none rfl rfl rfl (.inl rfl)
  | process _ _ _ => exact hset (w.lock i) (some .getChildren) rfl rfl rfl (.inl rfl)
  | @isMin r m zk st result hev hmin =>
    obtain ⟨hself, hlatch, -⟩ := minEffect_keeps hmin
    refine hset st _ hself hlatch (eventMin_eq w i st result).2 ?_
    cases hmin with
    | countDown _ => exact .inr ⟨_, hev, List.mem_cons_self⟩
    | _ => exact .inl rfl

end Steps

section Calls

theorem user_busy (hs : userStep F w t r = some w') : (w.user t).isIdle = false := by
  unfold userStep at hs
  cases hu : w.user t with
  | idle result =>
    simp only [hu] at hs
    cases hs
  | _ => rfl

/-- When a thread makes a step, the other threads of its instance are in no call. -/
theorem others_idle (h : OwnerInv F s) (hok : OwnerSafe F s l) (hs : zkStep F s.world l = some w')
    (ht : l.thread = some t) {t' : τ} (hinst : F.inst t' = F.inst t) (hne : t' ≠ t) :
    (s.world.user t').isIdle = true := by
  cases l with
  | lock t₀ => cases ht; exact hok t' hinst
  | tryLock t₀ => cases ht; exact hok t' hinst
  | unlock t₀ => cases ht; exact hok t' hinst
  | user t₀ r =>
    cases ht
    rcases h.alone t t' hinst hne with hidle | hidle
    · rw [user_busy hs] at hidle
      cases hidle
    · exact hidle
  | event j r => cases ht
  | expire j => cases ht

/-- The node of a call is kept as long as the call lasts. -/
theorem node_kept (h : OwnerInv F s) (hs : zkStep F s.world l = some w') (hbusy : (s.world.user t).isIdle = false)
    (hothers : ∀ t', l.thread = some t' → F.inst t' = F.inst t → (s.world.user t).isIdle = true)
    (hc : s.node t = some c) (hkept : NodeKept s.world.zk (F.inst t) c) : NodeKept w'.zk (F.inst t) c := by
  refine (zkStep_dir hs).nodeKept h.call.grant (h.call.owned t c hc) hkept fun t' ht' hinst => ?_
  have hidle := hothers t' ht' ((session_of_thread ht').symm.trans hinst)
  rw [hbusy] at hidle
  cases hidle

/-- The place of a thread that does not make the step. -/
theorem ownerPlace_other (h : OwnerInv F s) (hok : OwnerSafe F s l) (hs : zkStep F s.world l = some w')
    (ht : l.thread ≠ some t) : OwnerPlace w' (F.inst t) (s.node t) (s.world.user t) := by
  cases hidle : (s.world.user t).isIdle with
  | true =>
    cases hu : s.world.user t with
    | idle result => exact trivial
    | _ => rw [hu] at hidle; cases hidle
  | false =>
    -- the call of the thread goes on, so no other thread of the instance makes the step
    have hothers : ∀ t', l.thread = some t' → F.inst t' = F.inst t → (s.world.user t).isIdle = true := by
      intro t' ht' hinst
      refine others_idle h hok hs ht' hinst.symm ?_
      rintro rfl
      exact ht ht'
    have hgrants := (history_step h.call.grant hs).1
    have hkept : ∀ c, s.node t = some c → NodeKept s.world.zk (F.inst t) c → NodeKept w'.zk (F.inst t) c :=
      fun c hc => node_kept h hs hidle hothers hc
    by_cases hinst : l.session F = F.inst t
    · have hthread : ∀ t', l.thread = some t' → F.inst t' ≠ F.inst t := by
        intro t' ht' hinst'
        have htrue := hothers t' ht' hinst'
        rw [hidle] at htrue
        cases htrue
      cases l with
      | event j r =>
        cases hinst
        cases zkStep_effect hs with
        | event he =>
          obtain ⟨hself, hlatch, hcounts⟩ := eventEffect_lock he
          refine OwnerPlace.mono (h.user t) hself hlatch (fun hwaits k hzero => ?_) hgrants hkept
          rcases hcounts with hcounts | ⟨self, hev, hgranted⟩
          · exact .inl (by rw [← hcounts]; exact hzero)
          · have hown := hok t rfl hwaits
            simp only [DistributedLock.countsDown, hev, Option.all_some, decide_eq_true_eq] at hown
            obtain ⟨c, hc, rfl⟩ := Option.map_eq_some_iff.1 hown
            exact .inr ⟨c, hc, hgranted⟩
      | expire j =>
        cases zkStep_effect hs with
        | expire => exact OwnerPlace.mono (h.user t) rfl rfl (fun _ _ hzero => .inl hzero) hgrants hkept
      | lock t' => exact absurd hinst (hthread t' rfl)
      | tryLock t' => exact absurd hinst (hthread t' rfl)
      | unlock t' => exact absurd hinst (hthread t' rfl)
      | user t' r => exact absurd hinst (hthread t' rfl)
    · have hlock := zkStep_lock_other hs (Ne.symm hinst)
      refine OwnerPlace.mono (h.user t) ?_ ?_ (fun _ k hzero => .inl ?_) hgrants hkept
      · rw [hlock]
      · rw [hlock]
      · rwa [hlock] at hzero

/-- A thread that waits and is not interrupted goes on when the latch is counted down. -/
theorem unpark_zero {k : ℕ} (hu : w.user t = .parked k) (hr : ¬ r.Failed) (hs : userStep F w t r = some w') :
    (w.lock (F.inst t)).counts[k]? = some 0 ∧ w' = w.goto t (.idle none) := by
  cases r with
  | silent =>
    simp only [userStep, hu] at hs
    split at hs
    · rename_i hzero
      cases hs
      exact ⟨hzero, rfl⟩
    · cases hs
  | ok n =>
    simp only [userStep, hu] at hs
    cases hs
  | fail b executed => exact absurd trivial hr

omit [DecidableEq ι] [DecidableEq τ] in
/-- `lock` does not return without a grant, but waits. -/
theorem afterTry_returns {locking status : Bool} (hin : locking = true) (hend : afterTry locking status = .idle none) :
    status = true := by
  subst hin
  cases status with
  | false => cases hend
  | true => rfl

omit [DecidableEq ι] [DecidableEq τ] in
/-- `lock` returns out of `isMinPath`, or from its wait. -/
theorem UserMove.returns {pc pc' : UserPc} (h : UserMove pc pc') (hin : pc.inLock = true) (hend : pc' = .idle none) :
    (∃ m, pc = .isMin true m) ∨ ∃ k, pc = .parked k := by
  cases h with
  | @root locking _ _ hpc hpc' =>
    have hlocking : locking = true := by rcases hpc with rfl | rfl <;> exact hin
    subst hend
    rcases hpc' with hpc' | hpc' | hpc'
    · cases hpc'
    · cases hpc'
    · cases afterTry_returns hlocking hpc'.symm
  | notCreated => cases afterTry_returns hin hend
  | @afterMin locking _ m =>
    have hlocking : locking = true := hin
    exact .inl ⟨m, by rw [hlocking]⟩
  | @unpark k => exact .inr ⟨k, rfl⟩
  | unlock _ => cases hin
  | deleted => cases hin
  | _ => cases hend

/-- **A call of `lock` returns to the owner.** -/
theorem effect_returns {node : Option String} (hs : userStep F w t r = some w')
    (hplace : OwnerPlace w (F.inst t) node (w.user t)) (hok : (w.user t).waits = true → ¬ r.Failed)
    (hret : Returns w w' t) : ∃ c, node = some c ∧ childPath c ∈ w'.grants ∧ NodeKept w'.zk (F.inst t) c := by
  obtain ⟨hin, hend⟩ := hret
  rcases (userStep_effect hs).move.returns hin hend with ⟨m, hu⟩ | ⟨k, hu⟩
  · rw [hu] at hplace
    obtain ⟨c, hc, hself, hkept, hcounting⟩ := hplace
    simp only [userStep, hu] at hs
    obtain ⟨⟨zk, st, result⟩, hmin, heq⟩ := Option.map_eq_some_iff.1 hs
    have hmin := minStep_effect hmin
    rw [← heq] at hend ⊢
    have hgoto : ∀ {v : ZkWorld ι τ} {pc : UserPc}, (v.goto t pc).user t = .idle none → pc = .idle none := by
      intro v pc hpc
      rwa [goto_user] at hpc
    cases result with
    | goto m' => cases hgoto hend
    | granted self =>
      obtain rfl : self = childPath c := minEffect_owner hmin hself hcounting self rfl
      exact ⟨c, hc, List.mem_cons_self, (minEffect_keeps hmin).2.2 _ _ hkept⟩
    | refused => cases hgoto hend
    | threw => cases hgoto hend
  · rw [hu] at hplace hok
    obtain ⟨hnode, hzero⟩ := hplace
    obtain ⟨hcount, rfl⟩ := unpark_zero hu (hok rfl) hs
    obtain ⟨c, hc, hgranted⟩ := hzero hcount
    exact ⟨c, hc, hgranted, hnode c hc⟩

theorem returns_owner (h : OwnerInv F s) (hok : OwnerSafe F s (.user t r)) (hs : callStep F s (.user t r) = some s')
    (hret : Returns s.world s'.world t) :
    ∃ c, s.node t = some c ∧ childPath c ∈ s'.world.grants ∧ NodeKept s'.world.zk (F.inst t) c :=
  effect_returns (callStep_world hs) (h.user t) hok hret

omit [DecidableEq ι] [DecidableEq τ] in
/-- A thread is inside `unlock` from its call of `unlock` on. -/
theorem UserMove.unlocking {pc pc' : UserPc} (h : UserMove pc pc') (hu : pc'.unlocking = true) :
    pc.unlocking = true := by
  have hafter : ∀ locking status, (afterTry locking status).unlocking = false := by
    intro locking status
    cases locking <;> cases status <;> rfl
  cases h with
  | root _ hpc =>
    rcases hpc with rfl | rfl | rfl
    · cases hu
    · cases hu
    · rw [hafter] at hu; cases hu
  | notCreated => rw [hafter] at hu; cases hu
  | afterMin => rw [hafter] at hu; cases hu
  | unlock _ => rfl
  | deleted => rfl
  | _ => cases hu

omit [DecidableEq ι] [DecidableEq τ] in
theorem not_unlocking_of_idle {pc : UserPc} (h : pc.isIdle = true) : pc.unlocking = false := by
  cases pc with
  | idle result => rfl
  | _ => cases h

/-- A step moves a thread into `unlock` only if it is that call. -/
theorem unlocking_step (hs : zkStep F w l = some w') (hl : l ≠ .unlock t) (hu : (w'.user t).unlocking = true) :
    (w.user t).unlocking = true := by
  by_cases ht : l.thread = some t
  · cases zkStep_effect hs with
    | lock _ =>
      cases ht
      rw [goto_user] at hu
      cases hu
    | tryLock _ =>
      cases ht
      rw [goto_user] at hu
      cases hu
    | unlock _ =>
      cases ht
      exact absurd rfl hl
    | user he =>
      cases ht
      exact he.move.unlocking hu
    | event _ => cases ht
    | expire => cases ht
  · rwa [zkStep_other hs ht] at hu

/-- Nothing is known where a call starts. -/
theorem ownerPlace_start {node : Option String} (hs : zkStep F w l = some w') (ht : l.thread = some t)
    (hl : ∀ r, l ≠ .user t r) : OwnerPlace w' i node (w'.user t) := by
  cases zkStep_effect hs with
  | lock _ =>
    cases ht
    rw [goto_user]
    exact trivial
  | tryLock _ =>
    cases ht
    rw [goto_user]
    exact trivial
  | unlock _ =>
    cases ht
    rw [goto_user]
    exact trivial
  | user _ =>
    cases ht
    exact absurd rfl (hl _)
  | event _ => cases ht
  | expire => cases ht

theorem ownerInv_step (h : OwnerInv F s) (hok : OwnerSafe F s l) (hs : callStep F s l = some s') : OwnerInv F s' := by
  have hzk := callStep_world hs
  have hcall := callInv_step h.call hs
  obtain ⟨hgrants, hgrows⟩ := history_step h.call.grant hzk
  have hidle : ∀ t t', l.thread = some t → F.inst t' = F.inst t → t' ≠ t → (s'.world.user t').isIdle = true := by
    intro t t' ht hinst hne
    rw [zkStep_other hzk (by rw [ht]; exact fun heq => hne (Option.some.inj heq).symm)]
    exact others_idle h hok hzk ht hinst hne
  refine ⟨hcall, fun t t' hinst hne => ?_, fun t => ?_, fun i hpast => ?_, fun t hpast => ?_⟩
  · by_cases ht : l.thread = some t
    · exact .inr (hidle t t' ht hinst hne)
    · by_cases ht' : l.thread = some t'
      · exact .inl (hidle t' t ht' hinst.symm hne.symm)
      · rw [zkStep_other hzk ht, zkStep_other hzk ht']
        exact h.alone t t' hinst hne
  · by_cases ht : l.thread = some t
    · by_cases hl : ∃ r, l = .user t r
      · obtain ⟨r, rfl⟩ := hl
        exact ownerPlace_user h hs
      · exact ownerPlace_start hzk ht fun r heq => hl ⟨r, heq⟩
    · rw [callStep_node hs, nodeAfter_other ht, zkStep_other hzk ht]
      exact ownerPlace_other h hok hzk ht
  · rcases callStep_past hs hpast with ⟨hpast, hheld, -⟩ | ⟨t, r, rfl, rfl, hret, hheld⟩
    · obtain ⟨c, hc, hgranted, howned, hkept⟩ := h.held i hpast
      refine ⟨c, hheld.trans hc, hgrants _ hgranted, howned.mono hgrows, ?_⟩
      refine (zkStep_dir hzk).nodeKept h.call.grant howned hkept fun t ht hinst hu => ?_
      have hfree := h.free t (by rw [← session_of_thread ht, hinst]; exact hpast)
      rw [hu] at hfree
      cases hfree
    · obtain ⟨c, hc, hgranted, hkept⟩ := returns_owner h hok hs hret
      exact ⟨c, hheld.trans hc, hgranted, (h.call.owned t c hc).mono hgrows, hkept⟩
  · rcases callStep_past hs hpast with ⟨hpast, -, hnot⟩ | ⟨t', r, rfl, hinst, hret, -⟩
    · have hfree := h.free t hpast
      by_contra hu
      rw [unlocking_step hzk (fun heq => hnot t heq rfl) (by simpa using hu)] at hfree
      cases hfree
    · by_cases htt : t = t'
      · subst htt
        rw [hret.2]
        rfl
      · exact not_unlocking_of_idle (hidle t' t rfl hinst.symm htt)

omit [DecidableEq ι] [DecidableEq τ] in
/-- Two nodes of one name that are granted and there are one node. -/
theorem holds_unique (h : GrantInv F w) {i j : ι} {node node' : Option String} (hi : Holds F w i node)
    (hj : Holds F w j node') (hname : F.name i = F.name j) (hexi : w.zk.expired i = false)
    (hexj : w.zk.expired j = false) : i = j := by
  -- a node that is held is live, and no older node of its name is
  have hleast : ∀ {i : ι} {node : Option String}, Holds F w i node → w.zk.expired i = false →
      ∃ n ∈ w.zk.nodes, n.owner = i ∧ n.base = F.name i ∧ n.Live ∧
        ∀ y ∈ w.zk.nodes, y.base = n.base → y.seq < n.seq → ¬ y.Live := by
    rintro i node ⟨c, -, hgranted, ⟨n, hn, hpath, howner, hbase⟩, hkept⟩ hexpired
    obtain rfl := childPath_inj hpath
    have hthere : w.zk.hasLive n.name = true := hkept.resolve_right (by rw [hexpired]; exact Bool.false_ne_true)
    obtain ⟨n', hn', hlive, hname⟩ := ZooKeeper.hasLive_iff.1 hthere
    obtain rfl := h.ok.eq_of_name hn' hn hname
    obtain ⟨x, hx, hxpath, hx'⟩ := h.grants _ hgranted
    obtain rfl := h.ok.eq_of_name hx hn (childPath_inj hxpath)
    exact ⟨x, hx, howner, hbase, hlive, hx'⟩
  obtain ⟨n, hn, rfl, hbase, hlive, hold⟩ := hleast hi hexi
  obtain ⟨n', hn', rfl, hbase', hlive', hold'⟩ := hleast hj hexj
  have hsame : n.base = n'.base := by rw [hbase, hbase', hname]
  rcases h.ok.order n hn n' hn' with rfl | ⟨hlt, -⟩ | ⟨hlt, -⟩
  · rfl
  · exact absurd hlive (hold' n hn hsame hlt)
  · exact absurd hlive' (hold n' hn' hsame.symm hlt)

/-- **`lock` returns to the owner.** In every run in which no waiting thread is interrupted, the
calls on one instance do not overlap and the event threads count down for the node of the call
that waits: when `lock` returns, `isMinPath` returned true for the node that its call created,
which is there unless the session expired; and two instances of one name with live sessions are
never both past `lock`. -/
theorem lock_returns_owner (F : ZkFleet ι τ) {ls : List (ZkLabel ι τ)} {s : CallWorld ι τ}
    (hrun : exec (callStep F) (.init ι τ) ls = some s) (hok : Along (callStep F) (OwnerSafe F) (.init ι τ) ls) :
    (∀ t r s', callStep F s (.user t r) = some s' → OwnerSafe F s (.user t r) → Returns s.world s'.world t →
      ∃ c, s.node t = some c ∧ childPath c ∈ s'.world.grants ∧
        (s'.world.zk.hasLive c = true ∨ s'.world.zk.expired (F.inst t) = true)) ∧
      ∀ i j, s.past i = true → s.past j = true → F.name i = F.name j → s.world.zk.expired i = false →
        s.world.zk.expired j = false → i = j := by
  have h : OwnerInv F s := inv_of_along (fun _ _ _ => ownerInv_step) (ownerInv_init F) hok hrun
  refine ⟨fun t r s' hs hsafe hret => returns_owner h hsafe hs hret, fun i j hi hj hname hexi hexj => ?_⟩
  exact holds_unique h.call.grant (h.held i hi) (h.held j hj) hname hexi hexj

end Calls

instance (s : CallWorld Bool Bool) : DecidablePred (OwnerSafe twoZkLocks s)
  | .lock _ => inferInstanceAs (Decidable (∀ _, _))
  | .tryLock _ => inferInstanceAs (Decidable (∀ _, _))
  | .unlock _ => inferInstanceAs (Decidable (∀ _, _))
  | .user _ _ => inferInstanceAs (Decidable (_ → _))
  | .event _ _ => inferInstanceAs (Decidable (∀ _, _))
  | .expire _ => isTrue trivial

/-- The lock is handed over, and the second `lock` returns with the node of its call. -/
theorem lock_returns_owner_handover : ∃ s s',
    exec (callStep twoZkLocks) (.init Bool Bool) (takes ++ handsOver.dropLast) = some s ∧
    callStep twoZkLocks s (.user true .silent) = some s' ∧ Returns s.world s'.world true ∧
    s.node true = some "sub0000000001" ∧ childPath "sub0000000001" ∈ s'.world.grants ∧
    s'.world.zk.hasLive "sub0000000001" = true := by
  have heval : (exec (callStep twoZkLocks) (.init Bool Bool) (takes ++ handsOver.dropLast)).any (fun s =>
      decide (s.node true = some "sub0000000001" ∧ OwnerSafe twoZkLocks s (.user true .silent)) &&
        (callStep twoZkLocks s (.user true .silent)).any fun s' =>
          decide (Returns s.world s'.world true ∧ s'.world.zk.expired true = false)) = true := by decide +kernel
  obtain ⟨s, hrun, hs⟩ := (Option.any_eq_true _ _).1 heval
  obtain ⟨hs, hend⟩ := Bool.and_eq_true_iff.1 hs
  obtain ⟨hnode, hsafe⟩ := of_decide_eq_true hs
  obtain ⟨s', hstep, hend⟩ := (Option.any_eq_true _ _).1 hend
  obtain ⟨hret, hexpired⟩ := of_decide_eq_true hend
  obtain ⟨c, hc, hgranted, hkept⟩ :=
    (lock_returns_owner twoZkLocks hrun (by decide +kernel)).1 true .silent s' hstep hsafe hret
  obtain rfl : "sub0000000001" = c := Option.some.inj (hnode.symm.trans hc)
  have hthere := hkept.resolve_right fun htrue => Bool.false_ne_true (hexpired.symm.trans htrue)
  exact ⟨s, s', hrun, hstep, hret, hnode, hgranted, hthere⟩

/-- The second thread waits for the first one, which has the lock, and is interrupted. -/
def interrupted : List (ZkLabel Bool Bool) :=
  takes ++ handsOver.take 10 ++ [.user true (.fail true none)]

/-- Both instances are past `lock`, and only the first was granted. -/
theorem two_past_lock : ∃ s, exec (callStep twoZkLocks) (.init Bool Bool) interrupted = some s ∧ s.past false = true ∧
    s.past true = true ∧ s.world.grants = ["/lock/sub0000000000"] ∧ s.held true = some "sub0000000001" ∧
    s.world.zk.expired false = false ∧ s.world.zk.expired true = false := by
  have heval : (exec (callStep twoZkLocks) (.init Bool Bool) interrupted).any (fun s =>
      decide (s.past false = true ∧ s.past true = true ∧ s.world.grants = ["/lock/sub0000000000"] ∧
        s.held true = some "sub0000000001" ∧ s.world.zk.expired false = false ∧
        s.world.zk.expired true = false)) = true := by decide +kernel
  obtain ⟨s, hrun, hs⟩ := (Option.any_eq_true _ _).1 heval
  exact ⟨s, hrun, of_decide_eq_true hs⟩

end StudyTech
