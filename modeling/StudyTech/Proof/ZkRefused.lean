import Mathlib.Data.Fintype.Basic
import StudyTech.Proof.ZkPredecessor
import StudyTech.Proof.ZkTry
import StudyTech.Spec.MinPath

/-!
# Refused calls of `tryLock`

The public `tryLock` is the first half of `lock`: where it returns false it leaves its node
among the children, as `lock` needs it. So a refused call leaves nothing behind only if its
node was not created, or is gone by then. That is so unless a reply is lost, a smaller child
is there when the call looks for its predecessor, or another call of the instance gets in
between (`RefusesCleanly`). In the runs without that, the lock is free when the nodes of the
other calls are gone (`refused_leaves_nothing`); otherwise it is not (`refused_blocks`).
-/

namespace StudyTech

open Lib

variable {ι τ : Type}

/-- The node of the thread's call is not there, or gone. -/
def CallWorld.gone (s : CallWorld ι τ) (t : τ) : Bool := (s.node t).all fun c => !s.world.zk.hasLive c

/-- The call threw, and the server made the write all the same. -/
def Reply.lost : Reply → Bool
  | .fail _ executed => executed.isSome
  | _ => false

def Reply.interrupted : Reply → Bool
  | .fail interrupted _ => interrupted
  | _ => false

/-- `isMinPath` has found the own node first. -/
def MinPc.decided : MinPc → Bool
  | .latchNull _ => true
  | .countDown _ => true
  | _ => false

/-- The thread is in a public `tryLock` that `isMinPath` has not decided. -/
def UserPc.undecided : UserPc → Bool
  | .isMin false m => !m.decided
  | _ => false

/-- The thread is about to write `selfPath`, in `lock` or in `tryLock`. -/
def UserPc.assigns : UserPc → Option Bool
  | .assignSelf locking _ => some locking
  | _ => none

/-- What a step of thread `t` has to keep to: a public `tryLock` does not lose the reply of its
create. While its node is there, its `getChildren` does not fail, its `getData` is not
interrupted and finds no smaller child, and no other call of the instance writes `selfPath`;
when it writes `selfPath` itself, the instance has created no later node. -/
structure CleanStep (F : ZkFleet ι τ) (s : CallWorld ι τ) (t : τ) (r : Reply) : Prop where
  create : s.world.user t = .create false → r.lost = false
  getChildren : s.world.user t = .isMin false .getChildren → r.Failed → s.gone t = true
  getData : s.world.user t = .isMin false .getData → r.interrupted = true → s.gone t = true
  smallest : s.world.user t = .isMin false .getData → s.gone t = true ∨ ∀ z ∈ r.version, ∀ c ∈ s.node t,
    ∀ c' ∈ s.world.zk.children z, ¬ utf16 c' < utf16 c
  others : (s.world.user t).assigns.isSome = true → ∀ t', t' ≠ t → F.inst t' = F.inst t →
    (s.world.user t').undecided = true → s.gone t' = true
  newest : (s.world.user t).assigns = some false → s.gone t = true ∨ ∀ c ∈ s.node t,
    ∀ n ∈ s.world.zk.nodes, n.owner = F.inst t → ¬ utf16 c < utf16 n.name

/-- The condition on the directory, the replies and the calls of the instance. -/
def RefusesCleanly (F : ZkFleet ι τ) (s : CallWorld ι τ) : ZkLabel ι τ → Prop
  | .user t r => CleanStep F s t r
  | _ => True

/-- The call with the child `c` has the fields of the instance to itself: `selfPath` is its own,
the predecessors that are looked for are before it, and what was listed has it. -/
structure Undisturbed (F : ZkFleet ι τ) (w : ZkWorld ι τ) (i : ι) (c : String) (m : MinPc) : Prop where
  self : (w.lock i).selfPath = some (childPath c)
  sought : ∀ path, Sought F w i path → utf16 (childName path) < utf16 c
  lists : ∀ subNodes, m = .indexOf subNodes → c ∈ subNodes

/-- What is known at a place of a user thread. -/
def RefusedPlace (F : ZkFleet ι τ) (s : CallWorld ι τ) (t : τ) : UserPc → Prop
  | .assignSelf _ path => ∃ c, s.node t = some c ∧ path = childPath c
  | .isMin false m => ∃ c, s.node t = some c ∧
      (m.decided = false → s.world.zk.hasLive c = true → Undisturbed F s.world (F.inst t) c m)
  | _ => True

/-- The invariant of the runs along `RefusesCleanly`. -/
structure RefusedInv (F : ZkFleet ι τ) (s : CallWorld ι τ) : Prop where
  call : CallInv F s
  timely : s.world.zk.Timely
  notifies : s.world.zk.Notifies
  placed : Placed F s.world
  user : ∀ t, RefusedPlace F s t (s.world.user t)
  known : ∀ c ∈ s.refused, ∃ n ∈ s.world.zk.nodes, n.name = c
  gone : ∀ c ∈ s.refused, s.world.zk.hasLive c = false

theorem refusedInv_init (F : ZkFleet ι τ) : RefusedInv F (.init ι τ) :=
  ⟨callInv_init F, .init ι, .init ι, placed_init F, fun _ => trivial, fun _ h => (nomatch h), fun _ h => nomatch h⟩

section Steps

variable [DecidableEq ι] {F : ZkFleet ι τ} {s s' : CallWorld ι τ} {w w' : ZkWorld ι τ} {l : ZkLabel ι τ} {t : τ}
  {r : Reply}

/-- The step of `isMinPath` makes it return false, or throw: the own node is not listed, the
predecessor is found, or a call fails. -/
def minRefuses (zk : ZooKeeper ι) (st : DistributedLock) : MinPc → Reply → Bool
  | .getChildren, .fail _ _ => true
  | .indexOf subNodes, _ => st.selfPath.all fun self => !subNodes.contains (childName self)
  | .getData, .ok z => st.waitPath.any fun path => (zk.children z).contains (childName path)
  | .getData, .fail interrupted _ => interrupted
  | _, _ => false

/-- A step of `isMinPath` that ends it without a grant leaves the nodes. -/
theorem minStep_refuses {zk zk' : ZooKeeper ι} {i : ι} {st st' : DistributedLock} {m : MinPc} {result : MinResult}
    (h : minStep zk i st m r = some (zk', st', result)) (hresult : result = .refused ∨ result = .threw) :
    minRefuses zk st m r = true ∧ zk'.nodes = zk.nodes := by
  have hgoto : ∀ m', result ≠ .goto m' := by
    rintro m' rfl
    rcases hresult with hresult | hresult <;> cases hresult
  have hgranted : ∀ self, result ≠ .granted self := by
    rintro self rfl
    rcases hresult with hresult | hresult <;> cases hresult
  unfold minStep at h
  split at h
  case h_1 z =>
    split at h
    · cases h; exact absurd rfl (hgoto _)
    · cases h
  case h_2 => cases h; exact ⟨rfl, rfl⟩
  case h_3 subNodes =>
    split at h
    · cases h
    · rename_i self hself
      split at h
      · rename_i hidx
        cases h
        have hnot : childName self ∉ subNodes := List.idxOf?_eq_none_iff.1 hidx
        refine ⟨?_, rfl⟩
        simp [minRefuses, hself, hnot]
      · cases h; exact absurd rfl (hgoto _)
      · obtain ⟨prev, -, heq⟩ := Option.map_eq_some_iff.1 h
        cases heq
        exact absurd rfl (hgoto _)
  case h_4 self =>
    split at h
    · cases h; exact absurd rfl (hgranted _)
    · cases h; exact absurd rfl (hgoto _)
  case h_5 =>
    obtain ⟨k, -, heq⟩ := Option.map_eq_some_iff.1 h
    cases heq
    exact absurd rfl (hgranted _)
  case h_6 => cases h; exact absurd rfl (hgoto _)
  case h_7 z =>
    split at h
    · cases h
    · rename_i path hpath
      split at h
      · split at h
        · rename_i hfound
          cases h
          refine ⟨?_, (ZooKeeper.watch_nodes ..).1⟩
          simp [minRefuses, hpath, hfound]
        · cases h; exact absurd rfl (hgoto _)
      · cases h
  case h_8 interrupted executed =>
    cases interrupted with
    | true => cases h; exact ⟨rfl, rfl⟩
    | false => cases h; exact absurd rfl (hgoto _)
  case h_9 => cases h

variable [DecidableEq τ]

omit [DecidableEq ι] [DecidableEq τ] in
/-- Where `tryLock` returns false: at one of its calls before `isMinPath`, or out of it. -/
theorem UserMove.refuses {pc pc' : UserPc} (h : UserMove pc pc') (hend : pc' = .idle (some false)) :
    (∃ locking, pc = .rootExists locking ∨ pc = .rootCreate locking) ∨ pc = .create false ∨
      ∃ m, pc = .isMin false m := by
  cases h with
  | root hpc _ => exact .inl ⟨_, hpc⟩
  | @notCreated locking =>
    cases locking with
    | false => exact .inr (.inl rfl)
    | true => cases hend
  | @afterMin locking status m =>
    cases locking with
    | false => exact .inr (.inr ⟨m, rfl⟩)
    | true => cases status <;> cases hend
  | unlock hpc => rcases hpc with rfl | rfl <;> cases hend
  | _ => cases hend

/-- Where a call returns false: before its create, or out of `isMinPath`. -/
theorem refusal_cases (hs : zkStep F w (.user t r) = some w') (hend : w'.user t = .idle (some false)) :
    ((∃ locking, w.user t = .rootExists locking ∨ w.user t = .rootCreate locking) ∨
      w.user t = .create false ∧ r.Failed) ∨
      ∃ m, w.user t = .isMin false m ∧ minRefuses w.zk (w.lock (F.inst t)) m r = true ∧ w'.zk.nodes = w.zk.nodes := by
  have hs' : userStep F w t r = some w' := hs
  rcases (userStep_effect hs').move.refuses hend with hroot | hcreate | ⟨m, hmin⟩
  · exact .inl (.inl hroot)
  · refine .inl (.inr ⟨hcreate, ?_⟩)
    cases r with
    | silent => simp only [userStep, hcreate, reduceCtorEq] at hs'
    | fail => trivial
    | ok seq =>
      -- a create that succeeds goes on
      by_cases hc : Creatable w.zk (F.inst t) (F.name (F.inst t)) seq
      · simp only [userStep, hcreate, if_pos hc] at hs'
        cases hs'
        have hpc := (goto_user w t _).symm.trans hend
        cases hpc
      · simp only [userStep, hcreate, if_neg hc, reduceCtorEq] at hs'
  · simp only [userStep, hmin] at hs'
    obtain ⟨⟨zk', st', result⟩, hstep, rfl⟩ := Option.map_eq_some_iff.1 hs'
    have hpc : ((w.setLock (F.inst t) st').userMin t false result).user t = .idle (some false) := hend
    rw [(userMin_eq _ t false result).2, Function.update_self] at hpc
    have hresult : result = .refused ∨ result = .threw := by
      cases result with
      | goto m' => cases hpc
      | granted self => cases hpc
      | refused => exact .inl rfl
      | threw => exact .inr rfl
    exact .inr ⟨m, hmin, minStep_refuses hstep hresult⟩

omit [DecidableEq ι] [DecidableEq τ] in
theorem hasLive_of_nodes {zk zk' : ZooKeeper ι} (hn : zk'.nodes = zk.nodes) (c : String) :
    zk'.hasLive c = zk.hasLive c := by
  unfold ZooKeeper.hasLive
  rw [hn]

omit [DecidableEq ι] [DecidableEq τ] in
theorem gone_iff {c : String} (hc : s.node t = some c) : s.gone t = true ↔ s.world.zk.hasLive c = false := by
  simp [CallWorld.gone, hc]

omit [DecidableEq ι] [DecidableEq τ] in
/-- **A step of `isMinPath` that refuses a public `tryLock` finds its node gone.** -/
theorem minRefuses_gone (h : RefusedInv F s) (hok : CleanStep F s t r) {m : MinPc}
    (hu : s.world.user t = .isMin false m)
    (hrefuses : minRefuses s.world.zk (s.world.lock (F.inst t)) m r = true) : s.gone t = true := by
  have hplace := h.user t
  rw [hu] at hplace
  obtain ⟨c, hc, hplace⟩ := hplace
  by_contra hnot
  have hlive : s.world.zk.hasLive c = true := by
    by_contra hdead
    exact hnot ((gone_iff hc).2 (by simpa using hdead))
  cases m with
  | getChildren =>
    cases r with
    | fail b executed => exact hnot (hok.getChildren hu trivial)
    | silent => cases hrefuses
    | ok z => cases hrefuses
  | indexOf subNodes =>
    -- the own node is in the list
    have hmine := hplace rfl hlive
    have hlisted := hmine.lists subNodes rfl
    simp [minRefuses, hmine.self, hlisted] at hrefuses
  | getData =>
    cases r with
    | silent => cases hrefuses
    | ok z =>
      -- the predecessor would be a smaller child
      obtain ⟨path, hpath, hfound⟩ := (Option.any_eq_true _ _).1 hrefuses
      have hsmaller := (hplace rfl hlive).sought path (Or.inl hpath)
      have hfound : childName path ∈ s.world.zk.children z := by simpa using hfound
      exact (hok.smallest hu).resolve_left hnot z rfl c hc _ hfound hsmaller
    | fail interrupted executed => exact hnot (hok.getData hu hrefuses)
  | latchNull self => cases r <;> cases hrefuses
  | countDown self => cases r <;> cases hrefuses
  | setWaitPath path => cases r <;> cases hrefuses

/-- **A call that is refused along `RefusesCleanly` leaves no node.** -/
theorem refused_gone (h : RefusedInv F s) (hok : CleanStep F s t r) (hs : callStep F s (.user t r) = some s')
    (hend : s'.world.user t = .idle (some false)) {c : String} (hc : s'.node t = some c) :
    s'.world.zk.hasLive c = false := by
  rw [callStep_node hs] at hc
  rcases refusal_cases (callStep_world hs) hend with hbefore | ⟨m, hu, hrefuses, hnodes⟩
  · -- the call has no child
    have hfresh : s.node t = none := by
      refine h.call.fresh t ?_
      rcases hbefore with ⟨locking, hu | hu⟩ | ⟨hu, -⟩ <;> rw [hu] <;> rfl
    rcases nodeAfter_user (F := F) (s := s) (t := t) r with ⟨locking, seq, hu, hr, -⟩ | hsame
    · rcases hbefore with ⟨locking', hu' | hu'⟩ | ⟨hu', hfailed⟩
      · rw [hu'] at hu; cases hu
      · rw [hu'] at hu; cases hu
      · rcases hr with rfl | ⟨b, rfl⟩
        · exact hfailed.elim
        · cases hok.create hu'
    · rw [hsame, hfresh] at hc
      cases hc
  · -- the own node is gone already
    rcases nodeAfter_user (F := F) (s := s) (t := t) r with ⟨locking, seq, hu', -⟩ | hsame
    · rw [hu] at hu'
      cases hu'
    · rw [hsame] at hc
      rw [hasLive_of_nodes hnodes]
      exact (gone_iff hc).1 (minRefuses_gone h hok hu hrefuses)

/-- A child that a call has and that is live was live before. -/
theorem live_before (h : CallInv F s) (hs : callStep F s l = some s') {c : String} (hc : s.node t = some c)
    (hlive : s'.world.zk.hasLive c = true) : s.world.zk.hasLive c = true := by
  have hzk := callStep_world hs
  obtain ⟨n, hn, hpath, -⟩ := h.owned t c hc
  obtain rfl := childPath_inj hpath
  exact ZooKeeper.hasLive_of_grows (callInv_step h hs).grant.ok (history_step h.grant hzk).2 hn hlive

/-- A step of another thread, or of an event thread, leaves an undecided call undisturbed. -/
theorem refusedPlace_other (h : RefusedInv F s) (hok : RefusesCleanly F s l) (hs : callStep F s l = some s')
    (ht : l.thread ≠ some t) : RefusedPlace F s' t (s'.world.user t) := by
  have hzk := callStep_world hs
  have hnode : s'.node t = s.node t := by rw [callStep_node hs, nodeAfter_other ht]
  have hplace := h.user t
  rw [zkStep_other hzk ht]
  cases hu : s.world.user t with
  | assignSelf locking path =>
    rw [hu] at hplace
    obtain ⟨c, hc, hpath⟩ := hplace
    exact ⟨c, hnode.trans hc, hpath⟩
  | isMin locking m =>
    cases locking with
    | true => exact trivial
    | false =>
      rw [hu] at hplace
      obtain ⟨c, hc, hplace⟩ := hplace
      refine ⟨c, hnode.trans hc, fun hundecided hlive => ?_⟩
      have hlive := live_before h.call hs hc hlive
      have hmine := hplace hundecided hlive
      have hself : (s'.world.lock (F.inst t)).selfPath = (s.world.lock (F.inst t)).selfPath := by
        rcases selfPath_step hzk (F.inst t) with hself | ⟨t', r, locking, path, rfl, hinst, hu'⟩
        · exact hself
        · -- another call of the instance, which does not get in between
          have hne : t ≠ t' := fun heq => ht (by rw [heq]; rfl)
          have hgone := CleanStep.others hok (by rw [hu']; rfl) t hne hinst.symm
            (by rw [hu]; simp [UserPc.undecided, hundecided])
          rw [gone_iff hc, hlive] at hgone
          cases hgone
      refine ⟨hself.trans hmine.self, fun path hsought => ?_, hmine.lists⟩
      rcases sought_step h.call.grant hzk hsought with hsought | ⟨self, hself', hlt⟩
      · exact hmine.sought path hsought
      · rw [hmine.self] at hself'
        cases hself'
        rwa [childName_childPath] at hlt
  | _ => exact trivial

/-- The thread writes the path of its node into `selfPath`. -/
theorem refusedPlace_assign (h : RefusedInv F s) (hok : CleanStep F s t r) (hs : callStep F s (.user t r) = some s')
    (hplaced : Placed F s'.world) {path : String} (hu : s.world.user t = .assignSelf false path)
    (hw' : s'.world = (s.world.setLock (F.inst t) { s.world.lock (F.inst t) with selfPath := some path }).goto t
      (.isMin false .getChildren)) :
    RefusedPlace F s' t (.isMin false .getChildren) := by
  have hplace := h.user t
  rw [hu] at hplace
  obtain ⟨c, hc, rfl⟩ := hplace
  have hnode : s'.node t = some c := by
    rw [callStep_node hs]
    rcases nodeAfter_user (F := F) (s := s) (t := t) r with ⟨locking, seq, hu', -⟩ | hsame
    · rw [hu] at hu'
      cases hu'
    · exact hsame.trans hc
  refine ⟨c, hnode, fun _ hlive => ⟨?_, fun path hsought => ?_, fun _ hm => by cases hm⟩⟩
  · rw [hw']
    show ((s.world.setLock _ _).lock (F.inst t)).selfPath = _
    rw [setLock_lock]
  · -- what is looked for is before a node of the instance, and the own one is the last
    obtain ⟨n, hn, howner, hlt⟩ := hplaced (F.inst t) path hsought
    rw [hw'] at hn
    have hlast := (hok.newest (by rw [hu]; rfl)).resolve_left (fun hgone => by
      rw [gone_iff hc, live_before h.call hs hc hlive] at hgone
      cases hgone)
    exact lt_of_lt_of_le hlt (not_lt.1 (hlast c hc n hn howner))

/-- The thread makes a step of `isMinPath`. -/
theorem refusedPlace_min (h : RefusedInv F s) (hs : callStep F s (.user t r) = some s') {m m' : MinPc}
    {zk : ZooKeeper ι} {st : DistributedLock} (hu : s.world.user t = .isMin false m)
    (hmin : MinEffect s.world.zk (F.inst t) (s.world.lock (F.inst t)) m r zk st (.goto m'))
    (hself : (s'.world.lock (F.inst t)).selfPath = (s.world.lock (F.inst t)).selfPath) :
    RefusedPlace F s' t (.isMin false m') := by
  have hplace := h.user t
  rw [hu] at hplace
  obtain ⟨c, hc, hplace⟩ := hplace
  have hnode : s'.node t = some c := by
    rw [callStep_node hs]
    rcases nodeAfter_user (F := F) (s := s) (t := t) r with ⟨locking, seq, hu', -⟩ | hsame
    · rw [hu] at hu'
      cases hu'
    · exact hsame.trans hc
  refine ⟨c, hnode, fun hundecided hlive => ?_⟩
  have hlive := live_before h.call hs hc hlive
  have hbefore : m.decided = false := by
    cases hmin with
    | hasLatch _ => cases hundecided
    | failed _ hm _ => rcases hm with rfl | rfl <;> rfl
    | _ => rfl
  have hmine := hplace hbefore hlive
  refine ⟨hself.trans hmine.self, fun path hsought => ?_, fun subNodes hm' => ?_⟩
  · rcases sought_step h.call.grant (callStep_world hs) hsought with hsought | ⟨self, hself', hlt⟩
    · exact hmine.sought path hsought
    · rw [hmine.self] at hself'
      cases hself'
      rwa [childName_childPath] at hlt
  · -- the session has seen its own node
    subst hm'
    cases hmin with
    | read hseen _ =>
      obtain ⟨n, hn, hnlive, rfl⟩ := ZooKeeper.hasLive_iff.1 hlive
      obtain ⟨n', hn', hpath, howner, -⟩ := h.call.owned t _ hc
      obtain rfl := h.call.grant.ok.eq_of_name hn' hn (childPath_inj hpath)
      have hold := h.notifies.seen n' hn
      rw [howner] at hold
      exact mem_sortStrings.2 (ZooKeeper.mem_children.2
        ⟨n', hn, ZooKeeper.existsAt_of_live hnlive (le_trans hold hseen), rfl⟩)
    | failed _ _ hres => rcases hres with hres | hres <;> cases hres

/-- The place of the thread that makes the step. -/
theorem refusedPlace_user (h : RefusedInv F s) (hok : CleanStep F s t r) (hs : callStep F s (.user t r) = some s')
    (hplaced : Placed F s'.world) : RefusedPlace F s' t (s'.world.user t) := by
  have hzk := callStep_world hs
  have hafter : ∀ locking status, RefusedPlace F s' t (afterTry locking status) := by
    intro locking status
    cases locking <;> cases status <;> exact trivial
  generalize hw' : s'.world = w' at hzk
  have hgoto : ∀ {pc : UserPc}, w'.user = Function.update s.world.user t pc → RefusedPlace F s' t pc →
      RefusedPlace F s' t (w'.user t) := by
    intro pc hpc hplace
    rw [hpc, Function.update_self]
    exact hplace
  cases zkStep_effect hzk with
  | user hu =>
    cases hu with
    | root _ _ _ hpc =>
      refine hgoto rfl ?_
      rcases hpc with rfl | rfl | ⟨-, rfl⟩
      · exact trivial
      · exact trivial
      · exact hafter ..
    | @created locking seq hu _ =>
      refine hgoto rfl ⟨F.child t seq, ?_, rfl⟩
      rw [callStep_node hs]
      simp [nodeAfter, ZkFleet.created, hu]
    | createFailed _ _ => exact hgoto rfl (hafter ..)
    | createLost _ _ _ => exact hgoto rfl (hafter ..)
    | @assignSelf locking path hu =>
      refine hgoto rfl ?_
      cases locking with
      | true => exact trivial
      | false => exact refusedPlace_assign h hok hs hplaced hu hw'
    | @isMin r locking m zk st result hu hmin =>
      refine hgoto (userMin_eq (s.world.setLock (F.inst t) st) t locking result).2 ?_
      cases result with
      | goto m' =>
        cases locking with
        | true => exact trivial
        | false =>
          refine refusedPlace_min h hs hu hmin ?_
          rcases selfPath_step (callStep_world hs) (F.inst t) with hself | ⟨t', r, locking, path, hl, -, hu'⟩
          · exact hself
          · cases hl
            rw [hu] at hu'
            cases hu'
      | granted self => exact hafter ..
      | refused => exact hafter ..
      | threw => exact hafter ..
    | newLatch _ => exact hgoto rfl trivial
    | awaitLatch _ _ => exact hgoto rfl trivial
    | unpark _ => exact hgoto rfl trivial
    | unlock _ hpc => exact hgoto rfl (by rcases hpc with rfl | rfl <;> exact trivial)
    | deleted _ _ => exact hgoto rfl trivial
    | deleteFailed _ => exact hgoto rfl trivial

omit [DecidableEq ι] in
/-- A call starts outside `isMinPath`. -/
theorem refusedPlace_call {w : ZkWorld ι τ} {pc : UserPc} (hpc : pc = .rootExists true ∨ pc = .rootExists false ∨
    pc = .unlockExists) : RefusedPlace F s' t ((w.goto t pc).user t) := by
  rw [goto_user]
  rcases hpc with rfl | rfl | rfl <;> exact trivial

theorem refusedInv_step (h : RefusedInv F s) (hok : RefusesCleanly F s l) (hs : callStep F s l = some s') :
    RefusedInv F s' := by
  have hzk := callStep_world hs
  have hcall := callInv_step h.call hs
  have hgrows := (history_step h.call.grant hzk).2
  have hplaced := placed_step h.placed h.call.grant hzk
  have hall : ∀ c ∈ s'.refused, (∃ n ∈ s'.world.zk.nodes, n.name = c) ∧ s'.world.zk.hasLive c = false := by
    intro c hc
    rcases callStep_refused hs hc with hc | ⟨t, r, rfl, hend, hnode⟩
    · -- what was gone stays gone
      obtain ⟨n, hn, rfl⟩ := h.known c hc
      obtain ⟨n', hn', hsame⟩ := hgrows.keep n hn
      refine ⟨⟨n', hn', hsame.name⟩, ?_⟩
      by_contra hlive
      rw [Bool.not_eq_false] at hlive
      have hold := ZooKeeper.hasLive_of_grows hcall.grant.ok hgrows hn hlive
      rw [h.gone n.name hc] at hold
      cases hold
    · obtain ⟨n, hn, hpath, -⟩ := hcall.owned t c hnode
      exact ⟨⟨n, hn, childPath_inj hpath⟩, refused_gone h hok hs hend hnode⟩
  refine ⟨hcall, zkStep_timely h.timely hzk, (zkStep_dir hzk).notifies h.notifies h.call.grant.ok, hplaced, fun t => ?_,
    fun c hc => (hall c hc).1, fun c hc => (hall c hc).2⟩
  by_cases ht : l.thread = some t
  · cases l with
    | user t' r => cases ht; exact refusedPlace_user h hok hs hplaced
    | event i r => cases ht
    | expire i => cases ht
    | lock t' =>
      cases ht
      generalize s'.world = w' at hzk
      cases zkStep_effect hzk with
      | lock _ => exact refusedPlace_call (Or.inl rfl)
    | tryLock t' =>
      cases ht
      generalize s'.world = w' at hzk
      cases zkStep_effect hzk with
      | tryLock _ => exact refusedPlace_call (Or.inr (Or.inl rfl))
    | unlock t' =>
      cases ht
      generalize s'.world = w' at hzk
      cases zkStep_effect hzk with
      | unlock _ => exact refusedPlace_call (Or.inr (Or.inr rfl))
  · exact refusedPlace_other h hok hs ht

/-- **Refused calls leave nothing behind**, in every run whose refusals are clean. So when
the nodes of all other calls are gone, a `tryLock` on its own returns true. -/
theorem refused_leaves_nothing (F : ZkFleet ι τ) {ls : List (ZkLabel ι τ)}
    (hrun : exec (callStep F) (.init ι τ) ls = some s)
    (hok : Along (callStep F) (RefusesCleanly F) (.init ι τ) ls) :
    (∀ c ∈ s.refused, s.world.zk.hasLive c = false) ∧
      ((∀ n ∈ s.world.zk.nodes, n.Live → n.name ∈ s.refused) → ∀ t result, s.world.user t = .idle result →
        (∀ rs w' b, TriesAlone F s.world t rs w' b → b = true) ∧
          (s.world.zk.expired (F.inst t) = false → '/' ∉ (F.name (F.inst t)).toList →
            s.world.zk.nextSeq < 10 ^ ZNode.seqDigits → ∃ rs w', TriesAlone F s.world t rs w' true)) := by
  have h : RefusedInv F s := inv_of_along (fun _ _ _ => refusedInv_step) (refusedInv_init F) hok hrun
  refine ⟨h.gone, fun hothers t result hu => ?_⟩
  -- no node is live, so none sorts before the new one
  have hnone : ∀ n ∈ s.world.zk.nodes, ¬ n.Live := by
    intro n hn hlive
    have hgone := h.gone n.name (hothers n hn hlive)
    rw [ZooKeeper.hasLive_iff.2 ⟨n, hn, hlive, rfl⟩] at hgone
    cases hgone
  have htrue : ∀ rs w' b, TriesAlone F s.world t rs w' b → b = true := by
    intro rs w' b htry
    obtain ⟨seq, -, hiff⟩ := triesAlone_iff h.call.grant.ok htry
    exact hiff.2 fun n hn hlive => absurd hlive (hnone n hn)
  refine ⟨htrue, fun hexpired hname hseq => ?_⟩
  obtain ⟨rs, w', b, htry⟩ := triesAlone_ends h.call.grant.ok h.timely hu hexpired hname hseq
  obtain rfl := htrue rs w' b htry
  exact ⟨rs, w', htry⟩

end Steps

section Runs

variable [DecidableEq ι] [DecidableEq τ] [Fintype τ]

instance (F : ZkFleet ι τ) (s : CallWorld ι τ) (t : τ) (r : Reply) : Decidable (CleanStep F s t r) :=
  decidable_of_iff (_ ∧ _ ∧ _ ∧ _ ∧ _ ∧ _)
    ⟨fun ⟨h₁, h₂, h₃, h₄, h₅, h₆⟩ => ⟨h₁, h₂, h₃, h₄, h₅, h₆⟩,
      fun h => ⟨h.create, h.getChildren, h.getData, h.smallest, h.others, h.newest⟩⟩

instance (F : ZkFleet ι τ) (s : CallWorld ι τ) : DecidablePred (RefusesCleanly F s)
  | .user t r => inferInstanceAs (Decidable (CleanStep F s t r))
  | .lock _ | .tryLock _ | .unlock _ | .event _ _ | .expire _ => isTrue trivial

end Runs

/-- The session of a call that has created its node expires, and the call is refused. -/
def expires : List (ZkLabel Bool Bool) :=
  [.tryLock false, .user false (.ok 0), .user false (.ok 0), .user false (.ok 0), .user false .silent, .expire false,
    .user false (.fail false none)]

theorem refused_leaves_nothing_expired : ∃ s, exec (callStep twoZkLocks) (.init Bool Bool) expires = some s ∧
    s.refused = ["sub0000000000"] ∧ ∃ rs w', TriesAlone twoZkLocks s.world true rs w' true := by
  have heval : (exec (callStep twoZkLocks) (.init Bool Bool) expires).any fun s =>
      decide (s.refused = ["sub0000000000"] ∧ (∀ n ∈ s.world.zk.nodes, n.Live → n.name ∈ s.refused) ∧
        s.world.user true = .idle none ∧ s.world.zk.expired true = false ∧ s.world.zk.nextSeq < 10) := by
    decide +kernel
  obtain ⟨s, hrun, hs⟩ := (Option.any_eq_true _ _).1 heval
  obtain ⟨hrefused, hothers, hu, hexpired, hseq⟩ := of_decide_eq_true hs
  have hfree := (refused_leaves_nothing twoZkLocks hrun (by decide +kernel)).2 hothers true none hu
  exact ⟨s, hrun, hrefused, hfree.2 hexpired (by decide +kernel) (Nat.lt_trans hseq (by decide))⟩

/-- The second thread is refused while the first one has the lock, which is then unlocked. -/
def refuses : List (ZkLabel Bool Bool) :=
  takes ++
    [.tryLock true, .user true (.ok 2), .user true (.ok 1), .user true .silent, .user true (.ok 3), .user true .silent,
      .user true .silent, .user true (.ok 3), .unlock false, .user false (.ok 3), .user false (.ok 0)]

/-- The node of the refused call is all that is left, and the lock is not free. -/
theorem refused_blocks : ∃ s rs w', exec (callStep twoZkLocks) (.init Bool Bool) refuses = some s ∧
    s.refused = ["sub0000000001"] ∧ s.world.zk.children s.world.zk.zxid = s.refused ∧
    (∀ t, ∃ result, s.world.user t = .idle result) ∧ TriesAlone twoZkLocks s.world false rs w' false := by
  have heval : (exec (callStep twoZkLocks) (.init Bool Bool) refuses).any fun s =>
      decide (s.refused = ["sub0000000001"] ∧ s.world.zk.children s.world.zk.zxid = s.refused ∧
        s.world.user false = .idle none ∧ s.world.user true = .idle (some false)) &&
      (exec (zkStep twoZkLocks) s.world (.tryLock false :: [.ok 4, .ok 2, .silent, .ok 5, .silent, .silent,
        .ok 5].map (.user false))).any fun w' => decide (w'.user false = .idle (some false)) := by decide +kernel
  obtain ⟨s, hrun, hs⟩ := (Option.any_eq_true _ _).1 heval
  obtain ⟨hs, htry⟩ := Bool.and_eq_true_iff.1 hs
  obtain ⟨hrefused, hleft, hfalse, htrue⟩ := of_decide_eq_true hs
  obtain ⟨w', hrun', hend⟩ := (Option.any_eq_true _ _).1 htry
  refine ⟨s, _, w', hrun, hrefused, hleft, fun t => ?_, by decide, hrun', of_decide_eq_true hend⟩
  cases t with
  | false => exact ⟨_, hfalse⟩
  | true => exact ⟨_, htrue⟩

end StudyTech
