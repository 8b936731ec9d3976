import StudyTech.Proof.ZkCalls
import StudyTech.Proof.ZkTry
import StudyTech.Proof.ZkView

/-!
# Locks of different names

All locks keep their nodes in one directory, and `isMinPath` sorts them together, so a lock
waits for a node of another name that sorts before its own (`names_interfere`). Where the
child directly before the own one, if there is one, is of the own name (`OwnPrev`), the locks
of a name see nothing of the others (`names_independent`): their steps are steps in their
view, and the steps of the others only move the clock of the view.
-/

namespace StudyTech

open Lib

variable {ι τ : Type}

/-- The name of the instance that the label is about. -/
def ZkLabel.name (F : ZkFleet ι τ) (l : ZkLabel ι τ) : String := F.name (l.session F)

def UserPc.prevOwn (a : String) (st : DistributedLock) : UserPc → Bool
  | .isMin _ m => m.prevOwn a st
  | _ => true

/-- Where an instance looks for its place, the child before its own is of its name, if there
is one. -/
def OwnPrev (F : ZkFleet ι τ) (w : ZkWorld ι τ) : ZkLabel ι τ → Prop
  | .user t _ => (w.user t).prevOwn (F.name (F.inst t)) (w.lock (F.inst t)) = true
  | .event i _ => (w.lock i).event.all (·.prevOwn (F.name i) (w.lock i)) = true
  | _ => True

/-- The world with the clock of another: the root, the last zxid and the next number. -/
def ZkWorld.atClock (w w' : ZkWorld ι τ) : ZkWorld ι τ :=
  { w with zk := { w.zk with root := w'.zk.root, zxid := w'.zk.zxid, nextSeq := w'.zk.nextSeq } }

/-- The paths in a lock are of nodes of the name. -/
structure DistributedLock.Named (a : String) (st : DistributedLock) : Prop where
  self : ∀ path, st.selfPath = some path → lockName (childName path) = a
  wait : ∀ path, st.waitPath = some path → lockName (childName path) = a
  event : ∀ m, st.event = some m → m.Named a

def UserPc.Named (a : String) : UserPc → Prop
  | .assignSelf _ path => lockName (childName path) = a
  | .isMin _ m => m.Named a
  | _ => True

/-- The invariant of the runs along `OwnPrev`: an instance knows nodes of its name only. -/
structure NameInv (F : ZkFleet ι τ) (w : ZkWorld ι τ) : Prop where
  owner : ∀ n ∈ w.zk.nodes, n.base = F.name n.owner
  watches : ∀ i, ∀ c ∈ w.zk.watches i, lockName c = F.name i
  lock : ∀ i, (w.lock i).Named (F.name i)
  user : ∀ t, (w.user t).Named (F.name (F.inst t))

theorem nameInv_init (F : ZkFleet ι τ) : NameInv F (.init ι τ) := by
  refine ⟨fun n hn => ?_, fun i c hc => ?_, fun i => ⟨?_, ?_, ?_⟩, fun t => trivial⟩
  · cases hn
  · cases hc
  · intro path h; cases h
  · intro path h; cases h
  · intro m h; cases h

variable [DecidableEq ι] [DecidableEq τ] {F : ZkFleet ι τ} {w w' : ZkWorld ι τ} {l : ZkLabel ι τ} {t : τ} {i : ι}
  {r : Reply} {a : String}

section Directory

omit [DecidableEq τ] in
theorem DirEffect.owner {zk : ZooKeeper ι} (hd : DirEffect F w l zk) (h : NameInv F w) :
    ∀ n ∈ zk.nodes, n.base = F.name n.owner := by
  have hremove : ∀ {p : ZNode ι → Bool}, ∀ n ∈ (w.zk.remove p).nodes, n.base = F.name n.owner := by
    intro p n hn
    obtain ⟨m, hm, rfl⟩ := ZooKeeper.mem_remove.1 hn
    obtain ⟨hbase, -, howner, -⟩ := ZNode.same_removeIf (n := m) (p := p) (z := w.zk.zxid + 1)
    rw [hbase, howner]
    exact h.owner m hm
  cases hd with
  | create _ =>
    intro n hn
    rcases List.mem_append.1 hn with hn | hn
    · exact h.owner n hn
    · obtain rfl := List.mem_singleton.1 hn
      rfl
  | @watch path _ =>
    rw [(ZooKeeper.watch_nodes ..).1]
    exact h.owner
  | delete _ _ _ => exact hremove
  | expire => exact hremove
  | _ => exact h.owner

omit [DecidableEq τ] in
theorem DirEffect.watches {zk : ZooKeeper ι} (hd : DirEffect F w l zk) (h : NameInv F w) :
    ∀ j, ∀ c ∈ zk.watches j, lockName c = F.name j := by
  cases hd with
  | @watch path hwait =>
    intro j c hc
    unfold ZooKeeper.watch at hc
    split at hc
    · by_cases hj : j = l.session F
      · rw [hj] at hc ⊢
        simp only [Function.update_self, List.mem_insert_iff] at hc
        rcases hc with rfl | hc
        · exact (h.lock _).wait path hwait
        · exact h.watches _ c hc
      · simp only [Function.update_of_ne hj] at hc
        exact h.watches j c hc
    · exact h.watches j c hc
  | delete _ _ _ => exact fun j c hc => h.watches j c (List.mem_of_mem_filter hc)
  | expire => exact fun j c hc => h.watches j c (List.mem_of_mem_filter hc)
  | _ => exact h.watches

omit [DecidableEq ι] in
/-- A removal that meets no live node only moves the clock. -/
theorem remove_none {zk : ZooKeeper ι} {p : ZNode ι → Bool} (h : ∀ n ∈ zk.nodes, n.Live → p n = false) :
    zk.remove p = { zk with zxid := zk.zxid + 1 } := by
  have hnodes : zk.nodes.map (·.removeIf p (zk.zxid + 1)) = zk.nodes := by
    conv_rhs => rw [← List.map_id zk.nodes]
    exact List.map_congr_left fun n hn => ZNode.removeIf_of_not (h n hn)
  have hgone : zk.gone p = [] := by
    rw [List.eq_nil_iff_forall_not_mem]
    intro c hc
    obtain ⟨n, hn, hlive, hp, -⟩ := ZooKeeper.mem_gone.1 hc
    rw [h n hn hlive] at hp
    cases hp
  unfold ZooKeeper.remove
  rw [hnodes, hgone]
  simp

omit [DecidableEq τ] in
/-- A session of another name only moves the clock of the view. -/
theorem DirEffect.clock {zk : ZooKeeper ι} (hd : DirEffect F w l zk) (h : NameInv F w)
    (hi : F.named a (l.session F) = false) :
    zkView F a zk = { zkView F a w.zk with
      root := zk.root
      zxid := zk.zxid
      nextSeq := zk.nextSeq } := by
  have hname : F.name (l.session F) ≠ a := beq_eq_false_iff_ne.1 hi
  -- the nodes of the view are of the name `a`
  have hview : ∀ n ∈ (zkView F a w.zk).nodes, n ∈ w.zk.nodes ∧ n.base = a := by
    intro n hn
    obtain ⟨hn, hbase⟩ := List.mem_filter.1 hn
    exact ⟨hn, beq_iff_eq.1 hbase⟩
  cases hd with
  | same => rfl
  | createRoot => rfl
  | create _ =>
    have hbase : (F.name (l.session F) == a) = false := hi
    unfold zkView ZooKeeper.create
    simp only [keepOnly_update_of_not hi, List.filter_append, List.filter_singleton, hbase, cond_false, List.append_nil]
  | watch _ =>
    unfold ZooKeeper.watch
    split
    · unfold zkView
      simp only [keepOnly_update_of_not hi]
    · unfold zkView
      simp only [keepOnly_update_of_not hi]
  | pop =>
    unfold ZooKeeper.pop zkView
    simp only [keepOnly_update_of_not hi]
  | @delete t self _ _ hself =>
    refine (zkView_remove h.watches).trans (remove_none fun n hn _ => ?_)
    obtain ⟨-, hbase⟩ := hview n hn
    rw [beq_eq_false_iff_ne]
    intro heq
    have hself' := (h.lock _).self self hself
    rw [← heq, lockName_name, hbase] at hself'
    exact hname hself'.symm
  | expire =>
    have hremove : zkView F a (w.zk.remove (·.owner == l.session F)) =
        { zkView F a w.zk with zxid := w.zk.zxid + 1 } := by
      refine (zkView_remove h.watches).trans (remove_none fun n hn _ => ?_)
      obtain ⟨hn, hbase⟩ := hview n hn
      rw [beq_eq_false_iff_ne]
      intro howner
      rw [← howner, ← h.owner n hn] at hname
      exact hname hbase
    show { zkView F a (w.zk.remove (·.owner == l.session F)) with
      expired := keepOnly (F.named a) false (Function.update w.zk.expired (l.session F) true) } = _
    rw [hremove, keepOnly_update_of_not hi]
    rfl

end Directory

section Steps

omit [DecidableEq τ] in
/-- A step of `isMinPath` of an instance named `a`. -/
theorem minEffect_named {zk zk' : ZooKeeper ι} {st st' : DistributedLock} {m : MinPc} {result : MinResult}
    (h : MinEffect zk i st m r zk' st' result) (hst : st.Named a) (hm : m.Named a) (hprev : m.prevOwn a st = true) :
    result.Named a ∧ st'.Named a := by
  cases h with
  | first hself _ => exact ⟨hst.self _ hself, hst⟩
  | @later subNodes self prev k hself hidx hk =>
    refine ⟨?_, hst⟩
    simp only [MinPc.prevOwn, DistributedLock.prev, hself, hidx, hk, Option.all_some] at hprev
    show lockName (childName (childPath prev)) = a
    rw [childName_childPath]
    exact ofName_iff.1 hprev
  | noLatch _ => exact ⟨hm, hst⟩
  | hasLatch _ => exact ⟨hm, hst⟩
  | countDown _ => exact ⟨hm, hst.self, hst.wait, hst.event⟩
  | setWaitPath =>
    refine ⟨trivial, hst.self, fun path hpath => ?_, hst.event⟩
    cases hpath
    exact hm
  | failed _ _ hres =>
    refine ⟨?_, hst⟩
    rcases hres with rfl | rfl <;> exact trivial
  | _ => exact ⟨trivial, hst⟩

omit [DecidableEq τ] in
theorem named_setLock (h : ∀ j, (w.lock j).Named (F.name j)) {st : DistributedLock} (hst : st.Named (F.name i))
    (j : ι) : ((w.setLock i st).lock j).Named (F.name j) := by
  by_cases hj : j = i
  · subst hj
    rw [setLock_lock]
    exact hst
  · have hother : (w.setLock i st).lock j = w.lock j := Function.update_of_ne hj ..
    rw [hother]
    exact h j

omit [DecidableEq ι] in
theorem named_goto (h : ∀ t, (w.user t).Named (F.name (F.inst t))) {c : UserPc} (hc : c.Named (F.name (F.inst t)))
    (t' : τ) : ((w.goto t c).user t').Named (F.name (F.inst t')) := by
  by_cases ht : t' = t
  · subst ht
    rw [goto_user]
    exact hc
  · have hother : (w.goto t c).user t' = w.user t' := Function.update_of_ne ht ..
    rw [hother]
    exact h t'

theorem afterTry_named (locking status : Bool) : (afterTry locking status).Named a := by
  cases locking <;> cases status <;> exact trivial

omit [DecidableEq ι] in
theorem named_userMin (h : ∀ t, (w.user t).Named (F.name (F.inst t))) {locking : Bool} {result : MinResult}
    (hres : result.Named (F.name (F.inst t))) (t' : τ) :
    ((w.userMin t locking result).user t').Named (F.name (F.inst t')) := by
  cases result with
  | goto m => exact named_goto h (c := .isMin locking m) hres t'
  | granted self => exact named_goto h (afterTry_named locking true) t'
  | refused => exact named_goto h (afterTry_named locking false) t'
  | threw => exact named_goto h (afterTry_named locking false) t'

omit [DecidableEq τ] in
theorem named_eventMin (h : ∀ j, (w.lock j).Named (F.name j)) {st : DistributedLock} {result : MinResult}
    (hst : st.Named (F.name i)) (hres : result.Named (F.name i)) (j : ι) :
    ((w.eventMin i st result).lock j).Named (F.name j) := by
  have hnone : DistributedLock.Named (F.name i) { st with event := none } :=
    ⟨hst.self, hst.wait, fun m hm => by cases hm⟩
  cases result with
  | goto m =>
    have hgoto : DistributedLock.Named (F.name i) { st with event := some m } := by
      refine ⟨hst.self, hst.wait, fun m' hm' => ?_⟩
      cases hm'
      exact hres
    exact named_setLock h hgoto j
  | granted self => exact named_setLock h hnone j
  | refused => exact named_setLock h hnone j
  | threw => exact named_setLock h hnone j

/-- A step leaves nodes of its name only in the locks and the threads of an instance. -/
theorem named_step (h : NameInv F w) (hok : OwnPrev F w l) (hs : zkStep F w l = some w') :
    (∀ i, (w'.lock i).Named (F.name i)) ∧ ∀ t, (w'.user t).Named (F.name (F.inst t)) := by
  cases zkStep_effect hs with
  | lock _ => exact ⟨h.lock, named_goto h.user trivial⟩
  | tryLock _ => exact ⟨h.lock, named_goto h.user trivial⟩
  | unlock _ => exact ⟨h.lock, named_goto h.user trivial⟩
  | @user t r _ hu =>
    have hst := h.lock (F.inst t)
    have huser := h.user t
    cases hu with
    | root _ _ _ hc =>
      refine ⟨h.lock, named_goto h.user ?_⟩
      rcases hc with rfl | rfl | ⟨-, rfl⟩
      · exact trivial
      · exact trivial
      · exact afterTry_named _ _
    | created _ _ =>
      refine ⟨h.lock, named_goto h.user ?_⟩
      show lockName (childName (childPath _)) = _
      rw [childName_childPath, lockName_child]
    | createFailed _ _ => exact ⟨h.lock, named_goto h.user (afterTry_named _ _)⟩
    | createLost _ _ _ => exact ⟨h.lock, named_goto h.user (afterTry_named _ _)⟩
    | @assignSelf locking path hu =>
      rw [hu] at huser
      refine ⟨named_setLock h.lock ⟨fun path' hpath => ?_, hst.wait, hst.event⟩, named_goto h.user trivial⟩
      cases hpath
      exact huser
    | @isMin r locking m zk st result hu hmin =>
      have hprev : (w.user t).prevOwn (F.name (F.inst t)) (w.lock (F.inst t)) = true := hok
      rw [hu] at huser hprev
      obtain ⟨hres, hst'⟩ := minEffect_named hmin hst huser hprev
      have hnext : ∀ t', (((w.setLock (F.inst t) st).userMin t locking result).user t').Named (F.name (F.inst t')) :=
        named_userMin (w := w.setLock (F.inst t) st) h.user hres
      refine ⟨fun j => ?_, hnext⟩
      show (((w.setLock (F.inst t) st).userMin t locking result).lock j).Named (F.name j)
      rw [(userMin_eq _ t locking result).1]
      exact named_setLock h.lock hst' j
    | newLatch _ => exact ⟨named_setLock h.lock ⟨hst.self, hst.wait, hst.event⟩, named_goto h.user trivial⟩
    | awaitLatch _ _ => exact ⟨h.lock, named_goto h.user trivial⟩
    | unpark _ => exact ⟨h.lock, named_goto h.user trivial⟩
    | unlock _ hc => rcases hc with rfl | rfl <;> exact ⟨h.lock, named_goto h.user trivial⟩
    | deleted _ _ => exact ⟨h.lock, named_goto h.user trivial⟩
    | deleteFailed _ => exact ⟨h.lock, named_goto h.user trivial⟩
  | @event i r _ he =>
    have hst := h.lock i
    cases he with
    | ignore _ _ _ => exact ⟨named_setLock h.lock ⟨hst.self, hst.wait, fun m hm => by cases hm⟩, h.user⟩
    | process _ _ _ =>
      refine ⟨named_setLock h.lock ⟨hst.self, hst.wait, fun m hm => ?_⟩, h.user⟩
      cases hm
      exact trivial
    | @isMin r m zk st result hev hmin =>
      have hprev : (w.lock i).event.all (·.prevOwn (F.name i) (w.lock i)) = true := hok
      rw [hev] at hprev
      obtain ⟨hres, hst'⟩ := minEffect_named hmin hst (hst.event m hev) hprev
      refine ⟨named_eventMin h.lock hst' hres, fun t => ?_⟩
      show ((w.eventMin i st result).user t).Named _
      rw [(eventMin_eq w i st result).1]
      exact h.user t
  | expire => exact ⟨h.lock, h.user⟩

theorem nameInv_step (h : NameInv F w) (hok : OwnPrev F w l) (hs : zkStep F w l = some w') : NameInv F w' := by
  obtain ⟨hlock, huser⟩ := named_step h hok hs
  exact ⟨(zkStep_dir hs).owner h, (zkStep_dir hs).watches h, hlock, huser⟩

/-- **A step of an instance named `a` is the step in the view.** -/
theorem zkStep_view (h : NameInv F w) (hok : OwnPrev F w l) (hl : l.name F = a) :
    zkStep F (w.view F a) l = (zkStep F w l).map (ZkWorld.view F a) := by
  cases l with
  | lock t =>
    have ht : F.uses a t = true := beq_iff_eq.2 hl
    simp only [zkStep, user_view ht]
    cases w.user t with
    | idle result => exact congrArg some (view_goto (w := w) (c := .rootExists true) ht).symm
    | _ => rfl
  | tryLock t =>
    have ht : F.uses a t = true := beq_iff_eq.2 hl
    simp only [zkStep, user_view ht]
    cases w.user t with
    | idle result => exact congrArg some (view_goto (w := w) (c := .rootExists false) ht).symm
    | _ => rfl
  | unlock t =>
    have ht : F.uses a t = true := beq_iff_eq.2 hl
    simp only [zkStep, user_view ht]
    cases w.user t with
    | idle result => exact congrArg some (view_goto (w := w) (c := .unlockExists) ht).symm
    | _ => rfl
  | user t r =>
    have ht : F.uses a t = true := beq_iff_eq.2 hl
    have hname : F.name (F.inst t) = a := hl
    have hlock := h.lock (F.inst t)
    have huser := h.user t
    have hprev : (w.user t).prevOwn (F.name (F.inst t)) (w.lock (F.inst t)) = true := hok
    rw [hname] at hlock huser hprev
    refine userStep_view ht hlock.self hlock.wait h.watches (fun locking m hu => ?_)
      fun locking m zk' st' result hu hmin => ?_
    · rw [hu] at hprev
      exact hprev
    · rw [hu] at huser hprev
      exact (minEffect_named (minStep_effect hmin) hlock huser hprev).1
  | event i r =>
    have hi : F.named a i = true := beq_iff_eq.2 hl
    have hname : F.name i = a := hl
    have hlock := h.lock i
    have hprev : (w.lock i).event.all (·.prevOwn (F.name i) (w.lock i)) = true := hok
    rw [hname] at hlock hprev
    refine eventStep_view hi hlock.self hlock.wait hprev fun m zk' st' result hev hmin => ?_
    rw [hev] at hprev
    exact (minEffect_named (minStep_effect hmin) hlock (hlock.event m hev) hprev).1
  | expire i =>
    have hi : F.named a i = true := beq_iff_eq.2 hl
    refine congrArg some ?_
    show _ = { w.view F a with zk := zkView F a (w.zk.expire i) }
    rw [zkView_expire hi h.watches]
    rfl

/-- A step grants a node of the name of its instance only. -/
theorem grants_step (h : NameInv F w) (hok : OwnPrev F w l) (hs : zkStep F w l = some w') :
    w'.grants = w.grants ∨ ∃ self, w'.grants = self :: w.grants ∧ lockName (childName self) = l.name F := by
  cases zkStep_effect hs with
  | @user t r _ hu =>
    cases hu with
    | @isMin r locking m zk st result hu hmin =>
      have hprev : (w.user t).prevOwn (F.name (F.inst t)) (w.lock (F.inst t)) = true := hok
      have huser := h.user t
      rw [hu] at huser hprev
      cases result with
      | granted self => exact .inr ⟨self, rfl, (minEffect_named hmin (h.lock _) huser hprev).1⟩
      | _ => exact .inl rfl
    | _ => exact .inl rfl
  | @event i r _ he =>
    cases he with
    | @isMin r m zk st result hev hmin =>
      have hprev : (w.lock i).event.all (·.prevOwn (F.name i) (w.lock i)) = true := hok
      rw [hev] at hprev
      cases result with
      | granted self => exact .inr ⟨self, rfl, (minEffect_named hmin (h.lock i) ((h.lock i).event m hev) hprev).1⟩
      | _ => exact .inl rfl
    | _ => exact .inl rfl
  | _ => exact .inl rfl

/-- **A step of an instance of another name only moves the clock of the view.** -/
theorem other_view (h : NameInv F w) (hok : OwnPrev F w l) (hl : l.name F ≠ a) (hs : zkStep F w l = some w') :
    w'.view F a = (w.view F a).atClock w' := by
  have hi : F.named a (l.session F) = false := beq_eq_false_iff_ne.2 hl
  have hzk : zkView F a w'.zk = ((w.view F a).atClock w').zk := (zkStep_dir hs).clock h hi
  have hlock : (w'.view F a).lock = (w.view F a).lock := by
    funext j
    cases hj : F.named a j with
    | false => rw [lock_view_not hj, lock_view_not hj]
    | true =>
      rw [lock_view hj, lock_view hj, zkStep_lock_other hs]
      rintro rfl
      rw [hi] at hj
      cases hj
  have huser : (w'.view F a).user = (w.view F a).user := by
    funext t
    cases ht : F.uses a t with
    | false => rw [user_view_not ht, user_view_not ht]
    | true =>
      have hthread : l.thread ≠ some t := by
        intro hthread
        rw [session_of_thread hthread] at hi
        exact Bool.false_ne_true (hi.symm.trans ht)
      rw [user_view ht, user_view ht, zkStep_other hs hthread]
  have hgrants : (w'.view F a).grants = (w.view F a).grants := by
    show w'.grants.filter _ = w.grants.filter _
    rcases grants_step h hok hs with heq | ⟨self, heq, hself⟩
    · rw [heq]
    · rw [heq]
      refine List.filter_cons_of_neg fun htrue => hl ?_
      rw [← hself]
      exact ofName_iff.1 htrue
  show ZkWorld.mk (zkView F a w'.zk) (w'.view F a).lock (w'.view F a).user (w'.view F a).grants = _
  rw [hzk, hlock, huser, hgrants]
  rfl

/-- A run of instances named `a` is a run in the view. -/
theorem view_run {ls : List (ZkLabel ι τ)} (h : NameInv F w) (hls : ∀ l ∈ ls, l.name F = a)
    (hok : Along (zkStep F) (OwnPrev F) w ls) (hrun : exec (zkStep F) w ls = some w') :
    exec (zkStep F) (w.view F a) ls = some (w'.view F a) := by
  induction ls generalizing w with
  | nil => cases hrun; rfl
  | cons l ls ih =>
    obtain ⟨v, hv, hrun⟩ := exec_cons_inv hrun
    obtain ⟨hprev, hrest⟩ := along_cons.1 hok
    have hstep : zkStep F (w.view F a) l = some (v.view F a) := by
      rw [zkStep_view h hprev (hls l List.mem_cons_self), hv]
      rfl
    rw [exec_cons, hstep]
    exact ih (nameInv_step h hprev hv) (fun l' hl' => hls l' (List.mem_cons_of_mem _ hl')) (hrest v hv) hrun

end Steps

section Calls

omit [DecidableEq ι] [DecidableEq τ] in
theorem ok_view (h : w.zk.Ok) : (w.view F a).zk.Ok := by
  have hmem : ∀ n ∈ (w.view F a).zk.nodes, n ∈ w.zk.nodes := fun n hn => List.mem_of_mem_filter hn
  exact ⟨fun n hn => h.bound n (hmem n hn), fun n hn => h.dead n (hmem n hn),
    fun x hx y hy => h.order x (hmem x hx) y (hmem y hy)⟩

/-- A `tryLock` on its own that returns true finds its node first. -/
theorem ownPrev_of_true {w₀ : ZkWorld ι τ} {rs : List Reply} (h : UserTryPlace F w₀ t w (w.user t))
    (hrs : ∀ r ∈ rs, ¬ r.Failed) (hrun : exec (zkStep F) w (rs.map (.user t)) = some w')
    (hend : w'.user t = .idle (some true)) : Along (zkStep F) (OwnPrev F) w (rs.map (.user t)) := by
  induction rs generalizing w with
  | nil => exact trivial
  | cons r rs ih =>
    refine along_cons.2 ⟨?_, fun v hv => ?_⟩
    · show (w.user t).prevOwn (F.name (F.inst t)) (w.lock (F.inst t)) = true
      cases hu : w.user t with
      | isMin locking m =>
        cases m with
        | indexOf subNodes =>
          have hplace := h
          rw [hu] at hplace
          obtain ⟨rfl, seq, htried, hself, hlist⟩ := hplace
          obtain rfl : subNodes = sortStrings (w.zk.children w.zk.zxid) := hlist
          have hsmallest := (tryUser_smallest hu htried h hrs hrun hend).1 rfl
          have hfirst := htried.first_iff.2.2 hsmallest
          simp only [UserPc.prevOwn, MinPc.prevOwn, DistributedLock.prev, hself, childName_childPath, hfirst,
            Option.all_none]
        | _ => rfl
      | _ => rfl
    · have hr := hrs r List.mem_cons_self
      rw [List.map_cons, exec_cons, hv] at hrun
      exact ih (tryUser_step h hr hv) (fun r' hr' => hrs r' (List.mem_cons_of_mem _ hr')) hrun

/-- A `tryLock` on its own, where no node of its name is there, returns true if and only if the
child before its own one, if there is one, is of its name: then there is none. -/
theorem triesAlone_ownPrev (hok : w.zk.Ok) (h : NameInv F w)
    (hnone : ∀ n ∈ w.zk.nodes, F.name n.owner = F.name (F.inst t) → ¬ n.Live) {rs : List Reply} {b : Bool}
    (htry : TriesAlone F w t rs w' b) :
    b = true ↔ Along (zkStep F) (OwnPrev F) w (.tryLock t :: rs.map (.user t)) := by
  constructor
  · rintro rfl
    obtain ⟨hrs, hrun, hend⟩ := htry
    refine along_cons.2 ⟨trivial, fun v hv => ?_⟩
    have hstart : UserTryPlace F w t v (v.user t) := by
      cases zkStep_effect hv with
      | tryLock _ =>
        rw [goto_user]
        exact ⟨rfl, hok, rfl⟩
    rw [exec_cons, hv] at hrun
    exact ownPrev_of_true hstart hrs hrun hend
  · intro halong
    obtain ⟨hrs, hrun, hend⟩ := htry
    have hnames : ∀ l ∈ ZkLabel.tryLock t :: rs.map (.user t), l.name F = F.name (F.inst t) := by
      intro l hl
      rcases List.mem_cons.1 hl with rfl | hl
      · rfl
      · obtain ⟨r, -, rfl⟩ := List.mem_map.1 hl
        rfl
    have ht : F.uses (F.name (F.inst t)) t = true := beq_self_eq_true _
    -- in the view no node is there, so none sorts before the new one
    have hview : TriesAlone F (w.view F (F.name (F.inst t))) t rs (w'.view F (F.name (F.inst t))) b := by
      refine ⟨hrs, view_run h hnames halong hrun, ?_⟩
      rw [user_view ht, hend]
      rfl
    obtain ⟨seq, -, hiff⟩ := triesAlone_iff (ok_view hok) hview
    refine hiff.2 fun n hn hlive => ?_
    obtain ⟨hn, hbase⟩ := List.mem_filter.1 hn
    exact absurd hlive (hnone n hn ((h.owner n hn).symm.trans (beq_iff_eq.1 hbase)))

/-- **Locks of different names are independent**, in every run in which the child directly
before the own one is of the own name, wherever an instance looks for its place. What the
instances named `a` can do, and are granted, is what they can do in their view, whatever the
others hold or wait for; a step of the others only moves the clock of the view; and a
`tryLock` on the name, where no node of it is there, ends, and returns true if and only if its
own steps meet the condition too. -/
theorem names_independent (F : ZkFleet ι τ) {ls : List (ZkLabel ι τ)} {w : ZkWorld ι τ}
    (hrun : exec (zkStep F) (.init ι τ) ls = some w) (hok : Along (zkStep F) (OwnPrev F) (.init ι τ) ls) (a : String) :
    (∀ l, OwnPrev F w l → l.name F = a → zkStep F (w.view F a) l = (zkStep F w l).map (ZkWorld.view F a)) ∧
      (∀ l w', OwnPrev F w l → l.name F ≠ a → zkStep F w l = some w' → w'.view F a = (w.view F a).atClock w') ∧
      ∀ t result, F.name (F.inst t) = a → w.user t = .idle result →
        (∀ n ∈ w.zk.nodes, F.name n.owner = a → ¬ n.Live) →
        (∀ rs w' b, TriesAlone F w t rs w' b →
          (b = true ↔ Along (zkStep F) (OwnPrev F) w (.tryLock t :: rs.map (.user t)))) ∧
        (w.zk.expired (F.inst t) = false → '/' ∉ a.toList → w.zk.nextSeq < 10 ^ ZNode.seqDigits →
          ∃ rs w' b, TriesAlone F w t rs w' b) := by
  have h : NameInv F w := inv_of_along (fun _ _ _ => nameInv_step) (nameInv_init F) hok hrun
  have hgrant : GrantInv F w := inv_of_exec (fun _ _ _ ha hs => grantInv_step ha hs) (grantInv_init F) hrun
  have htimely : w.zk.Timely := inv_of_exec (I := fun v => v.zk.Timely) (fun _ _ _ => zkStep_timely) (.init ι) hrun
  refine ⟨fun l hl hname => zkStep_view h hl hname, fun l w' hl hname hs => other_view h hl hname hs, ?_⟩
  rintro t result rfl hu hnone
  refine ⟨fun rs w' b htry => triesAlone_ownPrev hgrant.ok h hnone htry, fun hexpired hslash hseq => ?_⟩
  exact triesAlone_ends hgrant.ok htimely hu hexpired hslash hseq

end Calls

/-- A lock named `x` and one named `y`, each used by one thread. -/
def twoNames (x y : String) : ZkFleet Bool Bool := ⟨fun i => if i then y else x, id⟩

instance (F : ZkFleet Bool Bool) (w : ZkWorld Bool Bool) : DecidablePred (OwnPrev F w)
  | .lock _ | .tryLock _ | .unlock _ | .expire _ => isTrue trivial
  | .user _ _ | .event _ _ => inferInstanceAs (Decidable (_ = true))

/-- The call of `tryLock` that finds its node first. -/
def tries : List Reply := [.ok 2, .ok 1, .silent, .ok 3, .silent, .silent]

/-- While the lock `b` is taken, `tryLock` on `a` returns true, as in its view; an `unlock` of
`b` is not seen by `a`. -/
theorem names_independent_tries : ∃ w w' v, exec (zkStep (twoNames "b" "a")) (.init Bool Bool) takes = some w ∧
    Granted w false ⟨"b", 0, false, 2, none⟩ ∧ TriesAlone (twoNames "b" "a") w true tries w' true ∧
    Along (zkStep (twoNames "b" "a")) (OwnPrev (twoNames "b" "a")) w (.tryLock true :: tries.map (.user true)) ∧
    zkStep (twoNames "b" "a") (w.view (twoNames "b" "a") "a") (.tryLock true) =
      (zkStep (twoNames "b" "a") w (.tryLock true)).map (ZkWorld.view (twoNames "b" "a") "a") ∧
    zkStep (twoNames "b" "a") w (.unlock false) = some v ∧
    v.view (twoNames "b" "a") "a" = (w.view (twoNames "b" "a") "a").atClock v := by
  have heval : (exec (zkStep (twoNames "b" "a")) (.init Bool Bool) takes).any (fun w =>
      decide (Granted w false ⟨"b", 0, false, 2, none⟩ ∧ w.user true = .idle none ∧
        ∀ n ∈ w.zk.nodes, (twoNames "b" "a").name n.owner = "a" → ¬ n.Live) &&
      ((exec (zkStep (twoNames "b" "a")) w (.tryLock true :: tries.map (.user true))).any (fun w' =>
        decide (w'.user true = .idle (some true))) &&
      (zkStep (twoNames "b" "a") w (.unlock false)).isSome)) = true := by decide +kernel
  obtain ⟨w, hrun, hw⟩ := (Option.any_eq_true _ _).1 heval
  obtain ⟨hw, hrest⟩ := Bool.and_eq_true_iff.1 hw
  obtain ⟨hgranted, hu, hnone⟩ := of_decide_eq_true hw
  obtain ⟨htry, hunlock⟩ := Bool.and_eq_true_iff.1 hrest
  obtain ⟨w', hrun', hend⟩ := (Option.any_eq_true _ _).1 htry
  obtain ⟨v, hv⟩ := Option.isSome_iff_exists.1 hunlock
  have htries : TriesAlone (twoNames "b" "a") w true tries w' true := ⟨by decide, hrun', of_decide_eq_true hend⟩
  obtain ⟨hown, hother, hcall⟩ := names_independent (twoNames "b" "a") hrun (by decide +kernel) "a"
  exact ⟨w, w', v, hrun, hgranted, htries, ((hcall true none rfl hu hnone).1 tries w' true htries).1 rfl,
    hown (.tryLock true) trivial rfl, hv, hother (.unlock false) v trivial (by decide) hv⟩

/-- While the lock `a` is taken, `tryLock` on `b` returns false, although `b` has no node. -/
theorem names_interfere : ∃ w rs w', exec (zkStep (twoNames "a" "b")) (.init Bool Bool) takes = some w ∧
    (∀ n ∈ w.zk.nodes, (twoNames "a" "b").name n.owner ≠ "b") ∧
    TriesAlone (twoNames "a" "b") w true rs w' false := by
  have heval : (exec (zkStep (twoNames "a" "b")) (.init Bool Bool) takes).any (fun w =>
      decide (∀ n ∈ w.zk.nodes, (twoNames "a" "b").name n.owner ≠ "b") &&
        (exec (zkStep (twoNames "a" "b")) w (.tryLock true :: [.ok 2, .ok 1, .silent, .ok 3, .silent, .silent,
          .ok 3].map (.user true))).any fun w' => decide (w'.user true = .idle (some false))) = true := by
    decide +kernel
  obtain ⟨w, hrun, hw⟩ := (Option.any_eq_true _ _).1 heval
  obtain ⟨hnone, htry⟩ := Bool.and_eq_true_iff.1 hw
  obtain ⟨w', hrun', hend⟩ := (Option.any_eq_true _ _).1 htry
  exact ⟨w, _, w', hrun, of_decide_eq_true hnone, by decide, hrun', of_decide_eq_true hend⟩

end StudyTech
