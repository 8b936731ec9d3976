import StudyTech.Proof.ZkCalls

/-!
# The predecessors that `isMinPath` looks for

The threads of an instance share its `selfPath` and its `waitPath`. Only `tryLock` writes
`selfPath` (`selfPath_step`), and what `isMinPath` writes into `waitPath` is a name before that
of `selfPath` (`sought_step`). So all predecessors that are looked for are before a node of the
instance (`Placed`).
-/

namespace StudyTech

open Lib

variable {ι τ : Type}

/-- The instance waits for the path, or one of its threads is about to. -/
def Sought (F : ZkFleet ι τ) (w : ZkWorld ι τ) (i : ι) (path : String) : Prop :=
  (w.lock i).waitPath = some path ∨ (w.lock i).event = some (.setWaitPath path) ∨
    ∃ t locking, F.inst t = i ∧ w.user t = .isMin locking (.setWaitPath path)

/-- The path is of a name before that of `selfPath`. -/
def BeforeSelf (w : ZkWorld ι τ) (i : ι) (path : String) : Prop :=
  ∃ self, (w.lock i).selfPath = some self ∧ utf16 (childName path) < utf16 (childName self)

/-- All predecessors that are looked for are before a node of the instance. -/
def Placed (F : ZkFleet ι τ) (w : ZkWorld ι τ) : Prop :=
  ∀ i path, Sought F w i path → ∃ n ∈ w.zk.nodes, n.owner = i ∧ utf16 (childName path) < utf16 n.name

theorem placed_init (F : ZkFleet ι τ) : Placed F (.init ι τ) := by
  rintro i path (h | h | ⟨t, locking, -, h⟩)
  · cases h
  · cases h
  · cases h

variable [DecidableEq ι] [DecidableEq τ] {F : ZkFleet ι τ} {w w' : ZkWorld ι τ} {l : ZkLabel ι τ} {t : τ} {i : ι}
  {r : Reply} {path : String}

/-- **Only `tryLock` writes `selfPath`.** -/
theorem selfPath_step (hs : zkStep F w l = some w') (i : ι) :
    (w'.lock i).selfPath = (w.lock i).selfPath ∨
      ∃ t r locking path, l = .user t r ∧ F.inst t = i ∧ w.user t = .assignSelf locking path := by
  by_cases hi : i = l.session F
  · subst hi
    cases zkStep_effect hs with
    | @user t r _ hu =>
      cases hu with
      | @assignSelf locking path hu => exact Or.inr ⟨t, _, locking, path, rfl, rfl, hu⟩
      | @isMin r locking m zk st result _ hmin =>
        refine Or.inl ?_
        show (((w.setLock _ st).userMin t locking result).lock (F.inst t)).selfPath = _
        rw [(userMin_eq _ t locking result).1, setLock_lock]
        cases hmin <;> rfl
      | newLatch _ =>
        refine Or.inl ?_
        show ((w.setLock _ _).lock (F.inst t)).selfPath = _
        rw [setLock_lock]
        rfl
      | _ => exact Or.inl rfl
    | @event i r _ he =>
      refine Or.inl ?_
      cases he with
      | @isMin r m zk st result _ hmin =>
        show ((w.eventMin i st result).lock i).selfPath = _
        rw [(eventMin_eq w i st result).2, Function.update_self]
        cases hmin <;> rfl
      | ignore _ _ _ =>
        show ((w.setLock i _).lock i).selfPath = _
        rw [setLock_lock]
        rfl
      | process _ _ _ =>
        show ((w.setLock i _).lock i).selfPath = _
        rw [setLock_lock]
        rfl
    | _ => exact Or.inl rfl
  · rw [zkStep_lock_other hs hi]
    exact Or.inl rfl

omit [DecidableEq ι] [DecidableEq τ] in
/-- A step that writes no `waitPath` and is not about to. -/
theorem Sought.back (h : Sought F w' i path) (hwait : (w'.lock i).waitPath = (w.lock i).waitPath)
    (hevent : (w'.lock i).event = some (.setWaitPath path) → (w.lock i).event = some (.setWaitPath path))
    (huser : ∀ t locking, w'.user t = .isMin locking (.setWaitPath path) →
      w.user t = .isMin locking (.setWaitPath path)) : Sought F w i path := by
  rcases h with h | h | ⟨t, locking, hinst, hu⟩
  · exact Or.inl (hwait ▸ h)
  · exact Or.inr (Or.inl (hevent h))
  · exact Or.inr (Or.inr ⟨t, locking, hinst, huser t locking hu⟩)

omit [DecidableEq ι] in
/-- A thread goes elsewhere. -/
theorem setWaitPath_update {user : τ → UserPc} {pc : UserPc} (hpc : ∀ locking, pc ≠ .isMin locking (.setWaitPath path))
    (t' : τ) (locking : Bool) (h : Function.update user t pc t' = .isMin locking (.setWaitPath path)) :
    user t' = .isMin locking (.setWaitPath path) := by
  by_cases htt : t' = t
  · subst htt
    rw [Function.update_self] at h
    exact absurd h (hpc locking)
  · rwa [Function.update_of_ne htt] at h

omit [DecidableEq τ] in
/-- What a step of `isMinPath` does to `waitPath`, and what it is about to do. -/
theorem minEffect_sought {zk zk' : ZooKeeper ι} {st st' : DistributedLock} {m : MinPc} {result : MinResult}
    (h : MinEffect zk i st m r zk' st' result) (hm : MinOk zk m) :
    st'.event = st.event ∧ (st'.waitPath = st.waitPath ∨ ∃ path, m = .setWaitPath path ∧ st'.waitPath = some path) ∧
      ∀ path, result = .goto (.setWaitPath path) →
        ∃ self, st.selfPath = some self ∧ utf16 (childName path) < utf16 (childName self) := by
  cases h with
  | @later subNodes self prev k hself hidx hprev =>
    refine ⟨rfl, Or.inl rfl, fun path hpath => ?_⟩
    cases hpath
    -- the list is sorted, so the name before the own one is smaller
    obtain ⟨z, -, rfl⟩ := hm
    obtain ⟨-, hle, hne⟩ := prev_sortStrings_le hidx hprev
    rw [childName_childPath]
    exact ⟨self, hself, lt_of_le_of_ne hle fun heq => hne (utf16_inj heq)⟩
  | setWaitPath => exact ⟨rfl, Or.inr ⟨_, rfl, rfl⟩, fun _ hpath => by cases hpath⟩
  | failed _ _ hres => exact ⟨rfl, Or.inl rfl, fun path hpath => by rcases hres with rfl | rfl <;> cases hpath⟩
  | _ => exact ⟨rfl, Or.inl rfl, fun path hpath => by cases hpath⟩

omit [DecidableEq ι] [DecidableEq τ] in
theorem afterTry_ne_isMin (locking status locking' : Bool) (m : MinPc) :
    afterTry locking status ≠ .isMin locking' m := by
  cases locking <;> cases status <;> exact UserPc.noConfusion

/-- A step of `isMinPath` by a user thread. -/
theorem sought_userMin {locking : Bool} {m : MinPc} {zk zk' : ZooKeeper ι} {st : DistributedLock} {result : MinResult}
    (hu : w.user t = .isMin locking m) (hm : MinOk w.zk m)
    (hmin : MinEffect w.zk (F.inst t) (w.lock (F.inst t)) m r zk st result)
    (h : Sought F { (w.setLock (F.inst t) st).userMin t locking result with zk := zk' } i path) :
    Sought F w i path ∨ BeforeSelf w i path := by
  obtain ⟨hevent, hwait, hnext⟩ := minEffect_sought hmin hm
  obtain ⟨hlock, huser⟩ := userMin_eq (w.setLock (F.inst t) st) t locking result
  simp only [Sought, hlock, huser] at h
  have hst : (w.setLock (F.inst t) st).lock i = st ∧ i = F.inst t ∨ (w.setLock (F.inst t) st).lock i = w.lock i := by
    by_cases hi : i = F.inst t
    · exact Or.inl ⟨by rw [hi]; exact setLock_lock .., hi⟩
    · exact Or.inr (Function.update_of_ne hi ..)
  rcases h with h | h | ⟨t', locking', hinst, hpc⟩
  · rcases hst with ⟨hst, rfl⟩ | hst
    · rw [hst] at h
      rcases hwait with hsame | ⟨path', rfl, hnew⟩
      · exact Or.inl (Or.inl (hsame ▸ h))
      · rw [hnew] at h
        cases h
        exact Or.inl (Or.inr (Or.inr ⟨t, locking, rfl, hu⟩))
    · exact Or.inl (Or.inl (hst ▸ h))
  · rcases hst with ⟨hst, rfl⟩ | hst
    · rw [hst, hevent] at h
      exact Or.inl (Or.inr (Or.inl h))
    · exact Or.inl (Or.inr (Or.inl (hst ▸ h)))
  · by_cases htt : t' = t
    · -- the thread itself is about to write the path
      subst htt
      rw [Function.update_self] at hpc
      cases result with
      | goto m' =>
        cases hpc
        exact Or.inr (hinst ▸ hnext path rfl)
      | granted self => exact absurd hpc (afterTry_ne_isMin _ _ _ _)
      | refused => exact absurd hpc (afterTry_ne_isMin _ _ _ _)
      | threw => exact absurd hpc (afterTry_ne_isMin _ _ _ _)
    · rw [Function.update_of_ne htt] at hpc
      exact Or.inl (Or.inr (Or.inr ⟨t', locking', hinst, hpc⟩))

omit [DecidableEq τ] in
/-- A step of `isMinPath` by the event thread. -/
theorem sought_eventMin {j : ι} {m : MinPc} {zk zk' : ZooKeeper ι} {st : DistributedLock} {result : MinResult}
    (hev : (w.lock j).event = some m) (hm : MinOk w.zk m) (hmin : MinEffect w.zk j (w.lock j) m r zk st result)
    (h : Sought F { w.eventMin j st result with zk := zk' } i path) :
    Sought F w i path ∨ BeforeSelf w i path := by
  obtain ⟨-, hwait, hnext⟩ := minEffect_sought hmin hm
  obtain ⟨huser, hlock⟩ := eventMin_eq w j st result
  simp only [Sought, hlock, huser] at h
  by_cases hi : i = j
  · subst hi
    simp only [Function.update_self] at h
    rcases h with h | h | huser'
    · rcases hwait with hsame | ⟨path', rfl, hnew⟩
      · exact Or.inl (Or.inl (hsame ▸ h))
      · rw [hnew] at h
        cases h
        exact Or.inl (Or.inr (Or.inl hev))
    · -- the event thread is about to write the path
      cases result with
      | goto m' =>
        cases h
        exact Or.inr (hnext path rfl)
      | _ => cases h
    · exact Or.inl (Or.inr (Or.inr huser'))
  · simp only [Function.update_of_ne hi] at h
    exact Or.inl h

/-- **A predecessor that is looked for since the step is before `selfPath`.** -/
theorem sought_step (h : GrantInv F w) (hs : zkStep F w l = some w') (hsought : Sought F w' i path) :
    Sought F w i path ∨ BeforeSelf w i path := by
  -- a thread that goes elsewhere than to `isMinPath`
  have hgoto : ∀ (zk : ZooKeeper ι) {t : τ} {pc : UserPc}, Sought F { w.goto t pc with zk := zk } i path →
      (∀ locking, pc ≠ .isMin locking (.setWaitPath path)) → Sought F w i path :=
    fun _ _ _ hsought hpc => hsought.back rfl id (setWaitPath_update hpc)
  -- and writes other fields of the lock
  have hset : ∀ {t : τ} {pc : UserPc} {j : ι} {st : DistributedLock}, Sought F ((w.setLock j st).goto t pc) i path →
      st.waitPath = (w.lock j).waitPath → st.event = (w.lock j).event →
      (∀ locking, pc ≠ .isMin locking (.setWaitPath path)) → Sought F w i path := by
    intro t pc j st hsought hwait hevent hpc
    by_cases hi : i = j
    · subst hi
      have hlock : ((w.setLock i st).goto t pc).lock i = st := setLock_lock ..
      refine hsought.back (by rw [hlock, hwait]) (fun hev => ?_) (setWaitPath_update hpc)
      rw [hlock, hevent] at hev
      exact hev
    · have hlock : ((w.setLock j st).goto t pc).lock i = w.lock i := Function.update_of_ne hi ..
      refine hsought.back (by rw [hlock]) (fun hev => ?_) (setWaitPath_update hpc)
      rwa [hlock] at hev
  -- the event thread takes an event
  have htake : ∀ {zk : ZooKeeper ι} {j : ι} {event : Option MinPc},
      Sought F { w.setLock j { w.lock j with event := event } with zk := zk } i path →
      event ≠ some (.setWaitPath path) → Sought F w i path := by
    intro zk j event hsought hevent
    by_cases hi : i = j
    · subst hi
      have hlock : (w.setLock i { w.lock i with event := event }).lock i = { w.lock i with event := event } :=
        setLock_lock ..
      refine hsought.back (by simp only [hlock]) (fun hev => ?_) (fun _ _ hu => hu)
      simp only [hlock] at hev
      exact absurd hev hevent
    · have hlock : (w.setLock j { w.lock j with event := event }).lock i = w.lock i := Function.update_of_ne hi ..
      refine hsought.back (by simp only [hlock]) (fun hev => ?_) (fun _ _ hu => hu)
      simpa only [hlock] using hev
  cases zkStep_effect hs with
  | lock _ => exact Or.inl (hgoto w.zk hsought (by simp))
  | tryLock _ => exact Or.inl (hgoto w.zk hsought (by simp))
  | unlock _ => exact Or.inl (hgoto w.zk hsought (by simp))
  | @user t r _ hu =>
    cases hu with
    | root _ _ _ hpc =>
      refine Or.inl (hgoto _ hsought fun locking heq => ?_)
      rcases hpc with rfl | rfl | ⟨-, rfl⟩
      · cases heq
      · cases heq
      · exact afterTry_ne_isMin _ _ _ _ heq
    | created _ _ => exact Or.inl (hgoto _ hsought (by simp))
    | createFailed _ _ => exact Or.inl (hgoto w.zk hsought fun _ => afterTry_ne_isMin _ _ _ _)
    | createLost _ _ _ => exact Or.inl (hgoto _ hsought fun _ => afterTry_ne_isMin _ _ _ _)
    | assignSelf _ => exact Or.inl (hset hsought rfl rfl (by simp))
    | @isMin r locking m zk st result hu hmin =>
      have hm := h.user t
      rw [hu] at hm
      exact sought_userMin hu hm hmin hsought
    | newLatch _ => exact Or.inl (hset hsought rfl rfl (by simp))
    | awaitLatch _ _ => exact Or.inl (hgoto w.zk hsought (by simp))
    | unpark _ => exact Or.inl (hgoto w.zk hsought (by simp))
    | unlock _ hpc => exact Or.inl (hgoto w.zk hsought (by rcases hpc with rfl | rfl <;> simp))
    | deleted _ _ => exact Or.inl (hgoto _ hsought (by simp))
    | deleteFailed _ => exact Or.inl (hgoto w.zk hsought (by simp))
  | event he =>
    cases he with
    | ignore _ _ _ => exact Or.inl (htake hsought (by simp))
    | process _ _ _ => exact Or.inl (htake hsought (by simp))
    | isMin hev hmin => exact sought_eventMin hev (h.event _ _ hev) hmin hsought
  | expire => exact Or.inl hsought

/-- The invariant is kept. -/
theorem placed_step (h : Placed F w) (hgrant : GrantInv F w) (hs : zkStep F w l = some w') : Placed F w' := by
  intro i path hsought
  have hgrows := (history_step hgrant hs).2
  have hbefore : ∃ n ∈ w.zk.nodes, n.owner = i ∧ utf16 (childName path) < utf16 n.name := by
    rcases sought_step hgrant hs hsought with hsought | ⟨self, hself, hlt⟩
    · exact h i path hsought
    · obtain ⟨n, hn, rfl, howner, -⟩ := hgrant.self i self hself
      rw [childName_childPath] at hlt
      exact ⟨n, hn, howner, hlt⟩
  obtain ⟨n, hn, howner, hlt⟩ := hbefore
  obtain ⟨n', hn', hsame⟩ := hgrows.keep n hn
  exact ⟨n', hn', hsame.2.2.1.trans howner, by rw [hsame.name]; exact hlt⟩

omit [DecidableEq τ] in
theorem DirEffect.notifies {zk : ZooKeeper ι} (h : DirEffect F w l zk) (hn : w.zk.Notifies) (hok : w.zk.Ok) :
    zk.Notifies := by
  cases h with
  | same => exact hn
  | createRoot => exact hn.createRoot
  | create _ => exact hn.create hok
  | watch _ => exact hn.watch _ _
  | pop => exact hn.pop _
  | delete _ _ _ => exact hn.remove
  | expire => exact hn.expire

end StudyTech
