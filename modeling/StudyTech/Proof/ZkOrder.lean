import StudyTech.Proof.ZkStep

/-!
# Exclusive and fair grants of the ZooKeeper lock

A path for which `isMinPath` returned true is `Least`: every older node of its name was
removed by the time of the read, and stays removed, since new nodes are newer. So at
most one instance of a name is granted at a time, and grants follow the order of
creation (`exclusive_fair`), whatever the other threads and sessions do.
-/

namespace StudyTech

open Lib

variable {ι τ : Type}

/-- The path is that of a node that instance `i` created. -/
def Owned (zk : ZooKeeper ι) (base : String) (i : ι) (path : String) : Prop :=
  ∃ n ∈ zk.nodes, childPath n.name = path ∧ n.owner = i ∧ n.base = base

/-- The older nodes of the name were all removed. -/
def Least (zk : ZooKeeper ι) (path : String) : Prop :=
  ∃ x ∈ zk.nodes, childPath x.name = path ∧ ∀ y ∈ zk.nodes, y.base = x.base → y.seq < x.seq → ¬ y.Live

/-- What is known at a place of `isMinPath`. -/
def MinOk (zk : ZooKeeper ι) : MinPc → Prop
  | .indexOf subNodes => ∃ z ≤ zk.zxid, subNodes = sortStrings (zk.children z)
  | .latchNull self => Least zk self
  | .countDown self => Least zk self
  | _ => True

def ResultOk (zk : ZooKeeper ι) : MinResult → Prop
  | .goto m => MinOk zk m
  | .granted self => Least zk self
  | _ => True

def UserOk (F : ZkFleet ι τ) (zk : ZooKeeper ι) (t : τ) : UserPc → Prop
  | .assignSelf _ path => Owned zk (F.name (F.inst t)) (F.inst t) path
  | .isMin _ m => MinOk zk m
  | _ => True

/-- The invariant. -/
structure GrantInv (F : ZkFleet ι τ) (w : ZkWorld ι τ) : Prop where
  ok : w.zk.Ok
  self : ∀ i path, (w.lock i).selfPath = some path → Owned w.zk (F.name i) i path
  user : ∀ t, UserOk F w.zk t (w.user t)
  event : ∀ i m, (w.lock i).event = some m → MinOk w.zk m
  grants : ∀ path ∈ w.grants, Least w.zk path

theorem grantInv_init (F : ZkFleet ι τ) : GrantInv F (.init ι τ) := by
  refine ⟨.init ι, ?_, ?_, ?_, ?_⟩
  · intro i path h; cases h
  · intro t; exact trivial
  · intro i m h; cases h
  · intro path h; cases h

section Growing

variable {zk zk' : ZooKeeper ι} {path base : String} {i : ι}

theorem Owned.mono (hg : zk.Grows zk') (h : Owned zk base i path) : Owned zk' base i path := by
  obtain ⟨n, hn, hpath, howner, hbase⟩ := h
  obtain ⟨n', hn', hsame⟩ := hg.keep n hn
  exact ⟨n', hn', by rw [hsame.name]; exact hpath, hsame.2.2.1.trans howner, hsame.1.trans hbase⟩

/-- What is least stays least: new nodes are newer. -/
theorem Least.mono (hg : zk.Grows zk') (h : Least zk path) : Least zk' path := by
  obtain ⟨x, hx, hpath, hleast⟩ := h
  obtain ⟨x', hx', hsame⟩ := hg.keep x hx
  refine ⟨x', hx', by rw [hsame.name]; exact hpath, fun y' hy' hbase hlt hlive => ?_⟩
  rw [hsame.2.1] at hlt
  -- a live node was there before, and live, or is newer than all others
  rcases hg.back y' hy' with ⟨y, hy, hsame', hlive'⟩ | hnew
  · refine hleast y hy ?_ ?_ (hlive' hlive)
    · rw [← hsame'.1, ← hsame.1]; exact hbase
    · rw [← hsame'.2.1]; exact hlt
  · have hgt := hnew x hx
    omega

theorem MinOk.mono (hg : zk.Grows zk') {m : MinPc} (h : MinOk zk m) : MinOk zk' m := by
  cases m with
  | indexOf subNodes =>
    obtain ⟨z, hz, rfl⟩ := h
    exact ⟨z, le_trans hz hg.zxid_le, by rw [hg.children z hz]⟩
  | latchNull self => exact Least.mono hg h
  | countDown self => exact Least.mono hg h
  | _ => trivial

theorem UserOk.mono {F : ZkFleet ι τ} {t : τ} (hg : zk.Grows zk') {c : UserPc} (h : UserOk F zk t c) :
    UserOk F zk' t c := by
  cases c with
  | assignSelf _ path => exact Owned.mono hg h
  | isMin _ m => exact MinOk.mono hg h
  | _ => trivial

end Growing

variable {F : ZkFleet ι τ} {w w' : ZkWorld ι τ}

/-- What a step keeps or establishes anew. -/
theorem GrantInv.frame (h : GrantInv F w) (hok : w'.zk.Ok) (hg : w.zk.Grows w'.zk)
    (hself : ∀ i path, (w'.lock i).selfPath = some path →
      (w.lock i).selfPath = some path ∨ Owned w'.zk (F.name i) i path)
    (huser : ∀ t, w'.user t = w.user t ∨ UserOk F w'.zk t (w'.user t))
    (hevent : ∀ i m, (w'.lock i).event = some m → (w.lock i).event = some m ∨ MinOk w'.zk m)
    (hgrants : ∀ path ∈ w'.grants, path ∈ w.grants ∨ Least w'.zk path) : GrantInv F w' := by
  refine ⟨hok, fun i path hp => ?_, fun t => ?_, fun i m hm => ?_, fun path hp => ?_⟩
  · rcases hself i path hp with hold | hnew
    · exact (h.self i path hold).mono hg
    · exact hnew
  · rcases huser t with hold | hnew
    · rw [hold]; exact (h.user t).mono hg
    · exact hnew
  · rcases hevent i m hm with hold | hnew
    · exact (h.event i m hold).mono hg
    · exact hnew
  · rcases hgrants path hp with hold | hnew
    · exact (h.grants path hold).mono hg
    · exact hnew

variable [DecidableEq ι] [DecidableEq τ]

omit [DecidableEq ι] in
theorem userOk_update {zk : ZooKeeper ι} {user : τ → UserPc} {t : τ} {c : UserPc} (hc : UserOk F zk t c)
    (t' : τ) : Function.update user t c t' = user t' ∨ UserOk F zk t' (Function.update user t c t') := by
  by_cases htt : t' = t
  · subst htt
    rw [Function.update_self]
    exact Or.inr hc
  · exact Or.inl (Function.update_of_ne htt _ _)

omit [DecidableEq ι] in
/-- A step of a user thread that only touches the directory. -/
theorem GrantInv.move (h : GrantInv F w) {t : τ} {c : UserPc} {zk : ZooKeeper ι} (hok : zk.Ok)
    (hg : w.zk.Grows zk) (hc : UserOk F zk t c) : GrantInv F { w.goto t c with zk := zk } :=
  h.frame hok hg (fun _ _ hp => Or.inl hp) (userOk_update hc) (fun _ _ hm => Or.inl hm) (fun _ hp => Or.inl hp)

omit [DecidableEq ι] in
theorem GrantInv.goto (h : GrantInv F w) {t : τ} {c : UserPc} (hc : UserOk F w.zk t c) : GrantInv F (w.goto t c) :=
  h.move h.ok (.of_nodes rfl (le_refl _)) hc

omit [DecidableEq ι] [DecidableEq τ] in
theorem afterTry_ok {zk : ZooKeeper ι} {t : τ} (locking status : Bool) :
    UserOk F zk t (afterTry locking status) := by
  cases locking <;> cases status <;> exact trivial

omit [DecidableEq ι] in
/-- **The first of the sorted names is least**: a node that is older than the read and
was live then would have been sorted before it. -/
theorem least_of_first {zk : ZooKeeper ι} (hok : zk.Ok) {z : ℕ} {self : String} (hself : Owned zk base i self)
    (hfirst : (sortStrings (zk.children z)).idxOf? (childName self) = some 0) : Least zk self := by
  obtain ⟨n, hn, rfl, -⟩ := hself
  rw [childName_childPath] at hfirst
  refine ⟨n, hn, rfl, fun y hy hbase hlt hlive => ?_⟩
  have hlisted : n.name ∈ zk.children z :=
    mem_sortStrings.1 (List.isSome_idxOf?.1 (by rw [hfirst]; rfl))
  -- `n` was read at `z`, and `y` is older and still there
  obtain ⟨n', hn', hexists, hname⟩ := ZooKeeper.mem_children.1 hlisted
  obtain rfl := hok.eq_of_name hn' hn hname
  have hczxid : y.czxid < n'.czxid := by
    rcases hok.order y hy n' hn with rfl | ⟨-, hz⟩ | ⟨hgt, -⟩
    · omega
    · exact hz
    · omega
  have hy' : y.name ∈ zk.children z := by
    refine ZooKeeper.mem_children.2 ⟨y, hy, ZooKeeper.existsAt_of_live hlive ?_, rfl⟩
    have hle := hexists.1
    omega
  have hle := head_sortStrings_le hfirst hy'
  exact absurd (hok.name_lt hn hbase hlt) (not_lt.2 hle)

omit [DecidableEq τ] in
/-- A step of `isMinPath` establishes what is known where it leads. -/
theorem minEffect_ok {zk zk' : ZooKeeper ι} {i : ι} {st st' : DistributedLock} {m : MinPc} {r : Reply}
    {result : MinResult} (h : MinEffect zk i st m r zk' st' result) (hok : zk.Ok)
    (hself : ∀ self, st.selfPath = some self → Owned zk base i self) (hm : MinOk zk m) :
    zk'.Ok ∧ zk.Grows zk' ∧ st'.selfPath = st.selfPath ∧ st'.event = st.event ∧ ResultOk zk' result := by
  have hrefl : zk.Grows zk := .of_nodes rfl (le_refl _)
  cases h with
  | read _ hz => exact ⟨hok, hrefl, rfl, rfl, _, hz, rfl⟩
  | first hs hfirst =>
    obtain ⟨z, -, rfl⟩ := hm
    exact ⟨hok, hrefl, rfl, rfl, least_of_first hok (hself _ hs) hfirst⟩
  | noLatch _ => exact ⟨hok, hrefl, rfl, rfl, hm⟩
  | hasLatch _ => exact ⟨hok, hrefl, rfl, rfl, hm⟩
  | countDown _ => exact ⟨hok, hrefl, rfl, rfl, hm⟩
  | @watched path z _ =>
    obtain ⟨hn, hz, hs⟩ := ZooKeeper.watch_nodes zk i (childName path)
    exact ⟨hok.of_nodes hn (le_of_eq hz.symm) hs, .of_nodes hn (le_of_eq hz.symm), rfl, rfl, trivial⟩
  | failed _ _ hres =>
    refine ⟨hok, hrefl, rfl, rfl, ?_⟩
    rcases hres with rfl | rfl <;> exact trivial
  | _ => exact ⟨hok, hrefl, rfl, rfl, trivial⟩

omit [DecidableEq τ] in
/-- A step that writes the fields of one lock. -/
theorem GrantInv.setLock (h : GrantInv F w) (i : ι) (st : DistributedLock) {zk : ZooKeeper ι} (hok : zk.Ok)
    (hg : w.zk.Grows zk)
    (hself : ∀ path, st.selfPath = some path →
      (w.lock i).selfPath = some path ∨ Owned zk (F.name i) i path)
    (hevent : ∀ m, st.event = some m → (w.lock i).event = some m ∨ MinOk zk m) :
    GrantInv F { w.setLock i st with zk := zk } := by
  refine h.frame hok hg (fun j path hp => ?_) (fun t => Or.inl rfl) (fun j m hm => ?_) (fun _ hp => Or.inl hp)
  · simp only [ZkWorld.setLock] at hp
    by_cases hji : j = i
    · subst hji
      rw [Function.update_self] at hp
      exact hself path hp
    · rw [Function.update_of_ne hji] at hp
      exact Or.inl hp
  · simp only [ZkWorld.setLock] at hm
    by_cases hji : j = i
    · subst hji
      rw [Function.update_self] at hm
      exact hevent m hm
    · rw [Function.update_of_ne hji] at hm
      exact Or.inl hm

omit [DecidableEq ι] [DecidableEq τ] in
/-- A path is granted. -/
theorem GrantInv.grant (h : GrantInv F w) {self : String} (hleast : Least w.zk self) :
    GrantInv F { w with grants := self :: w.grants } := by
  refine ⟨h.ok, h.self, h.user, h.event, fun path hp => ?_⟩
  rcases List.mem_cons.1 hp with rfl | hp
  · exact hleast
  · exact h.grants path hp

omit [DecidableEq ι] in
/-- The user thread goes on after a step of `isMinPath`. -/
theorem GrantInv.userMin (h : GrantInv F w) {t : τ} (locking : Bool) {result : MinResult}
    (hres : ResultOk w.zk result) : GrantInv F (w.userMin t locking result) := by
  have hrefl : w.zk.Grows w.zk := .of_nodes rfl (le_refl _)
  cases result with
  | goto m => exact h.move h.ok hrefl hres
  | granted self => exact (h.grant hres).move h.ok hrefl (afterTry_ok locking true)
  | refused => exact h.move h.ok hrefl (afterTry_ok locking false)
  | threw => exact h.move h.ok hrefl (afterTry_ok locking false)

theorem GrantInv.userStep (h : GrantInv F w) {t : τ} {r : Reply} (hs : UserEffect F w t r w') :
    GrantInv F w' := by
  have hrefl : w.zk.Grows w.zk := .of_nodes rfl (le_refl _)
  have huser := h.user t
  cases hs with
  | @root r locking c zk _ hzk hc =>
    have hc' : UserOk F zk t c := by
      rcases hc with rfl | rfl | ⟨-, rfl⟩
      · exact trivial
      · exact trivial
      · exact afterTry_ok locking false
    rcases hzk with rfl | rfl
    · exact h.move h.ok hrefl hc'
    · exact h.move (h.ok.of_nodes rfl (Nat.le_succ _) rfl) (.of_nodes rfl (Nat.le_succ _)) hc'
  | @created locking seq _ hc =>
    refine h.move (h.ok.create hc.2.2.2.1 hc.2.2.2.2) (.create h.ok hc.2.2.2.1) ?_
    exact ⟨_, List.mem_append_right _ (List.mem_singleton_self _), rfl, rfl, rfl⟩
  | createFailed _ _ => exact h.move h.ok hrefl (afterTry_ok _ _)
  | createLost _ _ hc =>
    exact h.move (h.ok.create hc.2.2.2.1 hc.2.2.2.2) (.create h.ok hc.2.2.2.1) (afterTry_ok _ _)
  | @assignSelf locking path hu =>
    rw [hu] at huser
    have hlock := h.setLock (F.inst t) { w.lock (F.inst t) with selfPath := some path } h.ok hrefl
      (fun p hp => by cases hp; exact Or.inr huser) (fun _ hm => Or.inl hm)
    exact hlock.move (t := t) (c := .isMin locking .getChildren) h.ok hrefl trivial
  | @isMin r locking m zk st result hu hmin =>
    rw [hu] at huser
    obtain ⟨hok, hg, hsame, hev, hres⟩ := minEffect_ok hmin h.ok (h.self _) huser
    have h₁ := h.setLock (F.inst t) st hok hg (fun p hp => Or.inl (hsame ▸ hp)) (fun m hm => Or.inl (hev ▸ hm))
    have h₂ := h₁.userMin (t := t) locking hres
    cases result <;> exact h₂
  | newLatch _ =>
    have hlock := h.setLock (F.inst t) { w.lock (F.inst t) with
      latch := some (w.lock (F.inst t)).counts.length, counts := (w.lock (F.inst t)).counts ++ [1] } h.ok hrefl
      (fun _ hp => Or.inl hp) (fun _ hm => Or.inl hm)
    exact hlock.move (t := t) (c := .awaitLatch) h.ok hrefl trivial
  | awaitLatch _ _ => exact h.move h.ok hrefl trivial
  | unpark _ => exact h.move h.ok hrefl trivial
  | unlock _ hc =>
    rcases hc with rfl | rfl
    · exact h.move h.ok hrefl trivial
    · exact h.move h.ok hrefl trivial
  | deleted _ _ => exact h.move h.ok.remove .remove trivial
  | deleteFailed _ => exact h.move h.ok hrefl trivial

omit [DecidableEq τ] in
theorem GrantInv.eventStep (h : GrantInv F w) {i : ι} {r : Reply} (hs : EventEffect w i r w') :
    GrantInv F w' := by
  have hrefl : w.zk.Grows w.zk := .of_nodes rfl (le_refl _)
  have hpop : (w.zk.pop i).Ok := h.ok.of_nodes rfl (le_refl _) rfl
  cases hs with
  | ignore _ _ _ =>
    exact h.setLock i _ hpop (.of_nodes rfl (le_refl _)) (fun _ hp => Or.inl hp) (fun _ hm => by cases hm)
  | process _ _ _ =>
    refine h.setLock i _ hpop (.of_nodes rfl (le_refl _)) (fun _ hp => Or.inl hp) (fun m hm => ?_)
    cases hm
    exact Or.inr trivial
  | @isMin r m zk st result hm hmin =>
    obtain ⟨hok, hg, hsame, -, hres⟩ := minEffect_ok hmin h.ok (h.self i) (h.event i m hm)
    have hnext : ∀ ev, (∀ m, ev = some m → MinOk zk m) →
        GrantInv F { w.setLock i { st with event := ev } with zk := zk } := fun ev hev =>
      h.setLock i _ hok hg (fun p hp => Or.inl (hsame ▸ hp)) (fun m hm => Or.inr (hev m hm))
    cases result with
    | goto m' => exact hnext _ fun m hm => by cases hm; exact hres
    | granted self => exact (hnext none fun _ hm => by cases hm).grant hres
    | refused => exact hnext none fun _ hm => by cases hm
    | threw => exact hnext none fun _ hm => by cases hm

/-- **The invariant is preserved by every step**, whatever the replies. -/
theorem grantInv_step (h : GrantInv F w) {l : ZkLabel ι τ} (hs : zkStep F w l = some w') : GrantInv F w' := by
  have hrefl : w.zk.Grows w.zk := .of_nodes rfl (le_refl _)
  cases zkStep_effect hs with
  | lock _ => exact h.goto trivial
  | tryLock _ => exact h.goto trivial
  | unlock _ => exact h.goto trivial
  | user hu => exact h.userStep hu
  | event he => exact h.eventStep he
  | expire =>
    exact h.frame h.ok.expire ZooKeeper.grows_expire (fun _ _ hp => Or.inl hp) (fun t => Or.inl rfl)
      (fun _ _ hm => Or.inl hm) (fun _ hp => Or.inl hp)

/-- Instance `i` is granted the lock with the node `n`: `isMinPath` returned true for its
current node, which was not removed. -/
def Granted (w : ZkWorld ι τ) (i : ι) (n : ZNode ι) : Prop :=
  n ∈ w.zk.nodes ∧ n.Live ∧ (w.lock i).selfPath = some (childPath n.name) ∧ childPath n.name ∈ w.grants

instance (w : ZkWorld ι τ) (i : ι) (n : ZNode ι) : Decidable (Granted w i n) := inferInstanceAs (Decidable (_ ∧ _))

omit [DecidableEq τ] in
/-- The directory grows: nodes stay what they are. -/
theorem DirEffect.grows {l : ZkLabel ι τ} {zk : ZooKeeper ι} (h : DirEffect F w l zk) (hok : w.zk.Ok) :
    w.zk.Grows zk := by
  cases h with
  | same => exact .of_nodes rfl (le_refl _)
  | createRoot => exact .of_nodes rfl (Nat.le_succ _)
  | create hc => exact .create hok hc.2.2.2.1
  | @watch path _ =>
    obtain ⟨hn, hz, -⟩ := ZooKeeper.watch_nodes w.zk (l.session F) (childName path)
    exact .of_nodes hn (le_of_eq hz.symm)
  | pop => exact .of_nodes rfl (le_refl _)
  | delete _ _ _ => exact .remove
  | expire => exact ZooKeeper.grows_expire

/-- Grants are not taken back, and nodes stay what they are. -/
theorem history_step (h : GrantInv F w) {l : ZkLabel ι τ} (hs : zkStep F w l = some w') :
    (∀ path ∈ w.grants, path ∈ w'.grants) ∧ w.zk.Grows w'.zk := by
  refine ⟨?_, (zkStep_dir hs).grows h.ok⟩
  intro path hp
  cases zkStep_effect hs with
  | user hu =>
    cases hu with
    | @isMin r locking m zk st result _ _ =>
      cases result with
      | granted self => exact List.mem_cons_of_mem _ hp
      | _ => exact hp
    | _ => exact hp
  | event he =>
    cases he with
    | @isMin r m zk st result _ _ =>
      cases result with
      | granted self => exact List.mem_cons_of_mem _ hp
      | _ => exact hp
    | _ => exact hp
  | _ => exact hp

/-- What was granted once is still least later. -/
theorem history_run (h : GrantInv F w) {ls : List (ZkLabel ι τ)} (hrun : exec (zkStep F) w ls = some w') :
    GrantInv F w' ∧ (∀ path ∈ w.grants, path ∈ w'.grants) ∧ ∀ n ∈ w.zk.nodes, ∃ n' ∈ w'.zk.nodes, n'.Same n := by
  refine inv_of_exec (I := fun v => GrantInv F v ∧ (∀ path ∈ w.grants, path ∈ v.grants) ∧
    ∀ n ∈ w.zk.nodes, ∃ n' ∈ v.zk.nodes, n'.Same n) ?_ ⟨h, fun _ hp => hp, fun n hn => ⟨n, hn, .refl n⟩⟩ hrun
  rintro a l b ⟨ha, hgrants, hnodes⟩ hs
  obtain ⟨hgrants', hgrows⟩ := history_step ha hs
  refine ⟨grantInv_step ha hs, fun path hp => hgrants' path (hgrants path hp), fun n hn => ?_⟩
  obtain ⟨n', hn', hsame⟩ := hnodes n hn
  obtain ⟨n'', hn'', hsame'⟩ := hgrows.keep n' hn'
  exact ⟨n'', hn'', hsame'.trans hsame⟩

omit [DecidableEq ι] [DecidableEq τ] in
/-- The node that instance `i` is granted the lock with is of its name. -/
theorem Granted.owned (h : GrantInv F w) {i : ι} {n : ZNode ι} (hg : Granted w i n) :
    n.owner = i ∧ n.base = F.name i := by
  obtain ⟨m, hm, hpath, howner, hbase⟩ := h.self i _ hg.2.2.1
  obtain rfl := h.ok.eq_of_name hm hg.1 (childPath_inj hpath)
  exact ⟨howner, hbase⟩

/-- A node granted earlier is not newer than one granted later. -/
theorem granted_order (h : GrantInv F w) {ls : List (ZkLabel ι τ)} (hrun : exec (zkStep F) w ls = some w')
    {i j : ι} {x y : ZNode ι} (hx : Granted w i x) (hy : Granted w' j y) (hname : F.name i = F.name j) :
    x.czxid ≤ y.czxid := by
  obtain ⟨h', hgrants, hnodes⟩ := history_run h hrun
  obtain ⟨-, hxbase⟩ := hx.owned h
  obtain ⟨-, hybase⟩ := hy.owned h'
  obtain ⟨x', hx', hsame⟩ := hnodes x hx.1
  -- what was granted first is least to the end, and the later node is live
  obtain ⟨x'', hx'', hpath, hleast⟩ := h'.grants _ (hgrants _ hx.2.2.2)
  obtain rfl : x'' = x' := h'.ok.eq_of_name hx'' hx' ((childPath_inj hpath).trans hsame.name.symm)
  have hbase : y.base = x''.base := by rw [hybase, hsame.1, hxbase, hname]
  have hseq : ¬ y.seq < x''.seq := fun hlt => hleast y hy.1 hbase hlt hy.2.1
  rw [← hsame.2.2.2]
  rcases h'.ok.order x'' hx'' y hy.1 with rfl | ⟨-, hlt⟩ | ⟨hlt, -⟩
  · exact le_refl _
  · exact le_of_lt hlt
  · exact absurd hlt hseq

/-- **Exclusive and fair grants.** In every run, whatever the names, replies, failures
and expired sessions: at most one instance of a name is granted the lock at a time, and
instances of one name are granted it in the order in which their nodes were created. -/
theorem exclusive_fair (F : ZkFleet ι τ) {ls₁ ls₂ : List (ZkLabel ι τ)} {w₁ w₂ : ZkWorld ι τ}
    (hrun₁ : exec (zkStep F) (.init ι τ) ls₁ = some w₁) (hrun₂ : exec (zkStep F) w₁ ls₂ = some w₂) :
    (∀ i j x y, Granted w₁ i x → Granted w₁ j y → F.name i = F.name j → i = j) ∧
      ∀ i j x y, Granted w₁ i x → Granted w₂ j y → F.name i = F.name j → x.czxid ≤ y.czxid := by
  have h : GrantInv F w₁ := inv_of_exec (fun _ _ _ ha hs => grantInv_step ha hs) (grantInv_init F) hrun₁
  refine ⟨fun i j x y hx hy hname => ?_, fun i j x y hx hy hname => granted_order h hrun₂ hx hy hname⟩
  have hnil : exec (zkStep F) w₁ [] = some w₁ := rfl
  have hxy := granted_order h hnil hx hy hname
  have hyx := granted_order h hnil hy hx hname.symm
  -- neither is newer than the other
  have heq : x = y := by
    rcases h.ok.order x hx.1 y hy.1 with heq | ⟨-, hlt⟩ | ⟨-, hlt⟩
    · exact heq
    · omega
    · omega
  rw [← (hx.owned h).1, ← (hy.owned h).1, heq]

/-- Two locks named `sub`, each used by one thread. -/
def twoZkLocks : ZkFleet Bool Bool := ⟨fun _ => "sub", id⟩

/-- The first lock is taken: the directory is created, then the node, which is the only one. -/
def takes : List (ZkLabel Bool Bool) :=
  [.lock false, .user false (.ok 0), .user false (.ok 0), .user false (.ok 0), .user false .silent,
    .user false (.ok 2), .user false .silent, .user false .silent]

/-- The second thread waits, the first one unlocks, and the event thread of the second wakes it. -/
def handsOver : List (ZkLabel Bool Bool) :=
  [.lock true, .user true (.ok 2), .user true (.ok 1), .user true .silent, .user true (.ok 3), .user true .silent,
    .user true .silent, .user true (.ok 3), .user true .silent, .user true .silent, .unlock false,
    .user false (.ok 3), .user false (.ok 0), .event true .silent, .event true (.ok 4), .event true .silent,
    .event true .silent, .event true .silent, .user true .silent]

/-- The lock is handed over in the order of the nodes. -/
theorem exclusive_fair_handover :
    let x : ZNode Bool := ⟨"sub", 0, false, 2, none⟩
    let y : ZNode Bool := ⟨"sub", 1, true, 3, none⟩
    ∃ w₁ w₂, exec (zkStep twoZkLocks) (.init Bool Bool) takes = some w₁ ∧
      exec (zkStep twoZkLocks) w₁ handsOver = some w₂ ∧ Granted w₁ false x ∧ Granted w₂ true y ∧
      (∀ i n, Granted w₁ i n → i = false) ∧ x.czxid ≤ y.czxid := by
  intro x y
  have heval : (exec (zkStep twoZkLocks) (.init Bool Bool) takes).any (fun w₁ => decide (Granted w₁ false x) &&
      (exec (zkStep twoZkLocks) w₁ handsOver).any fun w₂ => decide (Granted w₂ true y)) = true := by decide +kernel
  obtain ⟨w₁, hrun₁, heval⟩ := Option.any_eq_true _ _ |>.1 heval
  obtain ⟨hx, heval⟩ := Bool.and_eq_true_iff.1 heval
  obtain ⟨w₂, hrun₂, hy⟩ := Option.any_eq_true _ _ |>.1 heval
  have hx : Granted w₁ false x := of_decide_eq_true hx
  have hy : Granted w₂ true y := of_decide_eq_true hy
  have hfair := exclusive_fair twoZkLocks hrun₁ hrun₂
  exact ⟨w₁, w₂, hrun₁, hrun₂, hx, hy, fun i n hn => hfair.1 i false n x hn hx rfl,
    hfair.2 false true x y hx hy rfl⟩

end StudyTech
