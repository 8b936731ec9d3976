import StudyTech.Proof.ZkStep
import StudyTech.Spec.ZkCalls

/-!
# A `tryLock` on its own

What a public `tryLock` returns when no call fails and no other step comes in between: the
call creates its node, sees every live child, and returns true if and only if no child
sorts before the new one (`tryAlone_iff`).
-/

namespace StudyTech

open Lib

variable {ι τ : Type}

/-- The thread has called `tryLock` and did not create its node yet. -/
structure Trying (w₀ w : ZkWorld ι τ) : Prop where
  ok : w.zk.Ok
  nodes : w.zk.nodes = w₀.zk.nodes

/-- The thread has created the node with the number `seq`. -/
structure Tried (F : ZkFleet ι τ) (w₀ : ZkWorld ι τ) (t : τ) (seq : ℕ) (w : ZkWorld ι τ) : Prop where
  ok : w.zk.Ok
  old : ∀ n ∈ w₀.zk.nodes, n.seq < seq
  nodes : w.zk.nodes = w₀.zk.nodes ++ [⟨F.name (F.inst t), seq, F.inst t, w.zk.zxid, none⟩]
  seen : w.zk.seen (F.inst t) = w.zk.zxid
  expired : w.zk.expired (F.inst t) = false

/-- No live child sorts before the one that the thread creates with the number `seq`. -/
def Smallest (F : ZkFleet ι τ) (w : ZkWorld ι τ) (t : τ) (seq : ℕ) : Prop :=
  ∀ n ∈ w.zk.nodes, n.Live → utf16 (F.child t seq) < utf16 n.name

/-- What is known at a place of `isMinPath`. -/
def TryPlace (F : ZkFleet ι τ) (w₀ : ZkWorld ι τ) (t : τ) (seq : ℕ) (w : ZkWorld ι τ) : MinPc → Prop
  | .getChildren => True
  | .indexOf subNodes => subNodes = sortStrings (w.zk.children w.zk.zxid)
  | .latchNull _ => Smallest F w₀ t seq
  | .countDown _ => Smallest F w₀ t seq ∧ (w.lock (F.inst t)).latch.isSome
  | .setWaitPath path => ¬ Smallest F w₀ t seq ∧ w.zk.hasLive (childName path) = true
  | .getData => ¬ Smallest F w₀ t seq ∧
      ∃ path, (w.lock (F.inst t)).waitPath = some path ∧ w.zk.hasLive (childName path) = true

/-- What is known at a place of `tryLock`. -/
def UserTryPlace (F : ZkFleet ι τ) (w₀ : ZkWorld ι τ) (t : τ) (w : ZkWorld ι τ) : UserPc → Prop
  | .rootExists locking => locking = false ∧ Trying w₀ w
  | .rootCreate locking => locking = false ∧ Trying w₀ w
  | .create locking => locking = false ∧ Trying w₀ w
  | .assignSelf locking path => locking = false ∧ ∃ seq, Tried F w₀ t seq w ∧ path = childPath (F.child t seq)
  | .isMin locking m => locking = false ∧ ∃ seq, Tried F w₀ t seq w ∧
      (w.lock (F.inst t)).selfPath = some (childPath (F.child t seq)) ∧ TryPlace F w₀ t seq w m
  | .idle result => ∃ seq b, result = some b ∧ Tried F w₀ t seq w ∧ (b = true ↔ Smallest F w₀ t seq)
  | _ => False

section Tried

variable {F : ZkFleet ι τ} {w₀ w : ZkWorld ι τ} {t : τ} {seq : ℕ}

/-- The live nodes are those that were live before, and the own one. -/
theorem Tried.hasLive_iff (h : Tried F w₀ t seq w) (c : String) :
    w.zk.hasLive c = true ↔ (∃ n ∈ w₀.zk.nodes, n.Live ∧ n.name = c) ∨ c = F.child t seq := by
  rw [ZooKeeper.hasLive_iff, h.nodes]
  constructor
  · rintro ⟨n, hn, hlive, rfl⟩
    rcases List.mem_append.1 hn with hn | hn
    · exact .inl ⟨n, hn, hlive, rfl⟩
    · obtain rfl := List.mem_singleton.1 hn
      exact .inr rfl
  · rintro (⟨n, hn, hlive, rfl⟩ | rfl)
    · exact ⟨n, List.mem_append_left _ hn, hlive, rfl⟩
    · exact ⟨_, List.mem_append_right _ (List.mem_singleton_self _), rfl, rfl⟩

/-- The node of the thread has a name of its own. -/
theorem Tried.name_ne (h : Tried F w₀ t seq w) {n : ZNode ι} (hn : n ∈ w₀.zk.nodes) : n.name ≠ F.child t seq := by
  intro hname
  have hmem : n ∈ w.zk.nodes := by rw [h.nodes]; exact List.mem_append_left _ hn
  have hself : (⟨F.name (F.inst t), seq, F.inst t, w.zk.zxid, none⟩ : ZNode ι) ∈ w.zk.nodes := by
    rw [h.nodes]
    exact List.mem_append_right _ (List.mem_singleton_self _)
  have hlt := h.old n hn
  rw [h.ok.eq_of_name hmem hself hname] at hlt
  exact Nat.lt_irrefl _ hlt

/-- The read of the children lists the own node, and lists it first if and only if it is
the smallest. -/
theorem Tried.first_iff (h : Tried F w₀ t seq w) :
    F.child t seq ∈ sortStrings (w.zk.children w.zk.zxid) ∧
      ((sortStrings (w.zk.children w.zk.zxid)).idxOf? (F.child t seq) = some 0 ↔ Smallest F w₀ t seq) := by
  have hself : F.child t seq ∈ w.zk.children w.zk.zxid := h.ok.mem_children_zxid.2 ((h.hasLive_iff _).2 (.inr rfl))
  refine ⟨mem_sortStrings.2 hself, first_sortStrings_iff.trans ⟨?_, ?_⟩⟩
  · rintro ⟨-, hle⟩ n hn hlive
    have hmem : n.name ∈ w.zk.children w.zk.zxid :=
      h.ok.mem_children_zxid.2 ((h.hasLive_iff _).2 (.inl ⟨n, hn, hlive, rfl⟩))
    refine lt_of_le_of_ne (hle _ hmem) fun heq => ?_
    exact h.name_ne hn (utf16_inj heq).symm
  · intro hsmallest
    refine ⟨hself, fun c hc => ?_⟩
    rcases (h.hasLive_iff c).1 (h.ok.mem_children_zxid.1 hc) with ⟨n, hn, hlive, rfl⟩ | rfl
    · exact le_of_lt (hsmallest n hn hlive)
    · exact le_refl _

/-- The own node sees all writes, so a read sees all live nodes. -/
theorem Tried.readable (h : Tried F w₀ t seq w) {z : ℕ} : Readable w.zk (F.inst t) z ↔ z = w.zk.zxid := by
  unfold Readable
  rw [h.seen]
  constructor
  · rintro ⟨-, hle, hge⟩
    omega
  · rintro rfl
    exact ⟨h.expired, Nat.le_refl _, Nat.le_refl _⟩

/-- Other fields of the world are of no matter. -/
theorem Tried.of_zk (h : Tried F w₀ t seq w) {w' : ZkWorld ι τ} (hok : w'.zk.Ok) (hn : w'.zk.nodes = w.zk.nodes)
    (hz : w'.zk.zxid = w.zk.zxid) (hs : w'.zk.seen = w.zk.seen) (he : w'.zk.expired = w.zk.expired) :
    Tried F w₀ t seq w' := by
  refine ⟨hok, h.old, ?_, ?_, ?_⟩
  · rw [hn, hz, h.nodes]
  · rw [hs, hz, h.seen]
  · rw [he, h.expired]

end Tried

/-- What is known when a step of `isMinPath` ends. -/
def TryResult (F : ZkFleet ι τ) (w₀ : ZkWorld ι τ) (t : τ) (seq : ℕ) (w : ZkWorld ι τ) : MinResult → Prop
  | .goto m => TryPlace F w₀ t seq w m
  | .granted _ => Smallest F w₀ t seq
  | .refused => ¬ Smallest F w₀ t seq
  | .threw => False

/-- The steps of `isMinPath` that are left, at most. -/
def MinPc.rank : MinPc → ℕ
  | .getChildren => 4
  | .indexOf _ => 3
  | .latchNull _ => 2
  | .countDown _ => 1
  | .setWaitPath _ => 2
  | .getData => 1

section MinSteps

variable [DecidableEq ι] {F : ZkFleet ι τ} {w₀ w : ZkWorld ι τ} {t : τ} {r : Reply} {m : MinPc} {seq : ℕ}
  {zk : ZooKeeper ι} {st : DistributedLock} {result : MinResult}

omit [DecidableEq ι] in
/-- The child before the own one is live, and the own one is not the smallest. -/
theorem Tried.prev (h : Tried F w₀ t seq w) {k : ℕ} {prev : String}
    (hidx : (sortStrings (w.zk.children w.zk.zxid)).idxOf? (F.child t seq) = some (k + 1))
    (hprev : (sortStrings (w.zk.children w.zk.zxid))[k]? = some prev) :
    ¬ Smallest F w₀ t seq ∧ w.zk.hasLive prev = true := by
  constructor
  · intro hsmallest
    rw [h.first_iff.2.2 hsmallest] at hidx
    cases hidx
  · exact h.ok.mem_children_zxid.1 (mem_sortStrings.1 (List.mem_of_getElem? hprev))

/-- A step of `isMinPath` in a `tryLock` on its own. -/
theorem tryMin_step (hr : ¬ r.Failed)
    (hmin : minStep w.zk (F.inst t) (w.lock (F.inst t)) m r = some (zk, st, result)) (htried : Tried F w₀ t seq w)
    (hself : (w.lock (F.inst t)).selfPath = some (childPath (F.child t seq))) (hm : TryPlace F w₀ t seq w m) :
    Tried F w₀ t seq { w.setLock (F.inst t) st with zk := zk } ∧ st.selfPath = some (childPath (F.child t seq)) ∧
      TryResult F w₀ t seq { w.setLock (F.inst t) st with zk := zk } result := by
  have hsame : Tried F w₀ t seq { w.setLock (F.inst t) st with zk := w.zk } :=
    htried.of_zk htried.ok rfl rfl rfl rfl
  have hlock : ({ w.setLock (F.inst t) st with zk := zk }.lock (F.inst t)) = st := Function.update_self ..
  cases m with
  | getChildren =>
    cases r with
    | silent => cases hmin
    | fail => exact absurd trivial hr
    | ok z =>
      simp only [minStep] at hmin
      split at hmin
      · rename_i hread
        cases hmin
        obtain rfl := htried.readable.1 hread
        exact ⟨hsame, hself, rfl⟩
      · cases hmin
  | indexOf subNodes =>
    obtain rfl : subNodes = sortStrings (w.zk.children w.zk.zxid) := hm
    cases r with
    | ok z => cases hmin
    | fail => exact absurd trivial hr
    | silent =>
      simp only [minStep, hself, childName_childPath] at hmin
      obtain ⟨hlisted, hfirst⟩ := htried.first_iff
      split at hmin
      · rename_i hnone
        exact absurd hlisted (List.idxOf?_eq_none_iff.1 hnone)
      · rename_i hzero
        cases hmin
        exact ⟨hsame, hself, hfirst.1 hzero⟩
      · rename_i k hk
        obtain ⟨prev, hprev, heq⟩ := Option.map_eq_some_iff.1 hmin
        cases heq
        obtain ⟨hnot, hlive⟩ := htried.prev hk hprev
        exact ⟨hsame, hself, hnot, by rw [childName_childPath]; exact hlive⟩
  | latchNull self =>
    cases r with
    | ok z => cases hmin
    | fail => exact absurd trivial hr
    | silent =>
      simp only [minStep] at hmin
      cases hlatch : (w.lock (F.inst t)).latch with
      | none =>
        rw [hlatch] at hmin
        cases hmin
        exact ⟨hsame, hself, hm⟩
      | some k =>
        rw [hlatch] at hmin
        cases hmin
        exact ⟨hsame, hself, hm, by rw [hlock, hlatch]; rfl⟩
  | countDown self =>
    cases r with
    | ok z => cases hmin
    | fail => exact absurd trivial hr
    | silent =>
      simp only [minStep] at hmin
      obtain ⟨k, -, heq⟩ := Option.map_eq_some_iff.1 hmin
      cases heq
      exact ⟨hsame, hself, hm.1⟩
  | setWaitPath path =>
    cases r with
    | ok z => cases hmin
    | fail => exact absurd trivial hr
    | silent =>
      cases hmin
      exact ⟨hsame, hself, hm.1, path, by rw [hlock], hm.2⟩
  | getData =>
    obtain ⟨hnot, path, hwait, hlive⟩ := hm
    cases r with
    | silent => cases hmin
    | fail => exact absurd trivial hr
    | ok z =>
      simp only [minStep, hwait] at hmin
      split at hmin
      · rename_i hread
        obtain rfl := htried.readable.1 hread
        -- the read sees the node that was listed
        rw [if_pos (htried.ok.mem_children_zxid.2 hlive)] at hmin
        cases hmin
        obtain ⟨hn, hz, hseq⟩ := ZooKeeper.watch_nodes w.zk (F.inst t) (childName path)
        obtain ⟨hseen, hexpired, -⟩ := ZooKeeper.watch_sessions w.zk (F.inst t) (childName path)
        have hok := htried.ok.of_nodes hn (le_of_eq hz.symm) hseq
        exact ⟨htried.of_zk hok hn hz hseen hexpired, hself, hnot⟩
      · cases hmin

/-- A `tryLock` on its own goes on in `isMinPath`, and comes closer to its end. -/
theorem tryMin_progress (htried : Tried F w₀ t seq w)
    (hself : (w.lock (F.inst t)).selfPath = some (childPath (F.child t seq))) (hm : TryPlace F w₀ t seq w m) :
    ∃ r zk st result, ¬ r.Failed ∧
      minStep w.zk (F.inst t) (w.lock (F.inst t)) m r = some (zk, st, result) ∧
      ∀ m', result = .goto m' → m'.rank < m.rank := by
  have hread : Readable w.zk (F.inst t) w.zk.zxid := htried.readable.2 rfl
  cases m with
  | getChildren =>
    refine ⟨.ok w.zk.zxid, _, _, _, id, if_pos hread, fun m' hm' => ?_⟩
    cases hm'
    exact Nat.lt_succ_self 3
  | indexOf subNodes =>
    obtain rfl : subNodes = sortStrings (w.zk.children w.zk.zxid) := hm
    have hlisted := htried.first_iff.1
    cases hidx : (sortStrings (w.zk.children w.zk.zxid)).idxOf? (F.child t seq) with
    | none => exact absurd hlisted (List.idxOf?_eq_none_iff.1 hidx)
    | some k =>
      obtain ⟨hk, -, -⟩ := List.idxOf?_eq_some_iff.1 hidx
      cases k with
      | zero =>
        refine ⟨.silent, w.zk, w.lock (F.inst t), .goto (.latchNull (childPath (F.child t seq))), id, ?_,
          fun m' hm' => ?_⟩
        · simp only [minStep, hself, childName_childPath, hidx]
        · cases hm'
          exact Nat.lt_succ_self 2
      | succ k =>
        obtain ⟨prev, hprev⟩ : ∃ prev, (sortStrings (w.zk.children w.zk.zxid))[k]? = some prev :=
          ⟨_, List.getElem?_eq_getElem (Nat.lt_of_succ_lt hk)⟩
        refine ⟨.silent, w.zk, w.lock (F.inst t), .goto (.setWaitPath (childPath prev)), id, ?_, fun m' hm' => ?_⟩
        · simp only [minStep, hself, childName_childPath, hidx, hprev, Option.map_some]
        · cases hm'
          exact Nat.lt_succ_self 2
  | latchNull self =>
    cases hlatch : (w.lock (F.inst t)).latch with
    | none =>
      refine ⟨.silent, w.zk, w.lock (F.inst t), .granted self, id, ?_, fun m' hm' => nomatch hm'⟩
      simp only [minStep, if_pos hlatch]
    | some k =>
      refine ⟨.silent, w.zk, w.lock (F.inst t), .goto (.countDown self), id, ?_, fun m' hm' => ?_⟩
      · simp [minStep, hlatch]
      · cases hm'
        exact Nat.lt_succ_self 1
  | countDown self =>
    obtain ⟨k, hlatch⟩ := Option.isSome_iff_exists.1 hm.2
    have hstep : minStep w.zk (F.inst t) (w.lock (F.inst t)) (.countDown self) .silent = some (w.zk,
        { w.lock (F.inst t) with counts := (w.lock (F.inst t)).counts.modify k (· - 1) }, .granted self) := by
      simp only [minStep, hlatch, Option.map_some]
    exact ⟨.silent, _, _, _, id, hstep, fun m' hm' => nomatch hm'⟩
  | setWaitPath path =>
    refine ⟨.silent, _, _, _, id, rfl, fun m' hm' => ?_⟩
    cases hm'
    exact Nat.lt_succ_self 1
  | getData =>
    obtain ⟨-, path, hwait, hlive⟩ := hm
    have hfound : childName path ∈ w.zk.children w.zk.zxid := htried.ok.mem_children_zxid.2 hlive
    refine ⟨.ok w.zk.zxid, w.zk.watch (F.inst t) (childName path), w.lock (F.inst t), .refused, id, ?_,
      fun m' hm' => nomatch hm'⟩
    simp only [minStep, hwait, if_pos hread, if_pos hfound]

end MinSteps

section UserSteps

variable [DecidableEq ι] [DecidableEq τ] {F : ZkFleet ι τ} {w₀ w w' : ZkWorld ι τ} {t : τ} {r : Reply}

/-- One call of `tryLock` by the thread: its own steps, none of which fails, up to the end. -/
def TriesAlone (F : ZkFleet ι τ) (w : ZkWorld ι τ) (t : τ) (rs : List Reply) (w' : ZkWorld ι τ) (b : Bool) : Prop :=
  (∀ r ∈ rs, ¬ r.Failed) ∧ exec (zkStep F) w (.tryLock t :: rs.map (.user t)) = some w' ∧ w'.user t = .idle (some b)

/-- The thread goes on after a step of `isMinPath`. -/
theorem UserTryPlace.userMin {seq : ℕ} {zk : ZooKeeper ι} {st : DistributedLock} {result : MinResult}
    (htried : Tried F w₀ t seq { w.setLock (F.inst t) st with zk := zk })
    (hself : st.selfPath = some (childPath (F.child t seq)))
    (hresult : TryResult F w₀ t seq { w.setLock (F.inst t) st with zk := zk } result) :
    UserTryPlace F w₀ t { (w.setLock (F.inst t) st).userMin t false result with zk := zk }
      (((w.setLock (F.inst t) st).userMin t false result).user t) := by
  have hself' : ((w.setLock (F.inst t) st).lock (F.inst t)).selfPath = some (childPath (F.child t seq)) := by
    rw [setLock_lock]
    exact hself
  -- what is known is about the directory and the lock
  have hmove : ∀ (c : UserPc) (grants : List String), Tried F w₀ t seq
      ⟨zk, (w.setLock (F.inst t) st).lock, Function.update w.user t c, grants⟩ := fun _ _ =>
    htried.of_zk htried.ok rfl rfl rfl rfl
  cases result with
  | goto m' =>
    show UserTryPlace F w₀ t _ ((ZkWorld.goto _ t _).user t)
    rw [goto_user]
    refine ⟨rfl, seq, hmove _ _, hself', ?_⟩
    cases m' with
    | getChildren => exact hresult
    | indexOf subNodes => exact hresult
    | latchNull self => exact hresult
    | countDown self => exact hresult
    | setWaitPath path => exact hresult
    | getData => exact hresult
  | granted self =>
    show UserTryPlace F w₀ t _ ((ZkWorld.goto _ t _).user t)
    rw [goto_user]
    exact ⟨seq, true, rfl, hmove _ _, iff_of_true rfl hresult⟩
  | refused =>
    show UserTryPlace F w₀ t _ ((ZkWorld.goto _ t _).user t)
    rw [goto_user]
    exact ⟨seq, false, rfl, hmove _ _, iff_of_false (fun h => nomatch h) hresult⟩
  | threw => exact hresult.elim

/-- A step of a `tryLock` on its own. -/
theorem tryUser_step (h : UserTryPlace F w₀ t w (w.user t)) (hr : ¬ r.Failed)
    (hs : zkStep F w (.user t r) = some w') : UserTryPlace F w₀ t w' (w'.user t) := by
  have hs' : userStep F w t r = some w' := hs
  cases userStep_effect hs' with
  | @root r locking c zk hu hzk hc =>
    have htrying : locking = false ∧ Trying w₀ w := by
      rcases hu with hu | hu <;> (rw [hu] at h; exact h)
    obtain ⟨rfl, htrying⟩ := htrying
    have hnew : Trying w₀ { w.goto t c with zk := zk } := by
      rcases hzk with rfl | rfl
      · exact ⟨htrying.ok, htrying.nodes⟩
      · exact ⟨htrying.ok.of_nodes rfl (Nat.le_succ _) rfl, htrying.nodes⟩
    show UserTryPlace F w₀ t _ ((w.goto t c).user t)
    rw [goto_user]
    rcases hc with rfl | rfl | ⟨hfailed, -⟩
    · exact ⟨rfl, hnew⟩
    · exact ⟨rfl, hnew⟩
    · exact absurd hfailed hr
  | @created locking seq hu hc =>
    rw [hu] at h
    obtain ⟨rfl, htrying⟩ := h
    show UserTryPlace F w₀ t _ ((w.goto t _).user t)
    rw [goto_user]
    refine ⟨rfl, seq, ⟨htrying.ok.create hc.2.2.2.1 hc.2.2.2.2, fun n hn => ?_, ?_, ?_, hc.1⟩, rfl⟩
    · rw [← htrying.nodes] at hn
      exact Nat.lt_of_lt_of_le (htrying.ok.bound n hn).1 hc.2.2.2.1
    · rw [← htrying.nodes]
      rfl
    · exact Function.update_self ..
  | createFailed _ hfailed => exact absurd hfailed hr
  | createLost _ hfailed _ => exact absurd hfailed hr
  | @assignSelf locking path hu =>
    rw [hu] at h
    obtain ⟨rfl, seq, htried, rfl⟩ := h
    show UserTryPlace F w₀ t _ ((ZkWorld.goto _ t _).user t)
    rw [goto_user]
    refine ⟨rfl, seq, htried.of_zk htried.ok rfl rfl rfl rfl, ?_, trivial⟩
    show ((w.setLock _ _).lock _).selfPath = _
    rw [setLock_lock]
  | @isMin r locking m zk st result hu _ =>
    rw [hu] at h
    obtain ⟨rfl, seq, htried, hself, hm⟩ := h
    simp only [userStep, hu] at hs'
    obtain ⟨⟨zk', st', result'⟩, hmin, heq⟩ := Option.map_eq_some_iff.1 hs'
    rw [← heq]
    obtain ⟨htried', hself', hresult⟩ := tryMin_step hr hmin htried hself hm
    exact .userMin htried' hself' hresult
  | newLatch hu => rw [hu] at h; exact h.elim
  | awaitLatch hu _ => rw [hu] at h; exact h.elim
  | unpark hu => rw [hu] at h; exact h.elim
  | unlock hu _ => rw [hu] at h; exact h.elim
  | deleted hu _ => rw [hu] at h; exact h.elim
  | deleteFailed hu => rw [hu] at h; exact h.elim

/-- The thread comes to the end of its call by its own steps, none of which fails. -/
def Finishes (F : ZkFleet ι τ) (w : ZkWorld ι τ) (t : τ) : Prop :=
  ∃ (rs : List Reply) (w' : ZkWorld ι τ) (b : Bool), (∀ r ∈ rs, ¬ r.Failed) ∧
    exec (zkStep F) w (rs.map (.user t)) = some w' ∧ w'.user t = .idle (some b)

theorem Finishes.step (h : Finishes F w' t) (hr : ¬ r.Failed) (hs : zkStep F w (.user t r) = some w') :
    Finishes F w t := by
  obtain ⟨rs, w'', b, hrs, hrun, hend⟩ := h
  refine ⟨r :: rs, w'', b, fun r' hr' => ?_, ?_, hend⟩
  · rcases List.mem_cons.1 hr' with rfl | hr'
    · exact hr
    · exact hrs r' hr'
  · rw [List.map_cons, exec_cons, hs]
    exact hrun

/-- `isMinPath` ends: the rank of its place decreases. -/
theorem finishes_isMin {n : ℕ} {m : MinPc} (hn : m.rank ≤ n) (hu : w.user t = .isMin false m)
    (h : UserTryPlace F w₀ t w (w.user t)) : Finishes F w t := by
  induction n generalizing w m with
  | zero => cases m <;> exact absurd hn (Nat.not_succ_le_zero _)
  | succ n ih =>
    have hplace := h
    rw [hu] at hplace
    obtain ⟨-, seq, htried, hself, hm⟩ := hplace
    obtain ⟨r, zk, st, result, hr, hmin, hrank⟩ := tryMin_progress htried hself hm
    have hs : zkStep F w (.user t r) = some { (w.setLock (F.inst t) st).userMin t false result with zk := zk } := by
      simp only [zkStep, userStep, hu, hmin, Option.map_some]
    have hnext := tryUser_step h hr hs
    refine Finishes.step ?_ hr hs
    cases result with
    | goto m' =>
      have hlt := hrank m' rfl
      exact ih (by omega) (goto_user _ t _) hnext
    | granted self => exact ⟨[], _, true, fun _ hr' => (List.not_mem_nil hr').elim, rfl, goto_user _ t _⟩
    | refused => exact ⟨[], _, false, fun _ hr' => (List.not_mem_nil hr').elim, rfl, goto_user _ t _⟩
    | threw => exact ⟨[], _, false, fun _ hr' => (List.not_mem_nil hr').elim, rfl, goto_user _ t _⟩

/-- From its create the call ends. -/
theorem finishes_create (hu : w.user t = .create false) (hok : w.zk.Ok)
    (hc : Creatable w.zk (F.inst t) (F.name (F.inst t)) w.zk.nextSeq) : Finishes F w t := by
  have hplace : UserTryPlace F w t w (w.user t) := by
    rw [hu]
    exact ⟨rfl, hok, rfl⟩
  have hs : zkStep F w (.user t (.ok w.zk.nextSeq)) = some { w.goto t (.assignSelf false
      (childPath (F.name (F.inst t) ++ paddedDecimal ZNode.seqDigits w.zk.nextSeq))) with
      zk := w.zk.create (F.inst t) (F.name (F.inst t)) w.zk.nextSeq } := by
    simp only [zkStep, userStep, hu, if_pos hc]
  have hplace₁ := tryUser_step hplace id hs
  refine Finishes.step ?_ id hs
  generalize hw : ({ w.goto t (.assignSelf false
      (childPath (F.name (F.inst t) ++ paddedDecimal ZNode.seqDigits w.zk.nextSeq))) with
      zk := w.zk.create (F.inst t) (F.name (F.inst t)) w.zk.nextSeq } : ZkWorld ι τ) = w₁ at hplace₁ ⊢
  have hu₁ : w₁.user t = .assignSelf false (childPath (F.child t w.zk.nextSeq)) := by
    rw [← hw]
    exact goto_user ..
  have hs₁ : zkStep F w₁ (.user t .silent) = some ((w₁.setLock (F.inst t) { w₁.lock (F.inst t) with
      selfPath := some (childPath (F.child t w.zk.nextSeq)) }).goto t (.isMin false .getChildren)) := by
    simp only [zkStep, userStep, hu₁]
  exact Finishes.step (finishes_isMin (Nat.le_refl _) (goto_user _ t _) (tryUser_step hplace₁ id hs₁)) id hs₁

theorem tryUser_run {rs : List Reply} (h : UserTryPlace F w₀ t w (w.user t)) (hrs : ∀ r ∈ rs, ¬ r.Failed)
    (hrun : exec (zkStep F) w (rs.map (.user t)) = some w') : UserTryPlace F w₀ t w' (w'.user t) := by
  induction rs generalizing w with
  | nil => cases hrun; exact h
  | cons r rs ih =>
    obtain ⟨m, hm, hrun⟩ := exec_cons_inv hrun
    have hr := tryUser_step h (hrs r List.mem_cons_self) hm
    exact ih hr (fun r' hr' => hrs r' (List.mem_cons_of_mem _ hr')) hrun

/-- **What a `tryLock` on its own returns.** It creates a node, and returns true if and only
if no live child sorts before it. -/
theorem triesAlone_iff (hok : w.zk.Ok) {rs : List Reply} {b : Bool} (h : TriesAlone F w t rs w' b) :
    ∃ seq, (∃ n ∈ w'.zk.nodes, n.Live ∧ n.owner = F.inst t ∧ n.name = F.child t seq) ∧
      (b = true ↔ Smallest F w t seq) := by
  obtain ⟨hrs, hrun, hend⟩ := h
  obtain ⟨m, hm, hrun⟩ := exec_cons_inv hrun
  have hstart : UserTryPlace F w t m (m.user t) := by
    cases zkStep_effect hm with
    | tryLock _ =>
      rw [goto_user]
      exact ⟨rfl, hok, rfl⟩
  have hplace := tryUser_run hstart hrs hrun
  rw [hend] at hplace
  obtain ⟨seq, b', hb, htried, hiff⟩ := hplace
  cases hb
  have hnode : (⟨F.name (F.inst t), seq, F.inst t, w'.zk.zxid, none⟩ : ZNode ι) ∈ w'.zk.nodes := by
    rw [htried.nodes]
    exact List.mem_append_right _ (List.mem_singleton_self _)
  exact ⟨seq, ⟨_, hnode, rfl, rfl, rfl⟩, hiff⟩

omit [DecidableEq ι] [DecidableEq τ] in
/-- The number of the new node is known from the nodes. -/
theorem Tried.seq_eq {seq seq' : ℕ} (h : Tried F w₀ t seq w) (h' : Tried F w₀ t seq' w')
    (hn : w'.zk.nodes = w.zk.nodes) : seq' = seq := by
  have heq := h'.nodes
  rw [hn, h.nodes] at heq
  have hlast := List.singleton_inj.1 (List.append_cancel_left heq)
  exact (congrArg ZNode.seq hlast).symm

/-- `isMinPath` creates and removes no node, and the call ends with it. -/
theorem tryUser_isMin {m : MinPc} (hu : w.user t = .isMin false m) (hs : zkStep F w (.user t r) = some w') :
    w'.zk.nodes = w.zk.nodes ∧ ((∃ m', w'.user t = .isMin false m') ∨ ∃ b, w'.user t = .idle (some b)) := by
  simp only [zkStep, userStep, hu] at hs
  obtain ⟨⟨zk, st, result⟩, hmin, heq⟩ := Option.map_eq_some_iff.1 hs
  rw [← heq]
  refine ⟨?_, ?_⟩
  · cases minStep_effect hmin with
    | watched _ => exact (ZooKeeper.watch_nodes ..).1
    | _ => rfl
  · cases result with
    | goto m' => exact .inl ⟨m', goto_user _ t _⟩
    | granted self => exact .inr ⟨true, goto_user _ t _⟩
    | refused => exact .inr ⟨false, goto_user _ t _⟩
    | threw => exact .inr ⟨false, goto_user _ t _⟩

theorem tryUser_nodes {rs : List Reply}
    (hu : (∃ m, w.user t = .isMin false m) ∨ ∃ b, w.user t = .idle (some b))
    (hrun : exec (zkStep F) w (rs.map (.user t)) = some w') : w'.zk.nodes = w.zk.nodes := by
  induction rs generalizing w with
  | nil => cases hrun; rfl
  | cons r rs ih =>
    obtain ⟨v, hv, hrun⟩ := exec_cons_inv hrun
    rcases hu with ⟨m, hu⟩ | ⟨b, hu⟩
    · obtain ⟨hnodes, hnext⟩ := tryUser_isMin hu hv
      rw [ih hnext hrun, hnodes]
    · -- the call has ended
      simp only [zkStep, userStep, hu] at hv
      cases hv

/-- In `isMinPath` it is settled what the call returns. -/
theorem tryUser_smallest {rs : List Reply} {m : MinPc} {seq : ℕ} {b : Bool} (hu : w.user t = .isMin false m)
    (htried : Tried F w₀ t seq w) (h : UserTryPlace F w₀ t w (w.user t)) (hrs : ∀ r ∈ rs, ¬ r.Failed)
    (hrun : exec (zkStep F) w (rs.map (.user t)) = some w') (hend : w'.user t = .idle (some b)) :
    b = true ↔ Smallest F w₀ t seq := by
  have hplace := tryUser_run h hrs hrun
  rw [hend] at hplace
  obtain ⟨seq', b', hb, htried', hiff⟩ := hplace
  cases hb
  rw [← htried.seq_eq htried' (tryUser_nodes (.inl ⟨m, hu⟩) hrun)]
  exact hiff

/-- From the start of `createRootPath` the call ends. -/
theorem finishes_root (hok : w.zk.Ok) (htimely : w.zk.Timely) (hu : w.user t = .rootExists false)
    (hexpired : w.zk.expired (F.inst t) = false) (hname : '/' ∉ (F.name (F.inst t)).toList)
    (hseq : w.zk.nextSeq < 10 ^ ZNode.seqDigits) : Finishes F w t := by
  have hread : Readable w.zk (F.inst t) w.zk.zxid := ⟨hexpired, htimely.seen _, Nat.le_refl _⟩
  have hs : zkStep F w (.user t (.ok w.zk.zxid)) =
      some (w.goto t (if w.zk.rootAt w.zk.zxid then .create false else .rootCreate false)) := by
    simp only [zkStep, userStep, hu, if_pos hread]
  refine Finishes.step ?_ id hs
  cases hroot : w.zk.root with
  | some z =>
    -- the directory is there
    have hat : w.zk.rootAt w.zk.zxid = true := by
      rw [ZooKeeper.rootAt, hroot]
      exact decide_eq_true (htimely.root z hroot)
    rw [if_pos hat]
    exact finishes_create (goto_user w t _) hok
      ⟨hexpired, by rw [ZkWorld.goto, hroot]; rfl, hname, Nat.le_refl _, hseq⟩
  | none =>
    have hat : ¬ w.zk.rootAt w.zk.zxid = true := by
      rw [ZooKeeper.rootAt, hroot]
      exact Bool.false_ne_true
    rw [if_neg hat]
    have hu₁ : (w.goto t (.rootCreate false)).user t = .rootCreate false := goto_user ..
    have hcond : (w.goto t (.rootCreate false)).zk.root = none ∧
        (w.goto t (.rootCreate false)).zk.expired (F.inst t) = false := ⟨hroot, hexpired⟩
    have hs₁ : zkStep F (w.goto t (.rootCreate false)) (.user t (.ok 0)) =
        some { (w.goto t (.rootCreate false)).goto t (.create false) with
          zk := (w.goto t (.rootCreate false)).zk.createRoot } := by
      simp only [zkStep, userStep, hu₁, if_pos hcond]
    have hok₁ : w.zk.createRoot.Ok := hok.of_nodes rfl (Nat.le_succ _) rfl
    refine Finishes.step ?_ id hs₁
    exact finishes_create (goto_user (w.goto t (.rootCreate false)) t _) hok₁
      ⟨hexpired, rfl, hname, Nat.le_refl _, hseq⟩

/-- A `tryLock` on its own ends, if ZooKeeper accepts its node. -/
theorem triesAlone_ends (hok : w.zk.Ok) (htimely : w.zk.Timely) {result : Option Bool} (hu : w.user t = .idle result)
    (hexpired : w.zk.expired (F.inst t) = false) (hname : '/' ∉ (F.name (F.inst t)).toList)
    (hseq : w.zk.nextSeq < 10 ^ ZNode.seqDigits) : ∃ rs w' b, TriesAlone F w t rs w' b := by
  have hs : zkStep F w (.tryLock t) = some (w.goto t (.rootExists false)) := by simp only [zkStep, hu]
  have hgoto : Finishes F (w.goto t (.rootExists false)) t :=
    finishes_root hok htimely (goto_user w t _) hexpired hname hseq
  obtain ⟨rs, w', b, hrs, hrun, hend⟩ := hgoto
  refine ⟨rs, w', b, hrs, ?_, hend⟩
  rw [exec_cons, hs]
  exact hrun

end UserSteps

section Timely

variable [DecidableEq ι] [DecidableEq τ] {F : ZkFleet ι τ} {w w' : ZkWorld ι τ} {l : ZkLabel ι τ}

omit [DecidableEq τ] in
theorem DirEffect.timely {zk : ZooKeeper ι} (h : DirEffect F w l zk) (ht : w.zk.Timely) : zk.Timely := by
  cases h with
  | same => exact ht
  | createRoot => exact ht.createRoot
  | create _ => exact ht.create
  | @watch path _ =>
    obtain ⟨-, hz, -⟩ := ZooKeeper.watch_nodes w.zk (l.session F) (childName path)
    obtain ⟨hseen, -, hroot⟩ := ZooKeeper.watch_sessions w.zk (l.session F) (childName path)
    exact ht.of_zxid hroot hseen (le_of_eq hz.symm)
  | pop => exact ht.of_zxid rfl rfl (le_refl _)
  | delete _ _ _ => exact ht.of_zxid rfl rfl (Nat.le_succ _)
  | expire => exact ht.of_zxid rfl rfl (Nat.le_succ _)

theorem zkStep_timely (ht : w.zk.Timely) (hs : zkStep F w l = some w') : w'.zk.Timely := (zkStep_dir hs).timely ht

end Timely

end StudyTech
