import StudyTech.Lib.Restrict
import StudyTech.Proof.ZkStep

/-!
# What the locks of one name see

`ZkWorld.view F a` keeps of a world what concerns the instances named `a`: their nodes,
sessions, fields and threads, and the clock of the directory (its root, the last zxid and
the next number). A read of the children is the view of the read (`children_view`), and each
operation of a session of that name is the operation on the view.
-/

namespace StudyTech

open Lib

variable {ι τ : Type}

/-- The name of the lock that created the child: what stands before its number. -/
def lockName (child : String) : String := String.ofList (child.toList.take (child.length - ZNode.seqDigits))

theorem lockName_child (base : String) (seq : ℕ) : lockName (base ++ paddedDecimal ZNode.seqDigits seq) = base := by
  unfold lockName
  have hlen : (base ++ paddedDecimal ZNode.seqDigits seq).length - ZNode.seqDigits = base.toList.length := by
    simp [paddedDecimal, String.length_toList]
  rw [hlen, String.toList_append, List.take_left, String.ofList_toList]

theorem lockName_name (n : ZNode ι) : lockName n.name = n.base := lockName_child n.base n.seq

/-- The child was created by an instance named `a`. -/
def ofName (a child : String) : Bool := lockName child == a

theorem ofName_iff {a c : String} : ofName a c = true ↔ lockName c = a := beq_iff_eq

/-- The instance is named `a`. -/
def ZkFleet.named (F : ZkFleet ι τ) (a : String) (i : ι) : Bool := F.name i == a

/-- The thread uses an instance named `a`. -/
def ZkFleet.uses (F : ZkFleet ι τ) (a : String) (t : τ) : Bool := F.named a (F.inst t)

def MinPc.view (a : String) : MinPc → MinPc
  | .indexOf subNodes => .indexOf (subNodes.filter (ofName a))
  | m => m

def MinResult.view (a : String) : MinResult → MinResult
  | .goto m => .goto (m.view a)
  | result => result

def UserPc.view (a : String) : UserPc → UserPc
  | .isMin locking m => .isMin locking (m.view a)
  | c => c

def DistributedLock.view (a : String) (st : DistributedLock) : DistributedLock :=
  { st with event := st.event.map (MinPc.view a) }

/-- The child directly before the own one. -/
def DistributedLock.prev (st : DistributedLock) (subNodes : List String) : Option String :=
  match st.selfPath with
  | none => none
  | some self =>
    match subNodes.idxOf? (childName self) with
    | some (k + 1) => subNodes[k]?
    | _ => none

/-- Where `isMinPath` looks for its place, the child before the own one is of its name, if there
is one. -/
def MinPc.prevOwn (a : String) (st : DistributedLock) : MinPc → Bool
  | .indexOf subNodes => (st.prev subNodes).all (ofName a)
  | _ => true

/-- The paths at a place of `isMinPath` are of nodes of the name. -/
def MinPc.Named (a : String) : MinPc → Prop
  | .latchNull self => lockName (childName self) = a
  | .countDown self => lockName (childName self) = a
  | .setWaitPath path => lockName (childName path) = a
  | _ => True

def MinResult.Named (a : String) : MinResult → Prop
  | .goto m => m.Named a
  | .granted self => lockName (childName self) = a
  | _ => True

/-- The nodes and sessions of the instances named `a`. -/
def zkView (F : ZkFleet ι τ) (a : String) (zk : ZooKeeper ι) : ZooKeeper ι :=
  { zk with
    nodes := zk.nodes.filter (·.base == a)
    expired := keepOnly (F.named a) false zk.expired
    seen := keepOnly (F.named a) 0 zk.seen
    watches := keepOnly (F.named a) [] zk.watches
    events := keepOnly (F.named a) [] zk.events }

/-- What the instances named `a` see of the world. -/
def ZkWorld.view (F : ZkFleet ι τ) (a : String) (w : ZkWorld ι τ) : ZkWorld ι τ where
  zk := zkView F a w.zk
  lock := keepOnly (F.named a) {} fun i => (w.lock i).view a
  user := keepOnly (F.uses a) (.idle none) fun t => (w.user t).view a
  grants := w.grants.filter fun path => ofName a (childName path)

variable {F : ZkFleet ι τ} {a c : String} {zk : ZooKeeper ι} {i : ι} {z seq : ℕ} {p : ZNode ι → Bool}

section Reads

theorem children_view : (zkView F a zk).children z = (zk.children z).filter (ofName a) := by
  unfold ZooKeeper.children zkView
  rw [List.filter_map, List.filter_filter, List.filter_filter]
  refine congrArg (List.map ZNode.name) (List.filter_congr fun n _ => ?_)
  simp only [Function.comp, ofName, lockName_name]
  exact Bool.and_comm ..

theorem mem_children_view (hc : lockName c = a) : c ∈ (zkView F a zk).children z ↔ c ∈ zk.children z := by
  rw [children_view, List.mem_filter, ofName_iff]
  exact and_iff_left hc

theorem hasLive_view (hc : lockName c = a) : (zkView F a zk).hasLive c = zk.hasLive c := by
  rw [Bool.eq_iff_iff, ZooKeeper.hasLive_iff, ZooKeeper.hasLive_iff]
  constructor
  · rintro ⟨n, hn, hlive, hname⟩
    exact ⟨n, List.mem_of_mem_filter hn, hlive, hname⟩
  · rintro ⟨n, hn, hlive, rfl⟩
    rw [lockName_name] at hc
    exact ⟨n, List.mem_filter.2 ⟨hn, beq_iff_eq.2 hc⟩, hlive, rfl⟩

theorem readable_view (hi : F.named a i = true) : Readable (zkView F a zk) i z ↔ Readable zk i z := by
  unfold Readable zkView
  simp only [keepOnly_of hi]

theorem creatable_view (hi : F.named a i = true) {name : String} :
    Creatable (zkView F a zk) i name seq ↔ Creatable zk i name seq := by
  unfold Creatable zkView
  simp only [keepOnly_of hi]

end Reads

section Writes

/-- A removal: the watches of a session are for nodes of its name. -/
theorem zkView_remove (hwatches : ∀ i, ∀ c ∈ zk.watches i, lockName c = F.name i) :
    zkView F a (zk.remove p) = (zkView F a zk).remove p := by
  have hgone : ∀ i, F.named a i = true → ∀ c ∈ zk.watches i, c ∈ zk.gone p ↔ c ∈ (zkView F a zk).gone p := by
    intro i hi c hc
    have hname : lockName c = a := (hwatches i c hc).trans (beq_iff_eq.1 hi)
    rw [ZooKeeper.mem_gone, ZooKeeper.mem_gone]
    constructor
    · rintro ⟨n, hn, hlive, hp, rfl⟩
      rw [lockName_name] at hname
      exact ⟨n, List.mem_filter.2 ⟨hn, beq_iff_eq.2 hname⟩, hlive, hp, rfl⟩
    · rintro ⟨n, hn, hrest⟩
      exact ⟨n, List.mem_of_mem_filter hn, hrest⟩
  have hnodes : (zk.nodes.map (·.removeIf p (zk.zxid + 1))).filter (·.base == a) =
      (zk.nodes.filter (·.base == a)).map (·.removeIf p (zk.zxid + 1)) := by
    rw [List.filter_map]
    refine congrArg (List.map _) (List.filter_congr fun n _ => ?_)
    simp only [Function.comp, ZNode.same_removeIf.1]
  have hwatched : ∀ s, (zkView F a zk).watches s = keepOnly (F.named a) [] zk.watches s := fun _ => rfl
  have hkept : keepOnly (F.named a) [] (fun s => (zk.watches s).filter (· ∉ zk.gone p)) =
      fun s => ((zkView F a zk).watches s).filter (· ∉ (zkView F a zk).gone p) := by
    funext s
    cases hs : F.named a s with
    | false => rw [keepOnly_of_not hs, hwatched, keepOnly_of_not hs, List.filter_nil]
    | true =>
      rw [keepOnly_of hs, hwatched, keepOnly_of hs]
      exact List.filter_congr fun c hc => decide_eq_decide.2 (not_congr (hgone s hs c hc))
  have hfired : keepOnly (F.named a) [] (fun s => zk.events s ++ (zk.watches s).filter (· ∈ zk.gone p)) =
      fun s => (zkView F a zk).events s ++ ((zkView F a zk).watches s).filter (· ∈ (zkView F a zk).gone p) := by
    funext s
    cases hs : F.named a s with
    | false =>
      rw [keepOnly_of_not hs, hwatched, keepOnly_of_not hs, List.filter_nil, List.append_nil]
      exact (keepOnly_of_not hs).symm
    | true =>
      rw [keepOnly_of hs, hwatched, keepOnly_of hs]
      refine congrArg₂ (· ++ ·) (keepOnly_of hs).symm ?_
      exact List.filter_congr fun c hc => decide_eq_decide.2 (hgone s hs c hc)
  unfold ZooKeeper.remove
  rw [← hkept, ← hfired]
  unfold zkView
  simp only [hnodes]

variable [DecidableEq ι]

theorem zkView_create (hi : F.named a i = true) : zkView F a (zk.create i a seq) = (zkView F a zk).create i a seq := by
  unfold zkView ZooKeeper.create
  simp only [keepOnly_update hi, List.filter_append, List.filter_singleton, beq_self_eq_true, cond_true]

theorem zkView_watch (hi : F.named a i = true) (hc : lockName c = a) :
    zkView F a (zk.watch i c) = (zkView F a zk).watch i c := by
  unfold ZooKeeper.watch
  rw [hasLive_view hc]
  split
  · unfold zkView
    simp only [keepOnly_update hi, keepOnly_of hi]
  · unfold zkView
    simp only [keepOnly_update hi, keepOnly_of hi]

theorem zkView_pop (hi : F.named a i = true) : zkView F a (zk.pop i) = (zkView F a zk).pop i := by
  unfold ZooKeeper.pop zkView
  simp only [keepOnly_update hi, keepOnly_of hi]

theorem zkView_expire (hi : F.named a i = true) (hwatches : ∀ i, ∀ c ∈ zk.watches i, lockName c = F.name i) :
    zkView F a (zk.expire i) = (zkView F a zk).expire i := by
  have hremove := zkView_remove (F := F) (a := a) (p := (·.owner == i)) hwatches
  unfold ZooKeeper.expire
  rw [← hremove]
  unfold zkView
  simp only [keepOnly_update hi, ZooKeeper.remove]

end Writes

section MinSteps

variable [DecidableEq ι] {st : DistributedLock} {m : MinPc} {r : Reply}

omit [DecidableEq ι] in
/-- The place in the list is the same in the view: none, the first, or after the same child. -/
theorem prev_view {subNodes : List String} {self : String} (hself : st.selfPath = some self)
    (hname : lockName (childName self) = a) (hprev : (st.prev subNodes).all (ofName a) = true) :
    match subNodes.idxOf? (childName self) with
    | none => (subNodes.filter (ofName a)).idxOf? (childName self) = none
    | some 0 => (subNodes.filter (ofName a)).idxOf? (childName self) = some 0
    | some (k + 1) => ∃ j, (subNodes.filter (ofName a)).idxOf? (childName self) = some (j + 1) ∧
        (subNodes.filter (ofName a))[j]? = subNodes[k]? := by
  have hkeep := ofName_iff.2 hname
  split
  · rename_i hidx
    exact idxOf?_filter_none hidx
  · rename_i hidx
    exact idxOf?_filter_zero hkeep hidx
  · rename_i k hidx
    obtain ⟨hlt, -, -⟩ := List.idxOf?_eq_some_iff.1 hidx
    have hk : subNodes[k]? = some subNodes[k] := List.getElem?_eq_getElem (Nat.lt_of_succ_lt hlt)
    have hown : ofName a subNodes[k] = true := by
      simp only [DistributedLock.prev, hself, hidx, hk, Option.all_some] at hprev
      exact hprev
    obtain ⟨j, hj, hjprev⟩ := idxOf?_filter_succ hkeep hown hidx hk
    exact ⟨j, hj, hjprev.trans hk.symm⟩

/-- **A step of `isMinPath` is the step in the view**, if the child before the own one is of
its name. -/
theorem minStep_view (hi : F.named a i = true)
    (hself : ∀ path, st.selfPath = some path → lockName (childName path) = a)
    (hwait : ∀ path, st.waitPath = some path → lockName (childName path) = a) (hprev : m.prevOwn a st = true) :
    minStep (zkView F a zk) i (st.view a) (m.view a) r =
      (minStep zk i st m r).map fun (zk', st', result) => (zkView F a zk', st'.view a, result.view a) := by
  cases m with
  | getChildren =>
    cases r with
    | silent => rfl
    | fail => rfl
    | ok z =>
      simp only [minStep, MinPc.view, readable_view hi]
      split
      · rw [children_view, sortStrings_filter]
        rfl
      · rfl
  | indexOf subNodes =>
    cases r with
    | ok z => rfl
    | fail => rfl
    | silent =>
      have hpath : (st.view a).selfPath = st.selfPath := rfl
      simp only [minStep, MinPc.view, hpath]
      cases hs : st.selfPath with
      | none => rfl
      | some self =>
        have hplace := prev_view hs (hself self hs) hprev
        cases hidx : subNodes.idxOf? (childName self) with
        | none =>
          rw [hidx] at hplace
          simp only [hidx, hplace]
          rfl
        | some k =>
          cases k with
          | zero =>
            rw [hidx] at hplace
            simp only [hidx, hplace]
            rfl
          | succ k =>
            rw [hidx] at hplace
            obtain ⟨j, hj, hjprev⟩ := hplace
            simp only [hidx, hj, hjprev, Option.map_map]
            rfl
  | latchNull self =>
    cases r with
    | silent =>
      have hlatch : (st.view a).latch = st.latch := rfl
      simp only [minStep, MinPc.view, hlatch]
      split <;> rfl
    | ok z => rfl
    | fail => rfl
  | countDown self =>
    cases r with
    | silent =>
      have hlatch : (st.view a).latch = st.latch := rfl
      simp only [minStep, MinPc.view, hlatch, Option.map_map]
      rfl
    | ok z => rfl
    | fail => rfl
  | setWaitPath path => cases r <;> rfl
  | getData =>
    cases r with
    | silent => rfl
    | fail interrupted executed => cases interrupted <;> rfl
    | ok z =>
      have hpath : (st.view a).waitPath = st.waitPath := rfl
      simp only [minStep, MinPc.view, hpath]
      cases hw : st.waitPath with
      | none => rfl
      | some path =>
        have hname := hwait path hw
        simp only [readable_view hi, mem_children_view hname]
        split
        · split
          · rw [← zkView_watch hi hname]
            rfl
          · rfl
        · rfl

end MinSteps

section Threads

variable [DecidableEq ι] [DecidableEq τ] {w : ZkWorld ι τ} {t : τ} {r : Reply} {st : DistributedLock} {c : UserPc}

omit [DecidableEq ι] [DecidableEq τ] in
theorem lock_view (hi : F.named a i = true) : (w.view F a).lock i = (w.lock i).view a :=
  keepOnly_of (f := fun i => (w.lock i).view a) hi

omit [DecidableEq ι] [DecidableEq τ] in
theorem user_view (ht : F.uses a t = true) : (w.view F a).user t = (w.user t).view a :=
  keepOnly_of (f := fun t => (w.user t).view a) ht

omit [DecidableEq ι] [DecidableEq τ] in
theorem lock_view_not (hi : F.named a i = false) : (w.view F a).lock i = {} :=
  keepOnly_of_not (f := fun i => (w.lock i).view a) hi

omit [DecidableEq ι] [DecidableEq τ] in
theorem user_view_not (ht : F.uses a t = false) : (w.view F a).user t = .idle none :=
  keepOnly_of_not (f := fun t => (w.user t).view a) ht

omit [DecidableEq ι] in
theorem view_goto (ht : F.uses a t = true) : (w.goto t c).view F a = (w.view F a).goto t (c.view a) := by
  unfold ZkWorld.view ZkWorld.goto
  simp only [keepOnly_map_update ht]

omit [DecidableEq τ] in
theorem view_setLock (hi : F.named a i = true) : (w.setLock i st).view F a = (w.view F a).setLock i (st.view a) := by
  unfold ZkWorld.view ZkWorld.setLock
  simp only [keepOnly_map_update hi]

theorem afterTry_view (locking status : Bool) : (afterTry locking status).view a = afterTry locking status := by
  cases locking <;> cases status <;> rfl

omit [DecidableEq ι] [DecidableEq τ] in
theorem view_grant {self : String} (h : lockName (childName self) = a) :
    ({ w with grants := self :: w.grants } : ZkWorld ι τ).view F a =
      { w.view F a with grants := self :: (w.view F a).grants } := by
  have hfilter : (self :: w.grants).filter (fun path => ofName a (childName path)) =
      self :: w.grants.filter fun path => ofName a (childName path) := List.filter_cons_of_pos (ofName_iff.2 h)
  unfold ZkWorld.view
  simp only [hfilter]

omit [DecidableEq ι] in
theorem view_userMin (ht : F.uses a t = true) {locking : Bool} {result : MinResult} (hres : result.Named a) :
    (w.userMin t locking result).view F a = (w.view F a).userMin t locking (result.view a) := by
  have hend : ∀ status,
      (w.goto t (afterTry locking status)).view F a = (w.view F a).goto t (afterTry locking status) := by
    intro status
    rw [view_goto ht, afterTry_view]
  cases result with
  | goto m => exact view_goto ht
  | granted self =>
    refine (view_grant (w := w.goto t (afterTry locking true)) hres).trans ?_
    rw [hend true]
    rfl
  | refused => exact hend false
  | threw => exact hend false

omit [DecidableEq τ] in
theorem view_eventMin (hi : F.named a i = true) {result : MinResult} (hres : result.Named a) :
    (w.eventMin i st result).view F a = (w.view F a).eventMin i (st.view a) (result.view a) := by
  cases result with
  | goto m => exact view_setLock hi
  | granted self =>
    refine (view_grant (w := w.setLock i { st with event := none }) hres).trans ?_
    rw [view_setLock hi]
    rfl
  | refused => exact view_setLock hi
  | threw => exact view_setLock hi

omit [DecidableEq τ] in
/-- A step of `isMinPath` in the view, by a user thread or by the event thread. -/
theorem minStep_map (hi : F.named a i = true)
    (hself : ∀ path, st.selfPath = some path → lockName (childName path) = a)
    (hwait : ∀ path, st.waitPath = some path → lockName (childName path) = a) {m : MinPc}
    (hprev : m.prevOwn a st = true)
    {f g : ZooKeeper ι × DistributedLock × MinResult → ZkWorld ι τ}
    (hfg : ∀ zk' st' result, minStep zk i st m r = some (zk', st', result) →
      f (zkView F a zk', st'.view a, result.view a) = (g (zk', st', result)).view F a) :
    (minStep (zkView F a zk) i (st.view a) (m.view a) r).map f =
      ((minStep zk i st m r).map g).map (ZkWorld.view F a) := by
  rw [minStep_view hi hself hwait hprev, Option.map_map, Option.map_map]
  cases hmin : minStep zk i st m r with
  | none => rfl
  | some x =>
    obtain ⟨zk', st', result⟩ := x
    exact congrArg some (hfg zk' st' result hmin)

omit [DecidableEq τ] in
/-- **A step of the event thread is the step in the view.** -/
theorem eventStep_view (hi : F.named a i = true)
    (hself : ∀ path, (w.lock i).selfPath = some path → lockName (childName path) = a)
    (hwait : ∀ path, (w.lock i).waitPath = some path → lockName (childName path) = a)
    (hprev : (w.lock i).event.all (·.prevOwn a (w.lock i)) = true)
    (hres : ∀ m zk' st' result, (w.lock i).event = some m → minStep w.zk i (w.lock i) m r = some (zk', st', result) →
      result.Named a) :
    eventStep (w.view F a) i r = (eventStep w i r).map (ZkWorld.view F a) := by
  have hevent : ((w.lock i).view a).event = (w.lock i).event.map (MinPc.view a) := rfl
  simp only [eventStep, lock_view hi, hevent]
  cases hev : (w.lock i).event with
  | none =>
    cases r with
    | silent =>
      have hevents : (w.view F a).zk.events i = w.zk.events i := keepOnly_of hi
      have hpath : ((w.lock i).view a).waitPath = (w.lock i).waitPath := rfl
      simp only [Option.map_none, hevents, hpath]
      cases w.zk.events i with
      | nil => rfl
      | cons c cs =>
        refine congrArg some ?_
        show _ = { (w.setLock i _).view F a with zk := zkView F a (w.zk.pop i) }
        rw [view_setLock hi, zkView_pop hi]
        split <;> rfl
    | ok n => rfl
    | fail => rfl
  | some m =>
    rw [hev] at hprev
    refine minStep_map hi hself hwait hprev fun zk' st' result hmin => ?_
    have hview : (w.eventMin i st' result).view F a = (w.view F a).eventMin i (st'.view a) (result.view a) :=
      view_eventMin hi (hres m zk' st' result hev hmin)
    show _ = { (w.eventMin i st' result).view F a with zk := zkView F a zk' }
    rw [hview]

omit [DecidableEq ι] in
/-- A step to another place, which may write the directory. -/
theorem view_goto_zk (ht : F.uses a t = true) (zk' : ZooKeeper ι) (hc : c.view a = c) :
    ({ w.goto t c with zk := zk' } : ZkWorld ι τ).view F a = { (w.view F a).goto t c with zk := zkView F a zk' } := by
  show { (w.goto t c).view F a with zk := zkView F a zk' } = _
  rw [view_goto ht, hc]

theorem view_setLock_goto (ht : F.uses a t = true) (st : DistributedLock) (hc : c.view a = c) :
    ((w.setLock (F.inst t) st).goto t c).view F a = ((w.view F a).setLock (F.inst t) (st.view a)).goto t c := by
  rw [view_goto ht, view_setLock ht, hc]

/-- `createRootPath` sees only the root and the session. -/
theorem userStep_view_root (ht : F.uses a t = true) {locking : Bool}
    (hu : w.user t = .rootExists locking ∨ w.user t = .rootCreate locking) :
    userStep F (w.view F a) t r = (userStep F w t r).map (ZkWorld.view F a) := by
  have hzk : (w.view F a).zk = zkView F a w.zk := rfl
  have hroot : (zkView F a w.zk).root = w.zk.root := rfl
  have hexpired : (zkView F a w.zk).expired (F.inst t) = w.zk.expired (F.inst t) := keepOnly_of ht
  rcases hu with hu | hu
  · simp only [userStep, lock_view ht, user_view ht, hu]
    cases r with
    | silent => rfl
    | fail => exact congrArg some (view_goto_zk ht _ (afterTry_view ..)).symm
    | ok z =>
      have hat : (zkView F a w.zk).rootAt z = w.zk.rootAt z := rfl
      simp only [UserPc.view, hzk, readable_view ht, hat]
      split
      · refine congrArg some (view_goto_zk ht _ ?_).symm
        split <;> rfl
      · rfl
  · simp only [userStep, lock_view ht, user_view ht, hu]
    cases r with
    | silent => rfl
    | fail interrupted executed =>
      simp only [UserPc.view, hzk, hroot]
      refine congrArg some (Eq.trans ?_ (view_goto_zk ht _ (afterTry_view ..)).symm)
      split <;> rfl
    | ok n =>
      simp only [UserPc.view, hzk, hroot, hexpired]
      split
      · exact congrArg some (view_goto_zk (c := .create locking) ht w.zk.createRoot rfl).symm
      · rfl

/-- The create writes a node of the name. -/
theorem userStep_view_create (ht : F.uses a t = true) {locking : Bool} (hu : w.user t = .create locking) :
    userStep F (w.view F a) t r = (userStep F w t r).map (ZkWorld.view F a) := by
  have hzk : (w.view F a).zk = zkView F a w.zk := rfl
  have hname : F.name (F.inst t) = a := beq_iff_eq.1 ht
  have hcreate : ∀ seq, zkView F a (w.zk.create (F.inst t) (F.name (F.inst t)) seq) =
      (zkView F a w.zk).create (F.inst t) (F.name (F.inst t)) seq := by
    intro seq
    rw [hname]
    exact zkView_create ht
  simp only [userStep, lock_view ht, user_view ht, hu]
  cases r with
  | silent => rfl
  | fail interrupted executed =>
    cases executed with
    | none => exact congrArg some (view_goto_zk ht _ (afterTry_view ..)).symm
    | some seq =>
      simp only [UserPc.view, hzk, creatable_view ht, ← hcreate]
      split
      · exact congrArg some (view_goto_zk ht _ (afterTry_view ..)).symm
      · rfl
  | ok seq =>
    simp only [UserPc.view, hzk, creatable_view ht, ← hcreate]
    split
    · exact congrArg some (view_goto_zk ht _ rfl).symm
    · rfl

/-- The waiting of `lock` sees only its own instance. -/
theorem userStep_view_latch (ht : F.uses a t = true)
    (hu : w.user t = .newLatch ∨ w.user t = .awaitLatch ∨ ∃ k, w.user t = .parked k) :
    userStep F (w.view F a) t r = (userStep F w t r).map (ZkWorld.view F a) := by
  rcases hu with hu | hu | ⟨k, hu⟩
  · simp only [userStep, lock_view ht, user_view ht, hu]
    cases r with
    | silent =>
      exact congrArg some (view_setLock_goto (c := .awaitLatch) ht { w.lock (F.inst t) with
        latch := some (w.lock (F.inst t)).counts.length
        counts := (w.lock (F.inst t)).counts ++ [1] } rfl).symm
    | ok n => rfl
    | fail => rfl
  · simp only [userStep, lock_view ht, user_view ht, hu]
    cases r with
    | silent =>
      have hlatch : ((w.lock (F.inst t)).view a).latch = (w.lock (F.inst t)).latch := rfl
      simp only [UserPc.view, hlatch, Option.map_map]
      refine congrArg (Option.map · _) (funext fun k => ?_)
      exact (view_goto_zk ht _ rfl).symm
    | ok n => rfl
    | fail => rfl
  · simp only [userStep, lock_view ht, user_view ht, hu]
    cases r with
    | silent =>
      have hcounts : ((w.lock (F.inst t)).view a).counts = (w.lock (F.inst t)).counts := rfl
      simp only [UserPc.view, hcounts]
      split
      · exact congrArg some (view_goto_zk ht _ rfl).symm
      · rfl
    | ok n => rfl
    | fail interrupted executed =>
      cases interrupted with
      | true => exact congrArg some (view_goto_zk ht _ rfl).symm
      | false => rfl

/-- `unLock` sees and deletes the own node, which is of the name. -/
theorem userStep_view_unlock (ht : F.uses a t = true)
    (hself : ∀ path, (w.lock (F.inst t)).selfPath = some path → lockName (childName path) = a)
    (hwatches : ∀ i, ∀ c ∈ w.zk.watches i, lockName c = F.name i)
    (hu : w.user t = .unlockExists ∨ w.user t = .unlockDelete) :
    userStep F (w.view F a) t r = (userStep F w t r).map (ZkWorld.view F a) := by
  have hzk : (w.view F a).zk = zkView F a w.zk := rfl
  have hexpired : (zkView F a w.zk).expired (F.inst t) = w.zk.expired (F.inst t) := keepOnly_of ht
  have hpath : ((w.lock (F.inst t)).view a).selfPath = (w.lock (F.inst t)).selfPath := rfl
  have hdelete : ∀ self, zkView F a (w.zk.delete (childName self)) = (zkView F a w.zk).delete (childName self) :=
    fun self => zkView_remove hwatches
  rcases hu with hu | hu
  · simp only [userStep, lock_view ht, user_view ht, hu]
    cases r with
    | silent =>
      simp only [UserPc.view, hpath]
      split
      · exact congrArg some (view_goto_zk ht _ rfl).symm
      · rfl
    | fail => exact congrArg some (view_goto_zk ht _ rfl).symm
    | ok z =>
      simp only [UserPc.view, hpath, hzk, readable_view ht]
      cases hs : (w.lock (F.inst t)).selfPath with
      | none => rfl
      | some self =>
        simp only [mem_children_view (hself self hs)]
        split
        · refine congrArg some (view_goto_zk ht _ ?_).symm
          split <;> rfl
        · rfl
  · simp only [userStep, lock_view ht, user_view ht, hu]
    cases r with
    | silent => rfl
    | fail interrupted executed =>
      simp only [UserPc.view, hpath, hzk]
      refine congrArg some (Eq.trans ?_ (view_goto_zk ht _ rfl).symm)
      cases executed with
      | none => rfl
      | some n =>
        cases (w.lock (F.inst t)).selfPath with
        | none => rfl
        | some self => simp only [hdelete]
    | ok n =>
      simp only [UserPc.view, hpath, hzk, hexpired]
      cases hs : (w.lock (F.inst t)).selfPath with
      | none => rfl
      | some self =>
        simp only [hasLive_view (hself self hs)]
        split
        · refine congrArg some (Eq.trans ?_ (view_goto_zk ht _ rfl).symm)
          rw [hdelete]
        · rfl

/-- **A step of a user thread is the step in the view.** -/
theorem userStep_view (ht : F.uses a t = true)
    (hself : ∀ path, (w.lock (F.inst t)).selfPath = some path → lockName (childName path) = a)
    (hwait : ∀ path, (w.lock (F.inst t)).waitPath = some path → lockName (childName path) = a)
    (hwatches : ∀ i, ∀ c ∈ w.zk.watches i, lockName c = F.name i)
    (hprev : ∀ locking m, w.user t = .isMin locking m → m.prevOwn a (w.lock (F.inst t)) = true)
    (hres : ∀ locking m zk' st' result, w.user t = .isMin locking m →
      minStep w.zk (F.inst t) (w.lock (F.inst t)) m r = some (zk', st', result) → result.Named a) :
    userStep F (w.view F a) t r = (userStep F w t r).map (ZkWorld.view F a) := by
  cases hu : w.user t with
  | idle result =>
    simp only [userStep, user_view ht, hu]
    cases r <;> rfl
  | rootExists locking => exact userStep_view_root ht (.inl hu)
  | rootCreate locking => exact userStep_view_root ht (.inr hu)
  | create locking => exact userStep_view_create ht hu
  | assignSelf locking path =>
    simp only [userStep, lock_view ht, user_view ht, hu]
    cases r with
    | silent =>
      exact congrArg some (view_setLock_goto ht { w.lock (F.inst t) with selfPath := some path } rfl).symm
    | ok n => rfl
    | fail => rfl
  | isMin locking m =>
    simp only [userStep, lock_view ht, user_view ht, hu]
    refine minStep_map ht hself hwait (hprev locking m hu) fun zk' st' result hmin => ?_
    have hview : ((w.setLock (F.inst t) st').userMin t locking result).view F a =
        ((w.setLock (F.inst t) st').view F a).userMin t locking (result.view a) :=
      view_userMin ht (hres locking m zk' st' result hu hmin)
    show _ = { ((w.setLock (F.inst t) st').userMin t locking result).view F a with zk := zkView F a zk' }
    rw [hview, view_setLock ht]
  | newLatch => exact userStep_view_latch ht (.inl hu)
  | awaitLatch => exact userStep_view_latch ht (.inr (.inl hu))
  | parked k => exact userStep_view_latch ht (.inr (.inr ⟨k, hu⟩))
  | unlockExists => exact userStep_view_unlock ht hself hwatches (.inl hu)
  | unlockDelete => exact userStep_view_unlock ht hself hwatches (.inr hu)

end Threads

end StudyTech
