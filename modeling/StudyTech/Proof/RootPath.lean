import StudyTech.Proof.RmiStep
import StudyTech.Proof.ZkCalls
import StudyTech.Spec.RootPath

/-!
# The first use of a root path

Between `exists` and `create` another client may create the path, and `create` then throws.
While at most one client is between the two, and only where the path is not there
(`Undisputed`), no call throws, and one does otherwise (`rootPath_iff`). The same goes for the
threads that call `tryLock` or `lock` and for the providers that call `resister`, which run
`createRootPath` as their first step in ZooKeeper.
-/

namespace StudyTech

open Lib

/-- Who is about to create the path is alone, and it is not there. -/
def Undisputed {κ : Type} (created : Prop) (creating : κ → Prop) : Prop :=
  ∀ c, creating c → ¬ created ∧ ∀ d, creating d → d = c

namespace Undisputed

variable {κ : Type} {created created' : Prop} {creating creating' : κ → Prop}

/-- Some go away, and the path does not come up. -/
theorem leave (h : Undisputed created creating) (hcreated : created' → created) (hsub : ∀ d, creating' d → creating d) :
    Undisputed created' creating' := fun c hc =>
  ⟨fun hpath => (h c (hsub c hc)).1 (hcreated hpath), fun d hd => (h c (hsub c hc)).2 d (hsub d hd)⟩

/-- One finds the path absent while it is, and while nobody else is about to create it. -/
theorem enter (c : κ) (hcreated : ¬ created) (hnone : ∀ d, ¬ creating d)
    (hsub : ∀ d, creating' d → d = c ∨ creating d) :
    Undisputed created creating' := by
  have hc : ∀ d, creating' d → d = c := fun d hd => (hsub d hd).resolve_right (hnone d)
  exact fun d hd => ⟨hcreated, fun e he => (hc e he).trans (hc d hd).symm⟩

/-- The one who was alone goes on, whatever it did. -/
theorem done {c : κ} (h : Undisputed created creating) (hc : creating c)
    (hsub : ∀ d, creating' d → d ≠ c ∧ creating d) :
    Undisputed created' creating' := fun d hd =>
  absurd ((h c hc).2 d (hsub d hd).2) (hsub d hd).1

end Undisputed

section Machine

variable {κ : Type} [DecidableEq κ] {w w' : RootWorld κ} {l : RootLabel κ} {ls : List (RootLabel κ)}

/-- `exists` finds the path absent only while it is, and while nobody else has found it absent
and not created it yet. -/
def FoundAlone (w : RootWorld κ) (l : RootLabel κ) : Prop :=
  ∀ c, l = .rootExists c false → w.created = false ∧ ∀ d, w.pc d ≠ .rootCreate

/-- No call ends with an exception in this step. -/
def NoThrow (w : RootWorld κ) (l : RootLabel κ) : Prop :=
  ∀ w', rootStep w l = some w' → ∀ c, w'.pc c = .threw → w.pc c = .threw

def RootWorld.Undisputed (w : RootWorld κ) : Prop :=
  StudyTech.Undisputed (w.created = true) fun c => w.pc c = .rootCreate

/-- What a step can do. -/
inductive RootEffect (w : RootWorld κ) : RootLabel κ → RootWorld κ → Prop
  | call {c : κ} : w.pc c ≠ .rootCreate → RootEffect w (.call c) (w.goto c .rootExists)
  | found {c : κ} : w.pc c = .rootExists → w.created = true → RootEffect w (.rootExists c true) (w.goto c .returned)
  | absent {c : κ} : w.pc c = .rootExists → RootEffect w (.rootExists c false) (w.goto c .rootCreate)
  | nodeExists {c : κ} : w.pc c = .rootCreate → w.created = true → RootEffect w (.rootCreate c) (w.goto c .threw)
  | create {c : κ} : w.pc c = .rootCreate → w.created = false →
      RootEffect w (.rootCreate c) { w.goto c .returned with created := true }
  | failExists {c : κ} {executed : Bool} : w.pc c = .rootExists → RootEffect w (.fail c executed) (w.goto c .threw)
  | failCreate {c : κ} {executed : Bool} : w.pc c = .rootCreate →
      RootEffect w (.fail c executed) { w.goto c .threw with created := w.created || executed }

theorem rootStep_effect (h : rootStep w l = some w') : RootEffect w l w' := by
  cases l with
  | call c =>
    simp only [rootStep, Option.ite_none_left_eq_some, not_or] at h
    obtain ⟨⟨-, hcreate⟩, h⟩ := h
    cases h
    exact .call hcreate
  | rootExists c found =>
    simp only [rootStep, Option.ite_none_right_eq_some] at h
    obtain ⟨⟨hpc, hfound⟩, h⟩ := h
    cases h
    cases found with
    | true => exact .found hpc (hfound rfl)
    | false => exact .absent hpc
  | rootCreate c =>
    simp only [rootStep, Option.ite_none_right_eq_some] at h
    obtain ⟨hpc, h⟩ := h
    cases h
    cases hcreated : w.created with
    | true => exact .nodeExists hpc hcreated
    | false => exact .create hpc hcreated
  | fail c executed =>
    simp only [rootStep] at h
    split at h
    · rename_i hpc
      cases h
      exact .failExists hpc
    · rename_i hpc
      cases h
      exact .failCreate hpc
    · cases h

theorem goto_pc (w : RootWorld κ) (c : κ) (pc : RootPc) : (w.goto c pc).pc = Function.update w.pc c pc := rfl

/-- Who is somewhere after a step of `c` is `c`, or was there before. -/
theorem goto_at {c d : κ} {pc pc' : RootPc} (h : (w.goto c pc).pc d = pc') :
    d = c ∧ pc = pc' ∨ d ≠ c ∧ w.pc d = pc' := by
  rw [goto_pc] at h
  by_cases hd : d = c
  · rw [hd, Function.update_self] at h
    exact .inl ⟨hd, h⟩
  · rw [Function.update_of_ne hd] at h
    exact .inr ⟨hd, h⟩

/-- Where `c` goes on to something else, it is not `c`. -/
theorem goto_leave {c : κ} {pc pc' : RootPc} (hpc : pc ≠ pc') (d : κ) (h : (w.goto c pc).pc d = pc') :
    d ≠ c ∧ w.pc d = pc' :=
  (goto_at h).resolve_left fun hself => hpc hself.2

/-- Where `c` was not about to create the path, a step of `c` loses nobody who was. -/
theorem rootCreate_goto {c d : κ} {pc : RootPc} (hc : w.pc c ≠ .rootCreate) (hd : w.pc d = .rootCreate) :
    (w.goto c pc).pc d = .rootCreate := by
  have hne : d ≠ c := by
    rintro rfl
    exact hc hd
  exact (Function.update_of_ne hne ..).trans hd

theorem undisputed_step (h : w.Undisputed) (hok : FoundAlone w l) (hstep : rootStep w l = some w') : w'.Undisputed := by
  cases rootStep_effect hstep with
  | call hc => exact h.leave id fun d hd => (goto_leave RootPc.noConfusion d hd).2
  | found _ _ => exact h.leave id fun d hd => (goto_leave RootPc.noConfusion d hd).2
  | @absent c hc =>
    obtain ⟨hcreated, hnone⟩ := hok c rfl
    have hpath : ¬ w.created = true := by rw [hcreated]; exact Bool.false_ne_true
    exact Undisputed.enter c hpath hnone fun d hd => (goto_at hd).imp And.left And.right
  | nodeExists _ _ => exact h.leave id fun d hd => (goto_leave RootPc.noConfusion d hd).2
  | create hc _ => exact h.done hc fun d hd => goto_leave RootPc.noConfusion d hd
  | failExists _ => exact h.leave id fun d hd => (goto_leave RootPc.noConfusion d hd).2
  | failCreate hc => exact h.done hc fun d hd => goto_leave RootPc.noConfusion d hd

/-- What is disputed stays so until a call throws. -/
theorem disputed_step (h : ¬ w.Undisputed) (hok : NoThrow w l) (hstep : rootStep w l = some w') : ¬ w'.Undisputed := by
  intro h'
  have hthrew : ∀ {c : κ} {pc : RootPc}, w.pc c = pc → pc ≠ .threw → w'.pc c ≠ .threw := by
    intro c pc hc hpc hc'
    rw [hok w' hstep c hc'] at hc
    exact hpc hc.symm
  cases rootStep_effect hstep with
  | call hc => exact h (h'.leave id fun d hd => rootCreate_goto hc hd)
  | found hc _ => exact h (h'.leave id fun d hd => rootCreate_goto (by rw [hc]; exact RootPc.noConfusion) hd)
  | absent hc => exact h (h'.leave id fun d hd => rootCreate_goto (by rw [hc]; exact RootPc.noConfusion) hd)
  | nodeExists hc _ => exact hthrew hc RootPc.noConfusion (Function.update_self ..)
  | @create c hc hcreated =>
    -- the path is there now, so `c` was the only one
    refine h (Undisputed.enter c (by rw [hcreated]; exact Bool.false_ne_true) (fun d hd => hd) fun d hd => ?_)
    by_contra hne
    have hd' : (w.goto c .returned).pc d = .rootCreate :=
      (Function.update_of_ne (fun heq => hne (.inl heq)) ..).trans hd
    exact (h' d hd').1 rfl
  | failExists hc => exact hthrew hc RootPc.noConfusion (Function.update_self ..)
  | failCreate hc => exact hthrew hc RootPc.noConfusion (Function.update_self ..)

/-- Where nothing is disputed and the connection holds, no call throws. -/
theorem noThrow_of_undisputed (h : w.Undisputed) (hconn : ¬ l.Fails) : NoThrow w l := by
  intro w' hstep d hd
  have hother : ∀ {c : κ} {pc : RootPc}, pc ≠ .threw → (w.goto c pc).pc d = .threw → w.pc d = .threw := by
    exact fun hpc hd => (goto_leave hpc d hd).2
  cases rootStep_effect hstep with
  | call _ => exact hother RootPc.noConfusion hd
  | found _ _ => exact hother RootPc.noConfusion hd
  | absent _ => exact hother RootPc.noConfusion hd
  | nodeExists hc hcreated => exact absurd hcreated (h _ hc).1
  | create _ _ => exact hother RootPc.noConfusion hd
  | failExists _ => exact absurd trivial hconn
  | failCreate _ => exact absurd trivial hconn

/-- Where every call has ended, a run in which no call threw is one in which nothing was found
absent in dispute. -/
theorem foundAlone_of_noThrow (hend : ∀ c, w'.pc c ≠ .rootCreate) (hrun : exec rootStep w ls = some w')
    (hok : Along rootStep NoThrow w ls) : Along rootStep FoundAlone w ls := by
  induction ls generalizing w with
  | nil => trivial
  | cons l ls ih =>
    obtain ⟨m, hm, hlater⟩ := exec_cons_inv hrun
    refine ⟨fun c hl => ?_, fun m' hm' => ?_⟩
    · have hundisputed : m.Undisputed := by
        by_contra hdisputed
        have hlast : ¬ w'.Undisputed :=
          inv_of_along (I := fun w => ¬ w.Undisputed) (fun _ _ _ => disputed_step) hdisputed (hok.2 m hm) hlater
        exact hlast fun d hd => absurd hd (hend d)
      subst hl
      cases rootStep_effect hm with
      | absent hc =>
        have hself : (w.goto c .rootCreate).pc c = .rootCreate := Function.update_self ..
        obtain ⟨hcreated, halone⟩ := hundisputed c hself
        refine ⟨Bool.not_eq_true _ ▸ hcreated, fun d hd => ?_⟩
        have hcnot : w.pc c ≠ .rootCreate := by rw [hc]; exact RootPc.noConfusion
        have hdc := halone d (rootCreate_goto hcnot hd)
        exact hcnot (hdc ▸ hd)
    · rw [hm] at hm'
      obtain rfl := Option.some.inj hm'
      exact ih hlater (hok.2 m hm)

/-- A call that returned leaves the path there. -/
theorem returned_step (h : ∀ c, w.pc c = .returned → w.created = true) (hstep : rootStep w l = some w') :
    ∀ c, w'.pc c = .returned → w'.created = true := by
  have hother : ∀ {c : κ} {pc : RootPc}, pc ≠ .returned → ∀ d, (w.goto c pc).pc d = .returned → w.created = true := by
    exact fun hpc d hd => h d (goto_leave hpc d hd).2
  cases rootStep_effect hstep with
  | call _ => exact hother RootPc.noConfusion
  | found _ hcreated => exact fun _ _ => hcreated
  | absent _ => exact hother RootPc.noConfusion
  | nodeExists _ _ => exact hother RootPc.noConfusion
  | create _ _ => exact fun _ _ => rfl
  | failExists _ => exact hother RootPc.noConfusion
  | failCreate _ => exact fun d hd => Bool.or_eq_true _ _ ▸ .inl (hother RootPc.noConfusion d hd)

/-- **`createRootPath` under concurrent first use**, when every call has ended and no connection
failed: every call returned normally, if and only if nobody found the path absent that was there
or that someone else was about to create. A call that returned leaves the path there. -/
theorem rootPath_iff (hrun : exec rootStep (.init κ) ls = some w)
    (hconn : Along rootStep (fun _ l => ¬ l.Fails) (.init κ) ls)
    (hend : ∀ c, w.pc c ≠ .rootExists ∧ w.pc c ≠ .rootCreate) :
    (Along rootStep NoThrow (.init κ) ls ↔ Along rootStep FoundAlone (.init κ) ls) ∧
      ∀ c, w.pc c = .returned → w.created = true := by
  have hstart : (RootWorld.init κ).Undisputed := fun c hc => RootPc.noConfusion hc
  refine ⟨⟨foundAlone_of_noThrow (fun c => (hend c).2) hrun, fun hok => ?_⟩, ?_⟩
  · exact along_of_run (fun _ _ _ h hok hstep => undisputed_step h hok.1 hstep)
      (fun _ _ _ h hok _ => noThrow_of_undisputed h hok.2) hstart (hok.and hconn) hrun
  · exact inv_of_exec (I := fun w => ∀ c, w.pc c = .returned → w.created = true) (fun _ _ _ => returned_step)
      (fun c hc => RootPc.noConfusion hc) hrun

end Machine

section Lock

variable {ι τ : Type} [DecidableEq ι] [DecidableEq τ] {F : ZkFleet ι τ} {w w' : ZkWorld ι τ} {l : ZkLabel ι τ}
  {ls : List (ZkLabel ι τ)}

/-- A thread of `lock` or `tryLock` finds `/lock` absent only while it is, and while no other
thread has found it absent and not created it yet. -/
def LockRootAlone (w : ZkWorld ι τ) (l : ZkLabel ι τ) : Prop :=
  ∀ t z locking, l = .user t (.ok z) → w.user t = .rootExists locking → w.zk.rootAt z = false →
    w.zk.root = none ∧ ∀ t' locking', w.user t' ≠ .rootCreate locking'

/-- The thread is about to create `/lock`. -/
def ZkWorld.CreatesRoot (w : ZkWorld ι τ) (t : τ) : Prop := ∃ locking, w.user t = .rootCreate locking

def ZkWorld.Undisputed (w : ZkWorld ι τ) : Prop := StudyTech.Undisputed (w.zk.root.isSome = true) w.CreatesRoot

omit [DecidableEq ι] in
theorem user_goto_leave {t t' : τ} {c : UserPc} (hc : ∀ locking, c ≠ .rootCreate locking) {zk : ZooKeeper ι}
    (h : ZkWorld.CreatesRoot { w.goto t c with zk := zk } t') : t' ≠ t ∧ w.CreatesRoot t' := by
  obtain ⟨locking, h⟩ := h
  have hu : Function.update w.user t c t' = .rootCreate locking := h
  by_cases ht : t' = t
  · rw [ht, Function.update_self] at hu
    exact absurd hu (hc locking)
  · rw [Function.update_of_ne ht] at hu
    exact ⟨ht, locking, hu⟩

theorem afterTry_ne (locking status locking' : Bool) : afterTry locking status ≠ .rootCreate locking' := by
  cases locking <;> cases status <;> exact UserPc.noConfusion

/-- A thread gets to the create from `exists` only. -/
theorem UserMove.createsRoot {pc pc' : UserPc} {locking : Bool} (h : UserMove pc pc')
    (hpc' : pc' = .rootCreate locking) :
    ∃ locking', pc = .rootExists locking' ∨ pc = .rootCreate locking' := by
  cases h with
  | root hpc _ => exact ⟨_, hpc⟩
  | unlock hpc =>
    rw [hpc'] at hpc
    exact (hpc.elim UserPc.noConfusion UserPc.noConfusion)
  | notCreated => exact absurd hpc' (afterTry_ne _ _ _)
  | afterMin => exact absurd hpc' (afterTry_ne _ _ _)
  | _ => cases hpc'

omit [DecidableEq τ] in
theorem MinEffect.root {zk zk' : ZooKeeper ι} {i : ι} {st st' : DistributedLock} {m : MinPc} {r : Reply}
    {result : MinResult} (h : MinEffect zk i st m r zk' st' result) : zk'.root = zk.root := by
  cases h with
  | watched _ =>
    unfold ZooKeeper.watch
    split <;> rfl
  | _ => rfl

/-- A step outside `createRootPath` leaves the path, and brings nobody into it. -/
theorem zkStep_outside (hs : zkStep F w l = some w')
    (hout : ∀ t r locking, l = .user t r → ¬ (w.user t = .rootExists locking ∨ w.user t = .rootCreate locking)) :
    w'.zk.root = w.zk.root ∧ ∀ t, w'.CreatesRoot t → w.CreatesRoot t := by
  have hother : ∀ {t}, l.thread ≠ some t → w'.CreatesRoot t → w.CreatesRoot t := by
    rintro t ht ⟨locking, hpc⟩
    exact ⟨locking, by rw [← zkStep_other hs ht, hpc]⟩
  cases zkStep_effect hs with
  | lock _ => exact ⟨rfl, fun t ht => (user_goto_leave (fun _ => UserPc.noConfusion) ht).2⟩
  | tryLock _ => exact ⟨rfl, fun t ht => (user_goto_leave (fun _ => UserPc.noConfusion) ht).2⟩
  | unlock _ => exact ⟨rfl, fun t ht => (user_goto_leave (fun _ => UserPc.noConfusion) ht).2⟩
  | @user t r _ hu =>
    refine ⟨?_, fun t' ht' => ?_⟩
    · cases hu with
      | root _ hpc _ _ => exact absurd hpc (hout t r _ rfl)
      | isMin _ hmin => exact hmin.root
      | _ => rfl
    · by_cases htt : t' = t
      · -- no step of a thread but `exists` leads to the create
        rw [htt] at ht'
        obtain ⟨locking, hpc'⟩ := ht'
        obtain ⟨locking', hpc⟩ := hu.move.createsRoot hpc'
        exact absurd hpc (hout t r locking' rfl)
      · exact hother (fun heq => htt (Option.some.inj heq).symm) ht'
  | event he =>
    refine ⟨?_, fun t' ht' => hother (fun heq => nomatch heq) ht'⟩
    cases he with
    | isMin _ hmin => exact hmin.root
    | _ => rfl
  | expire => exact ⟨rfl, fun t ht => ht⟩

theorem lockUndisputed_step (h : w.Undisputed) (hok : LockRootAlone w l) (hs : zkStep F w l = some w') :
    w'.Undisputed := by
  by_cases hin : ∃ t r locking, l = .user t r ∧ (w.user t = .rootExists locking ∨ w.user t = .rootCreate locking)
  · obtain ⟨t, r, locking, rfl, hu | hu⟩ := hin
    · cases r with
      | silent => simp [zkStep, userStep, hu] at hs
      | ok z =>
        simp only [zkStep, userStep, hu, Option.ite_none_right_eq_some, Option.some.injEq] at hs
        obtain ⟨-, rfl⟩ := hs
        cases hat : w.zk.rootAt z with
        | true => exact h.leave id fun t' ht' => (user_goto_leave (fun _ => UserPc.noConfusion) ht').2
        | false =>
          obtain ⟨hroot, hnone⟩ := hok t z locking rfl hu hat
          have hfree : ¬ w.zk.root.isSome = true := by rw [hroot]; exact Bool.false_ne_true
          have hnobody : ∀ t', ¬ w.CreatesRoot t' := fun t' ht' => ht'.elim (hnone t')
          refine Undisputed.enter t hfree hnobody fun t' ht' => ?_
          by_cases htt : t' = t
          · exact .inl htt
          · obtain ⟨locking', hpc⟩ := ht'
            exact .inr ⟨locking', (Function.update_of_ne htt ..).symm.trans hpc⟩
      | fail b e =>
        simp only [zkStep, userStep, hu, Option.some.injEq] at hs
        subst hs
        exact h.leave id fun t' ht' => (user_goto_leave (afterTry_ne locking false) ht').2
    · have hcreates : w.CreatesRoot t := ⟨locking, hu⟩
      cases r with
      | silent => simp [zkStep, userStep, hu] at hs
      | ok n =>
        simp only [zkStep, userStep, hu, Option.ite_none_right_eq_some, Option.some.injEq] at hs
        obtain ⟨-, rfl⟩ := hs
        exact h.done hcreates fun t' ht' => user_goto_leave (fun _ => UserPc.noConfusion) ht'
      | fail b e =>
        simp only [zkStep, userStep, hu, Option.some.injEq] at hs
        subst hs
        exact h.done hcreates fun t' ht' => user_goto_leave (afterTry_ne locking false) ht'
  · obtain ⟨hroot, hsub⟩ := zkStep_outside hs fun t r locking hl hpc => hin ⟨t, r, locking, hl, hpc⟩
    exact h.leave (fun hcreated => by rw [← hroot]; exact hcreated) hsub

/-- Where `/lock` is found absent by one thread at a time, its create succeeds. -/
theorem lockRoot_created (hrun : exec (zkStep F) (.init ι τ) ls = some w)
    (hok : Along (zkStep F) LockRootAlone (.init ι τ) ls) {t : τ} {locking : Bool} (hu : w.user t = .rootCreate locking)
    (hlive : w.zk.expired (F.inst t) = false) :
    ∃ w', zkStep F w (.user t (.ok 0)) = some w' ∧ w'.user t = .create locking := by
  have hstart : (ZkWorld.init ι τ).Undisputed := fun t ht => ht.elim fun _ hpc => UserPc.noConfusion hpc
  have hund : w.Undisputed := inv_of_along (fun _ _ _ h hok hs => lockUndisputed_step h hok hs) hstart hok hrun
  have hroot : w.zk.root = none := by
    have hnot := (hund t ⟨locking, hu⟩).1
    rwa [Option.not_isSome_iff_eq_none] at hnot
  refine ⟨{ w.goto t (.create locking) with zk := w.zk.createRoot }, ?_, Function.update_self ..⟩
  simp only [zkStep, userStep, hu]
  rw [if_pos ⟨hroot, hlive⟩]

end Lock

section Registry

variable {π κ : Type} [DecidableEq π] [DecidableEq κ]
variable {w w' : RmiWorld π κ} {l : RmiLabel π κ} {ls : List (RmiLabel π κ)}

/-- A provider finds `/rmi` absent only while no other one has found it absent and not created
it yet. -/
def RegistryRootAlone (w : RmiWorld π κ) (l : RmiLabel π κ) : Prop :=
  ∀ p n url, l = .register p (.ok n) → w.provider p = .rootExists url → w.dir.created = false →
    ∀ p' url', w.provider p' ≠ .rootCreate url'

/-- The provider is about to create `/rmi`. -/
def RmiWorld.CreatesRoot (w : RmiWorld π κ) (p : π) : Prop := ∃ url, w.provider p = .rootCreate url

def RmiWorld.Undisputed (w : RmiWorld π κ) : Prop := StudyTech.Undisputed (w.dir.created = true) w.CreatesRoot

omit [DecidableEq κ] in
theorem provider_goto_leave {p p' : π} {pc : ProviderPc} (hpc : ∀ url, pc ≠ .rootCreate url)
    (h : w'.provider = (w.goto p pc).provider) (hp' : w'.CreatesRoot p') : p' ≠ p ∧ w.CreatesRoot p' := by
  obtain ⟨url, hp'⟩ := hp'
  rw [h] at hp'
  have hupdate : Function.update w.provider p pc p' = .rootCreate url := hp'
  by_cases hp : p' = p
  · rw [hp, Function.update_self] at hupdate
    exact absurd hupdate (hpc url)
  · rw [Function.update_of_ne hp] at hupdate
    exact ⟨hp, url, hupdate⟩

omit [DecidableEq κ] in
/-- A step of `createRootPath` or `createNode` of a provider. -/
theorem registerStep_undisputed {p : π} {r : ZkEnd} (h : w.Undisputed) (hok : RegistryRootAlone w (.register p r))
    (hs : registerStep w p (w.provider p) r = some w') : w'.Undisputed := by
  have hgoto : ∀ {pc}, (∀ url, pc ≠ .rootCreate url) → w'.provider = (w.goto p pc).provider →
      w'.dir.created = w.dir.created → w'.Undisputed := fun hpc hprovider hcreated =>
    h.leave (fun hc => by rw [← hcreated]; exact hc) fun p' hp' => (provider_goto_leave hpc hprovider hp').2
  have hdone : ∀ {pc}, w.CreatesRoot p → (∀ url, pc ≠ .rootCreate url) → w'.provider = (w.goto p pc).provider →
      w'.Undisputed := fun hp hpc hprovider => h.done hp fun p' hp' => provider_goto_leave hpc hprovider hp'
  unfold registerStep at hs
  split at hs
  · rename_i url n hpc
    rw [Option.ite_none_right_eq_some] at hs
    obtain ⟨-, hs⟩ := hs
    cases hcreated : w.dir.created with
    | true =>
      rw [hcreated, if_pos rfl] at hs
      cases hs
      exact hgoto (fun _ => ProviderPc.noConfusion) rfl rfl
    | false =>
      rw [hcreated, if_neg Bool.false_ne_true] at hs
      cases hs
      have hfree : ¬ w.dir.created = true := by rw [hcreated]; exact Bool.false_ne_true
      have hnobody : ∀ p', ¬ w.CreatesRoot p' := fun p' hp' => hp'.elim (hok p n url rfl hpc hcreated p')
      refine Undisputed.enter p hfree hnobody fun p' hp' => ?_
      by_cases hpp : p' = p
      · exact .inl hpp
      · obtain ⟨url', hp'⟩ := hp'
        exact .inr ⟨url', (Function.update_of_ne hpp ..).symm.trans hp'⟩
  · cases hs
    exact hgoto (fun _ => ProviderPc.noConfusion) rfl rfl
  · rename_i url n hpc
    rw [Option.ite_none_right_eq_some] at hs
    obtain ⟨-, hs⟩ := hs
    cases hs
    exact hdone ⟨url, hpc⟩ (fun _ => ProviderPc.noConfusion) rfl
  · rename_i url executed hpc
    cases hs
    exact hdone ⟨url, hpc⟩ (fun _ => ProviderPc.noConfusion) rfl
  -- `createNode`
  · rw [Option.ite_none_right_eq_some] at hs
    obtain ⟨-, hs⟩ := hs
    cases hs
    exact hgoto (fun _ => ProviderPc.noConfusion) rfl rfl
  · cases hs
    exact hgoto (fun _ => ProviderPc.noConfusion) rfl rfl
  · rw [Option.ite_none_right_eq_some] at hs
    obtain ⟨-, hs⟩ := hs
    cases hs
    exact hgoto (fun _ => ProviderPc.noConfusion) rfl rfl
  · cases hs

theorem registryUndisputed_step (h : w.Undisputed) (hok : RegistryRootAlone w l) (hs : rmiStep w l = some w') :
    w'.Undisputed := by
  -- a provider goes on outside `createRootPath`, or no provider goes on
  have hgoto : ∀ {p pc}, (∀ url, pc ≠ .rootCreate url) → w'.provider = (w.goto p pc).provider →
      w'.dir.created = w.dir.created → w'.Undisputed := fun hpc hprovider hcreated =>
    h.leave (fun hc => by rw [← hcreated]; exact hc) fun p' hp' => (provider_goto_leave hpc hprovider hp').2
  have hsame : w'.provider = w.provider → w'.dir.created = w.dir.created → w'.Undisputed := fun hprovider hcreated =>
    h.leave (fun hc => by rw [← hcreated]; exact hc) fun p' hp' => by rwa [RmiWorld.CreatesRoot, ← hprovider]
  cases rmiStep_effect hs with
  | resister _ => exact hgoto (fun _ => ProviderPc.noConfusion) rfl rfl
  | registry _ => exact hgoto (fun _ => ProviderPc.noConfusion) rfl rfl
  | bound _ => exact hgoto (fun _ => ProviderPc.noConfusion) rfl rfl
  | caught _ => exact hgoto (fun _ => ProviderPc.noConfusion) rfl rfl
  | thrown => exact hgoto (fun _ => ProviderPc.noConfusion) rfl rfl
  | register _ _ _ _ => exact registerStep_undisputed h hok hs
  | @expire p =>
    refine hsame rfl ?_
    show (w.dir.removeOwner p).created = w.dir.created
    unfold WatchedDir.removeOwner
    split <;> rfl
  | _ => exact hsame rfl rfl

/-- Where `/rmi` is found absent by one provider at a time, its create succeeds. -/
theorem registryRoot_created (hrun : exec rmiStep (.init π κ) ls = some w)
    (hok : Along rmiStep RegistryRootAlone (.init π κ) ls) {p : π} {url : String} (hp : w.provider p = .rootCreate url)
    (hlive : w.expired p = false) :
    ∃ w', rmiStep w (.register p (.ok 0)) = some w' ∧ w'.provider p = .createNode url := by
  have hstart : (RmiWorld.init π κ).Undisputed := fun p hp => hp.elim fun _ hpc => ProviderPc.noConfusion hpc
  have hund : w.Undisputed := inv_of_along (fun _ _ _ h hok hs => registryUndisputed_step h hok hs) hstart hok hrun
  have hfree : w.dir.created = false := by
    have hnot := (hund p ⟨url, hp⟩).1
    rwa [Bool.not_eq_true] at hnot
  refine ⟨{ w.goto p (.createNode url) with dir := w.dir.create }, ?_, Function.update_self ..⟩
  simp only [rmiStep, hp, registerStep]
  rw [if_pos ⟨hlive, hfree⟩]

end Registry

/-- **`createRootPath` under concurrent first use.** When every call has ended and no connection
failed, a call that returned leaves the path there, and every call returned normally, if and only
if nobody found the path absent that was there or that someone else was about to create. Where
the threads of the locks and the providers find their paths absent one at a time, the create that
follows succeeds: neither a lock nor a provider fails for this reason. -/
theorem createRootPath_safe {κ ι τ π γ : Type} [DecidableEq κ] [DecidableEq ι] [DecidableEq τ] [DecidableEq π]
    [DecidableEq γ] :
    (∀ {ls : List (RootLabel κ)} {w}, exec rootStep (.init κ) ls = some w →
      Along rootStep (fun _ l => ¬ l.Fails) (.init κ) ls → (∀ c, w.pc c ≠ .rootExists ∧ w.pc c ≠ .rootCreate) →
      (Along rootStep NoThrow (.init κ) ls ↔ Along rootStep FoundAlone (.init κ) ls) ∧
        ∀ c, w.pc c = .returned → w.created = true) ∧
    (∀ {F : ZkFleet ι τ} {ls w t locking}, exec (zkStep F) (.init ι τ) ls = some w →
      Along (zkStep F) LockRootAlone (.init ι τ) ls → w.user t = .rootCreate locking → w.zk.expired (F.inst t) = false →
      ∃ w', zkStep F w (.user t (.ok 0)) = some w' ∧ w'.user t = .create locking) ∧
    (∀ {ls : List (RmiLabel π γ)} {w p url}, exec rmiStep (.init π γ) ls = some w →
      Along rmiStep RegistryRootAlone (.init π γ) ls → w.provider p = .rootCreate url → w.expired p = false →
      ∃ w', rmiStep w (.register p (.ok 0)) = some w' ∧ w'.provider p = .createNode url) :=
  ⟨rootPath_iff, fun hrun hok hu hlive => lockRoot_created hrun hok hu hlive,
    fun hrun hok hp hlive => registryRoot_created hrun hok hp hlive⟩

/-- One client after the other. -/
def oneByOne : List (RootLabel Bool) :=
  [.call false, .rootExists false false, .rootCreate false, .call true, .rootExists true true]

theorem createRootPath_safe_oneByOne : ∃ w, exec rootStep (.init Bool) oneByOne = some w ∧
    Along rootStep NoThrow (.init Bool) oneByOne ∧ w.created = true := by
  let w : RootWorld Bool := ⟨true, Function.update (Function.update (Function.update (Function.update (Function.update
    (fun _ => .idle) false .rootExists) false .rootCreate) false .returned) true .rootExists) true .returned⟩
  have hrun : exec rootStep (.init Bool) oneByOne = some w := rfl
  have hconn : Along rootStep (fun _ l => ¬ l.Fails) (.init Bool) oneByOne := by
    simp [Along, oneByOne, RootLabel.Fails]
  have halone : Along rootStep FoundAlone (.init Bool) oneByOne := by
    simp [Along, oneByOne, FoundAlone, rootStep, RootWorld.init, RootWorld.goto]
  have hend : ∀ c, w.pc c ≠ .rootExists ∧ w.pc c ≠ .rootCreate := by decide
  obtain ⟨hiff, hcreated⟩ := (@createRootPath_safe Bool Unit Unit Unit Unit _ _ _ _ _).1 hrun hconn hend
  exact ⟨w, hrun, hiff.2 halone, hcreated true rfl⟩

/-- **Two first clients find the path absent, and the second create throws.** -/
theorem createRootPath_race : ∃ w, exec rootStep (.init Bool)
    [.call false, .call true, .rootExists false false, .rootExists true false, .rootCreate false,
      .rootCreate true] = some w ∧
    w.pc false = .returned ∧ w.pc true = .threw :=
  ⟨_, rfl, rfl, rfl⟩

end StudyTech
