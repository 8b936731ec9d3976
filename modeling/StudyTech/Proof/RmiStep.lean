import StudyTech.Spec.Rmi

/-!
# What a step of the registry can do

`RmiEffect` lists the steps of `rmiStep` with their guards (`rmiStep_effect`). To the
consumers a step of a provider is a step of a writer of the directory (`RmiEffect.moves`).
-/

namespace StudyTech

open Lib

variable {π κ : Type}

/-- The url that `resister` is putting into ZooKeeper. -/
def ProviderPc.registering : ProviderPc → Option String
  | .rootExists url => some url
  | .rootCreate url => some url
  | .createNode url => some url
  | _ => none

/-- The url that `publish` is working on. -/
def ProviderPc.publishing : ProviderPc → Option String
  | .createRegistry url => some url
  | .bind url => some url
  | _ => none

variable [DecidableEq π] [DecidableEq κ] {w w' : RmiWorld π κ}

/-- What registering `url` can do to the directory. -/
inductive RegisterEffect (w : RmiWorld π κ) (p : π) (url : String) : WatchedDir String π String κ → Prop
  | keep : RegisterEffect w p url w.dir
  | create : RegisterEffect w p url w.dir.create
  | add {seq : ℕ} : w.Creatable p seq → RegisterEffect w p url (w.dir.add ⟨serviceNode seq, p, url⟩)

/-- What a step can do. -/
inductive RmiEffect (w : RmiWorld π κ) : RmiLabel π κ → RmiWorld π κ → Prop
  | resister {p : π} {host : String} {port : ℤ} {service : String} : w.provider p = .idle →
      RmiEffect w (.resister p host port service) (w.goto p (.createRegistry (rmiUrl host port service)))
  | registry {p : π} {url : String} : w.provider p = .createRegistry url →
      RmiEffect w (.publish p .returned) (w.goto p (.bind url))
  | bound {p : π} {url : String} : w.provider p = .bind url → RmiEffect w (.publish p .returned)
      { w.goto p (.rootExists url) with bound := Function.update w.bound p (url :: w.bound p) }
  | caught {p : π} {url : String} : (w.provider p).publishing = some url →
      RmiEffect w (.publish p .caught) (w.goto p (.rootExists url))
  | thrown {p : π} : RmiEffect w (.publish p .thrown) (w.goto p .idle)
  | register {p : π} {r : ZkEnd} {url : String} {pc : ProviderPc} {d : WatchedDir String π String κ} :
      (w.provider p).registering = some url → pc.publishing = none → (∀ u ∈ pc.registering, u = url) →
      RegisterEffect w p url d → RmiEffect w (.register p r) { w.goto p pc with dir := d }
  | expire {p : π} : RmiEffect w (.expire p)
      { w with dir := w.dir.removeOwner p, expired := Function.update w.expired p true }
  | start {c : κ} : (w.consumer c).started = false →
      RmiEffect w (.start c) (w.setConsumer c { (w.consumer c).goto .main .getChildren with started := true })
  | deliver {c : κ} : (w.consumer c).run .event = .idle → 0 < w.dir.events c →
      RmiEffect w (.deliver c) { w.setConsumer c ((w.consumer c).goto .event .getChildren) with dir := w.dir.pop c }
  | listed {c : κ} {th : RmiThread} {nodeList : List String} : (w.consumer c).run th = .getChildren →
      nodeList.Perm w.dir.names → w.dir.created = true → RmiEffect w (.watch c th (.nodes nodeList))
      { w.setConsumer c { (w.consumer c).goto th (.reading nodeList [] w.dir.version) with last := w.dir.version } with
        dir := w.dir.watch c }
  | noRoot {c : κ} {th : RmiThread} {nodeList : List String} : (w.consumer c).run th = .getChildren →
      w.dir.created = false →
      RmiEffect w (.watch c th (.nodes nodeList)) (w.setConsumer c ((w.consumer c).goto th .idle))
  | data {c : κ} {th : RmiThread} {node data : String} {todo list : List String} {stamp : ℕ} :
      (w.consumer c).run th = .reading (node :: todo) list stamp → w.dir.dataOf node = some data →
      RmiEffect w (.watch c th .data)
        (w.setConsumer c ((w.consumer c).goto th (.reading todo (list ++ [data]) stamp)))
  | noNode {c : κ} {th : RmiThread} {node : String} {todo list : List String} {stamp : ℕ} :
      (w.consumer c).run th = .reading (node :: todo) list stamp → w.dir.dataOf node = none →
      RmiEffect w (.watch c th .data) (w.setConsumer c ((w.consumer c).goto th .idle))
  | assign {c : κ} {th : RmiThread} {list : List String} {stamp : ℕ} :
      (w.consumer c).run th = .reading [] list stamp → RmiEffect w (.watch c th .assign)
      (w.setConsumer c { (w.consumer c).goto th .idle with
        urls := list
        urlsAt := stamp })
  | failed {c : κ} {th : RmiThread} :
      RmiEffect w (.watch c th .fail) (w.setConsumer c ((w.consumer c).goto th .idle))

theorem publishStep_effect {p : π} {r : PublishEnd} (h : publishStep w p (w.provider p) r = some w') :
    RmiEffect w (.publish p r) w' := by
  unfold publishStep at h
  split at h
  · rename_i hpc; cases h; exact .registry hpc
  · rename_i hpc; cases h; exact .caught (by rw [hpc]; rfl)
  · cases h; exact .thrown
  · rename_i hpc; cases h; exact .bound hpc
  · rename_i hpc; cases h; exact .caught (by rw [hpc]; rfl)
  · cases h; exact .thrown
  · cases h

theorem registerStep_effect {p : π} {r : ZkEnd} (h : registerStep w p (w.provider p) r = some w') :
    RmiEffect w (.register p r) w' := by
  unfold registerStep at h
  split at h
  · rename_i url n hpc
    have hurl : (w.provider p).registering = some url := by rw [hpc]; rfl
    split at h
    · cases h
      -- the root is there, or it is to be created
      cases w.dir.created with
      | true => exact .register hurl rfl (by simp [ProviderPc.registering]) .keep
      | false => exact .register hurl rfl (by simp [ProviderPc.registering]) .keep
    · cases h
  · rename_i url executed hpc
    cases h
    have hurl : (w.provider p).registering = some url := by rw [hpc]; rfl
    exact .register hurl rfl (fun u hu => nomatch hu) .keep
  · rename_i url n hpc
    split at h
    · cases h
      have hurl : (w.provider p).registering = some url := by rw [hpc]; rfl
      exact .register hurl rfl (by simp [ProviderPc.registering]) .create
    · cases h
  · rename_i url executed hpc
    cases h
    have hurl : (w.provider p).registering = some url := by rw [hpc]; rfl
    split
    · exact .register hurl rfl (fun u hu => nomatch hu) .create
    · exact .register hurl rfl (fun u hu => nomatch hu) .keep
  · rename_i url seq hpc
    split at h
    · rename_i hseq
      cases h
      have hurl : (w.provider p).registering = some url := by rw [hpc]; rfl
      exact .register hurl rfl (fun u hu => nomatch hu) (.add hseq)
    · cases h
  · rename_i url hpc
    cases h
    have hurl : (w.provider p).registering = some url := by rw [hpc]; rfl
    exact .register hurl rfl (fun u hu => nomatch hu) .keep
  · rename_i url seq hpc
    split at h
    · rename_i hseq
      cases h
      have hurl : (w.provider p).registering = some url := by rw [hpc]; rfl
      exact .register hurl rfl (fun u hu => nomatch hu) (.add hseq)
    · cases h
  · cases h

theorem watchStep_effect {c : κ} {th : RmiThread} {r : WatchReply}
    (h : watchStep w c th ((w.consumer c).run th) r = some w') : RmiEffect w (.watch c th r) w' := by
  unfold watchStep at h
  split at h
  · rename_i nodeList hpc
    split at h
    · rename_i hperm
      split at h
      · rename_i hcreated
        cases h
        exact .listed hpc hperm hcreated
      · rename_i hcreated
        cases h
        exact .noRoot hpc (by simpa using hcreated)
    · cases h
  · cases h; exact .failed
  · rename_i node todo list stamp hpc
    cases h
    cases hdata : w.dir.dataOf node with
    | some data => exact .data hpc hdata
    | none => exact .noNode hpc hdata
  · cases h; exact .failed
  · rename_i hpc
    cases h
    exact .assign hpc
  · cases h

/-- **What a step can do.** -/
theorem rmiStep_effect {l : RmiLabel π κ} (h : rmiStep w l = some w') : RmiEffect w l w' := by
  cases l with
  | resister p host port service =>
    simp only [rmiStep] at h
    split at h
    · rename_i hidle
      cases h
      exact .resister hidle
    · cases h
  | publish p r => exact publishStep_effect h
  | register p r => exact registerStep_effect h
  | expire p => cases h; exact .expire
  | start c =>
    simp only [rmiStep] at h
    split at h
    · cases h
    · rename_i hstarted
      cases h
      exact .start (by simpa using hstarted)
  | deliver c =>
    simp only [rmiStep] at h
    split at h
    · rename_i hev
      cases h
      exact .deliver hev.1 hev.2
    · cases h
  | watch c th r => exact watchStep_effect h

omit [DecidableEq π] [DecidableEq κ] in
theorem RegisterEffect.moves {p : π} {url : String} {d : WatchedDir String π String κ}
    (h : RegisterEffect w p url d) (hok : w.dir.Ok) : w.dir.Moves d := by
  cases h with
  | keep => exact .keep
  | create => exact .create
  | add hseq => exact WatchedDir.moves_add hok hseq.2.1 hseq.2.2

end StudyTech
