import StudyTech.Proof.RmiStep

/-!
# Consumers converge

A consumer that got its first listing has a watch, an event or a `getChildren` ahead of
it (`WatchInv.armed`), and with a watch its last listing is current (`WatchInv.last`). So
a quiescent consumer has the data of the children (`urls_converge`), unless one of two
things happened, which `KeepsUp` excludes: it called `getChildren` when `/rmi` was not
there, which left no watch (`lateRoot`), or one of its threads put an older list over
the current one (`overwritten`).
-/

namespace StudyTech

open Lib

variable {π κ : Type}

/-- `watchNode` meets no exception but `NoNodeException`. -/
def OnlyNoNode (_ : RmiWorld π κ) : RmiLabel π κ → Prop
  | .watch _ _ .fail => False
  | _ => True

/-- `/rmi` is there when `getChildren` is called, and a list that is assigned does not
replace the one of the present version by an older one. -/
def KeepsUp (w : RmiWorld π κ) : RmiLabel π κ → Prop
  | .watch c th r =>
    match (w.consumer c).run th, r with
    | .getChildren, .nodes _ => w.dir.created = true
    | .reading [] _ stamp, .assign => (w.consumer c).urlsAt = w.dir.version → stamp = w.dir.version
    | _, _ => True
  | _ => True

/-- No event of the consumer is pending, and `watchNode` is not running. -/
def Quiescent (w : RmiWorld π κ) (c : κ) : Prop :=
  (w.consumer c).started = true ∧ (w.consumer c).run .main = .idle ∧ (w.consumer c).run .event = .idle ∧
    w.dir.events c = 0

instance (w : RmiWorld π κ) (l : RmiLabel π κ) : Decidable (OnlyNoNode w l) := by
  unfold OnlyNoNode
  split <;> infer_instance

instance (w : RmiWorld π κ) (l : RmiLabel π κ) : Decidable (KeepsUp w l) := by
  unfold KeepsUp
  split
  · split <;> infer_instance
  · infer_instance

instance (w : RmiWorld π κ) (c : κ) : Decidable (Quiescent w c) := inferInstanceAs (Decidable (_ ∧ _))

/-- The invariant of a consumer. -/
structure WatchInv (d : WatchedDir String π String κ) (c : κ) (st : RmiConsumer) : Prop where
  fresh : st.started = false → st.run .main = .idle
  armed : st.started = true → st.run .main ≠ .getChildren →
    0 < d.watches c ∨ 0 < d.events c ∨ st.run .event = .getChildren
  last : 0 < d.watches c → st.last = d.version
  last_le : st.last ≤ d.version
  urlsAt_le : st.urlsAt ≤ d.version
  stamp_le : ∀ th todo list stamp, st.run th = .reading todo list stamp → stamp ≤ d.version
  read : ∀ th todo list, st.run th = .reading todo list d.version →
    (list.map some ++ todo.map d.dataOf).Perm (d.contents.map some)
  urls : st.urlsAt = d.version → st.urls.Perm d.contents
  current : st.last = d.version → st.urlsAt = d.version ∨ ∃ th todo list, st.run th = .reading todo list d.version

theorem watchInv_init (c : κ) : WatchInv (.init String π String κ) c {} where
  fresh := fun _ => rfl
  armed := fun h => nomatch h
  last := fun h => nomatch h
  last_le := Nat.le_refl 0
  urlsAt_le := Nat.le_refl 0
  stamp_le := fun _ _ _ _ h => nomatch h
  read := fun _ _ _ h => nomatch h
  urls := fun _ => .nil
  current := fun _ => .inl rfl

section Consumer

variable {d d' : WatchedDir String π String κ} {c : κ} {st : RmiConsumer} {th : RmiThread}

theorem goto_run_self {pc : WatchPc} : (st.goto th pc).run th = pc := by
  unfold RmiConsumer.goto
  exact Function.update_self ..

theorem goto_run_of_ne {th' : RmiThread} {pc : WatchPc} (h : th' ≠ th) : (st.goto th pc).run th' = st.run th' := by
  unfold RmiConsumer.goto
  exact Function.update_of_ne h ..

/-- The invariant of a consumer does not see what other consumers do. -/
theorem WatchInv.frame {created : Bool} {watches events : κ → ℕ} (h : WatchInv d c st)
    (hw : watches c = d.watches c) (he : events c = d.events c) :
    WatchInv ⟨created, d.children, d.version, watches, events⟩ c st where
  fresh := h.fresh
  armed := by
    simp only [hw, he]
    exact h.armed
  last := by
    simp only [hw]
    exact h.last
  last_le := h.last_le
  urlsAt_le := h.urlsAt_le
  stamp_le := h.stamp_le
  read := h.read
  urls := h.urls
  current := h.current

/-- A change of the directory leaves an event to a consumer that watches it. -/
theorem WatchInv.moves (h : WatchInv d c st) (hd : d.Moves d') : WatchInv d' c st := by
  cases hd with
  | keep => exact h
  | create => exact h.frame rfl rfl
  | change cs =>
    have hlast := h.last_le
    have hurls := h.urlsAt_le
    have hversion : (d.setChildren cs).version = d.version + 1 := rfl
    refine ⟨h.fresh, fun hstarted hmain => ?_, fun hw => ?_, ?_, ?_, fun th todo list stamp hrun => ?_,
      fun th todo list hrun => ?_, fun hat => ?_, fun hl => ?_⟩
    · have hevents : (d.setChildren cs).events c = d.events c + d.watches c := rfl
      rcases h.armed hstarted hmain with hw | he | hrun
      · exact .inr (.inl (by omega))
      · exact .inr (.inl (by omega))
      · exact .inr (.inr hrun)
    · exact absurd hw (Nat.lt_irrefl 0)
    · omega
    · omega
    · have hstamp := h.stamp_le th todo list stamp hrun
      omega
    · -- what is read now was listed before the change
      have hstamp := h.stamp_le th todo list _ hrun
      omega
    · omega
    · omega

/-- A thread that is running goes on, so the consumer was started. -/
theorem WatchInv.fresh_goto (h : WatchInv d c st) {pc : WatchPc} (hrun : st.run th ≠ .idle)
    (hstarted : st.started = false) : (st.goto th pc).run .main = .idle := by
  cases th with
  | main => exact absurd (h.fresh hstarted) hrun
  | event => exact h.fresh hstarted

/-- A thread of the consumer goes on that was not at `getChildren`. -/
theorem WatchInv.armed_goto (h : WatchInv d c st) {pc : WatchPc} (hrun : st.run th ≠ .getChildren)
    (hstarted : st.started = true) (hmain : (st.goto th pc).run .main ≠ .getChildren) :
    0 < d.watches c ∨ 0 < d.events c ∨ (st.goto th pc).run .event = .getChildren := by
  have hmain' : st.run .main ≠ .getChildren := by
    cases th with
    | main => exact hrun
    | event => exact hmain
  rcases h.armed hstarted hmain' with hw | he | hev
  · exact .inl hw
  · exact .inr (.inl he)
  · cases th with
    | main => exact .inr (.inr hev)
    | event => exact absurd hev hrun

/-- A thread of the consumer goes on from a read of the data to `pc`. -/
theorem WatchInv.goto (h : WatchInv d c st) {node : String} {todo list : List String} {stamp : ℕ} {pc : WatchPc}
    (hrun : st.run th = .reading (node :: todo) list stamp)
    (hpc : pc = .idle ∧ d.dataOf node = none ∨
      ∃ data, pc = .reading todo (list ++ [data]) stamp ∧ d.dataOf node = some data) :
    WatchInv d c (st.goto th pc) := by
  have hnot : st.run th ≠ .getChildren := by rw [hrun]; exact fun h => nomatch h
  -- a read of the present version goes on: its node is there
  have hgo : stamp = d.version → ∃ data, pc = .reading todo (list ++ [data]) stamp ∧ d.dataOf node = some data := by
    rintro rfl
    rcases hpc with ⟨-, hnone⟩ | hsome
    · have hperm := h.read th _ _ hrun
      have hmem : none ∈ list.map some ++ (node :: todo).map d.dataOf := by simp [hnone]
      have hmem' := hperm.mem_iff.1 hmem
      simp at hmem'
    · exact hsome
  have hbusy : st.run th ≠ .idle := by rw [hrun]; exact fun h => nomatch h
  refine ⟨h.fresh_goto hbusy, h.armed_goto hnot, h.last, h.last_le, h.urlsAt_le, fun th' todo' list' stamp' hrun' => ?_,
    fun th' todo' list' hrun' => ?_, h.urls, fun hlast => ?_⟩
  · by_cases hth : th' = th
    · subst hth
      rw [goto_run_self] at hrun'
      rcases hpc with ⟨rfl, -⟩ | ⟨data, rfl, -⟩
      · cases hrun'
      · cases hrun'
        exact h.stamp_le _ _ _ _ hrun
    · rw [goto_run_of_ne hth] at hrun'
      exact h.stamp_le _ _ _ _ hrun'
  · by_cases hth : th' = th
    · subst hth
      rw [goto_run_self] at hrun'
      rcases hpc with ⟨rfl, -⟩ | ⟨data, rfl, hdata⟩
      · cases hrun'
      · cases hrun'
        have hperm := h.read _ _ _ hrun
        simpa [hdata] using hperm
    · rw [goto_run_of_ne hth] at hrun'
      exact h.read _ _ _ hrun'
  · rcases h.current hlast with hat | ⟨th', todo', list', hrun'⟩
    · exact .inl hat
    · right
      by_cases hth : th' = th
      · subst hth
        rw [hrun] at hrun'
        cases hrun'
        obtain ⟨data, rfl, -⟩ := hgo rfl
        exact ⟨th', todo, list ++ [data], goto_run_self⟩
      · exact ⟨th', todo', list', (goto_run_of_ne hth).trans hrun'⟩

/-- A thread of the consumer lists the children, and leaves a watch. -/
theorem WatchInv.listed [DecidableEq κ] (hd : d.Ok) (h : WatchInv d c st) {nodeList : List String}
    (hrun : st.run th = .getChildren) (hperm : nodeList.Perm d.names) :
    WatchInv (d.watch c) c { st.goto th (.reading nodeList [] d.version) with last := d.version } := by
  have hwatch : 0 < (d.watch c).watches c := by
    have hw : (d.watch c).watches c = d.watches c + 1 := Function.update_self ..
    omega
  have hbusy : st.run th ≠ .idle := by rw [hrun]; exact fun h => nomatch h
  refine ⟨h.fresh_goto hbusy, fun _ _ => .inl hwatch, fun _ => rfl, Nat.le_refl _, h.urlsAt_le,
    fun th' todo list stamp hrun' => ?_, fun th' todo list hrun' => ?_, h.urls,
    fun _ => .inr ⟨th, nodeList, [], goto_run_self⟩⟩
  · by_cases hth : th' = th
    · subst hth
      have hpc : WatchPc.reading nodeList [] d.version = .reading todo list stamp := goto_run_self.symm.trans hrun'
      cases hpc
      exact Nat.le_refl _
    · exact h.stamp_le th' todo list stamp ((goto_run_of_ne hth).symm.trans hrun')
  · by_cases hth : th' = th
    · subst hth
      have hpc : WatchPc.reading nodeList [] d.version = .reading todo list d.version :=
        goto_run_self.symm.trans hrun'
      cases hpc
      exact WatchedDir.perm_dataOf hd hperm
    · exact h.read th' todo list ((goto_run_of_ne hth).symm.trans hrun')

/-- A thread of the consumer puts its list into `urls`. -/
theorem WatchInv.assign (h : WatchInv d c st) {list : List String} {stamp : ℕ}
    (hrun : st.run th = .reading [] list stamp) (hnew : st.urlsAt = d.version → stamp = d.version) :
    WatchInv d c { st.goto th .idle with
      urls := list
      urlsAt := stamp } := by
  have hnot : st.run th ≠ .getChildren := by rw [hrun]; exact fun h => nomatch h
  -- no other thread is affected, and this one is done
  have hother : ∀ th' todo list' stamp', (st.goto th .idle).run th' = .reading todo list' stamp' →
      th' ≠ th ∧ st.run th' = .reading todo list' stamp' := by
    intro th' todo list' stamp' hrun'
    by_cases hth : th' = th
    · subst hth
      rw [goto_run_self] at hrun'
      cases hrun'
    · exact ⟨hth, (goto_run_of_ne hth).symm.trans hrun'⟩
  have hbusy : st.run th ≠ .idle := by rw [hrun]; exact fun h => nomatch h
  refine ⟨h.fresh_goto hbusy, h.armed_goto hnot, h.last, h.last_le, h.stamp_le _ _ _ _ hrun,
    fun th' todo list' stamp' hrun' => h.stamp_le _ _ _ _ (hother _ _ _ _ hrun').2,
    fun th' todo list' hrun' => h.read _ _ _ (hother _ _ _ _ hrun').2, fun hat => ?_, fun hlast => ?_⟩
  · obtain rfl : stamp = d.version := hat
    have hperm := h.read _ _ _ hrun
    rw [List.map_nil, List.append_nil] at hperm
    exact (List.map_perm_map_iff (Option.some_injective _)).1 hperm
  · rcases h.current hlast with hat | ⟨th', todo', list', hrun'⟩
    · exact .inl (hnew hat)
    · by_cases hth : th' = th
      · subst hth
        rw [hrun] at hrun'
        cases hrun'
        exact .inl rfl
      · exact .inr ⟨th', todo', list', (goto_run_of_ne hth).trans hrun'⟩

/-- A thread of the consumer that is idle starts `watchNode`: the constructor, or the
event thread, which takes an event. -/
theorem WatchInv.enter (h : WatchInv d c st) (hidle : st.run th = .idle) {started : Bool} {events : κ → ℕ}
    (hfresh : started = false → (st.goto th .getChildren).run .main = .idle)
    (harmed : (st.goto th .getChildren).run .main ≠ .getChildren →
      (st.goto th .getChildren).run .event = .getChildren) :
    WatchInv ⟨d.created, d.children, d.version, d.watches, events⟩ c
      { st.goto th .getChildren with started := started } := by
  have hother : ∀ th' todo list stamp, (st.goto th .getChildren).run th' = .reading todo list stamp →
      st.run th' = .reading todo list stamp := by
    intro th' todo list stamp hrun
    by_cases hth : th' = th
    · subst hth
      rw [goto_run_self] at hrun
      cases hrun
    · exact (goto_run_of_ne hth).symm.trans hrun
  refine ⟨hfresh, fun _ hmain => .inr (.inr (harmed hmain)), h.last, h.last_le, h.urlsAt_le,
    fun th' todo list stamp hrun => h.stamp_le _ _ _ _ (hother _ _ _ _ hrun),
    fun th' todo list hrun => h.read _ _ _ (hother _ _ _ _ hrun), h.urls, fun hlast => ?_⟩
  rcases h.current hlast with hat | ⟨th', todo, list, hrun⟩
  · exact .inl hat
  · have hth : th' ≠ th := by
      rintro rfl
      rw [hidle] at hrun
      cases hrun
    exact .inr ⟨th', todo, list, (goto_run_of_ne hth).trans hrun⟩

end Consumer

/-- The invariant of the runs along `OnlyNoNode` and `KeepsUp`. -/
structure RmiInv (w : RmiWorld π κ) : Prop where
  dir : w.dir.Ok
  watch : ∀ c, WatchInv w.dir c (w.consumer c)

theorem rmiInv_init : RmiInv (.init π κ) := ⟨WatchedDir.ok_init, fun c => watchInv_init c⟩

section Step

variable [DecidableEq π] [DecidableEq κ] {w w' : RmiWorld π κ}

omit [DecidableEq π] in
/-- A step of a consumer, from what it does to the consumer itself. -/
theorem RmiInv.consumer (h : RmiInv w) {c : κ} {st : RmiConsumer} {watches events : κ → ℕ}
    (hst : WatchInv ⟨w.dir.created, w.dir.children, w.dir.version, watches, events⟩ c st)
    (hothers : ∀ c', c' ≠ c → watches c' = w.dir.watches c' ∧ events c' = w.dir.events c') :
    RmiInv { w.setConsumer c st with
      dir := ⟨w.dir.created, w.dir.children, w.dir.version, watches, events⟩ } := by
  refine ⟨⟨h.dir.nodup, h.dir.empty⟩, fun c' => ?_⟩
  unfold RmiWorld.setConsumer
  by_cases hc : c' = c
  · subst hc
    simp only [Function.update_self]
    exact hst
  · simp only [Function.update_of_ne hc]
    exact (h.watch c').frame (hothers c' hc).1 (hothers c' hc).2

omit [DecidableEq π] [DecidableEq κ] in
/-- A step of a provider. -/
theorem RmiInv.moves (h : RmiInv w) {d : WatchedDir String π String κ} {expired : π → Bool}
    {provider : π → ProviderPc} {bound : π → List String} (hd : w.dir.Moves d) :
    RmiInv ⟨d, expired, provider, bound, w.consumer⟩ :=
  ⟨hd.ok h.dir, fun c => (h.watch c).moves hd⟩

theorem rmiInv_step {l : RmiLabel π κ} (h : RmiInv w) (hok : OnlyNoNode w l ∧ KeepsUp w l)
    (hs : rmiStep w l = some w') : RmiInv w' := by
  have hsame : ∀ c' : κ, w.dir.watches c' = w.dir.watches c' ∧ w.dir.events c' = w.dir.events c' :=
    fun _ => ⟨rfl, rfl⟩
  cases rmiStep_effect hs with
  | resister => exact h.moves .keep
  | registry => exact h.moves .keep
  | bound => exact h.moves .keep
  | caught => exact h.moves .keep
  | thrown => exact h.moves .keep
  | register _ _ _ hd => exact h.moves (hd.moves h.dir)
  | expire => exact h.moves (WatchedDir.moves_removeOwner h.dir _)
  | start hstarted =>
    rename_i c
    refine h.consumer ((h.watch c).enter ((h.watch c).fresh hstarted) (fun h => nomatch h) fun hmain => ?_)
      fun c' _ => hsame c'
    exact absurd goto_run_self hmain
  | deliver hidle hevents =>
    rename_i c
    refine h.consumer ((h.watch c).enter hidle (h.watch c).fresh fun _ => goto_run_self) fun c' hc => ?_
    exact ⟨rfl, Function.update_of_ne hc ..⟩
  | listed hrun hperm hcreated =>
    rename_i c th nodeList
    refine h.consumer ((h.watch c).listed h.dir hrun hperm) fun c' hc => ?_
    exact ⟨Function.update_of_ne hc .., rfl⟩
  | noRoot hrun hcreated =>
    have hroot := hok.2
    simp only [KeepsUp, hrun, hcreated] at hroot
    cases hroot
  | data hrun hdata => exact h.consumer ((h.watch _).goto hrun (.inr ⟨_, rfl, hdata⟩)) fun c' _ => hsame c'
  | noNode hrun hdata => exact h.consumer ((h.watch _).goto hrun (.inl ⟨rfl, hdata⟩)) fun c' _ => hsame c'
  | assign hrun =>
    have hnew := hok.2
    simp only [KeepsUp, hrun] at hnew
    exact h.consumer ((h.watch _).assign hrun hnew) fun c' _ => hsame c'
  | failed => exact absurd hok.1 id

/-- **A quiescent consumer has the data of the children of `/rmi`**, in every run in which
`/rmi` is there when consumers call `getChildren`, and none of their threads replaces the
list of the present version by an older one. -/
theorem urls_converge {ls : List (RmiLabel π κ)} (hrun : exec rmiStep (.init π κ) ls = some w)
    (hzk : Along rmiStep OnlyNoNode (.init π κ) ls) (hok : Along rmiStep KeepsUp (.init π κ) ls) (c : κ)
    (hquiet : Quiescent w c) : (w.consumer c).urls.Perm w.dir.contents := by
  have h : RmiInv w := inv_of_along (fun _ _ _ => rmiInv_step) rmiInv_init (hzk.and hok) hrun
  obtain ⟨hstarted, hmain, hevent, hevents⟩ := hquiet
  have hwatch := h.watch c
  -- nothing is pending, so there is a watch, and the last listing is current
  have hlast : (w.consumer c).last = w.dir.version := by
    rcases hwatch.armed hstarted (by rw [hmain]; exact fun h => nomatch h) with hw | he | hrun
    · exact hwatch.last hw
    · omega
    · rw [hevent] at hrun
      cases hrun
  rcases hwatch.current hlast with hat | ⟨th, todo, list, hreading⟩
  · exact hwatch.urls hat
  · cases th with
    | main => rw [hmain] at hreading; cases hreading
    | event => rw [hevent] at hreading; cases hreading

end Step

/-- `resister` of one provider up to the call that creates its node, with the end of
`createRegistry` and of `bind`. -/
def toCreateNode (createRegistry bind : PublishEnd) : List (RmiLabel Unit Unit) :=
  [.resister () "127.0.0.1" 6668 "com.ljt.study.zk.rmi.ServiceImpl", .publish () createRegistry, .publish () bind,
    .register () (.ok 0), .register () (.ok 0)]

/-- A provider registers, and the consumer reads its url. -/
def caughtUp : List (RmiLabel Unit Unit) :=
  toCreateNode .returned .returned ++
    [.start (), .watch () .main (.nodes []), .watch () .main .assign, .register () (.ok 0), .deliver (),
      .watch () .event (.nodes [serviceNode 0]), .watch () .event .data, .watch () .event .assign]

/-- The consumer starts before any provider. -/
def lateRoot : List (RmiLabel Unit Unit) :=
  [.start (), .watch () .main (.nodes [])] ++ toCreateNode .returned .returned ++ [.register () (.ok 0)]

/-- The constructor of the consumer lists no node; it goes on when the event thread has
put the url of the new node into `urls`. -/
def overwritten : List (RmiLabel Unit Unit) :=
  toCreateNode .returned .returned ++
    [.start (), .watch () .main (.nodes []), .register () (.ok 0), .deliver (),
      .watch () .event (.nodes [serviceNode 0]), .watch () .event .data, .watch () .event .assign,
      .watch () .main .assign]

theorem urls_converge_caughtUp :
    ∃ w, exec rmiStep (.init Unit Unit) caughtUp = some w ∧ (w.consumer ()).urls.Perm w.dir.contents ∧
      w.dir.contents = ["rmi://127.0.0.1:6668/com.ljt.study.zk.rmi.ServiceImpl"] := by
  have hany : (exec rmiStep (.init Unit Unit) caughtUp).any fun w => decide (Quiescent w () ∧
      w.dir.contents = ["rmi://127.0.0.1:6668/com.ljt.study.zk.rmi.ServiceImpl"]) := by decide +kernel
  obtain ⟨w, hrun, hw⟩ := (Option.any_eq_true _ _).1 hany
  obtain ⟨hquiet, hcontents⟩ := of_decide_eq_true hw
  exact ⟨w, hrun, urls_converge hrun (by decide +kernel) (by decide +kernel) () hquiet, hcontents⟩

/-- The run ends in a quiescent state where `urls` is not the data of the children. -/
def Misses (ls : List (RmiLabel Unit Unit)) : Prop :=
  Along rmiStep OnlyNoNode (.init Unit Unit) ls ∧
    ∃ w, exec rmiStep (.init Unit Unit) ls = some w ∧ Quiescent w () ∧ ¬ (w.consumer ()).urls.Perm w.dir.contents

theorem misses_of_end {ls : List (RmiLabel Unit Unit)} (hzk : Along rmiStep OnlyNoNode (.init Unit Unit) ls)
    (hend : (exec rmiStep (.init Unit Unit) ls).any fun w =>
      decide (Quiescent w () ∧ ¬ (w.consumer ()).urls.Perm w.dir.contents)) : Misses ls := by
  obtain ⟨w, hrun, hw⟩ := (Option.any_eq_true _ _).1 hend
  exact ⟨hzk, w, hrun, of_decide_eq_true hw⟩

/-- In both runs the provider is missing from `urls` in the end. -/
theorem urls_miss_provider : Misses lateRoot ∧ Misses overwritten := by
  have hlate : Misses lateRoot := misses_of_end (by decide +kernel) (by decide +kernel)
  have hover : Misses overwritten := misses_of_end (by decide +kernel) (by decide +kernel)
  exact ⟨hlate, hover⟩

end StudyTech
