import StudyTech.Proof.ZkStep
import StudyTech.Spec.MinPath

/-!
# One call of `isMinPath` decides, arms and ends

While the own child stays and new children sort after it, the children below it only get fewer
from one version to the next. A call that goes round again does so because the greatest of them
was gone, so it reads the children at most once more than there were children below at its first
read (`isMinPath_decides`). What it returns is what its last read says, and a call that returns
false left a watch on the child before its own, at a version that has it.
-/

namespace StudyTech

open Lib

theorem of_no_version {p : ℕ → Prop} {r : Reply} (h : r.version = none) : ∀ z ∈ r.version, p z := by
  intro z hz
  rw [h] at hz
  cases hz

/-- `minStep` is this step with the reads of a directory of `/lock`, and the watch left there. -/
theorem minStep_eq {ι : Type} [DecidableEq ι] (zk : ZooKeeper ι) (i : ι)
    (st : DistributedLock) (m : MinPc) (r : Reply) :
    minStep zk i st m r =
      if ∀ z ∈ r.version, Readable zk i z then
        (minPathStep zk.children st m r).map fun out => (out.2.2.elim zk (zk.watch i), out.1, out.2.1)
      else none := by
  cases r with
  | silent =>
    rw [if_pos (of_no_version rfl)]
    cases m with
    | indexOf subNodes =>
      simp only [minStep, minPathStep]
      cases st.selfPath with
      | none => rfl
      | some self =>
        simp only
        cases subNodes.idxOf? (childName self) with
        | none => rfl
        | some k =>
          cases k with
          | zero => rfl
          | succ k =>
            simp only
            cases subNodes[k]? <;> rfl
    | countDown self =>
      simp only [minStep, minPathStep]
      cases st.latch <;> rfl
    | _ => rfl
  | ok z =>
    have hread : (∀ z' ∈ (Reply.ok z).version, Readable zk i z') ↔ Readable zk i z :=
      ⟨fun h => h z rfl, fun h z' hz' => Option.some.inj hz' ▸ h⟩
    simp only [hread]
    cases m with
    | getData =>
      simp only [minStep, minPathStep]
      cases st.waitPath with
      | none => exact (ite_self none).symm
      | some path =>
        simp only
        split
        · split <;> rfl
        · rfl
    | _ =>
      simp only [minStep, minPathStep]
      split <;> rfl
  | fail interrupted executed =>
    rw [if_pos (of_no_version rfl)]
    cases m <;> rfl

/-- The children below `own`. -/
def smaller (own : String) (children : List String) : List String := children.filter fun c => utf16 c < utf16 own

/-- `own` is the smallest child. -/
def First (own : String) (children : List String) : Prop := own ∈ children ∧ ∀ c ∈ children, utf16 own ≤ utf16 c

/-- `c` is the greatest child below `own`. -/
def Predecessor (own c : String) (children : List String) : Prop :=
  c ∈ smaller own children ∧ ∀ d ∈ smaller own children, utf16 d ≤ utf16 c

/-- The own child stays, new children sort after it, and `getData` fails with `NoNode` only. -/
def Meanwhile (own : String) (s : MinCall) : MinLabel → Prop
  | .create c => utf16 own < utf16 c
  | .delete c => c ≠ own
  | .own r => s.pc = .running .getData → ¬ r.Failed

section Children

variable {own c : String} {xs : List String}

theorem mem_smaller : c ∈ smaller own xs ↔ c ∈ xs ∧ utf16 c < utf16 own := by
  simp [smaller]

theorem not_first_of_smaller (h : c ∈ smaller own xs) : ¬ First own xs :=
  fun hfirst => absurd (mem_smaller.1 h).2 (not_lt.2 (hfirst.2 c (mem_smaller.1 h).1))

theorem smaller_cons (h : utf16 own < utf16 c) : smaller own (c :: xs) = smaller own xs := by
  refine List.filter_cons_of_neg ?_
  simpa using le_of_lt h

theorem smaller_delete_sublist : (smaller own (xs.filter (· ≠ c))).Sublist (smaller own xs) :=
  List.filter_sublist.filter _

/-- The name before the own one of the sorted children. -/
theorem predecessor_of_idxOf {k : ℕ} (hk : (sortStrings xs).idxOf? own = some (k + 1))
    (hc : (sortStrings xs)[k]? = some c) : Predecessor own c xs := by
  obtain ⟨hmem, hle, hne⟩ := prev_sortStrings_le hk hc
  have hlt : utf16 c < utf16 own := lt_of_le_of_ne hle fun heq => hne (utf16_inj heq)
  refine ⟨mem_smaller.2 ⟨hmem, hlt⟩, fun d hd => ?_⟩
  obtain ⟨hdmem, hdlt⟩ := mem_smaller.1 hd
  exact prev_sortStrings_greatest hk hc hdmem hdlt

end Children

/-- The last read of the children was made at `z`, and each read but it saw fewer of the children
below than the one before. -/
def MinCall.LastRead (own : String) (s : MinCall) (z : ℕ) : Prop :=
  s.reads.getLast? = some z ∧ z ≤ s.seen ∧
    ∀ first ∈ s.reads.head?, s.reads.length + (smaller own (s.children z)).length ≤
      (smaller own (s.children first)).length + 1

/-- The call knows the child before its own one from its last read. -/
def MinCall.Waits (own : String) (s : MinCall) (z : ℕ) (c : String) : Prop :=
  s.LastRead own z ∧ Predecessor own c (s.children z)

/-- What is known at a place of the call. -/
def MinCall.Place (own : String) (s : MinCall) : CallPc → Prop
  | .running .getChildren => ∀ first ∈ s.reads.head?,
      s.reads.length + (smaller own (s.children s.seen)).length ≤ (smaller own (s.children first)).length
  | .running (.indexOf subNodes) => ∃ z, s.LastRead own z ∧ subNodes = sortStrings (s.children z)
  | .running (.latchNull _) => ∃ z, s.LastRead own z ∧ First own (s.children z)
  | .running (.countDown _) => (∃ z, s.LastRead own z ∧ First own (s.children z)) ∧ s.lock.latch.isSome = true
  | .running (.setWaitPath path) => ∃ z c, s.Waits own z c ∧ path = childPath c
  | .running .getData => ∃ z c, s.Waits own z c ∧ s.lock.waitPath = some (childPath c)
  | .returned true => ∃ z, s.LastRead own z ∧ First own (s.children z)
  | .returned false => ∃ z c z', s.Waits own z c ∧ s.lock.waitPath = some (childPath c) ∧
      s.armed = some (c, z') ∧ z ≤ z' ∧ z' ≤ s.seen ∧ c ∈ s.children z'
  | .threw => ∀ first ∈ s.reads.head?, s.reads.length ≤ (smaller own (s.children first)).length + 1

/-- The invariant of a call. -/
structure MinInv (own : String) (s : MinCall) : Prop where
  self : ∃ self, s.lock.selfPath = some self ∧ childName self = own
  seen : s.seen ≤ s.zxid
  reads : ∀ z ∈ s.reads, z ≤ s.seen
  listed : ∀ z ≤ s.zxid, own ∈ s.children z
  fewer : ∀ z z', z ≤ z' → z' ≤ s.zxid → (smaller own (s.children z')).Sublist (smaller own (s.children z))
  place : s.Place own s.pc

section Others

variable {own : String} {s : MinCall} {cs : List String}

theorem children_setChildren {z : ℕ} (hz : z ≤ s.zxid) : (s.setChildren cs).children z = s.children z :=
  Function.update_of_ne (Nat.ne_of_lt (Nat.lt_succ_of_le hz)) ..

theorem children_setChildren_new : (s.setChildren cs).children (s.zxid + 1) = cs := Function.update_self ..

theorem LastRead.setChildren {z : ℕ} (h : MinInv own s) (hlast : s.LastRead own z) :
    (s.setChildren cs).LastRead own z := by
  obtain ⟨hz, hseen, hcount⟩ := hlast
  refine ⟨hz, hseen, fun first hfirst => ?_⟩
  have hle := le_trans (h.reads first (List.mem_of_mem_head? hfirst)) h.seen
  rw [children_setChildren (le_trans hseen h.seen), children_setChildren hle]
  exact hcount first hfirst

theorem Waits.setChildren {z : ℕ} {c : String} (h : MinInv own s) (hwaits : s.Waits own z c) :
    (s.setChildren cs).Waits own z c := by
  refine ⟨LastRead.setChildren h hwaits.1, ?_⟩
  rw [children_setChildren (le_trans hwaits.1.2.1 h.seen)]
  exact hwaits.2

/-- What others do to the directory does not touch what the call knows. -/
theorem place_setChildren (h : MinInv own s) : (s.setChildren cs).Place own s.pc := by
  have hplace := h.place
  have hfirst : ∀ first ∈ s.reads.head?, (s.setChildren cs).children first = s.children first := fun first hfirst =>
    children_setChildren (le_trans (h.reads first (List.mem_of_mem_head? hfirst)) h.seen)
  have hlast : ∀ z, s.LastRead own z → (s.setChildren cs).children z = s.children z := fun z hz =>
    children_setChildren (le_trans hz.2.1 h.seen)
  cases hpc : s.pc with
  | running m =>
    rw [hpc] at hplace
    cases m with
    | getChildren =>
      intro first hmem
      rw [hfirst first hmem]
      show s.reads.length + (smaller own ((s.setChildren cs).children s.seen)).length ≤ _
      rw [children_setChildren h.seen]
      exact hplace first hmem
    | indexOf subNodes =>
      obtain ⟨z, hz, heq⟩ := hplace
      exact ⟨z, LastRead.setChildren h hz, by rw [hlast z hz]; exact heq⟩
    | latchNull self =>
      obtain ⟨z, hz, heq⟩ := hplace
      exact ⟨z, LastRead.setChildren h hz, by rw [hlast z hz]; exact heq⟩
    | countDown self =>
      obtain ⟨⟨z, hz, heq⟩, hlatch⟩ := hplace
      exact ⟨⟨z, LastRead.setChildren h hz, by rw [hlast z hz]; exact heq⟩, hlatch⟩
    | setWaitPath path =>
      obtain ⟨z, c, hwaits, hpath⟩ := hplace
      exact ⟨z, c, Waits.setChildren h hwaits, hpath⟩
    | getData =>
      obtain ⟨z, c, hwaits, hpath⟩ := hplace
      exact ⟨z, c, Waits.setChildren h hwaits, hpath⟩
  | returned value =>
    rw [hpc] at hplace
    cases value with
    | true =>
      obtain ⟨z, hz, heq⟩ := hplace
      exact ⟨z, LastRead.setChildren h hz, by rw [hlast z hz]; exact heq⟩
    | false =>
      obtain ⟨z, c, z', hwaits, hpath, harmed, hzz', hz', hmem⟩ := hplace
      refine ⟨z, c, z', Waits.setChildren h hwaits, hpath, harmed, hzz', hz', ?_⟩
      rw [children_setChildren (le_trans hz' h.seen)]
      exact hmem
  | threw =>
    rw [hpc] at hplace
    intro first hmem
    rw [hfirst first hmem]
    exact hplace first hmem

theorem minInv_setChildren (h : MinInv own s) (hown : own ∈ cs)
    (hfewer : (smaller own cs).Sublist (smaller own (s.children s.zxid))) : MinInv own (s.setChildren cs) := by
  refine ⟨h.self, Nat.le_succ_of_le h.seen, h.reads, fun z hz => ?_, fun z z' hzz' hz' => ?_, place_setChildren h⟩
  · rcases Nat.le_succ_iff.1 hz with hz | rfl
    · rw [children_setChildren hz]
      exact h.listed z hz
    · rw [children_setChildren_new]
      exact hown
  · rcases Nat.le_succ_iff.1 hz' with hz' | rfl
    · rw [children_setChildren hz', children_setChildren (le_trans hzz' hz')]
      exact h.fewer z z' hzz' hz'
    · rw [children_setChildren_new]
      rcases Nat.le_succ_iff.1 hzz' with hz | rfl
      · rw [children_setChildren hz]
        exact hfewer.trans (h.fewer z s.zxid hz (le_refl _))
      · rw [children_setChildren_new]

end Others

section Own

variable {own : String} {s : MinCall} {m : MinPc} {r : Reply} {st : DistributedLock} {result : MinResult}
  {watch : Option String} {z : ℕ} {c : String}

theorem seen_goOn (hversion : ∀ z ∈ r.version, s.seen ≤ z ∧ z ≤ s.zxid) :
    s.seen ≤ (s.goOn m r st result watch).seen := by
  show s.seen ≤ r.version.getD s.seen
  cases hr : r.version with
  | none => exact le_refl _
  | some z => exact (hversion z hr).1

/-- A step that is no read of the children keeps the last read. -/
theorem LastRead.goOn (h : s.LastRead own z) (hm : m ≠ .getChildren)
    (hversion : ∀ z ∈ r.version, s.seen ≤ z ∧ z ≤ s.zxid) : (s.goOn m r st result watch).LastRead own z := by
  obtain ⟨hz, hseen, hcount⟩ := h
  have hreads : (s.goOn m r st result watch).reads = s.reads := if_neg hm
  refine ⟨by rw [hreads]; exact hz, le_trans hseen (seen_goOn hversion), ?_⟩
  rw [hreads]
  exact hcount

/-- A read of the children. -/
theorem lastRead_read (h : MinInv own s) (hpc : s.pc = .running .getChildren) (hz : s.seen ≤ z ∧ z ≤ s.zxid) :
    (s.goOn .getChildren (.ok z) st result watch).LastRead own z := by
  have hplace := h.place
  rw [hpc] at hplace
  refine ⟨List.getLast?_concat, le_refl _, fun first hfirst => ?_⟩
  show (s.reads ++ [z]).length + (smaller own (s.children z)).length ≤ (smaller own (s.children first)).length + 1
  have hfewer := (h.fewer s.seen z hz.1 hz.2).length_le
  rw [List.length_append, List.length_singleton]
  cases hreads : s.reads with
  | nil =>
    have hfirst' : first ∈ (s.reads ++ [z]).head? := hfirst
    rw [hreads] at hfirst'
    obtain rfl : z = first := Option.some.inj hfirst'
    rw [List.length_nil]
    omega
  | cons x xs =>
    have hfirst' : first ∈ (s.reads ++ [z]).head? := hfirst
    rw [hreads] at hfirst'
    have hcount := hplace first (by rw [hreads]; exact hfirst')
    rw [hreads] at hcount
    omega

/-- Where the child before the own one is gone, fewer are below. -/
theorem length_smaller_lt {xs ys : List String} (hsub : (smaller own ys).Sublist (smaller own xs))
    (hc : c ∈ smaller own xs) (hgone : c ∉ ys) : (smaller own ys).length < (smaller own xs).length := by
  refine lt_of_le_of_ne hsub.length_le fun heq => hgone ?_
  rw [← hsub.eq_of_length heq] at hc
  exact (mem_smaller.1 hc).1

/-- The list of the children decides how the call goes on. -/
theorem place_indexOf {subNodes : List String} (h : MinInv own s) (hpc : s.pc = .running (.indexOf subNodes))
    (hstep : minPathStep s.children s.lock (.indexOf subNodes) .silent = some (st, result, watch)) :
    (s.goOn (.indexOf subNodes) .silent st result watch).Place own result.pc ∧ st = s.lock := by
  obtain ⟨self, hself, hname⟩ := h.self
  have hplace := h.place
  rw [hpc] at hplace
  obtain ⟨z, hlast, rfl⟩ := hplace
  have hlast' : (s.goOn (.indexOf (sortStrings (s.children z))) .silent st result watch).LastRead own z :=
    LastRead.goOn hlast (fun h => nomatch h) (of_no_version rfl)
  rw [minPathStep, hself] at hstep
  simp only at hstep
  split at hstep
  · -- the own child is on the list
    rename_i hidx
    rw [hname] at hidx
    exact absurd (mem_sortStrings.2 (h.listed z (le_trans hlast.2.1 h.seen))) (List.idxOf?_eq_none_iff.1 hidx)
  · rename_i hidx
    rw [hname] at hidx
    cases hstep
    exact ⟨⟨z, hlast', first_sortStrings_iff.1 hidx⟩, rfl⟩
  · rename_i k hidx
    rw [hname] at hidx
    obtain ⟨c, hc, heq⟩ := Option.map_eq_some_iff.1 hstep
    cases heq
    exact ⟨⟨z, c, ⟨hlast', predecessor_of_idxOf hidx hc⟩, rfl⟩, rfl⟩

/-- `getData` leaves a watch, or fewer children are below. -/
theorem place_getData (h : MinInv own s) (hpc : s.pc = .running .getData) (hfail : ¬ r.Failed)
    (hversion : ∀ z ∈ r.version, s.seen ≤ z ∧ z ≤ s.zxid)
    (hstep : minPathStep s.children s.lock .getData r = some (st, result, watch)) :
    (s.goOn .getData r st result watch).Place own result.pc ∧ st = s.lock := by
  have hplace := h.place
  rw [hpc] at hplace
  obtain ⟨z, c, ⟨hlast, hprev⟩, hwait⟩ := hplace
  cases r with
  | silent => cases hstep
  | fail interrupted executed => exact absurd trivial hfail
  | ok z' =>
    obtain ⟨hseen, hzxid⟩ := hversion z' rfl
    have hzz' : z ≤ z' := le_trans hlast.2.1 hseen
    have hlast' : (s.goOn .getData (.ok z') st result watch).LastRead own z :=
      LastRead.goOn hlast (fun h => nomatch h) hversion
    rw [minPathStep, hwait] at hstep
    simp only [childName_childPath] at hstep
    split at hstep
    · rename_i hmem
      cases hstep
      exact ⟨⟨z, c, z', ⟨hlast', hprev⟩, hwait, rfl, hzz', le_refl _, hmem⟩, rfl⟩
    · rename_i hgone
      cases hstep
      refine ⟨fun first hfirst => ?_, rfl⟩
      have hcount := hlast.2.2 first hfirst
      have hlt := length_smaller_lt (h.fewer z z' hzz' hzxid) hprev.1 hgone
      show s.reads.length + (smaller own (s.children z')).length ≤ (smaller own (s.children first)).length
      omega

/-- What a step of the call gets to know. -/
theorem place_own (h : MinInv own s) (hpc : s.pc = .running m) (hfail : m = .getData → ¬ r.Failed)
    (hversion : ∀ z ∈ r.version, s.seen ≤ z ∧ z ≤ s.zxid)
    (hstep : minPathStep s.children s.lock m r = some (st, result, watch)) :
    (s.goOn m r st result watch).Place own result.pc ∧ st.selfPath = s.lock.selfPath := by
  have hplace := h.place
  rw [hpc] at hplace
  cases m with
  | getChildren =>
    cases r with
    | silent => cases hstep
    | ok z =>
      cases hstep
      exact ⟨⟨z, lastRead_read h hpc (hversion z rfl), rfl⟩, rfl⟩
    | fail interrupted executed =>
      cases hstep
      refine ⟨fun first hfirst => ?_, rfl⟩
      have hreads : (s.goOn .getChildren (.fail interrupted executed) s.lock .threw none).reads = s.reads :=
        List.append_nil _
      rw [hreads] at hfirst ⊢
      have hcount := hplace first hfirst
      show s.reads.length ≤ (smaller own (s.children first)).length + 1
      omega
  | indexOf subNodes =>
    cases r with
    | silent =>
      obtain ⟨hknown, rfl⟩ := place_indexOf h hpc hstep
      exact ⟨hknown, rfl⟩
    | _ => cases hstep
  | latchNull self =>
    cases r with
    | silent =>
      obtain ⟨z, hlast, hfirst⟩ := hplace
      have hlast' : (s.goOn (.latchNull self) .silent st result watch).LastRead own z :=
        LastRead.goOn hlast (fun h => nomatch h) hversion
      rw [minPathStep] at hstep
      cases hstep
      cases hlatch : s.lock.latch with
      | none =>
        rw [hlatch, if_pos rfl] at hlast'
        exact ⟨⟨z, hlast', hfirst⟩, rfl⟩
      | some k =>
        rw [hlatch, if_neg (fun h => nomatch h)] at hlast'
        refine ⟨⟨⟨z, hlast', hfirst⟩, ?_⟩, rfl⟩
        show s.lock.latch.isSome = true
        rw [hlatch]
        rfl
    | _ => cases hstep
  | countDown self =>
    cases r with
    | silent =>
      obtain ⟨⟨z, hlast, hfirst⟩, -⟩ := hplace
      obtain ⟨k, -, heq⟩ := Option.map_eq_some_iff.1 hstep
      cases heq
      exact ⟨⟨z, LastRead.goOn hlast (fun h => nomatch h) hversion, hfirst⟩, rfl⟩
    | _ => cases hstep
  | setWaitPath path =>
    cases r with
    | silent =>
      obtain ⟨z, c, ⟨hlast, hprev⟩, rfl⟩ := hplace
      cases hstep
      exact ⟨⟨z, c, ⟨LastRead.goOn hlast (fun h => nomatch h) hversion, hprev⟩, rfl⟩, rfl⟩
    | _ => cases hstep
  | getData =>
    obtain ⟨hknown, rfl⟩ := place_getData h hpc (hfail rfl) hversion hstep
    exact ⟨hknown, rfl⟩

theorem minInv_goOn (h : MinInv own s) (hpc : s.pc = .running m) (hfail : m = .getData → ¬ r.Failed)
    (hversion : ∀ z ∈ r.version, s.seen ≤ z ∧ z ≤ s.zxid)
    (hstep : minPathStep s.children s.lock m r = some (st, result, watch)) :
    MinInv own (s.goOn m r st result watch) := by
  obtain ⟨hplace, hself⟩ := place_own h hpc hfail hversion hstep
  refine ⟨?_, ?_, fun z hz => ?_, h.listed, h.fewer, hplace⟩
  · obtain ⟨self, hpath, hname⟩ := h.self
    exact ⟨self, hself.trans hpath, hname⟩
  · show r.version.getD s.seen ≤ s.zxid
    cases hr : r.version with
    | none => exact h.seen
    | some z => exact (hversion z hr).2
  · have hseen : s.seen ≤ (s.goOn m r st result watch).seen := seen_goOn hversion
    by_cases hm : m = .getChildren
    · have hz' : z ∈ s.reads ++ r.version.toList := (if_pos hm : (s.goOn m r st result watch).reads = _) ▸ hz
      rcases List.mem_append.1 hz' with hz' | hz'
      · exact le_trans (h.reads z hz') hseen
      · have hr : r.version = some z := by simpa using hz'
        show z ≤ r.version.getD s.seen
        rw [hr]
        exact le_refl _
    · have hz' : z ∈ s.reads := (if_neg hm : (s.goOn m r st result watch).reads = _) ▸ hz
      exact le_trans (h.reads z hz') hseen

end Own

/-- A step of the call goes on from where it runs. -/
theorem minCallStep_own {s s' : MinCall} {r : Reply} (hs : minCallStep s (.own r) = some s') :
    ∃ m st result watch, s.pc = .running m ∧ (∀ z ∈ r.version, s.seen ≤ z ∧ z ≤ s.zxid) ∧
      minPathStep s.children s.lock m r = some (st, result, watch) ∧ s' = s.goOn m r st result watch := by
  rw [minCallStep] at hs
  cases hpc : s.pc with
  | running m =>
    rw [hpc] at hs
    simp only [Option.ite_none_right_eq_some] at hs
    obtain ⟨hversion, hs⟩ := hs
    obtain ⟨⟨st, result, watch⟩, hstep, rfl⟩ := Option.map_eq_some_iff.1 hs
    exact ⟨m, st, result, watch, rfl, hversion, hstep, rfl⟩
  | returned value =>
    rw [hpc] at hs
    cases hs
  | threw =>
    rw [hpc] at hs
    cases hs

theorem minInv_step {own : String} {s s' : MinCall} {l : MinLabel} (h : MinInv own s) (hok : Meanwhile own s l)
    (hs : minCallStep s l = some s') : MinInv own s' := by
  cases l with
  | create c =>
    rw [minCallStep, Option.ite_none_left_eq_some] at hs
    obtain ⟨-, hs⟩ := hs
    cases hs
    refine minInv_setChildren h (List.mem_cons_of_mem _ (h.listed s.zxid (le_refl _))) ?_
    rw [smaller_cons hok]
  | delete c =>
    rw [minCallStep, Option.ite_none_right_eq_some] at hs
    obtain ⟨-, hs⟩ := hs
    cases hs
    refine minInv_setChildren h (List.mem_filter.2 ⟨h.listed s.zxid (le_refl _), ?_⟩) smaller_delete_sublist
    simpa using Ne.symm hok
  | own r =>
    obtain ⟨m, st, result, watch, hpc, hversion, hstep, rfl⟩ := minCallStep_own hs
    exact minInv_goOn h hpc (fun hm => hok (hm ▸ hpc)) hversion hstep

/-- How far the call is from its last read of the children on. -/
def CallPc.rank : CallPc → ℕ
  | .running (.indexOf _) => 0
  | .running (.latchNull _) => 1
  | .running (.setWaitPath _) => 1
  | .running (.countDown _) => 2
  | .running .getData => 2
  | .running .getChildren => 3
  | .returned _ => 3
  | .threw => 4

/-- What grows with every step of the call. -/
def MinCall.size (s : MinCall) : ℕ := 4 * s.reads.length + s.pc.rank

theorem CallPc.rank_le (pc : CallPc) : pc.rank ≤ 4 := by
  unfold CallPc.rank
  split <;> omega

section Ending

variable {s s' : MinCall} {r : Reply} {st : DistributedLock} {result : MinResult} {watch : Option String}

/-- A step that is no read of the children leaves fewer steps to the next one. -/
theorem rank_lt {m : MinPc} (hm : m ≠ .getChildren)
    (hstep : minPathStep s.children s.lock m r = some (st, result, watch)) :
    (CallPc.running m).rank < result.pc.rank := by
  cases m with
  | getChildren => exact absurd rfl hm
  | indexOf subNodes =>
    cases r with
    | silent =>
      rw [minPathStep] at hstep
      split at hstep
      · cases hstep
      · split at hstep
        · cases hstep; exact Nat.succ_pos 2
        · cases hstep; exact Nat.zero_lt_one
        · obtain ⟨c, -, heq⟩ := Option.map_eq_some_iff.1 hstep
          cases heq
          exact Nat.zero_lt_one
    | _ => cases hstep
  | latchNull self =>
    cases r with
    | silent =>
      rw [minPathStep] at hstep
      cases hstep
      split
      · exact Nat.lt_add_of_pos_right Nat.two_pos
      · exact Nat.one_lt_two
    | _ => cases hstep
  | countDown self =>
    cases r with
    | silent =>
      obtain ⟨k, -, heq⟩ := Option.map_eq_some_iff.1 hstep
      cases heq
      exact Nat.lt_succ_self 2
    | _ => cases hstep
  | setWaitPath path =>
    cases r with
    | silent => cases hstep; exact Nat.one_lt_two
    | _ => cases hstep
  | getData =>
    cases r with
    | silent => cases hstep
    | fail interrupted executed => cases hstep; cases interrupted <;> decide
    | ok z =>
      rw [minPathStep] at hstep
      split at hstep
      · cases hstep
      · split at hstep <;> (cases hstep; exact Nat.lt_succ_self 2)

theorem size_step (l : MinLabel) (hs : minCallStep s l = some s') :
    s.size + (if l.isOwn then 1 else 0) ≤ s'.size := by
  cases l with
  | create c =>
    rw [minCallStep, Option.ite_none_left_eq_some] at hs
    obtain ⟨-, hs⟩ := hs
    cases hs
    exact le_refl _
  | delete c =>
    rw [minCallStep, Option.ite_none_right_eq_some] at hs
    obtain ⟨-, hs⟩ := hs
    cases hs
    exact le_refl _
  | own r =>
    obtain ⟨m, st, result, watch, hpc, -, hstep, rfl⟩ := minCallStep_own hs
    show s.size + 1 ≤ 4 * (s.goOn m r st result watch).reads.length + result.pc.rank
    rw [MinCall.size, hpc]
    by_cases hm : m = .getChildren
    · subst hm
      cases r with
      | silent => cases hstep
      | ok z =>
        have hreads : (s.goOn .getChildren (.ok z) st result watch).reads.length = s.reads.length + 1 :=
          List.length_append
        have hrank : (CallPc.running .getChildren).rank = 3 := rfl
        omega
      | fail interrupted executed =>
        cases hstep
        have hreads : (s.goOn .getChildren (.fail interrupted executed) s.lock .threw none).reads = s.reads :=
          List.append_nil _
        rw [hreads]
        exact Nat.le_refl _
    · have hreads : (s.goOn m r st result watch).reads = s.reads := if_neg hm
      have hrank := rank_lt hm hstep
      rw [hreads]
      omega

/-- Only a call of ZooKeeper that fails makes the call throw. -/
theorem failed_of_threw {m : MinPc} (hstep : minPathStep s.children s.lock m r = some (st, .threw, watch)) :
    r.Failed := by
  cases r with
  | fail interrupted executed => exact trivial
  | silent =>
    cases m with
    | indexOf subNodes =>
      rw [minPathStep] at hstep
      split at hstep
      · cases hstep
      · split at hstep
        · cases hstep
        · cases hstep
        · obtain ⟨c, -, heq⟩ := Option.map_eq_some_iff.1 hstep
          cases heq
    | latchNull self =>
      rw [minPathStep] at hstep
      split at hstep <;> cases hstep
    | countDown self =>
      obtain ⟨k, -, heq⟩ := Option.map_eq_some_iff.1 hstep
      cases heq
    | _ => cases hstep
  | ok z =>
    cases m with
    | getData =>
      rw [minPathStep] at hstep
      split at hstep
      · cases hstep
      · split at hstep <;> cases hstep
    | _ => cases hstep

theorem not_threw_step {l : MinLabel} (h : s.pc ≠ .threw) (hok : ∀ r, l = .own r → ¬ r.Failed)
    (hs : minCallStep s l = some s') : s'.pc ≠ .threw := by
  cases l with
  | create c =>
    rw [minCallStep, Option.ite_none_left_eq_some] at hs
    obtain ⟨-, hs⟩ := hs
    cases hs
    exact h
  | delete c =>
    rw [minCallStep, Option.ite_none_right_eq_some] at hs
    obtain ⟨-, hs⟩ := hs
    cases hs
    exact h
  | own r =>
    obtain ⟨m, st, result, watch, -, -, hstep, rfl⟩ := minCallStep_own hs
    intro hthrew
    have hresult : result = .threw := by
      cases result <;> cases hthrew
      rfl
    subst hresult
    exact hok r rfl (failed_of_threw hstep)

/-- A call that runs has a step. -/
theorem enabled_of_running {own : String} {m : MinPc} (h : MinInv own s) (hpc : s.pc = .running m) :
    ∃ r s', ¬ r.Failed ∧ minCallStep s (.own r) = some s' := by
  have henabled : ∀ r, ¬ r.Failed → (∀ z ∈ r.version, s.seen ≤ z ∧ z ≤ s.zxid) →
      (∃ out, minPathStep s.children s.lock m r = some out) →
        ∃ r s', ¬ r.Failed ∧ minCallStep s (.own r) = some s' := by
    rintro r hr hversion ⟨⟨st, result, watch⟩, hstep⟩
    refine ⟨r, s.goOn m r st result watch, hr, ?_⟩
    rw [minCallStep, hpc]
    simp only
    rw [if_pos hversion, hstep]
    rfl
  have hsilent : ∀ z ∈ Reply.silent.version, s.seen ≤ z ∧ z ≤ s.zxid := of_no_version rfl
  -- a read that sees nothing new
  have hok : ∀ z ∈ (Reply.ok s.seen).version, s.seen ≤ z ∧ z ≤ s.zxid := by
    intro z hz
    obtain rfl : s.seen = z := Option.some.inj hz
    exact ⟨le_refl _, h.seen⟩
  have hplace := h.place
  rw [hpc] at hplace
  cases m with
  | getChildren => exact henabled (.ok s.seen) id hok ⟨_, rfl⟩
  | indexOf subNodes =>
    refine henabled .silent id hsilent ?_
    obtain ⟨self, hself, -⟩ := h.self
    simp only [minPathStep, hself]
    cases hidx : subNodes.idxOf? (childName self) with
    | none => exact ⟨_, rfl⟩
    | some k =>
      cases k with
      | zero => exact ⟨_, rfl⟩
      | succ k =>
        obtain ⟨hlt, -, -⟩ := List.idxOf?_eq_some_iff.1 hidx
        simp only [List.getElem?_eq_getElem (Nat.lt_of_succ_lt hlt)]
        exact ⟨_, rfl⟩
  | latchNull self => exact henabled .silent id hsilent ⟨_, rfl⟩
  | countDown self =>
    refine henabled .silent id hsilent ?_
    obtain ⟨k, hk⟩ := Option.isSome_iff_exists.1 hplace.2
    rw [minPathStep, hk]
    exact ⟨_, rfl⟩
  | setWaitPath path => exact henabled .silent id hsilent ⟨_, rfl⟩
  | getData =>
    refine henabled (.ok s.seen) id hok ?_
    obtain ⟨z, c, -, hwait⟩ := hplace
    simp only [minPathStep, hwait]
    split <;> exact ⟨_, rfl⟩

end Ending

section Call

variable {own : String} {children : List String} {st : DistributedLock} {ls : List MinLabel} {s : MinCall}

theorem minInv_start {self : String} (hself : st.selfPath = some self) (hown : childName self ∈ children) :
    MinInv (childName self) (.start children st) := by
  refine ⟨⟨self, hself, rfl⟩, le_refl _, fun z hz => (nomatch hz), fun z _ => hown, fun z z' _ _ => .refl _, ?_⟩
  intro first hfirst
  cases hfirst

theorem reads_le (h : MinInv own s) : ∀ first ∈ s.reads.head?,
    s.reads.length ≤ (smaller own (s.children first)).length + 1 := by
  have hlast : ∀ z, s.LastRead own z → ∀ first ∈ s.reads.head?,
      s.reads.length ≤ (smaller own (s.children first)).length + 1 := by
    intro z hz first hfirst
    have hcount := hz.2.2 first hfirst
    omega
  have hplace := h.place
  cases hpc : s.pc with
  | running m =>
    rw [hpc] at hplace
    cases m with
    | getChildren =>
      intro first hfirst
      have hcount := hplace first hfirst
      omega
    | indexOf subNodes => obtain ⟨z, hz, -⟩ := hplace; exact hlast z hz
    | latchNull self => obtain ⟨z, hz, -⟩ := hplace; exact hlast z hz
    | countDown self => obtain ⟨⟨z, hz, -⟩, -⟩ := hplace; exact hlast z hz
    | setWaitPath path => obtain ⟨z, c, hz, -⟩ := hplace; exact hlast z hz.1
    | getData => obtain ⟨z, c, hz, -⟩ := hplace; exact hlast z hz.1
  | returned value =>
    rw [hpc] at hplace
    cases value with
    | true => obtain ⟨z, hz, -⟩ := hplace; exact hlast z hz
    | false => obtain ⟨z, c, z', hz, -⟩ := hplace; exact hlast z hz.1
  | threw =>
    rw [hpc] at hplace
    exact hplace

/-- What a call that returned decided, and what it armed. -/
theorem returned_spec (h : MinInv own s) {value : Bool} (hpc : s.pc = .returned value) :
    ∃ z, s.reads.getLast? = some z ∧ (value = true ↔ First own (s.children z)) ∧
      (value = false → ∃ c z', Predecessor own c (s.children z) ∧ s.lock.waitPath = some (childPath c) ∧
        s.armed = some (c, z') ∧ z ≤ z' ∧ c ∈ s.children z') := by
  have hplace := h.place
  rw [hpc] at hplace
  cases value with
  | true =>
    obtain ⟨z, hlast, hfirst⟩ := hplace
    exact ⟨z, hlast.1, iff_of_true rfl hfirst, fun h => nomatch h⟩
  | false =>
    obtain ⟨z, c, z', ⟨hlast, hprev⟩, hwait, harmed, hzz', -, hmem⟩ := hplace
    exact ⟨z, hlast.1, iff_of_false Bool.false_ne_true (not_first_of_smaller hprev.1),
      fun _ => ⟨c, z', hprev, hwait, harmed, hzz', hmem⟩⟩

/-- **`isMinPath` decides, arms and ends**, whatever other clients do meanwhile: the children are
read at most once more than there were smaller ones at the first read, the call makes at most four
steps for each read and one more, and as long as it runs it has a step; it throws only if a call
of ZooKeeper does. It returns true if and only if its own child was the smallest at the last read;
if it returns false, `waitPath` is the greatest smaller child of that read, and a watch was left
on it, at a version not before that has it. -/
theorem isMinPath_decides {self : String} (hself : st.selfPath = some self) (hown : childName self ∈ children)
    (hok : Along minCallStep (Meanwhile (childName self)) (.start children st) ls)
    (hrun : exec minCallStep (.start children st) ls = some s) :
    (∀ first ∈ s.reads.head?, s.reads.length ≤ (smaller (childName self) (s.children first)).length + 1) ∧
    ls.countP MinLabel.isOwn ≤ 4 * s.reads.length + 1 ∧
    (∀ m, s.pc = .running m → ∃ r s', ¬ r.Failed ∧ minCallStep s (.own r) = some s') ∧
    ((∀ l ∈ ls, ∀ r, l = .own r → ¬ r.Failed) → s.pc ≠ .threw) ∧
    ∀ value, s.pc = .returned value →
      ∃ z, s.reads.getLast? = some z ∧ (value = true ↔ First (childName self) (s.children z)) ∧
        (value = false → ∃ c z', Predecessor (childName self) c (s.children z) ∧
          s.lock.waitPath = some (childPath c) ∧ s.armed = some (c, z') ∧ z ≤ z' ∧ c ∈ s.children z') := by
  have hinv : MinInv (childName self) s :=
    inv_of_along (fun _ _ _ ha hl hs => minInv_step ha hl hs) (minInv_start hself hown) hok hrun
  refine ⟨reads_le hinv, ?_, fun m hpc => enabled_of_running hinv hpc, fun hcalm => ?_,
    fun value hpc => returned_spec hinv hpc⟩
  · have hsize := countP_le_of_exec MinCall.size (fun _ l _ hs => size_step l hs) hrun
    have hstart : (MinCall.start children st).size = 3 := rfl
    have hrank := s.pc.rank_le
    rw [hstart, MinCall.size] at hsize
    omega
  · have hstart : (MinCall.start children st).pc ≠ .threw := fun h => nomatch h
    have hcalm' : Along minCallStep (fun _ l => ∀ r, l = .own r → ¬ r.Failed) (.start children st) ls :=
      along_of_forall_mem hcalm
    exact inv_of_along (fun _ _ _ ha hl hs => not_threw_step ha hl hs) hstart hcalm' hrun

end Call

instance (own : String) (s : MinCall) : DecidablePred (Meanwhile own s)
  | .create c => inferInstanceAs (Decidable (utf16 own < utf16 c))
  | .delete c => inferInstanceAs (Decidable (c ≠ own))
  | .own r => inferInstanceAs (Decidable (s.pc = .running .getData → ¬ r.Failed))

/-- The second child goes before it is watched; the third one then watches the first. -/
def twoReads : List MinLabel :=
  [.own (.ok 0), .own .silent, .own .silent, .delete "sub0000000002", .own (.ok 1), .create "sub0000000004",
    .own (.ok 1), .own .silent, .own .silent, .own (.ok 2)]

/-- The lock whose child is the third. -/
def thirdLock : DistributedLock := { selfPath := some "/lock/sub0000000003" }

/-- The third child is told of the first on its second read. -/
theorem isMinPath_decides_twoReads :
    ∃ s, exec minCallStep (.start ["sub0000000001", "sub0000000003", "sub0000000002"] thirdLock) twoReads = some s ∧
      s.pc = .returned false ∧ ∃ z c z', s.reads.getLast? = some z ∧
        Predecessor "sub0000000003" c (s.children z) ∧ s.armed = some (c, z') := by
  have heval : (exec minCallStep (.start ["sub0000000001", "sub0000000003", "sub0000000002"] thirdLock)
      twoReads).any (fun s => s.pc == .returned false) = true := by decide +kernel
  obtain ⟨s, hrun, hpc⟩ := (Option.any_eq_true _ _).1 heval
  have hname : childName "/lock/sub0000000003" = "sub0000000003" := by decide +kernel
  have hself : thirdLock.selfPath = some "/lock/sub0000000003" := rfl
  obtain ⟨-, -, -, -, hreturned⟩ := isMinPath_decides hself (by decide +kernel) (by decide +kernel) hrun
  obtain ⟨z, hz, -, harmed⟩ := hreturned false (beq_iff_eq.1 hpc)
  obtain ⟨c, z', hprev, -, harmed, -⟩ := harmed rfl
  exact ⟨s, hrun, beq_iff_eq.1 hpc, z, c, z', hz, hname ▸ hprev, harmed⟩

end StudyTech
