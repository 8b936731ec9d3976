import StudyTech.Proof.RmiStep
import StudyTech.Spec.Lookup

/-!
# What `lookup` makes of a list that is replaced

The size and the element are two reads of `urls`. The call gets through if and only if the list
at the second read reaches as far as the index that was drawn from the size of the first
(`lookup_tolerates`). `registryLookupStep` is a run of `lookupStep` in which `watchNode` is what
replaces the list (`lookup_of_registry`).
-/

namespace StudyTech

open Lib

/-- Where the element is read, the list reaches as far as the index. -/
def InRange (s : LookupState) (l : LookupLabel) : Prop := ∀ index, l = .call (.get index) → index < s.urls.length

/-- There is no index error, the url is from a list that `urls` was during the call, and there
is no url only if `urls` was empty. -/
structure Tolerant (s : LookupState) : Prop where
  noError : s.pc ≠ .threw none
  url : ∀ url ∈ s.pc.url, ∃ list ∈ s.held, url ∈ list
  nothing : ∀ service, s.pc = .returned none service → [] ∈ s.held

/-- What is known during the call. -/
structure LookupInv (s : LookupState) : Prop where
  current : s.pc.ended = false → s.urls ∈ s.held
  url : ∀ url ∈ s.pc.url, ∃ list ∈ s.held, url ∈ list
  nothing : ∀ service, s.pc = .returned none service → [] ∈ s.held

variable {s s' : LookupState} {l : LookupLabel} {ls : List LookupLabel}

/-- What a step can do. -/
inductive LookupEffect (s : LookupState) : LookupLabel → LookupState → Prop
  | assign {list : List String} : LookupEffect s (.assign list) { s with
      urls := list
      held := if s.pc.ended then s.held else s.held ++ [list] }
  | some : s.pc = .size → LookupEffect s (.call .size) { s with pc := .get s.urls.length }
  | empty : s.pc = .size → s.urls = [] → LookupEffect s (.call .size) { s with pc := .returned none false }
  | element {n index : ℕ} {url : String} : s.pc = .get n → s.urls[index]? = some url →
      LookupEffect s (.call (.get index)) { s with pc := .naming url }
  | outOfBounds {n index : ℕ} : s.pc = .get n → s.urls.length ≤ index →
      LookupEffect s (.call (.get index)) { s with pc := .threw none }
  | named {url : String} {r : NamingEnd} {pc : LookupPc} : s.pc = .naming url → pc.url = some url →
      LookupEffect s (.call (.naming r)) { s with pc := pc }

theorem lookupStep_effect (h : lookupStep s l = some s') : LookupEffect s l s' := by
  cases l with
  | assign list => cases h; exact .assign
  | call l =>
    obtain ⟨pc, hpc, rfl⟩ := Option.map_eq_some_iff.1 h
    unfold LookupPc.step at hpc
    split at hpc
    · rename_i hsize
      cases hpc
      split
      · exact .some hsize
      · rename_i hlength
        exact .empty hsize (List.eq_nil_of_length_eq_zero (Nat.eq_zero_of_not_pos hlength))
    · rename_i n index hget
      split at hpc
      · cases hpc
        cases helement : s.urls[index]? with
        | some url => exact .element hget helement
        | none => exact .outOfBounds hget (List.getElem?_eq_none_iff.1 helement)
      · cases hpc
    · rename_i url hnaming; cases hpc; exact .named hnaming rfl
    · rename_i url hnaming; cases hpc; exact .named hnaming rfl
    · rename_i url hnaming; cases hpc; exact .named hnaming rfl
    · cases hpc

theorem LookupInv.step (h : LookupInv s) (hstep : lookupStep s l = some s') : LookupInv s' := by
  cases lookupStep_effect hstep with
  | @assign list =>
    by_cases hended : s.pc.ended = true
    · simp only [hended, if_true]
      exact ⟨fun hrunning => absurd (hended.symm.trans hrunning) Bool.noConfusion, h.url, h.nothing⟩
    · simp only [hended]
      refine ⟨fun _ => List.mem_append_right _ (List.mem_singleton_self list), fun url hurl => ?_,
        fun service hpc => ?_⟩
      · obtain ⟨list', hlist', hmem⟩ := h.url url hurl
        exact ⟨list', List.mem_append_left _ hlist', hmem⟩
      · exact List.mem_append_left _ (h.nothing service hpc)
  | some hpc =>
    refine ⟨fun _ => h.current (by rw [hpc]; rfl), (fun url hurl => nomatch hurl),
      (fun service hreturned => nomatch hreturned)⟩
  | empty hpc hurls =>
    have hcurrent := h.current (by rw [hpc]; rfl)
    rw [hurls] at hcurrent
    exact ⟨(fun hrunning => nomatch hrunning), (fun url hurl => nomatch hurl), fun _ _ => hcurrent⟩
  | @element n index url hpc helement =>
    have hcurrent := h.current (by rw [hpc]; rfl)
    refine ⟨fun _ => hcurrent, fun url' hurl' => ?_, (fun service hreturned => nomatch hreturned)⟩
    obtain rfl : url = url' := Option.some.inj hurl'
    exact ⟨s.urls, hcurrent, List.mem_of_getElem? helement⟩
  | outOfBounds _ _ =>
    exact ⟨(fun hrunning => nomatch hrunning), (fun url hurl => nomatch hurl),
      (fun service hreturned => nomatch hreturned)⟩
  | @named url r pc hpc hurl =>
    refine ⟨fun _ => h.current (by rw [hpc]; rfl), fun url' hurl' => ?_, fun service hreturned => ?_⟩
    · rw [hurl] at hurl'
      exact h.url url' (by rw [hpc]; exact hurl')
    · obtain rfl : pc = .returned none service := hreturned
      cases hurl

/-- A call that ended with an index error stays so. -/
theorem threw_step (hpc : s.pc = .threw none) (hstep : lookupStep s l = some s') : s'.pc = .threw none := by
  cases lookupStep_effect hstep with
  | assign => exact hpc
  | some hsize => rw [hpc] at hsize; cases hsize
  | empty hsize _ => rw [hpc] at hsize; cases hsize
  | element hget _ => rw [hpc] at hget; cases hget
  | outOfBounds hget _ => rfl
  | named hnaming _ => rw [hpc] at hnaming; cases hnaming

/-- The step that reads the element is the one that can end the call with an index error. -/
theorem threw_iff (hpc : s.pc ≠ .threw none) (hstep : lookupStep s l = some s') :
    s'.pc ≠ .threw none ↔ InRange s l := by
  cases lookupStep_effect hstep with
  | assign => exact iff_of_true hpc fun index hl => nomatch hl
  | some _ => exact iff_of_true (fun hthrew => nomatch hthrew) fun index hl => nomatch hl
  | empty _ _ => exact iff_of_true (fun hthrew => nomatch hthrew) fun index hl => nomatch hl
  | @element n index url _ helement =>
    refine iff_of_true (fun hthrew => nomatch hthrew) fun index' hl => ?_
    cases hl
    exact (List.getElem?_eq_some_iff.1 helement).1
  | @outOfBounds n index _ hlength =>
    exact iff_of_false (fun hne => hne rfl) fun hrange => absurd (hrange index rfl) (Nat.not_lt.2 hlength)
  | @named url r pc _ hurl =>
    refine iff_of_true (fun hthrew => ?_) fun index hl => nomatch hl
    obtain rfl : pc = .threw none := hthrew
    cases hurl

/-- A run ends without an index error if and only if every read of an element is in range. -/
theorem noError_iff (hpc : s.pc ≠ .threw none) (hrun : exec lookupStep s ls = some s') :
    s'.pc ≠ .threw none ↔ Along lookupStep InRange s ls := by
  induction ls generalizing s with
  | nil => cases hrun; exact iff_of_true hpc trivial
  | cons l ls ih =>
    obtain ⟨m, hm, hlater⟩ := exec_cons_inv hrun
    have hl := threw_iff hpc hm
    rw [along_cons]
    by_cases hthrew : m.pc = .threw none
    · -- the error is made in this step, and it stays
      have hend : s'.pc = .threw none := inv_of_exec (fun _ _ _ => threw_step) hthrew hlater
      exact iff_of_false (fun hne => hne hend) fun hok => hl.2 hok.1 hthrew
    · rw [ih hthrew hlater]
      constructor
      · intro halong
        refine ⟨hl.1 hthrew, fun m' hm' => ?_⟩
        rw [hm] at hm'
        obtain rfl := Option.some.inj hm'
        exact halong
      · exact fun hok => hok.2 m hm

/-- **`lookup` while the list of urls is replaced**, after any sequence of replacements and of
its own steps. It uses a url that was in the list during the call, and finds none only if the
list was empty during the call; and it raises no index error, if and only if at the read of the
element the list reaches as far as the index. -/
theorem lookup_tolerates {urls : List String} (hrun : exec lookupStep (.start urls) ls = some s') :
    Tolerant s' ↔ Along lookupStep InRange (.start urls) ls := by
  have hstart : LookupInv (.start urls) :=
    ⟨fun _ => List.mem_singleton_self urls, (fun url hurl => nomatch hurl),
      (fun service hreturned => nomatch hreturned)⟩
  have hinv : LookupInv s' := inv_of_exec (fun _ _ _ h hstep => h.step hstep) hstart hrun
  have hpc : (LookupState.start urls).pc ≠ .threw none := LookupPc.noConfusion
  rw [← noError_iff hpc hrun]
  exact ⟨fun h => h.noError, fun h => ⟨h, hinv.url, hinv.nothing⟩⟩

/-- A longer list between the two reads does no harm. -/
theorem lookup_tolerates_longer : ∃ s, exec lookupStep (.start ["a", "b"])
      [.call .size, .assign ["c", "d", "e"], .call (.get 1), .call (.naming .service)] = some s ∧
    s.pc = .returned (some "d") true ∧ Tolerant s := by
  have hrun : exec lookupStep (.start ["a", "b"])
      [.call .size, .assign ["c", "d", "e"], .call (.get 1), .call (.naming .service)] =
      some ⟨["c", "d", "e"], .returned (some "d") true, [["a", "b"], ["c", "d", "e"]]⟩ := by decide
  refine ⟨_, hrun, rfl, (lookup_tolerates hrun).2 ?_⟩
  simp [Along, InRange, lookupStep, LookupState.start, LookupPc.step]

/-- A shorter one does: the provider of the second url goes between the two reads. -/
theorem lookup_index_error : ∃ s, exec lookupStep (.start ["a", "b"])
    [.call .size, .assign ["a"], .call (.get 1)] = some s ∧ s.pc = .threw none ∧ ¬ Tolerant s :=
  ⟨⟨["a"], .threw none, [["a", "b"], ["a"]]⟩, by decide, rfl, fun h => h.noError rfl⟩

section Registry

variable {π κ : Type} [DecidableEq π] [DecidableEq κ] {w w' : RmiWorld π κ} {c : κ}

/-- What a step of the registry does to the urls of a consumer. -/
theorem rmiStep_urls {l : RmiLabel π κ} (h : rmiStep w l = some w') :
    (w'.consumer c).urls = (w.consumer c).urls ∨ ∃ th, l = .watch c th .assign := by
  have hother : ∀ {c' : κ} {st : RmiConsumer}, st.urls = (w.consumer c').urls →
      (Function.update w.consumer c' st c).urls = (w.consumer c).urls := by
    intro c' st hst
    by_cases hc : c = c'
    · subst hc
      rw [Function.update_self, hst]
    · rw [Function.update_of_ne hc]
  cases rmiStep_effect h with
  | resister _ => exact .inl rfl
  | registry _ => exact .inl rfl
  | bound _ => exact .inl rfl
  | caught _ => exact .inl rfl
  | thrown => exact .inl rfl
  | register _ _ _ _ => exact .inl rfl
  | expire => exact .inl rfl
  | start _ => exact .inl (hother rfl)
  | deliver _ _ => exact .inl (hother rfl)
  | listed _ _ _ => exact .inl (hother rfl)
  | noRoot _ _ => exact .inl (hother rfl)
  | data _ _ => exact .inl (hother rfl)
  | noNode _ _ => exact .inl (hother rfl)
  | failed => exact .inl (hother rfl)
  | @assign c' th _ _ _ =>
    by_cases hc : c = c'
    · subst hc
      exact .inr ⟨th, rfl⟩
    · exact .inl (congrArg RmiConsumer.urls (Function.update_of_ne hc ..))

/-- A step of the registry is a replacement of the list, or none of the call's concern. -/
theorem registry_step {p p' : RmiWorld π κ × LookupPc} {l : RmiLabel π κ ⊕ LookupCall}
    (hurls : s.urls = (p.1.consumer c).urls) (hpc : s.pc = p.2) (hstep : registryLookupStep c p l = some p') :
    ∃ ls s', exec lookupStep s ls = some s' ∧ s'.urls = (p'.1.consumer c).urls ∧ s'.pc = p'.2 := by
  cases l with
  | inl l =>
    obtain ⟨w', hw, rfl⟩ := Option.map_eq_some_iff.1 hstep
    rcases rmiStep_urls (c := c) hw with hsame | ⟨th, rfl⟩
    · exact ⟨[], s, rfl, hurls.trans hsame.symm, hpc⟩
    · exact ⟨[.assign (w'.consumer c).urls], _, rfl, rfl, hpc⟩
  | inr l =>
    obtain ⟨pc, hpc', rfl⟩ := Option.map_eq_some_iff.1 hstep
    refine ⟨[.call l], { s with pc := pc }, ?_, hurls, rfl⟩
    simp only [exec_cons, exec_nil, lookupStep, hpc, hurls, hpc', Option.map_some, Option.bind_some]

/-- **A call of `lookup` on a consumer of the registry** is one in which `watchNode` replaces
the list. -/
theorem lookup_of_registry {p' : RmiWorld π κ × LookupPc} {ls : List (RmiLabel π κ ⊕ LookupCall)}
    (hrun : exec (registryLookupStep c) (w, .size) ls = some p') :
    ∃ ls' s', exec lookupStep (.start (w.consumer c).urls) ls' = some s' ∧ s'.urls = (p'.1.consumer c).urls ∧
      s'.pc = p'.2 := by
  let Simulated (p : RmiWorld π κ × LookupPc) : Prop :=
    ∃ ls s', exec lookupStep (.start (w.consumer c).urls) ls = some s' ∧
      s'.urls = (p.1.consumer c).urls ∧ s'.pc = p.2
  have hstart : Simulated (w, .size) := ⟨[], _, rfl, rfl, rfl⟩
  refine inv_of_exec (I := Simulated) (fun p l p' h hstep => ?_) hstart hrun
  obtain ⟨ls, s, hls, hurls, hpc⟩ := h
  obtain ⟨ls', s', hls', hurls', hpc'⟩ := registry_step hurls hpc hstep
  exact ⟨ls ++ ls', s', exec_append_some hls hls', hurls', hpc'⟩

end Registry

end StudyTech
