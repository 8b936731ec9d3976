import Mathlib.Data.Finset.Dedup
import Mathlib.Data.Finset.Card
import Mathlib.Data.List.Infix
import StudyTech.Lib.Distinct
import StudyTech.Proof.RefreshUser
import StudyTech.Spec.Paging

/-!
# Which pages `refreshUser` asks for

A task asks for the page at 0, and then at the cursor that each answer gives it to follow
(`nextRequest`). Nothing else bounds the requests: a page is asked for twice if and only if the
server gives a cursor for the second time, or 0 (`paging_requests`).
-/

namespace StudyTech

open Lib

/-- The cursor that the handler of an answer asks for next: it has to come through the users. -/
def DepartUserResponseDTO.nextRequest (dto : DepartUserResponseDTO) : Option (Option ℤ) :=
  if dto.isSuccess = true ∧ ∀ user ∈ dto.users, (mobileAndId user).isSome = true then dto.next else none

/-- The cursors that are asked for after the answers. -/
def follow : List DepartUserResponseDTO → List (Option ℤ)
  | [] => []
  | dto :: answers =>
    match dto.nextRequest with
    | some cursor => cursor :: follow answers
    | none => []

section Follow

variable {dto : DepartUserResponseDTO} {answers : List DepartUserResponseDTO} {cursor : Option ℤ}

/-- Answers that were followed are followed by what comes after them. -/
theorem follow_append (h : ∀ dto ∈ answers, dto.nextRequest.isSome = true) (more : List DepartUserResponseDTO) :
    follow (answers ++ more) = follow answers ++ follow more := by
  induction answers with
  | nil => rfl
  | cons dto answers ih =>
    have hrest := ih fun d hd => h d (List.mem_cons_of_mem _ hd)
    obtain ⟨cursor, hcursor⟩ := Option.isSome_iff_exists.1 (h dto List.mem_cons_self)
    rw [List.cons_append, follow, follow, hcursor, List.cons_append, hrest]

theorem follow_some (h : ∀ dto ∈ answers, dto.nextRequest.isSome = true) (hdto : dto.nextRequest = some cursor) :
    follow (answers ++ [dto]) = follow answers ++ [cursor] := by
  rw [follow_append h, follow, hdto]
  rfl

theorem follow_none (h : ∀ dto ∈ answers, dto.nextRequest.isSome = true) (hdto : dto.nextRequest = none) :
    follow (answers ++ [dto]) = follow answers := by
  rw [follow_append h, follow, hdto]
  exact List.append_nil _

/-- What is followed was answered. -/
theorem follow_subset (answers : List DepartUserResponseDTO) : follow answers ⊆ answers.filterMap (·.next) := by
  induction answers with
  | nil => exact List.Subset.refl _
  | cons dto answers ih =>
    intro c hc
    rw [follow] at hc
    cases hnext : dto.nextRequest with
    | none =>
      rw [hnext] at hc
      cases hc
    | some cursor =>
      rw [hnext] at hc
      have hdto : dto.next = some cursor := by
        unfold DepartUserResponseDTO.nextRequest at hnext
        split at hnext
        · exact hnext
        · cases hnext
      rw [List.filterMap_cons, hdto]
      rcases List.mem_cons.1 hc with rfl | hc
      · exact List.mem_cons_self
      · exact List.mem_cons_of_mem _ (ih hc)

end Follow

/-- How a step of `refreshUser` moves its task. -/
inductive AddUserMove (R : DepartRemote) (k : ℕ) : RefreshLabel → AddUserPc → AddUserPc → Prop
  | addUser : AddUserMove R k (.addUser k) .idle (.waiting (some 0))
  | respond {depart : String} {cursor : Option ℤ} : R.departs[k]? = some depart →
      AddUserMove R k (.respond k) (.waiting cursor) (R.onDepartUser depart cursor).handler
  | put {user : Option DepartUser} {users : List (Option DepartUser)} {next : Option (Option ℤ)} :
      (mobileAndId user).isSome = true →
      AddUserMove R k (.handle k) (.handling (user :: users) next) (.handling users next)
  | fail {user : Option DepartUser} {users : List (Option DepartUser)} {next : Option (Option ℤ)} :
      mobileAndId user = none → AddUserMove R k (.handle k) (.handling (user :: users) next) .ended
  | more {cursor : Option ℤ} : AddUserMove R k (.handle k) (.handling [] (some cursor)) (.waiting cursor)
  | last : AddUserMove R k (.handle k) (.handling [] none) .ended

theorem update_move {R : DepartRemote} {s s' : RefreshState} {k : ℕ} {l : RefreshLabel} {t : AddUserTask}
    {pc : AddUserPc} (hpc : (s.task k).pc = pc) (hl : l.task = k) (hs : s'.task = Function.update s.task k t)
    (hmove : AddUserMove R k l pc t.pc) :
    AddUserMove R l.task l (s.task l.task).pc (s'.task l.task).pc ∧ ∀ j, j ≠ l.task → s'.task j = s.task j := by
  subst hl
  rw [hs]
  refine ⟨?_, fun j hj => Function.update_of_ne hj ..⟩
  rw [Function.update_self, hpc]
  exact hmove

theorem refreshStep_move {R : DepartRemote} {s s' : RefreshState} {l : RefreshLabel} (h : refreshStep R s l = some s') :
    AddUserMove R l.task l (s.task l.task).pc (s'.task l.task).pc ∧ ∀ j, j ≠ l.task → s'.task j = s.task j := by
  cases refreshStep_effect h with
  | addUser _ hidle _ => exact update_move hidle rfl rfl .addUser
  | respond hk hpc => exact update_move hpc rfl rfl (.respond hk)
  | put hpc huser => exact update_move hpc rfl rfl (.put (by rw [huser]; rfl))
  | fail hpc huser => exact update_move hpc rfl rfl (.fail huser)
  | more hpc => exact update_move hpc rfl rfl .more
  | last hpc => exact update_move hpc rfl rfl .last

section Run

variable {onDepartList : DepartListResponseDTO} {p p' : Paging} {l : RefreshLabel × DepartUserResponseDTO}
  {ls : List (RefreshLabel × DepartUserResponseDTO)} {cache : String → Option String}

/-- What a task has asked for and was answered, by where it is. -/
def Progress : AddUserPc → List (Option ℤ) → List DepartUserResponseDTO → Prop
  | .idle, cursors, answers => cursors = [] ∧ answers = []
  | .waiting _, cursors, answers =>
    cursors = some 0 :: follow answers ∧ ∀ dto ∈ answers, dto.nextRequest.isSome = true
  | .handling users next, cursors, answers => ∃ before dto handled, answers = before ++ [dto] ∧
      (∀ d ∈ before, d.nextRequest.isSome = true) ∧ cursors = some 0 :: follow before ∧ dto.isSuccess = true ∧
      dto.users = handled ++ users ∧ (∀ user ∈ handled, (mobileAndId user).isSome = true) ∧ dto.next = next
  | .ended, cursors, answers => cursors = some 0 :: follow answers

/-- The cursor that a task waits at. -/
def AddUserPc.cursor : AddUserPc → List (Option ℤ)
  | .waiting cursor => [cursor]
  | _ => []

theorem progress_move {dto : DepartUserResponseDTO} {k : ℕ} {l : RefreshLabel} {pc pc' : AddUserPc}
    {cursors : List (Option ℤ)} {answers : ℕ → List DepartUserResponseDTO}
    (hmove : AddUserMove ⟨onDepartList, fun _ _ => dto⟩ k l pc pc') (h : Progress pc cursors (answers k)) :
    Progress pc' (cursors ++ pc'.cursor) (answersAfter answers dto l k) := by
  cases hmove with
  | addUser =>
    obtain ⟨rfl, hanswers⟩ := h
    show [some 0] = some 0 :: follow (answers k) ∧ ∀ d ∈ answers k, d.nextRequest.isSome = true
    rw [hanswers]
    exact ⟨rfl, fun d hd => nomatch hd⟩
  | @respond depart cursor hk =>
    obtain ⟨hcursors, hfollowed⟩ := h
    have hanswers : answersAfter answers dto (.respond k) k = answers k ++ [dto] := Function.update_self ..
    rw [hanswers]
    show Progress dto.handler (cursors ++ dto.handler.cursor) _
    by_cases hsuccess : dto.isSuccess = true
    · rcases handler_eq hsuccess with hhandler | ⟨hhandler, -, hnext⟩
      · rw [hhandler]
        refine ⟨answers k, dto, [], rfl, hfollowed, ?_, hsuccess, rfl, (fun _ hu => nomatch hu), rfl⟩
        rw [hcursors]
        exact List.append_nil _
      · rw [hhandler]
        have hnone : dto.nextRequest = none := by
          rw [DepartUserResponseDTO.nextRequest, hnext, ite_self]
        show cursors ++ [] = some 0 :: follow (answers k ++ [dto])
        rw [follow_none hfollowed hnone, hcursors, List.append_nil]
    · have hhandler : dto.handler = .ended := by rw [DepartUserResponseDTO.handler, if_neg hsuccess]
      have hnone : dto.nextRequest = none := if_neg fun hboth => hsuccess hboth.1
      rw [hhandler]
      show cursors ++ [] = some 0 :: follow (answers k ++ [dto])
      rw [follow_none hfollowed hnone, hcursors, List.append_nil]
  | @put user users next huser =>
    obtain ⟨before, d, handled, hanswers, hfollowed, hcursors, hsuccess, husers, hhandled, hnext⟩ := h
    refine ⟨before, d, handled ++ [user], hanswers, hfollowed, ?_, hsuccess, ?_, fun u hu => ?_, hnext⟩
    · rw [hcursors]
      exact List.append_nil _
    · rw [husers, List.append_assoc, List.singleton_append]
    · rcases List.mem_append.1 hu with hu | hu
      · exact hhandled u hu
      · rw [List.mem_singleton.1 hu]
        exact huser
  | @fail user users next huser =>
    obtain ⟨before, d, handled, hanswers, hfollowed, hcursors, hsuccess, husers, hhandled, hnext⟩ := h
    -- the handler does not come through the users of this answer
    have hnone : d.nextRequest = none := by
      refine if_neg fun hboth => ?_
      have hsome := hboth.2 user (by rw [husers]; exact List.mem_append_right _ List.mem_cons_self)
      rw [huser] at hsome
      cases hsome
    show cursors ++ [] = some 0 :: follow (answers k)
    rw [hanswers, follow_none hfollowed hnone, hcursors, List.append_nil]
  | @more cursor =>
    obtain ⟨before, d, handled, hanswers, hfollowed, hcursors, hsuccess, husers, hhandled, hnext⟩ := h
    rw [List.append_nil] at husers
    have hsome : d.nextRequest = some cursor := by
      rw [DepartUserResponseDTO.nextRequest, if_pos ⟨hsuccess, fun u hu => hhandled u (husers ▸ hu)⟩, hnext]
    show cursors ++ [cursor] = some 0 :: follow (answers k) ∧ ∀ d ∈ answers k, d.nextRequest.isSome = true
    rw [hanswers, follow_some hfollowed hsome, hcursors]
    refine ⟨rfl, fun d' hd' => ?_⟩
    rcases List.mem_append.1 hd' with hd' | hd'
    · exact hfollowed d' hd'
    · rw [List.mem_singleton.1 hd', hsome]
      rfl
  | last =>
    obtain ⟨before, d, handled, hanswers, hfollowed, hcursors, hsuccess, husers, hhandled, hnext⟩ := h
    have hnone : d.nextRequest = none := by
      rw [DepartUserResponseDTO.nextRequest, hnext, ite_self]
    show cursors ++ [] = some 0 :: follow (answers k)
    rw [hanswers, follow_none hfollowed hnone, hcursors, List.append_nil]

structure PagingInv (departs : List String) (p : Paging) : Prop where
  tasks : ∀ k depart, departs[k]? = some depart →
    Progress (p.refresh.task k).pc (fiber depart p.requests) (p.answers k)
  known : ∀ r ∈ p.requests, r.1 ∈ departs

/-- What is asked for at a step is for the department of the task. -/
theorem requestOf_eq {departs : List String} {refresh : RefreshState} {k : ℕ} {depart : String}
    (hk : departs[k]? = some depart) :
    requestOf departs refresh k = (refresh.task k).pc.cursor.map fun cursor => (depart, cursor) := by
  unfold requestOf
  rw [hk]
  cases (refresh.task k).pc <;> rfl

theorem requestOf_outside {departs : List String} {refresh : RefreshState} {k : ℕ} (hk : departs[k]? = none) :
    requestOf departs refresh k = [] := by
  unfold requestOf
  rw [hk]

theorem fiber_map_self (depart : String) (cursors : List (Option ℤ)) :
    fiber depart (cursors.map fun cursor => (depart, cursor)) = cursors := by
  unfold fiber
  rw [List.filterMap_map]
  simp

theorem fiber_map_other {depart depart' : String} (h : depart' ≠ depart) (cursors : List (Option ℤ)) :
    fiber depart (cursors.map fun cursor => (depart', cursor)) = [] := by
  unfold fiber
  rw [List.filterMap_map]
  simp [h]

theorem pagingInv_step (hdeparts : onDepartList.departs.Nodup) (h : PagingInv onDepartList.departs p)
    (hstep : pagingStep onDepartList p l = some p') : PagingInv onDepartList.departs p' := by
  obtain ⟨refresh, hrefresh, rfl⟩ := Option.map_eq_some_iff.1 hstep
  obtain ⟨hmove, hother⟩ := refreshStep_move hrefresh
  refine ⟨fun k depart hk => ?_, fun r hr => ?_⟩
  · show Progress (refresh.task k).pc (fiber depart (p.requests ++ requestOf _ refresh l.1.task)) _
    rw [fiber_append]
    by_cases hkl : k = l.1.task
    · rw [requestOf_eq (hkl ▸ hk), fiber_map_self, ← hkl]
      rw [← hkl] at hmove
      exact progress_move hmove (h.tasks k depart hk)
    · have hnone : fiber depart (requestOf onDepartList.departs refresh l.1.task) = [] := by
        cases htask : onDepartList.departs[l.1.task]? with
        | none => rw [requestOf_outside htask]; rfl
        | some depart' =>
          rw [requestOf_eq htask, fiber_map_other]
          rintro rfl
          exact hkl ((List.getElem?_inj (List.getElem?_eq_some_iff.1 hk).1 hdeparts).1 (hk.trans htask.symm))
      have hanswers : answersAfter p.answers l.2 l.1 k = p.answers k := by
        cases hl : l.1 with
        | respond j =>
          rw [hl] at hkl
          exact Function.update_of_ne hkl ..
        | addUser j => rfl
        | handle j => rfl
      rw [hnone, List.append_nil, hother k hkl]
      show Progress _ _ (answersAfter p.answers l.2 l.1 k)
      rw [hanswers]
      exact h.tasks k depart hk
  · rcases List.mem_append.1 hr with hr | hr
    · exact h.known r hr
    · cases htask : onDepartList.departs[l.1.task]? with
      | none =>
        rw [requestOf_outside htask] at hr
        cases hr
      | some depart =>
        rw [requestOf_eq htask] at hr
        obtain ⟨cursor, -, rfl⟩ := List.mem_map.1 hr
        exact List.mem_of_getElem? htask

theorem pagingInv_start (departs : List String) (cache : String → Option String) :
    PagingInv departs { refresh := .start cache } := ⟨fun _ _ _ => ⟨rfl, rfl⟩, fun _ hr => nomatch hr⟩

/-- A task asks for the first page and then for what it was answered to follow. -/
theorem Progress.isPrefix {pc : AddUserPc} {cursors : List (Option ℤ)} {answers : List DepartUserResponseDTO}
    (h : Progress pc cursors answers) : cursors <+: some 0 :: follow answers := by
  cases pc with
  | idle =>
    rw [h.1]
    exact List.nil_prefix
  | waiting cursor => exact h.1 ▸ List.prefix_refl _
  | handling users next =>
    obtain ⟨before, dto, handled, rfl, hfollowed, rfl, -⟩ := h
    rw [follow_append hfollowed, ← List.cons_append]
    exact List.prefix_append _ _
  | ended =>
    have heq : cursors = some 0 :: follow answers := h
    exact heq ▸ List.prefix_refl _

/-- No handler of the task is at work. -/
def AddUserPc.Settled : AddUserPc → Prop
  | .handling _ _ => False
  | _ => True

theorem Progress.nodup_iff {pc : AddUserPc} {cursors : List (Option ℤ)} {answers : List DepartUserResponseDTO}
    (h : Progress pc cursors answers) (hpc : pc.Settled) : cursors.Nodup ↔ (some 0 :: follow answers).Nodup := by
  cases pc with
  | idle =>
    rw [h.1, h.2]
    exact iff_of_true List.nodup_nil (List.nodup_singleton _)
  | waiting cursor => rw [h.1]
  | handling users next => exact hpc.elim
  | ended =>
    have heq : cursors = some 0 :: follow answers := h
    rw [heq]

/-- Cursors that do not repeat are at most one more than the cursors in the answers. -/
theorem length_le_of_nodup {cursors : List (Option ℤ)} {answers : List DepartUserResponseDTO}
    (hfront : cursors <+: some 0 :: follow answers) (hnodup : (some 0 :: follow answers).Nodup) :
    cursors.length ≤ (answers.filterMap (·.next)).toFinset.card + 1 := by
  have hlength : cursors.length ≤ (follow answers).length + 1 := hfront.length_le
  have hcard : (follow answers).toFinset.card = (follow answers).length :=
    List.toFinset_card_of_nodup (List.nodup_cons.1 hnodup).2
  have hsubset : (follow answers).toFinset ⊆ (answers.filterMap (·.next)).toFinset := fun c hc =>
    List.mem_toFinset.2 (follow_subset answers (List.mem_toFinset.1 hc))
  have hle := Finset.card_le_card hsubset
  omega

/-- **The pages that `refreshUser` asks for**, whatever the server answers. For each department they
are the page at 0 and those at the cursors to follow, in order. If these do not repeat for any
department, no page is asked for twice, and the requests for a department are at most one more than
the distinct cursors that it was answered. When no handler is at work they do not repeat only then. -/
theorem paging_requests (hdeparts : onDepartList.departs.Nodup)
    (hrun : exec (pagingStep onDepartList) { refresh := .start cache } ls = some p) :
    (∀ k depart, onDepartList.departs[k]? = some depart →
      fiber depart p.requests <+: some 0 :: follow (p.answers k) ∧
        ((some 0 :: follow (p.answers k)).Nodup →
          (fiber depart p.requests).length ≤ ((p.answers k).filterMap (·.next)).toFinset.card + 1)) ∧
    ((∀ k < onDepartList.departs.length, (some 0 :: follow (p.answers k)).Nodup) → p.requests.Nodup) ∧
    ((∀ k < onDepartList.departs.length, (p.refresh.task k).pc.Settled) → p.requests.Nodup →
      ∀ k < onDepartList.departs.length, (some 0 :: follow (p.answers k)).Nodup) := by
  have h : PagingInv onDepartList.departs p :=
    inv_of_exec (fun _ _ _ h hs => pagingInv_step hdeparts h hs) (pagingInv_start _ cache) hrun
  refine ⟨fun k depart hk => ?_, fun hnodup => ?_, fun hsettled hnodup k hk => ?_⟩
  · have hfront := (h.tasks k depart hk).isPrefix
    exact ⟨hfront, length_le_of_nodup hfront⟩
  · refine nodup_iff_fiber.2 fun depart => ?_
    by_cases hmem : depart ∈ onDepartList.departs
    · obtain ⟨k, hk⟩ := List.mem_iff_getElem?.1 hmem
      have hlt := (List.getElem?_eq_some_iff.1 hk).1
      exact (hnodup k hlt).sublist (h.tasks k depart hk).isPrefix.sublist
    · -- no request is for another department
      have hnil : fiber depart p.requests = [] := by
        refine List.eq_nil_iff_forall_not_mem.2 fun c hc => hmem ?_
        exact h.known _ (mem_fiber.1 hc)
      rw [hnil]
      exact List.nodup_nil
  · have hdepart := List.getElem?_eq_getElem hk
    exact ((h.tasks k _ hdepart).nodup_iff (hsettled k hk)).1 (nodup_iff_fiber.1 hnodup _)

end Run

/-- One department. -/
def oneDepartment : DepartListResponseDTO := ⟨⟨some 0, some "ok"⟩, some [⟨"1"⟩]⟩

/-- A page without users, and the cursor of the next one. -/
def emptyPage (next : Option ℤ) : DepartUserResponseDTO := ⟨⟨some 0, some "ok"⟩, some ⟨some true, next, some []⟩⟩

/-- The first page is asked for and answered, and its handler ends. -/
def firstPage (next : Option ℤ) : List (RefreshLabel × DepartUserResponseDTO) :=
  [(.addUser 0, emptyPage next), (.respond 0, emptyPage next), (.handle 0, emptyPage next)]

theorem paging_requests_next : ∃ p, exec (pagingStep oneDepartment) { refresh := .start fun _ => none }
    (firstPage (some 7)) = some p ∧ p.requests = [("1", some 0), ("1", some 7)] ∧ p.requests.Nodup := by
  obtain ⟨p, hp⟩ : ∃ p, exec (pagingStep oneDepartment) { refresh := .start fun _ => none } (firstPage (some 7)) =
      some p := ⟨_, rfl⟩
  have hdeparts : oneDepartment.departs.Nodup := by decide
  have hrequests : p.requests = [("1", some 0), ("1", some 7)] := by
    cases hp
    rfl
  have hanswers : p.answers 0 = [emptyPage (some 7)] := by
    cases hp
    rfl
  obtain ⟨-, hnodup, -⟩ := paging_requests hdeparts hp
  refine ⟨p, hp, hrequests, hnodup fun k hk => ?_⟩
  obtain rfl : k = 0 := Nat.lt_one_iff.1 hk
  rw [hanswers]
  decide

/-- **The server gives the cursor 0 again, and the first page is asked for twice.** -/
theorem paging_repeats : ∃ p, exec (pagingStep oneDepartment) { refresh := .start fun _ => none }
    (firstPage (some 0)) = some p ∧ oneDepartment.departs.Nodup ∧ ¬ p.requests.Nodup := by
  refine ⟨_, rfl, by decide, ?_⟩
  show ¬ [("1", some (0 : ℤ)), ("1", some 0)].Nodup
  decide

end StudyTech
