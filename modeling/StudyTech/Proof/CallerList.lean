import StudyTech.Proof.Owner
import StudyTech.Spec.CallerList

/-!
# What the calls do to the caller's list

`createChat` past its assertions is the one call that touches a list: it adds the owner, if the
list can be modified, and fails if it cannot. All other lists and all other calls leave everything
as it was (`lists_of_call`), so the elements after any number of calls are those before, with the
owners behind them (`elements_of_calls`). What a call asks and how it ends depends on the elements
of its list alone, unless the call adds to it (`call_frame`).
-/

namespace StudyTech

open Lib

/-- What the call adds to a list that can be modified. -/
def CallerOp.added (accessToken : Option String) (elements : List (Option String)) :
    CallerOp → List (Option String)
  | .createChat ownerMobile (some _) =>
    match accessToken, elements with
    | some _, first :: _ => [ownerOf first ownerMobile]
    | _, _ => []
  | _ => []

/-- The call is a `createChat` that gets past its assertions. -/
def CallerOp.Adds (accessToken : Option String) (elements : List (Option String)) (op : CallerOp) : Prop :=
  (∃ ownerMobile name, op = .createChat ownerMobile (some name)) ∧ accessToken ≠ none ∧ elements ≠ []

/-- The call as a function of the elements of its list. -/
def CallerOp.onElements (R : DingTalkRemote) (accessToken : Option String) (elements : List (Option String)) :
    (op : CallerOp) → DingTalkAct op.Result
  | .sendNotice agentId message => R.sendNotice accessToken agentId elements message
  | .createChat ownerMobile name => R.createChat accessToken elements ownerMobile name
  | .addCharUser chatId => R.addCharUser accessToken chatId elements

/-- The list after the call: with what the call adds, if it can be modified. -/
def MobileList.after (l : MobileList) (accessToken : Option String) (op : CallerOp) : MobileList :=
  if l.modifiable then ⟨l.elements ++ op.added accessToken l.elements, l.modifiable⟩ else l

variable {R : DingTalkRemote} {accessToken : Option String} {list : ListRef} {op : CallerOp} {s : CallerState}

theorem onDingTalk_bind {α β : Type} (x : DingTalkAct α) (f : α → DingTalkAct β) :
    onDingTalk (x >>= f) = onDingTalk x >>= fun a => onDingTalk (f a) := by
  unfold onDingTalk
  refine Action.onPart_bind ?_ ?_ x f
  · intro t a
    rfl
  · intro t a b
    rfl

theorem onDingTalk_apply {α : Type} (x : DingTalkAct α) (s : CallerState) :
    onDingTalk x s = ((x s.dingTalk).1, { s with dingTalk := (x s.dingTalk).2 }) := rfl

theorem elementsOf_eq {elements : List (Option String)} (h : (s.lists list).elements = elements) :
    elementsOf list s = (.ok elements, s) := by
  unfold elementsOf
  rw [h]

/-- A call that adds nothing adds the empty list. -/
theorem added_eq_nil {elements : List (Option String)} :
    op.added accessToken elements = [] ↔ ¬ op.Adds accessToken elements := by
  unfold CallerOp.added CallerOp.Adds
  split
  · cases accessToken <;> cases elements <;> simp
  · rename_i hop
    refine iff_of_true rfl ?_
    rintro ⟨⟨ownerMobile, name, rfl⟩, -⟩
    exact hop ownerMobile name rfl

/-- The first element of a list decides what is added, and it stays. -/
theorem added_append {elements : List (Option String)} (more : List (Option String)) (h : elements ≠ []) :
    op.added accessToken (elements ++ more) = op.added accessToken elements := by
  obtain ⟨first, mobiles, rfl⟩ := List.exists_cons_of_ne_nil h
  cases op with
  | createChat ownerMobile name => cases name <;> cases accessToken <;> rfl
  | sendNotice agentId message => rfl
  | addCharUser chatId => rfl

/-- A list that cannot be modified, or that the call adds nothing to, stays as it is. -/
theorem after_eq_self {l : MobileList} (h : ¬ op.Adds accessToken l.elements ∨ l.modifiable = false) :
    l.after accessToken op = l := by
  unfold MobileList.after
  rcases h with hadds | hlist
  · rw [added_eq_nil.2 hadds, List.append_nil, ite_self]
  · rw [hlist, if_neg Bool.false_ne_true]

/-- A call that is no `createChat` past its assertions reads its list. -/
theorem call_of_not_adds (h : ¬ op.Adds accessToken (s.lists list).elements) :
    R.call accessToken list op s = onDingTalk (op.onElements R accessToken (s.lists list).elements) s := by
  cases op with
  | sendNotice agentId message => rfl
  | addCharUser chatId => rfl
  | createChat ownerMobile name =>
    cases name with
    | none => rfl
    | some name =>
      cases hlist : (s.lists list).elements with
      | nil => exact Action.bind_ok (elementsOf_eq hlist)
      | cons first mobiles =>
        cases accessToken with
        | none => exact Action.bind_ok (elementsOf_eq hlist)
        | some accessToken =>
          refine absurd ⟨⟨ownerMobile, name, rfl⟩, Option.some_ne_none _, ?_⟩ h
          rw [hlist]
          exact List.cons_ne_nil _ _

/-- `createChat` on a list that cannot be modified ends before its first request. -/
theorem call_unmodifiable (h : op.Adds accessToken (s.lists list).elements)
    (hlist : (s.lists list).modifiable = false) :
    R.call accessToken list op s = (.error unsupportedOperation, s) := by
  obtain ⟨⟨ownerMobile, name, rfl⟩, htoken, hne⟩ := h
  obtain ⟨token, rfl⟩ := Option.ne_none_iff_exists'.1 htoken
  obtain ⟨first, mobiles, helements⟩ := List.exists_cons_of_ne_nil hne
  have hread : elementsOf list s = (.ok (first :: mobiles), s) := elementsOf_eq helements
  have hadd : addElement list (ownerOf first ownerMobile) s = (.error unsupportedOperation, s) := by
    unfold addElement
    rw [hlist, if_neg Bool.false_ne_true]
  rw [DingTalkRemote.call, DingTalkRemote.createChatOn, Action.bind_ok hread]
  exact Action.bind_error hadd

/-- `createChat` on a list that can be modified: the owner is added, and the rest goes on with the
elements that the list had. -/
theorem call_modifiable (h : op.Adds accessToken (s.lists list).elements)
    (hlist : (s.lists list).modifiable = true) :
    R.call accessToken list op s = onDingTalk (op.onElements R accessToken (s.lists list).elements)
      { s with lists := Function.update s.lists list ((s.lists list).after accessToken op) } := by
  obtain ⟨⟨ownerMobile, name, rfl⟩, htoken, hne⟩ := h
  obtain ⟨token, rfl⟩ := Option.ne_none_iff_exists'.1 htoken
  obtain ⟨first, mobiles, helements⟩ := List.exists_cons_of_ne_nil hne
  set owner := ownerOf first ownerMobile with howner
  set s₁ : CallerState := { s with lists := Function.update s.lists list ⟨first :: mobiles ++ [owner], true⟩ }
  have hread : elementsOf list s = (.ok (first :: mobiles), s) := elementsOf_eq helements
  have hadd : addElement list owner s = (.ok (), s₁) := by
    unfold addElement
    rw [hlist, if_pos rfl, helements]
  have hafter : (s.lists list).after (some token) (.createChat ownerMobile (some name)) =
      ⟨first :: mobiles ++ [owner], true⟩ := by
    unfold MobileList.after
    rw [hlist, if_pos rfl, helements]
    rfl
  rw [hafter, helements, DingTalkRemote.call, DingTalkRemote.createChatOn, Action.bind_ok hread]
  refine (Action.bind_ok hadd).trans ?_
  show _ = onDingTalk (R.createChat (some token) (first :: mobiles) ownerMobile (some name)) s₁
  obtain ⟨owner', dingTalk, hlookup⟩ := getUserId_ok R token owner s.dingTalk
  have hlookup' : onDingTalk (R.getUserId token owner) s₁ = (.ok owner', { s₁ with dingTalk := dingTalk }) := by
    rw [onDingTalk_apply, hlookup]
  have hagain : elementsOf list { s₁ with dingTalk := dingTalk } =
      (.ok (first :: mobiles ++ [owner]), { s₁ with dingTalk := dingTalk }) := by
    unfold elementsOf
    simp only [s₁, Function.update_self]
  rw [DingTalkRemote.createChat, onDingTalk_bind]
  refine (Action.bind_ok hlookup').trans ((Action.bind_ok hagain).trans ?_)
  refine Eq.trans ?_ (Action.bind_ok hlookup').symm
  rw [← onDingTalk_bind]
  rfl

/-- **A call changes its own list only, and only by what it adds.** -/
theorem lists_of_call (R : DingTalkRemote) (accessToken : Option String) (list : ListRef) (op : CallerOp)
    (s : CallerState) :
    (R.call accessToken list op s).2.lists = Function.update s.lists list ((s.lists list).after accessToken op) := by
  by_cases hadds : op.Adds accessToken (s.lists list).elements
  · by_cases hlist : (s.lists list).modifiable = true
    · rw [call_modifiable hadds hlist]
      rfl
    · rw [Bool.not_eq_true] at hlist
      rw [call_unmodifiable hadds hlist, after_eq_self (.inr hlist), Function.update_eq_self]
  · rw [call_of_not_adds hadds, after_eq_self (.inl hadds), Function.update_eq_self]
    rfl

/-- What a call adds is the same before and after another call on the list. -/
theorem added_after (l : MobileList) (accessToken' : Option String) (op' : CallerOp) :
    op.added accessToken (l.after accessToken' op').elements = op.added accessToken l.elements := by
  unfold MobileList.after
  split
  · by_cases hnil : l.elements = []
    · have hadded : op'.added accessToken' l.elements = [] := added_eq_nil.2 fun h => h.2.2 hnil
      simp only [hadded, List.append_nil]
    · exact added_append _ hnil
  · rfl

/-- What the calls add to one of the lists. -/
def ownersOf (l : MobileList) (list : ListRef) (cs : List CallerCall) : List (Option String) :=
  if l.modifiable then (cs.filter (·.list = list)).flatMap fun c => c.op.added c.accessToken l.elements else []

/-- **The elements after a sequence of calls**: those before, with an owner for every `createChat`
on the list that got past its assertions. -/
theorem elements_of_calls (R : DingTalkRemote) (list : ListRef) (s : CallerState) (cs : List CallerCall) :
    ((R.calls s cs).lists list).elements = (s.lists list).elements ++ ownersOf (s.lists list) list cs := by
  induction cs generalizing s with
  | nil => simp [DingTalkRemote.calls, ownersOf]
  | cons c cs ih =>
    set s' := (R.call c.accessToken c.list c.op s).2 with hs'
    have hcalls : R.calls s (c :: cs) = R.calls s' cs := rfl
    have hlists : s'.lists = Function.update s.lists c.list ((s.lists c.list).after c.accessToken c.op) :=
      lists_of_call R c.accessToken c.list c.op s
    rw [hcalls, ih s', hlists]
    by_cases hc : c.list = list
    · subst hc
      rw [Function.update_self]
      unfold ownersOf
      simp only [added_after]
      unfold MobileList.after
      cases hmodifiable : (s.lists c.list).modifiable with
      | true => simp
      | false => simp [hmodifiable]
    · have hne : list ≠ c.list := fun h => hc h.symm
      rw [Function.update_of_ne hne]
      unfold ownersOf
      simp [hc]

/-- The list keeps its elements unless a call adds to it. -/
theorem elements_kept_iff (R : DingTalkRemote) (accessToken : Option String) (list : ListRef) (op : CallerOp)
    (s : CallerState) :
    ((R.call accessToken list op s).2.lists list).elements = (s.lists list).elements ↔
      ¬ op.Adds accessToken (s.lists list).elements ∨ (s.lists list).modifiable = false := by
  rw [lists_of_call, Function.update_self]
  unfold MobileList.after
  cases hmodifiable : (s.lists list).modifiable with
  | true => simp [← added_eq_nil]
  | false => simp

/-- Past its assertions `createChat` makes a request, or it refuses the number of user ids. -/
theorem onElements_asks {elements : List (Option String)} (R : DingTalkRemote) (h : op.Adds accessToken elements)
    (d : DingTalkState) :
    (∃ message, (op.onElements R accessToken elements d).1 = .error (illegalArgument message)) ∨
      d.requests.length < (op.onElements R accessToken elements d).2.requests.length := by
  obtain ⟨⟨ownerMobile, name, rfl⟩, htoken, hne⟩ := h
  obtain ⟨token, rfl⟩ := Option.ne_none_iff_exists'.1 htoken
  obtain ⟨first, mobiles, rfl⟩ := List.exists_cons_of_ne_nil hne
  obtain ⟨owner, ids, s₁, -, honly, hrun⟩ := createChat_run R token name first ownerMobile mobiles d
  obtain ⟨more, hmore, hrefused, -⟩ := createChatWith_requests R token name owner (userIdsOf ids).eraseDups s₁
  unfold CallerOp.onElements
  simp only [hrun, hmore]
  by_cases hnil : more = []
  · exact .inl (hrefused hnil)
  · have hle : d.requests.length ≤ s₁.requests.length := honly.1.length_le
    have hpos : 0 < more.length := List.length_pos_iff.2 hnil
    rw [List.length_append]
    omega

/-- Two calls make the same requests and end the same way. -/
def SameOutcome {op : CallerOp} (r r' : Except JavaException op.Result × CallerState) : Prop :=
  r.1 = r'.1 ∧ r.2.dingTalk.requests = r'.2.dingTalk.requests

/-- A list that can be modified and one that cannot tell the calls apart that add to them. -/
theorem not_sameOutcome {t : CallerState} {a b : ListRef} (hdingTalk : s.dingTalk = t.dingTalk)
    (helements : (s.lists a).elements = (t.lists b).elements) (hadds : op.Adds accessToken (s.lists a).elements)
    (ha : (s.lists a).modifiable = true) (hb : (t.lists b).modifiable = false) :
    ¬ SameOutcome (R.call accessToken a op s) (R.call accessToken b op t) := by
  rintro ⟨hend, hrequests⟩
  have hadds' : op.Adds accessToken (t.lists b).elements := helements ▸ hadds
  rw [call_modifiable hadds ha, call_unmodifiable hadds' hb, onDingTalk_apply] at hend hrequests
  rcases onElements_asks R hadds s.dingTalk with ⟨message, hrefused⟩ | hlt
  · have hmessage := hrefused.symm.trans hend
    injection hmessage with hmessage
    injection hmessage with hclass
    exact absurd hclass (by decide)
  · have heq : (op.onElements R accessToken (s.lists a).elements s.dingTalk).2.requests = t.dingTalk.requests :=
      hrequests
    rw [heq, hdingTalk] at hlt
    exact absurd hlt (Nat.lt_irrefl _)

/-- Lists that can both be modified, or both not, do not tell the calls apart. -/
theorem sameOutcome_of_eq {t : CallerState} {a b : ListRef} (hdingTalk : s.dingTalk = t.dingTalk)
    (helements : (s.lists a).elements = (t.lists b).elements)
    (h : ¬ op.Adds accessToken (s.lists a).elements ∨ (s.lists a).modifiable = (t.lists b).modifiable) :
    SameOutcome (R.call accessToken a op s) (R.call accessToken b op t) := by
  by_cases hadds : op.Adds accessToken (s.lists a).elements
  · have hadds' : op.Adds accessToken (t.lists b).elements := helements ▸ hadds
    have hsame := h.resolve_left (not_not.2 hadds)
    cases hb : (t.lists b).modifiable with
    | true =>
      rw [call_modifiable hadds (hsame.trans hb), call_modifiable hadds' hb, onDingTalk_apply, onDingTalk_apply,
        helements]
      simp only [hdingTalk]
      exact ⟨rfl, rfl⟩
    | false =>
      rw [call_unmodifiable hadds (hsame.trans hb), call_unmodifiable hadds' hb]
      exact ⟨rfl, congrArg _ hdingTalk⟩
  · have hadds' : ¬ op.Adds accessToken (t.lists b).elements := helements ▸ hadds
    rw [call_of_not_adds hadds, call_of_not_adds hadds', onDingTalk_apply, onDingTalk_apply, helements, hdingTalk]
    exact ⟨rfl, rfl⟩

/-- **The caller's list and the outcome of a call.** A call leaves every other list alone, and the
elements of its own list unless it adds to them. Two calls on lists of equal elements make the same
requests and end the same way, unless they add to the lists and just one of these can be modified. -/
theorem call_frame (R : DingTalkRemote) (accessToken : Option String) (op : CallerOp) :
    (∀ s list, (∀ other ≠ list, (R.call accessToken list op s).2.lists other = s.lists other) ∧
      (((R.call accessToken list op s).2.lists list).elements = (s.lists list).elements ↔
        ¬ op.Adds accessToken (s.lists list).elements ∨ (s.lists list).modifiable = false)) ∧
    ∀ s t a b, s.dingTalk = t.dingTalk → (s.lists a).elements = (t.lists b).elements →
      (SameOutcome (R.call accessToken a op s) (R.call accessToken b op t) ↔
        ¬ op.Adds accessToken (s.lists a).elements ∨ (s.lists a).modifiable = (t.lists b).modifiable) := by
  refine ⟨fun s list => ⟨fun other hother => ?_, elements_kept_iff R accessToken list op s⟩, ?_⟩
  · rw [lists_of_call, Function.update_of_ne hother]
  intro s t a b hdingTalk helements
  refine ⟨fun hsame => ?_, sameOutcome_of_eq hdingTalk helements⟩
  by_contra hnot
  push Not at hnot
  obtain ⟨hadds, hne⟩ := hnot
  cases ha : (s.lists a).modifiable with
  | true =>
    have hb : (t.lists b).modifiable = false := by simpa [ha] using hne
    exact not_sameOutcome hdingTalk helements hadds ha hb hsame
  | false =>
    have hb : (t.lists b).modifiable = true := by simpa [ha] using hne
    have hadds' : op.Adds accessToken (t.lists b).elements := helements ▸ hadds
    exact not_sameOutcome hdingTalk.symm helements.symm hadds' hb ha ⟨hsame.1.symm, hsame.2.symm⟩

/-- Two lists of the same mobile; the first one can be modified. -/
def twoLists (modifiable : Bool) : CallerState where
  dingTalk := ⟨fun _ => none, []⟩
  lists := fun list => ⟨[some "138"], list = 0 || modifiable⟩

/-- The chat of the people on a list. -/
def chatOf (list : ListRef) (s : CallerState) : Except JavaException (Option String) × CallerState :=
  answersOk.call (some "token") list (.createChat none (some "team")) s

theorem call_frame_twoLists :
    @SameOutcome (.createChat none (some "team")) (chatOf 0 (twoLists true)) (chatOf 1 (twoLists true)) := by
  obtain ⟨-, hsame⟩ := call_frame answersOk (some "token") (.createChat none (some "team"))
  exact (hsame (twoLists true) (twoLists true) 0 1 rfl rfl).2 (.inr rfl)

/-- **`createChat` adds the owner to the list of the caller, or it fails on the list.** -/
theorem createChat_changes_list :
    (((chatOf 0 (twoLists false)).2.lists 0).elements = [some "138", some "138"] ∧
      (chatOf 0 (twoLists false)).1.toOption = some (some "chat")) ∧
    ((twoLists false).lists 0).elements = ((twoLists false).lists 1).elements ∧
    (chatOf 1 (twoLists false)).1 = .error unsupportedOperation := by
  refine ⟨⟨rfl, ?_⟩, rfl, rfl⟩
  decide +kernel

end StudyTech
