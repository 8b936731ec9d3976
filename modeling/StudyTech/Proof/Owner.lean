import StudyTech.Proof.Members
import StudyTech.Proof.Notice

/-!
# The owner of a new chat

`createChat` adds the mobile of the owner to the end of the list of members and looks it up once
more by itself. The create request has the first 40 of the ids only, so the owner is among them
if and only if a lookup of the list gave the owner's id before 40 others (`createChat_owner`).
-/

namespace StudyTech

open Lib

/-- The mobile of the owner: the first one of the list unless another one is given. -/
def ownerOf (first ownerMobile : Option String) : Option String := if isBlank ownerMobile then first else ownerMobile

/-- The user ids that lookups ended with, in order, where they are not null or blank. -/
def userIdsOf (ids : List (Option String)) : List String := (ids.filter (!isBlank ·)).reduceOption

/-- How the lookups of `createChat` end: the owner's, and those of the mobiles that are not blank,
the owner's last. -/
def Lookups (R : DingTalkRemote) (accessToken : String) (mobileList : List (Option String))
    (ownerMobile : Option String) (s : DingTalkState) (owner : Option String) (ids : List (Option String)) : Prop :=
  ∃ first mobiles s₀ s₁, mobileList = first :: mobiles ∧
    R.getUserId accessToken (ownerOf first ownerMobile) s = (.ok owner, s₀) ∧
    R.mapUserId accessToken ((mobileList ++ [ownerOf first ownerMobile]).filter (!isBlank ·)) s₀ = (.ok ids, s₁)

/-- Since `s₀` nothing but lookups was asked. -/
def OnlyLookups (s₀ s : DingTalkState) : Prop :=
  Later s₀ s ∧ ∀ n request, Asked s₀ s n request → ∃ accessToken mobile, request = .userByMobile accessToken mobile

section Keeps

variable {R : DingTalkRemote} {s₀ s : DingTalkState} {accessToken : String}

theorem onlyLookups_refl (s : DingTalkState) : OnlyLookups s s := by
  refine ⟨.refl s, fun n request h => ?_⟩
  obtain ⟨hn, hrequest⟩ := h
  have hlt := (List.getElem?_eq_some_iff.1 hrequest).1
  omega

theorem OnlyLookups.append (h : OnlyLookups s₀ s) (mobile : String) (cache : String → Option String) :
    OnlyLookups s₀ ⟨cache, s.requests ++ [.userByMobile accessToken mobile]⟩ := by
  refine ⟨h.1.trans (later_append s _ _), fun n request hasked => ?_⟩
  obtain ⟨hn, hrequest⟩ := hasked
  by_cases hlt : n < s.requests.length
  · rw [List.getElem?_append_left hlt] at hrequest
    exact h.2 n request ⟨hn, hrequest⟩
  · rw [List.getElem?_append_right (Nat.not_lt.1 hlt)] at hrequest
    exact ⟨_, _, List.mem_singleton.1 (List.mem_of_getElem? hrequest)⟩

theorem loadUserId_keeps (mobile : String) : Action.Keeps (OnlyLookups s₀) (R.loadUserId accessToken mobile) := by
  have hpost : Action.Keeps (OnlyLookups s₀)
      (post (.userByMobile accessToken (trim mobile)) (R.onUserByMobile · (trim mobile))) :=
    fun s h => h.append _ _
  refine hpost.bind fun dto => ?_
  cases dto with
  | none => exact Action.keeps_pure _
  | some dto =>
    simp only
    split
    · exact Action.keeps_pure _
    · split
      · exact Action.keeps_throw _
      · exact Action.keeps_pure _

theorem cacheGet_keeps {key : String} {loader : DingTalkAct (Option String)}
    (h : Action.Keeps (OnlyLookups s₀) loader) : Action.Keeps (OnlyLookups s₀) (R.cacheGet key loader) := by
  intro s hs
  have hloaded := h s hs
  unfold DingTalkRemote.cacheGet
  split
  · exact hs
  · -- what is put into the cache is no request
    split <;> rename_i hloader <;> rw [hloader] at hloaded <;> exact hloaded

theorem getUserId_keeps (mobile : Option String) : Action.Keeps (OnlyLookups s₀) (R.getUserId accessToken mobile) := by
  cases mobile with
  | none => exact Action.keeps_pure _
  | some mobile =>
    refine Action.Keeps.tryCatch ?_ fun _ => Action.keeps_pure _
    exact (cacheGet_keeps (loadUserId_keeps mobile)).bind fun _ => Action.keeps_pure _

theorem mapUserId_keeps (mobiles : List (Option String)) :
    Action.Keeps (OnlyLookups s₀) (R.mapUserId accessToken mobiles) := by
  induction mobiles with
  | nil => exact Action.keeps_pure _
  | cons mobile mobiles ih =>
    exact (getUserId_keeps mobile).bind fun _ => ih.bind fun _ => Action.keeps_pure _

end Keeps

section Create

variable {R : DingTalkRemote} {s s' : DingTalkState} {accessToken : String} {dto : ChatCreateRequestDTO} {n : ℕ}

/-- `getUserId` returns an id or `null`, whatever goes wrong. -/
theorem getUserId_ok (R : DingTalkRemote) (accessToken : String) (mobile : Option String) (s : DingTalkState) :
    ∃ id s', R.getUserId accessToken mobile s = (.ok id, s') := by
  cases mobile with
  | none => exact ⟨none, s, rfl⟩
  | some mobile =>
    rw [DingTalkRemote.getUserId]
    rcases hget : (do return some (← R.cacheGet (trim mobile) (R.loadUserId accessToken mobile)) :
      DingTalkAct (Option String)) s with ⟨r, s'⟩
    cases r with
    | ok id => exact ⟨id, s', Action.tryCatch_ok hget⟩
    | error e => exact ⟨none, s', Action.tryCatch_error hget⟩

theorem mapUserId_ok (R : DingTalkRemote) (accessToken : String) (mobiles : List (Option String))
    (s : DingTalkState) : ∃ ids s', R.mapUserId accessToken mobiles s = (.ok ids, s') := by
  induction mobiles generalizing s with
  | nil => exact ⟨[], s, rfl⟩
  | cons mobile mobiles ih =>
    obtain ⟨id, s₁, hid⟩ := getUserId_ok R accessToken mobile s
    obtain ⟨ids, s₂, hids⟩ := ih s₁
    refine ⟨id :: ids, s₂, ?_⟩
    rw [DingTalkRemote.mapUserId, Action.bind_ok hid, Action.bind_ok hids]
    rfl

theorem getUserIds_eq {mobileList ids : List (Option String)}
    (h : R.mapUserId accessToken (mobileList.filter (!isBlank ·)) s = (.ok ids, s')) :
    R.getUserIds mobileList accessToken s = (.ok (userIdsOf ids).eraseDups, s') := by
  rw [DingTalkRemote.getUserIds, Action.bind_ok h]
  rfl

/-- From the user ids on there is one create request at most, with the first ids; there is no
request only if the number of ids is refused. -/
theorem createChatWith_requests (R : DingTalkRemote) (accessToken name : String) (owner : Option String)
    (userIds : List String) (s : DingTalkState) : ∃ more,
      (R.createChatWith accessToken name owner userIds s).2.requests = s.requests ++ more ∧
      (more = [] →
        ∃ message, (R.createChatWith accessToken name owner userIds s).1 = .error (illegalArgument message)) ∧
      ∀ token dto, .createChat token dto ∈ more →
        token = accessToken ∧ dto = ⟨name, owner, userIds.take DingTalkRemote.chatSize⟩ := by
  by_cases hnil : userIds = []
  · refine ⟨[], ?_, fun _ => ⟨"有效用户ID为空", ?_⟩, fun _ _ h => nomatch h⟩
    · rw [DingTalkRemote.createChatWith, if_pos hnil, Action.throw_apply, List.append_nil]
    · rw [DingTalkRemote.createChatWith, if_pos hnil, Action.throw_apply]
  by_cases hle : userIds.length ≤ 1000
  · set requestDTO : ChatCreateRequestDTO := ⟨name, owner, window DingTalkRemote.chatSize userIds 0⟩ with hrequest
    have hone : ∀ token dto, .createChat token dto ∈ [DingTalkRequest.createChat accessToken requestDTO] →
        token = accessToken ∧ dto = ⟨name, owner, userIds.take DingTalkRemote.chatSize⟩ := by
      intro token dto h
      cases List.mem_singleton.1 h
      exact ⟨rfl, by rw [hrequest, window_zero]⟩
    rcases hanswer : R.onCreateChat s.requests.length requestDTO with e | (_ | d)
    · refine ⟨_, ?_, fun h => absurd h (List.cons_ne_nil _ _), hone⟩
      have hpost : post (.createChat accessToken requestDTO) (R.onCreateChat · requestDTO) s = (.error e, _) :=
        Prod.ext hanswer rfl
      rw [DingTalkRemote.createChatWith, if_neg hnil, if_neg (not_not.2 hle), subList_first,
        Action.bind_ok (Action.pure_apply _ _), Action.bind_error hpost]
      rfl
    · refine ⟨_, ?_, fun h => absurd h (List.cons_ne_nil _ _), hone⟩
      rw [DingTalkRemote.createChatWith, if_neg hnil, if_neg (not_not.2 hle), subList_first,
        Action.bind_ok (Action.pure_apply _ _), Action.bind_ok (post_ok hanswer)]
      rfl
    · cases hsuccess : d.isSuccess with
      | true =>
        refine ⟨_, congrArg (fun r => r.2.requests) (createChatWith_ok accessToken hnil hle hanswer hsuccess),
          fun h => absurd h (List.cons_ne_nil _ _), ?_⟩
        intro token dto h
        rcases List.mem_cons.1 h with heq | hmem
        · exact hone token dto (List.mem_singleton.2 heq)
        · -- the requests that follow are updates
          obtain ⟨i, -, hi⟩ := List.mem_map.1 hmem
          cases hi
      | false =>
        refine ⟨_, ?_, fun h => absurd h (List.cons_ne_nil _ _), hone⟩
        rw [DingTalkRemote.createChatWith, if_neg hnil, if_neg (not_not.2 hle), subList_first,
          Action.bind_ok (Action.pure_apply _ _), Action.bind_ok (post_ok hanswer)]
        simp only [hsuccess, Bool.not_false, if_true]
        rfl
  · refine ⟨[], ?_, fun _ => ⟨"群成员人数上限为1000", ?_⟩, fun _ _ h => nomatch h⟩
    · rw [DingTalkRemote.createChatWith, if_neg hnil, if_pos hle, Action.throw_apply, List.append_nil]
    · rw [DingTalkRemote.createChatWith, if_neg hnil, if_pos hle, Action.throw_apply]

/-- Past its assertions `createChat` makes its lookups first and goes on with the ids. -/
theorem createChat_run (R : DingTalkRemote) (accessToken name : String) (first ownerMobile : Option String)
    (mobiles : List (Option String)) (s : DingTalkState) : ∃ owner ids s₁,
      Lookups R accessToken (first :: mobiles) ownerMobile s owner ids ∧ OnlyLookups s s₁ ∧
      R.createChat (some accessToken) (first :: mobiles) ownerMobile (some name) s =
        R.createChatWith accessToken name owner (userIdsOf ids).eraseDups s₁ := by
  set mobileList := (first :: mobiles ++ [ownerOf first ownerMobile]).filter (!isBlank ·) with hmobiles
  obtain ⟨owner, s₀, howner⟩ := getUserId_ok R accessToken (ownerOf first ownerMobile) s
  obtain ⟨ids, s₁, hids⟩ := mapUserId_ok R accessToken mobileList s₀
  refine ⟨owner, ids, s₁, ⟨first, mobiles, s₀, s₁, rfl, howner, hids⟩, ?_, ?_⟩
  · have hkeeps : Action.Keeps (OnlyLookups s) (R.getUserId accessToken (ownerOf first ownerMobile)) :=
      getUserId_keeps _
    have hkeeps' : Action.Keeps (OnlyLookups s) (R.mapUserId accessToken mobileList) := mapUserId_keeps _
    have hfirst := hkeeps s (onlyLookups_refl s)
    rw [howner] at hfirst
    have hall := hkeeps' s₀ hfirst
    rwa [hids] at hall
  · rw [hmobiles] at hids
    rw [ownerOf] at howner hids
    rw [DingTalkRemote.createChat, Action.bind_ok howner, Action.bind_ok (getUserIds_eq hids)]

/-- The create request of `createChat` has the owner that was looked up, and the first 40 of the
ids that were. -/
theorem createChat_asked {accessToken name ownerMobile : Option String} {mobileList : List (Option String)}
    {token : String} (hasked : Asked s (R.createChat accessToken mobileList ownerMobile name s).2 n
      (.createChat token dto)) :
    ∃ owner ids, Lookups R token mobileList ownerMobile s owner ids ∧ dto.owner = owner ∧
      dto.useridlist = (userIdsOf ids).eraseDups.take DingTalkRemote.chatSize := by
  have hnot : ∀ {s₁}, OnlyLookups s s₁ → ¬ Asked s s₁ n (.createChat token dto) := by
    intro s₁ h hasked
    obtain ⟨_, _, hrequest⟩ := h.2 n _ hasked
    cases hrequest
  match accessToken, name, mobileList with
  | _, none, _ => exact absurd hasked (hnot (onlyLookups_refl s))
  | _, some _, [] => exact absurd hasked (hnot (onlyLookups_refl s))
  | none, some _, _ :: _ => exact absurd hasked (hnot (onlyLookups_refl s))
  | some accessToken, some name, first :: mobiles =>
    obtain ⟨owner, ids, s₁, hlookups, honly, hrun⟩ := createChat_run R accessToken name first ownerMobile mobiles s
    obtain ⟨more, hmore, -, hcreate⟩ :=
      createChatWith_requests R accessToken name owner (userIdsOf ids).eraseDups s₁
    rw [hrun] at hasked
    obtain ⟨hn, hrequest⟩ := hasked
    rw [hmore] at hrequest
    have hmem : .createChat token dto ∈ more := by
      by_cases hlt : n < s₁.requests.length
      · rw [List.getElem?_append_left hlt] at hrequest
        exact absurd ⟨hn, hrequest⟩ (hnot honly)
      · rw [List.getElem?_append_right (Nat.not_lt.1 hlt)] at hrequest
        exact List.mem_of_getElem? hrequest
    obtain ⟨rfl, rfl⟩ := hcreate token dto hmem
    exact ⟨owner, ids, hlookups, rfl, rfl⟩

/-- **The owner of a new chat.** In a create request the owner is not null and among the members,
if and only if the owner's lookup gave an id and a lookup of the list gave the same id before 40
others. -/
theorem createChat_owner {accessToken name ownerMobile : Option String} {mobileList : List (Option String)}
    {token : String} (hasked : Asked s (R.createChat accessToken mobileList ownerMobile name s).2 n
      (.createChat token dto)) :
    ∃ owner ids, Lookups R token mobileList ownerMobile s owner ids ∧
      ((∃ u, dto.owner = some u ∧ u ∈ dto.useridlist) ↔
        ∃ u before after, owner = some u ∧ userIdsOf ids = before ++ u :: after ∧
          before.eraseDups.length < DingTalkRemote.chatSize) := by
  obtain ⟨owner, ids, hlookups, howner, hlist⟩ := createChat_asked hasked
  refine ⟨owner, ids, hlookups, ?_⟩
  rw [howner, hlist]
  simp only [mem_take_eraseDups]
  constructor
  · rintro ⟨u, hu, before, after, hsplit, hlt⟩
    exact ⟨u, before, after, hu, hsplit, hlt⟩
  · rintro ⟨u, before, after, hu, hsplit, hlt⟩
    exact ⟨u, hu, before, after, hsplit, hlt⟩

end Create

/-- The request for the chat of 41 people, with the owner and the first 40 of them. -/
def requestOf41 (owner : String) : ChatCreateRequestDTO := ⟨"team", some owner, (people.take 40).reduceOption⟩

/-- The chat of 41 people, of whom the mobile is the owner's. -/
def ownedChat (ownerMobile : Option String) : DingTalkState :=
  (answersOk.createChat (some "token") people ownerMobile (some "team") ⟨some, []⟩).2

/-- The owner is the first of the 41, whose id is looked up before all others. -/
theorem createChat_owner_first : ∃ owner ids, Lookups answersOk "token" people none ⟨some, []⟩ owner ids ∧
    ∃ u before after, owner = some u ∧ userIdsOf ids = before ++ u :: after ∧
      before.eraseDups.length < DingTalkRemote.chatSize := by
  have hasked : Asked ⟨some, []⟩ (ownedChat none) 0 (.createChat "token" (requestOf41 "A")) :=
    ⟨Nat.le_refl _, by decide +kernel⟩
  obtain ⟨owner, ids, hlookups, hiff⟩ := createChat_owner hasked
  exact ⟨owner, ids, hlookups, hiff.1 ⟨"A", rfl, by decide +kernel⟩⟩

/-- **The owner comes behind 40 others, and is not among the members.** -/
theorem createChat_owner_cut :
    Asked ⟨some, []⟩ (ownedChat (some "owner")) 0 (.createChat "token" (requestOf41 "owner")) ∧
      ¬ ∃ u, (requestOf41 "owner").owner = some u ∧ u ∈ (requestOf41 "owner").useridlist := by
  refine ⟨⟨Nat.le_refl _, by decide +kernel⟩, ?_⟩
  rintro ⟨u, hu, hmem⟩
  obtain rfl : "owner" = u := Option.some.inj hu
  exact absurd hmem (by decide +kernel)

end StudyTech
