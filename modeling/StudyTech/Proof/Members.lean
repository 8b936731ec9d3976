import StudyTech.Lib.Distinct
import StudyTech.Proof.Recipients

/-!
# The members of a new chat

`createChat` waits for the answer to the create request only. The ids after the first 40 are in
update requests that it makes and whose answers are only logged, so at its return those ids are
members if and only if these requests happen to have been answered with errcode 0 by then
(`createChat_members`). The public `addCharUser` waits for each answer.
-/

namespace StudyTech

open Lib

variable {R : DingTalkRemote} {s s' : DingTalkState} {accessToken : String}

/-- The ids that are sent do not repeat. -/
theorem getUserIds_nodup {mobileList : List (Option String)} {userIds : List String}
    (h : R.getUserIds mobileList accessToken s = (.ok userIds, s')) : userIds.Nodup := by
  obtain ⟨ids, m, -, hpure⟩ := Action.bind_eq_ok h
  cases hpure
  exact nodup_eraseDups _

/-- The answer to the update request with the number `n` has arrived, with errcode 0. -/
def UpdateAnswered (R : DingTalkRemote) (arrived : ℕ → Prop) (dto : ChatUpdateRequestDTO) (n : ℕ) : Prop :=
  arrived n ∧ ∃ d, R.onUpdateChat n dto = .ok (some d) ∧ d.isSuccess = true

/-- The request with the number `n` is for the chat, carries the id and has been answered with
errcode 0; `createChat` waits for the answer to the create request. -/
def Accepted (R : DingTalkRemote) (arrived : ℕ → Prop) (chatId : Option String) (requests : List DingTalkRequest)
    (u : String) (n : ℕ) : Prop :=
  match requests[n]? with
  | some (.createChat _ dto) => u ∈ dto.useridlist ∧
      ∃ d, R.onCreateChat n dto = .ok (some d) ∧ d.isSuccess = true ∧ d.chatid = chatId
  | some (.updateChat _ dto) => u ∈ dto.add_useridlist ∧ dto.chatid = chatId ∧ UpdateAnswered R arrived dto n
  | _ => False

/-- What `createChat` has done from `s` on when it returns the chat id: the create request has
been answered with errcode 0 and carried the first ids, and the others are in update requests
for the chat. -/
structure Created (R : DingTalkRemote) (accessToken : String) (chatId : Option String) (userIds : List String)
    (s s' : DingTalkState) : Prop where
  create : ∃ name owner d, s'.requests[s.requests.length]? =
      some (.createChat accessToken ⟨name, owner, userIds.take DingTalkRemote.chatSize⟩) ∧
    R.onCreateChat s.requests.length ⟨name, owner, userIds.take DingTalkRemote.chatSize⟩ = .ok (some d) ∧
    d.isSuccess = true ∧ d.chatid = chatId
  update : ∀ i, i < userIds.length / DingTalkRemote.chatSize → s'.requests[s.requests.length + (i + 1)]? =
    some (.updateChat accessToken ⟨chatId, window DingTalkRemote.chatSize userIds (i + 1)⟩)
  count : s'.requests.length = s.requests.length + (userIds.length / DingTalkRemote.chatSize + 1)

theorem window_zero (userIds : List String) :
    window DingTalkRemote.chatSize userIds 0 = userIds.take DingTalkRemote.chatSize := by
  unfold window
  rw [Nat.mul_zero, List.drop_zero]

section Create

variable {name : String} {owner chatId : Option String} {userIds : List String}

/-- From the user ids on, `createChat` returns a chat id only if the create request succeeded. -/
theorem createChatWith_answered (h : R.createChatWith accessToken name owner userIds s = (.ok chatId, s')) :
    userIds ≠ [] ∧ userIds.length ≤ 1000 ∧ ∃ d,
      R.onCreateChat s.requests.length ⟨name, owner, window DingTalkRemote.chatSize userIds 0⟩ = .ok (some d) ∧
      d.isSuccess = true := by
  unfold DingTalkRemote.createChatWith at h
  split at h
  · cases h
  · rename_i hne
    split at h
    · cases h
    · rename_i hle
      refine ⟨hne, not_not.1 hle, ?_⟩
      obtain ⟨list, m, hlist, h⟩ := Action.bind_eq_ok h
      rw [subList_first] at hlist
      cases hlist
      obtain ⟨dto, m, hpost, h⟩ := Action.bind_eq_ok h
      have hanswer := congrArg Prod.fst hpost
      cases dto with
      | none => cases h
      | some d =>
        refine ⟨d, hanswer, ?_⟩
        cases hsuccess : d.isSuccess with
        | true => rfl
        | false =>
          simp only [hsuccess, Bool.not_false, if_true] at h
          cases h

theorem createChatWith_created (h : R.createChatWith accessToken name owner userIds s = (.ok chatId, s')) :
    Created R accessToken chatId userIds s s' := by
  obtain ⟨hne, hle, d, hd, hsuccess⟩ := createChatWith_answered h
  have hok := createChatWith_ok accessToken hne hle hd hsuccess
  rw [h] at hok
  obtain ⟨hchat, rfl⟩ := Prod.mk.inj hok
  obtain rfl : chatId = d.chatid := Except.ok.inj hchat
  rw [window_zero] at hd
  refine ⟨⟨name, owner, d, ?_, hd, hsuccess, rfl⟩, fun i hi => ?_, ?_⟩
  · rw [List.getElem?_append_right (Nat.le_refl _), Nat.sub_self, window_zero]
    rfl
  · rw [List.getElem?_append_right (Nat.le_add_right _ _), Nat.add_sub_cancel_left, List.getElem?_cons_succ, updates,
      List.getElem?_map, List.getElem?_range' hi, Option.map_some]
    simp [Nat.add_comm]
  · simp [updates]

/-- The ids that have been accepted are all of them, if and only if each update request with an
id has been answered with errcode 0. -/
theorem Created.accepted_iff (h : Created R accessToken chatId userIds s s') (hnodup : userIds.Nodup)
    (arrived : ℕ → Prop) :
    (∀ u ∈ userIds, ∃ n, s.requests.length ≤ n ∧ Accepted R arrived chatId s'.requests u n) ↔
      ∀ i, DingTalkRemote.chatSize * (i + 1) < userIds.length → UpdateAnswered R arrived
        ⟨chatId, window DingTalkRemote.chatSize userIds (i + 1)⟩ (s.requests.length + (i + 1)) := by
  have hsize : 0 < DingTalkRemote.chatSize := by decide
  obtain ⟨name, owner, d, hcreate, hanswer, hsuccess, hchat⟩ := h.create
  constructor
  · intro hall i hi
    -- an id of the request: it is in no other one
    obtain ⟨u, hu⟩ := List.exists_mem_of_ne_nil _ fun hnil =>
      absurd ((window_eq_nil hsize userIds (i + 1)).1 hnil) (by omega)
    obtain ⟨n, hn, haccepted⟩ := hall u (List.mem_of_mem_drop (List.mem_of_mem_take hu))
    obtain ⟨j, rfl⟩ := Nat.exists_eq_add_of_le hn
    unfold Accepted at haccepted
    cases j with
    | zero =>
      rw [Nat.add_zero, hcreate] at haccepted
      have hzero := window_inj hnodup (i := 0) (by rw [window_zero]; exact haccepted.1) hu
      omega
    | succ j =>
      by_cases hj : j < userIds.length / DingTalkRemote.chatSize
      · rw [h.update j hj] at haccepted
        obtain ⟨hmem, -, hanswered⟩ := haccepted
        rw [← window_inj hnodup hmem hu]
        exact hanswered
      · have hnone : s'.requests[s.requests.length + (j + 1)]? = none := by
          rw [List.getElem?_eq_none_iff, h.count]
          omega
        rw [hnone] at haccepted
        exact haccepted.elim
  · intro hanswered u hu
    obtain ⟨i, hi, hmem⟩ := mem_window DingTalkRemote.chatSize hsize hu
    refine ⟨s.requests.length + i, Nat.le_add_right _ _, ?_⟩
    unfold Accepted
    cases i with
    | zero =>
      rw [Nat.add_zero, hcreate]
      rw [window_zero] at hmem
      exact ⟨hmem, d, hanswer, hsuccess, hchat⟩
    | succ i =>
      have hlt : i < userIds.length / DingTalkRemote.chatSize := by
        have hi' := List.mem_range.1 hi
        omega
      have hstart : DingTalkRemote.chatSize * (i + 1) < userIds.length := by
        by_contra hle
        rw [(window_eq_nil hsize userIds (i + 1)).2 (Nat.not_lt.1 hle)] at hmem
        cases hmem
      rw [h.update i hlt]
      exact ⟨hmem, rfl, hanswered i hstart⟩

end Create

/-- The user ids that `createChat` resolves, the owner's among them, and the state in which it
has them. -/
def Resolves (R : DingTalkRemote) (accessToken : String) (mobileList : List (Option String))
    (ownerMobile : Option String) (userIds : List String) (s s' : DingTalkState) : Prop :=
  ∃ first mobiles owner s₀, mobileList = first :: mobiles ∧
    R.getUserId accessToken (if isBlank ownerMobile then first else ownerMobile) s = (.ok owner, s₀) ∧
    R.getUserIds (first :: mobiles ++ [if isBlank ownerMobile then first else ownerMobile]) accessToken s₀ =
      (.ok userIds, s')

/-- What `createChat` has done when it returns a chat id. -/
theorem createChat_created {accessToken name ownerMobile chatId : Option String} {mobileList : List (Option String)}
    (hrun : R.createChat accessToken mobileList ownerMobile name s = (.ok chatId, s')) :
    ∃ token userIds s₁, accessToken = some token ∧ Resolves R token mobileList ownerMobile userIds s s₁ ∧
      userIds.length ≤ 1000 ∧ userIds.Nodup ∧ Created R token chatId userIds s₁ s' := by
  unfold DingTalkRemote.createChat at hrun
  split at hrun
  · cases hrun
  · cases hrun
  · cases hrun
  · rename_i name first mobiles token
    obtain ⟨owner, s₀, howner, hrun⟩ := Action.bind_eq_ok hrun
    obtain ⟨userIds, s₁, hids, hrun⟩ := Action.bind_eq_ok hrun
    exact ⟨token, userIds, s₁, rfl, ⟨first, mobiles, owner, s₀, rfl, howner, hids⟩, (createChatWith_answered hrun).2.1,
      getUserIds_nodup hids, createChatWith_created hrun⟩

/-- **The members of a new chat.** When `createChat` returns a chat id, the create request has
been answered with errcode 0 and carried the first 40 of the user ids, and the others are in
update requests for the chat. These are not waited for: all ids have been accepted by then if and
only if each update request with an id happens to have been answered with errcode 0. -/
theorem createChat_members {accessToken name ownerMobile chatId : Option String} {mobileList : List (Option String)}
    (hrun : R.createChat accessToken mobileList ownerMobile name s = (.ok chatId, s')) (arrived : ℕ → Prop) :
    ∃ token userIds s₁, accessToken = some token ∧ Resolves R token mobileList ownerMobile userIds s s₁ ∧
      userIds.length ≤ 1000 ∧ Created R token chatId userIds s₁ s' ∧
      ((∀ u ∈ userIds, ∃ n, s₁.requests.length ≤ n ∧ Accepted R arrived chatId s'.requests u n) ↔
        ∀ i, DingTalkRemote.chatSize * (i + 1) < userIds.length → UpdateAnswered R arrived
          ⟨chatId, window DingTalkRemote.chatSize userIds (i + 1)⟩ (s₁.requests.length + (i + 1))) := by
  obtain ⟨token, userIds, s₁, htoken, hresolves, hle, hnodup, hcreated⟩ := createChat_created hrun
  exact ⟨token, userIds, s₁, htoken, hresolves, hle, hcreated, hcreated.accepted_iff hnodup arrived⟩

/-- The remote refuses every update of a chat. -/
def updatesRefused : DingTalkRemote :=
  { answersOk with onUpdateChat := fun _ _ => .ok (some ⟨some 33012, some "invalid userId"⟩) }

/-- 41 people, whose mobiles are their user ids. -/
def people : List (Option String) := (List.range 41).map fun i => some (String.singleton (Char.ofNat (65 + i)))

/-- A chat of these people, whose user ids are in the cache. -/
def chatOf41 (R : DingTalkRemote) : Except JavaException (Option String) × DingTalkState :=
  R.createChat (some "token") people none (some "team") ⟨some, []⟩

theorem chatOf41_ok {R : DingTalkRemote} (h : (chatOf41 R).1.toOption = some (some "chat")) :
    chatOf41 R = (.ok (some "chat"), (chatOf41 R).2) := by
  refine Prod.ext ?_ rfl
  cases hr : (chatOf41 R).1 with
  | ok chatId =>
    rw [hr] at h
    rw [Option.some.inj h]
  | error e =>
    rw [hr] at h
    cases h

/-- Where every update is answered with errcode 0 in time, everyone is a member. -/
theorem createChat_members_answered : ∃ userIds s₁, Resolves answersOk "token" people none userIds ⟨some, []⟩ s₁ ∧
    ∀ u ∈ userIds, ∃ n, s₁.requests.length ≤ n ∧
      Accepted answersOk (fun _ => True) (some "chat") (chatOf41 answersOk).2.requests u n := by
  have hok : (chatOf41 answersOk).1.toOption = some (some "chat") := by decide +kernel
  obtain ⟨token, userIds, s₁, htoken, hresolves, -, -, haccepted⟩ :=
    createChat_members (chatOf41_ok hok) fun _ => True
  obtain rfl : "token" = token := Option.some.inj htoken
  exact ⟨userIds, s₁, hresolves, haccepted.2 fun i _ => ⟨trivial, _, rfl, rfl⟩⟩

/-- **The last member of 41 is refused, and the chat id is returned.** -/
theorem createChat_not_waited : (chatOf41 updatesRefused).1.toOption = some (some "chat") ∧ ∃ userIds s₁,
    Resolves updatesRefused "token" people none userIds ⟨some, []⟩ s₁ ∧ userIds.length ≤ 1000 ∧
    ¬ ∀ u ∈ userIds, ∃ n, s₁.requests.length ≤ n ∧
      Accepted updatesRefused (fun _ => True) (some "chat") (chatOf41 updatesRefused).2.requests u n := by
  have hok : (chatOf41 updatesRefused).1.toOption = some (some "chat") := by decide +kernel
  obtain ⟨token, userIds, s₁, htoken, hresolves, hle, hnodup, hcreated⟩ := createChat_created (chatOf41_ok hok)
  obtain rfl : "token" = token := Option.some.inj htoken
  refine ⟨hok, userIds, s₁, hresolves, hle, fun hall => ?_⟩
  have hlength : userIds.length = 41 := by
    have hknown : (updatesRefused.getUserIds (people ++ [some "A"]) "token" ⟨some, []⟩).1.toOption.map List.length =
        some 41 := by decide +kernel
    obtain ⟨first, mobiles, owner, s₀, hlist, howner, hids⟩ := hresolves
    obtain rfl : first = some "A" := by
      have hhead := congrArg List.head? hlist
      exact (Option.some.inj hhead).symm
    obtain rfl : s₀ = ⟨some, []⟩ := (congrArg Prod.snd howner).symm
    rw [← hlist] at hids
    rw [show isBlank none = true from rfl, if_pos rfl] at hids
    rw [hids] at hknown
    exact Option.some.inj hknown
  obtain ⟨-, d, hd, hsuccess⟩ := (hcreated.accepted_iff hnodup fun _ => True).1 hall 0 (by rw [hlength]; decide)
  cases hd
  cases hsuccess

end StudyTech
