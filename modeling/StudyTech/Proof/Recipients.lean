import StudyTech.Lib.Windows
import StudyTech.Spec.DingTalk

/-!
# The requests that carry the recipients

`sendNotice`, `addCharUser` and `createChat` send the user ids in windows of 100 or 40,
`size / cap + 1` of them. That is one too many when the cap divides the number of ids:
the last request has no recipients (`empty_request`). In all other cases the ids are
sent as they should be (`batched_iff`); `createChat` refuses to send to nobody and to
more than 1000.
-/

namespace StudyTech

open Lib

/-- Every notice and every request about a chat is answered with errcode 0. -/
structure DingTalkRemote.Succeeds (R : DingTalkRemote) : Prop where
  notice : ∀ n dto, ∃ d, R.onSendNotice n dto = .ok (some d) ∧ d.isSuccess = true
  create : ∀ n dto, ∃ d, R.onCreateChat n dto = .ok (some d) ∧ d.isSuccess = true
  update : ∀ n dto, ∃ d, R.onUpdateChat n dto = .ok (some d) ∧ d.isSuccess = true

/-- The user ids in a request. -/
def DingTalkRequest.recipients : DingTalkRequest → Option (List String)
  | .userByMobile _ _ => none
  | .sendNotice _ dto => some dto.userIds
  | .createChat _ dto => some dto.useridlist
  | .updateChat _ dto => some dto.add_useridlist

/-- The operations that send a list of user ids, with the rest of their data. -/
inductive Batching
  | sendNotice (accessToken : String) (agentId : Option String) (message : DingTalkMessage)
  | addCharUser (accessToken chatId : String)
  | createChat (accessToken name : String) (owner : Option String)

namespace Batching

def cap : Batching → ℕ
  | .sendNotice _ _ _ => DingTalkRemote.noticeSize
  | .addCharUser _ _ => DingTalkRemote.chatSize
  | .createChat _ _ _ => DingTalkRemote.chatSize

/-- What the operation leaves behind. -/
def run (R : DingTalkRemote) (userIds : List String) (s : DingTalkState) : Batching → DingTalkState
  | .sendNotice accessToken agentId message => (R.sendNoticeTo accessToken agentId message userIds s).2
  | .addCharUser accessToken chatId => (R.addCharUserTo accessToken chatId userIds s).2
  | .createChat accessToken name owner => (R.createChatWith accessToken name owner userIds s).2

/-- The recipients of the requests that the operation makes. -/
def chunks (R : DingTalkRemote) (userIds : List String) (s : DingTalkState) (op : Batching) : List (List String) :=
  ((op.run R userIds s).requests.drop s.requests.length).filterMap (·.recipients)

/-- The numbers of user ids that are sent in as few requests as the cap allows. -/
def Fits : Batching → ℕ → Prop
  | .sendNotice _ _ _, n => n % DingTalkRemote.noticeSize ≠ 0
  | .addCharUser _ _, n => n % DingTalkRemote.chatSize ≠ 0
  | .createChat _ _ _, n => n = 0 ∨ n ≤ 1000 ∧ n % DingTalkRemote.chatSize ≠ 0

end Batching

section Loops

variable {R : DingTalkRemote} {userIds : List String} {s : DingTalkState} {is : List ℕ}

/-- The requests of the loop of `createChat` and of `addCharUser`. -/
def updates (accessToken : String) (chatId : Option String) (userIds : List String) (is : List ℕ) :
    List DingTalkRequest :=
  is.map fun i => .updateChat accessToken ⟨chatId, window DingTalkRemote.chatSize userIds i⟩

theorem recipients_updates (accessToken : String) (chatId : Option String) (userIds : List String) (is : List ℕ) :
    (updates accessToken chatId userIds is).filterMap (·.recipients) =
      is.map (window DingTalkRemote.chatSize userIds) := by
  unfold updates
  rw [List.filterMap_map]
  exact congrFun List.filterMap_eq_map _

theorem post_ok {α : Type} {request : DingTalkRequest} {answer : ℕ → Response α} {dto : Option α}
    (h : answer s.requests.length = .ok dto) :
    post request answer s = (.ok dto, { s with requests := s.requests ++ [request] }) := by
  unfold post
  rw [h]

/-- The bounds of a window that starts in the list are those of a sublist. -/
theorem subList_window {c i : ℕ} (h : c * i ≤ userIds.length) :
    subList userIds (c * i) (min userIds.length (c * (i + 1))) = pure (window c userIds i) := by
  have hnext : c * i ≤ c * (i + 1) := Nat.mul_le_mul_left c (Nat.le_succ i)
  have hbounds : c * i ≤ min userIds.length (c * (i + 1)) ∧ min userIds.length (c * (i + 1)) ≤ userIds.length := by
    omega
  unfold subList
  rw [if_pos hbounds, ← slice_eq_window, slice]

/-- The first window, with the bounds that `createChat` gives it. -/
theorem subList_first (userIds : List String) : subList userIds 0 (min userIds.length DingTalkRemote.chatSize) =
    pure (window DingTalkRemote.chatSize userIds 0) := by
  have h0 : DingTalkRemote.chatSize * 0 ≤ userIds.length := Nat.zero_le _
  simpa using subList_window h0

/-- The windows up to the quotient start in the list. -/
theorem start_le (c : ℕ) (userIds : List String) :
    ∀ i ∈ List.range (userIds.length / c + 1), c * i ≤ userIds.length := by
  intro i h
  have hle : i ≤ userIds.length / c := Nat.le_of_lt_succ (List.mem_range.1 h)
  have hmul : c * i ≤ c * (userIds.length / c) := Nat.mul_le_mul_left c hle
  have hdiv : c * (userIds.length / c) ≤ userIds.length := Nat.mul_div_le _ _
  omega

/-- The loop of `sendNotice` when every request succeeds. -/
theorem noticeLoop_eq (hR : R.Succeeds) (accessToken : String) (agentId : Option String) (message : DingTalkMessage)
    (h : ∀ i ∈ is, DingTalkRemote.noticeSize * i ≤ userIds.length) :
    R.noticeLoop accessToken agentId message userIds is s = (.ok true, { s with
      requests := s.requests ++ is.map fun i =>
        .sendNotice accessToken ⟨agentId, window DingTalkRemote.noticeSize userIds i, message⟩ }) := by
  induction is generalizing s with
  | nil => simp [DingTalkRemote.noticeLoop]
  | cons i is ih =>
    obtain ⟨d, hd, hsuccess⟩ := hR.notice s.requests.length
      ⟨agentId, window DingTalkRemote.noticeSize userIds i, message⟩
    have hcons := ih (s := { s with requests := s.requests ++ [.sendNotice accessToken
      ⟨agentId, window DingTalkRemote.noticeSize userIds i, message⟩] }) fun j hj => h j (List.mem_cons_of_mem _ hj)
    have hok : isFailure (some d) = false := by simp [isFailure, hsuccess]
    rw [DingTalkRemote.noticeLoop, subList_window (h i List.mem_cons_self), Action.bind_ok (Action.pure_apply _ _),
      Action.bind_ok (post_ok hd), hok, if_neg Bool.false_ne_true, hcons]
    simp

/-- Where nobody waits for the answer, the request is made and nothing is thrown. -/
theorem addCharUserIds_subscribed (accessToken : String) (chatId : Option String) (list : List String)
    (s : DingTalkState) :
    R.addCharUserIds accessToken chatId list false s =
      (.ok (), { s with requests := s.requests ++ [.updateChat accessToken ⟨chatId, list⟩] }) := rfl

theorem addCharUserIds_blocked (hR : R.Succeeds) (accessToken : String) (chatId : Option String) (list : List String)
    (s : DingTalkState) :
    R.addCharUserIds accessToken chatId list true s =
      (.ok (), { s with requests := s.requests ++ [.updateChat accessToken ⟨chatId, list⟩] }) := by
  obtain ⟨d, hd, hsuccess⟩ := hR.update s.requests.length ⟨chatId, list⟩
  have hok : isFailure (some d) = false := by simp [isFailure, hsuccess]
  rw [DingTalkRemote.addCharUserIds, if_pos rfl, Action.bind_ok (post_ok hd), hok, if_neg Bool.false_ne_true]
  rfl

/-- The loop of `addCharUser` and of `createChat` when no request throws. -/
theorem chatLoop_eq {accessToken : String} {chatId : Option String} {isBlock : Bool}
    (hadd : ∀ list s, R.addCharUserIds accessToken chatId list isBlock s =
      (.ok (), { s with requests := s.requests ++ [.updateChat accessToken ⟨chatId, list⟩] }))
    (h : ∀ i ∈ is, DingTalkRemote.chatSize * i ≤ userIds.length) :
    R.chatLoop accessToken chatId userIds isBlock is s =
      (.ok (), { s with requests := s.requests ++ updates accessToken chatId userIds is }) := by
  induction is generalizing s with
  | nil => simp [DingTalkRemote.chatLoop, updates]
  | cons i is ih =>
    have hcons := ih (s := { s with requests := s.requests ++ [.updateChat accessToken
      ⟨chatId, window DingTalkRemote.chatSize userIds i⟩] }) fun j hj => h j (List.mem_cons_of_mem _ hj)
    rw [DingTalkRemote.chatLoop, subList_window (h i List.mem_cons_self), Action.bind_ok (Action.pure_apply _ _),
      Action.bind_ok (hadd _ s), hcons]
    simp [updates]

/-- The first chunk of `createChat` and the others are the windows from the first on. -/
theorem range_succ_eq (n : ℕ) : List.range (n + 1) = 0 :: List.range' 1 n := by
  rw [List.range_eq_range', List.range'_succ]

/-- The requests of `createChat` after the first are made, whatever becomes of them. -/
theorem addRest_eq (accessToken : String) (chatId : Option String) :
    R.addRest accessToken chatId userIds (userIds.length / DingTalkRemote.chatSize + 1) s = (.ok (), { s with
      requests := s.requests ++
        updates accessToken chatId userIds (List.range' 1 (userIds.length / DingTalkRemote.chatSize)) }) := by
  have hrest : ∀ i ∈ List.range' 1 (userIds.length / DingTalkRemote.chatSize),
      DingTalkRemote.chatSize * i ≤ userIds.length := by
    intro i hi
    refine start_le _ userIds i ?_
    rw [range_succ_eq]
    exact List.mem_cons_of_mem _ hi
  unfold DingTalkRemote.addRest
  split
  · exact chatLoop_eq (addCharUserIds_subscribed accessToken chatId) hrest
  · have hzero : userIds.length / DingTalkRemote.chatSize = 0 := by
      generalize userIds.length / DingTalkRemote.chatSize = q at *
      omega
    rw [hzero]
    simp [updates]

/-- `createChat` from the user ids on, where the create request is answered with errcode 0. -/
theorem createChatWith_ok (accessToken : String) {name : String} {owner : Option String} {d : ChatCreateResponseDTO}
    (hne : userIds ≠ []) (hle : userIds.length ≤ 1000)
    (hd : R.onCreateChat s.requests.length ⟨name, owner, window DingTalkRemote.chatSize userIds 0⟩ = .ok (some d))
    (hsuccess : d.isSuccess = true) :
    R.createChatWith accessToken name owner userIds s = (.ok d.chatid, { s with
      requests := s.requests ++ .createChat accessToken ⟨name, owner, window DingTalkRemote.chatSize userIds 0⟩ ::
        updates accessToken d.chatid userIds (List.range' 1 (userIds.length / DingTalkRemote.chatSize)) }) := by
  have hok : (!d.isSuccess) = false := by rw [hsuccess]; rfl
  unfold DingTalkRemote.createChatWith
  rw [if_neg hne, if_neg (not_not.2 hle), subList_first, Action.bind_ok (Action.pure_apply _ _),
    Action.bind_ok (post_ok hd)]
  simp only [hok, Bool.false_eq_true, if_false]
  rw [Action.bind_ok (addRest_eq accessToken d.chatid)]
  simp

end Loops

section Chunks

variable {R : DingTalkRemote} (userIds : List String) (s : DingTalkState)

/-- The recipients of the requests that follow those of `s`. -/
theorem chunks_of_run (op : Batching) {requests : List DingTalkRequest}
    (h : (op.run R userIds s).requests = s.requests ++ requests) :
    op.chunks R userIds s = requests.filterMap (·.recipients) := by
  unfold Batching.chunks
  rw [h, List.drop_left]

theorem chunks_sendNotice (hR : R.Succeeds) (accessToken : String) (agentId : Option String)
    (message : DingTalkMessage) :
    (Batching.sendNotice accessToken agentId message).chunks R userIds s =
      (List.range (userIds.length / DingTalkRemote.noticeSize + 1)).map (window DingTalkRemote.noticeSize userIds) := by
  have hloop := noticeLoop_eq (s := s) hR accessToken agentId message (start_le _ userIds)
  have hrun := congrArg (fun r => r.2.requests) hloop
  rw [chunks_of_run userIds s (.sendNotice accessToken agentId message) hrun, List.filterMap_map]
  exact congrFun List.filterMap_eq_map _

theorem chunks_addCharUser (hR : R.Succeeds) (accessToken chatId : String) :
    (Batching.addCharUser accessToken chatId).chunks R userIds s =
      (List.range (userIds.length / DingTalkRemote.chatSize + 1)).map (window DingTalkRemote.chatSize userIds) := by
  have hloop := chatLoop_eq (s := s) (addCharUserIds_blocked hR accessToken (some chatId)) (start_le _ userIds)
  have hrun := congrArg (fun r => r.2.requests) hloop
  rw [chunks_of_run userIds s (.addCharUser accessToken chatId) hrun, recipients_updates]

theorem chunks_createChat (hR : R.Succeeds) (accessToken name : String) (owner : Option String)
    (hne : userIds ≠ []) (hle : userIds.length ≤ 1000) :
    (Batching.createChat accessToken name owner).chunks R userIds s =
      (List.range (userIds.length / DingTalkRemote.chatSize + 1)).map (window DingTalkRemote.chatSize userIds) := by
  obtain ⟨d, hd, hsuccess⟩ := hR.create s.requests.length ⟨name, owner, window DingTalkRemote.chatSize userIds 0⟩
  have hrun := congrArg (fun r => r.2.requests) (createChatWith_ok accessToken hne hle hd hsuccess)
  rw [chunks_of_run userIds s (.createChat accessToken name owner) hrun, range_succ_eq, List.map_cons,
    List.filterMap_cons, recipients_updates]
  rfl

theorem chunks_createChat_refused (accessToken name : String) (owner : Option String)
    (h : userIds = [] ∨ 1000 < userIds.length) :
    (Batching.createChat accessToken name owner).chunks R userIds s = [] := by
  -- nothing is sent before the assertion that fails
  have hrun : (R.createChatWith accessToken name owner userIds s).2.requests = s.requests ++ [] := by
    unfold DingTalkRemote.createChatWith
    by_cases hnil : userIds = []
    · rw [if_pos hnil]
      simp
    · have hlarge : 1000 < userIds.length := h.resolve_left hnil
      rw [if_neg hnil, if_pos (Nat.not_le.2 hlarge)]
      simp
  rw [chunks_of_run userIds s (.createChat accessToken name owner) hrun]
  rfl

end Chunks

/-- **The ids are sent as they should be, unless the cap divides their number.** When all
requests succeed, the chunks that are sent are the ids in order, none empty or above the
cap, in as few requests as that allows, if and only if the number of ids is no multiple of
the cap; `createChat` does so for no id, too, and for at most 1000. -/
theorem batched_iff {R : DingTalkRemote} (hR : R.Succeeds) (op : Batching) (userIds : List String)
    (s : DingTalkState) : Batched op.cap userIds (op.chunks R userIds s) ↔ op.Fits userIds.length := by
  have hnotice : 0 < DingTalkRemote.noticeSize := by decide
  have hchat : 0 < DingTalkRemote.chatSize := by decide
  cases op with
  | sendNotice accessToken agentId message =>
    rw [chunks_sendNotice userIds s hR]
    exact batched_windows_iff hnotice userIds
  | addCharUser accessToken chatId =>
    rw [chunks_addCharUser userIds s hR]
    exact batched_windows_iff hchat userIds
  | createChat accessToken name owner =>
    by_cases hnil : userIds = []
    · have hzero : userIds.length = 0 := List.length_eq_zero_iff.2 hnil
      rw [chunks_createChat_refused userIds s accessToken name owner (Or.inl hnil), batched_nil_iff]
      exact ⟨fun _ => Or.inl hzero, fun _ => hnil⟩
    · have hpos : 0 < userIds.length := List.length_pos_iff.2 hnil
      by_cases hle : userIds.length ≤ 1000
      · rw [chunks_createChat userIds s hR accessToken name owner hnil hle]
        refine (batched_windows_iff hchat userIds).trans ⟨fun h => Or.inr ⟨hle, h⟩, fun h => ?_⟩
        rcases h with hzero | ⟨-, hmod⟩
        · omega
        · exact hmod
      · -- more than 1000 ids are refused, so none of them is sent
        rw [chunks_createChat_refused userIds s accessToken name owner (Or.inr (by omega)), batched_nil_iff]
        refine ⟨fun h => absurd h hnil, fun h => ?_⟩
        rcases h with hzero | ⟨hle', -⟩
        · omega
        · exact absurd hle' hle

/-- Everything is answered with errcode 0. -/
def answersOk : DingTalkRemote where
  onUserByMobile := fun _ mobile => .ok (some ⟨⟨some 0, some "ok"⟩, some ⟨some mobile⟩⟩)
  onSendNotice := fun _ _ => .ok (some ⟨some 0, some "ok"⟩)
  onCreateChat := fun _ _ => .ok (some ⟨⟨some 0, some "ok"⟩, some "chat"⟩)
  onUpdateChat := fun _ _ => .ok (some ⟨some 0, some "ok"⟩)
  evicts := fun _ _ => false

theorem answersOk_succeeds : answersOk.Succeeds :=
  ⟨fun _ _ => ⟨_, rfl, rfl⟩, fun _ _ => ⟨_, rfl, rfl⟩, fun _ _ => ⟨_, rfl, rfl⟩⟩

/-- As many different ids. -/
def someIds (n : ℕ) : List String := (List.range n).map fun i => String.ofList (List.replicate (i + 1) 'u')

/-- The 81 ids of a new chat are sent in three requests. -/
theorem batched_create : Batched 40 (someIds 81)
    ((Batching.createChat "token" "team" (some "u")).chunks answersOk (someIds 81) ⟨fun _ => none, []⟩) := by
  have hfits : (Batching.createChat "token" "team" (some "u")).Fits (someIds 81).length := Or.inr (by decide)
  exact (batched_iff answersOk_succeeds (.createChat "token" "team" (some "u")) (someIds 81) _).2 hfits

/-- **40 ids are sent in two requests, the second with no recipients.** -/
theorem empty_request :
    (Batching.addCharUser "token" "chat").chunks answersOk (someIds 40) ⟨fun _ => none, []⟩ = [someIds 40, []] ∧
      ¬ Batched 40 (someIds 40)
        ((Batching.addCharUser "token" "chat").chunks answersOk (someIds 40) ⟨fun _ => none, []⟩) := by
  have hchunks : (Batching.addCharUser "token" "chat").chunks answersOk (someIds 40) ⟨fun _ => none, []⟩ =
      [someIds 40, []] := by
    rw [chunks_addCharUser _ _ answersOk_succeeds]
    decide +kernel
  refine ⟨hchunks, fun h => ?_⟩
  rw [hchunks] at h
  exact h.nonempty [] (by simp) rfl

end StudyTech
