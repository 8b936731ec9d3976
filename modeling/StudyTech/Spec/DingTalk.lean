import StudyTech.Lib.Action
import StudyTech.Spec.Message
import StudyTech.Spec.StringUtils

/-!
# `DingTalkServiceImpl` and `DingTalkUserService`

The calls act on the cache of user ids and on the requests made so far. What the remote
side answers to a request may depend on how many requests were made before it, so that
every pattern of answers is one `DingTalkRemote`. The access token is what
`AccessTokenService` returned for the call; a list that is `null` fails as an empty one.
-/

namespace StudyTech

open Lib

/-- `BaseResponseDTO`. -/
structure BaseResponseDTO where
  errcode : Option ℤ
  errmsg : Option String
  deriving DecidableEq, Repr

def BaseResponseDTO.isSuccess (dto : BaseResponseDTO) : Bool := dto.errcode == some 0

/-- `UserByMobileResponseDTO.User`. -/
structure DingTalkUser where
  userid : Option String
  deriving DecidableEq, Repr

structure UserByMobileResponseDTO extends BaseResponseDTO where
  result : Option DingTalkUser
  deriving DecidableEq, Repr

structure ChatCreateResponseDTO extends BaseResponseDTO where
  chatid : Option String
  deriving DecidableEq, Repr

/-- `DingTalkMessage`; it is handed on as it is. -/
structure DingTalkMessage where
  msgtype : Option String
  deriving DecidableEq, Repr

/-- `NoticeSendRequestDTO`; the user ids are what `String.join` put into `userid_list`. -/
structure NoticeSendRequestDTO where
  agent_id : Option String
  userIds : List String
  msg : DingTalkMessage
  deriving DecidableEq, Repr

structure ChatCreateRequestDTO where
  name : String
  owner : Option String
  useridlist : List String
  deriving DecidableEq, Repr

structure ChatUpdateRequestDTO where
  chatid : Option String
  add_useridlist : List String
  deriving DecidableEq, Repr

/-- A request, with the access token in its path. -/
inductive DingTalkRequest
  | userByMobile (accessToken mobile : String)
  | sendNotice (accessToken : String) (dto : NoticeSendRequestDTO)
  | createChat (accessToken : String) (dto : ChatCreateRequestDTO)
  | updateChat (accessToken : String) (dto : ChatUpdateRequestDTO)
  deriving DecidableEq, Repr

/-- What `block()` ends with: a body, `null`, or an exception. -/
abbrev Response (α : Type) := Except JavaException (Option α)

/-- The answer to each request, by the number of requests made before it, and the keys
that the cache gives up when it takes a new one. -/
structure DingTalkRemote where
  onUserByMobile : ℕ → String → Response UserByMobileResponseDTO
  onSendNotice : ℕ → NoticeSendRequestDTO → Response BaseResponseDTO
  onCreateChat : ℕ → ChatCreateRequestDTO → Response ChatCreateResponseDTO
  onUpdateChat : ℕ → ChatUpdateRequestDTO → Response BaseResponseDTO
  evicts : ℕ → String → Bool

structure DingTalkState where
  userCache : String → Option String
  requests : List DingTalkRequest

abbrev DingTalkAct (α : Type) := Action JavaException DingTalkState α

def illegalArgument (message : String) : JavaException := ⟨"java.lang.IllegalArgumentException", some message⟩

/-- `new DingTalkException(text + (Objects.nonNull(dto) ? dto.getErrmsg() : ""))`. -/
def dingTalkException (text : String) (dto : Option BaseResponseDTO) : JavaException :=
  ⟨"com.ljt.study.dingtalk.exception.DingTalkException",
    some (text ++ match dto with
      | some dto => dto.errmsg.getD "null"
      | none => "")⟩

/-- `Objects.isNull(dto) || !dto.isSuccess()`. -/
def isFailure (dto : Option BaseResponseDTO) : Bool := !dto.any (·.isSuccess)

/-- Send a request and wait for what it is answered. -/
def post {α : Type} (request : DingTalkRequest) (answer : ℕ → Response α) : DingTalkAct (Option α) := fun s =>
  (answer s.requests.length, { s with requests := s.requests ++ [request] })

/-- Send a request whose answer is only logged. -/
def subscribe (request : DingTalkRequest) : DingTalkAct Unit := fun s =>
  (.ok (), { s with requests := s.requests ++ [request] })

/-- `List.subList`. -/
def subList (xs : List String) (fromIndex toIndex : ℕ) : DingTalkAct (List String) :=
  if fromIndex ≤ toIndex ∧ toIndex ≤ xs.length then pure ((xs.drop fromIndex).take (toIndex - fromIndex))
  else throw ⟨"java.lang.IndexOutOfBoundsException", none⟩

namespace DingTalkRemote

variable (R : DingTalkRemote)

/-! ## `DingTalkUserService` -/

/-- `Cache.get(key, loader)`; a loader that returns `null` is an exception. -/
def cacheGet (key : String) (loader : DingTalkAct (Option String)) : DingTalkAct String := fun s =>
  match s.userCache key with
  | some userId => (.ok userId, s)
  | none =>
    match loader s with
    | (.ok (some userId), s') =>
      (.ok userId, { s' with
        userCache := fun k =>
          if R.evicts s'.requests.length k then none else if k = key then some userId else s'.userCache k })
    | (.ok none, s') => (.error ⟨"com.google.common.cache.CacheLoader$InvalidCacheLoadException", none⟩, s')
    | (.error e, s') => (.error e, s')

/-- The loader of `getUserId`. -/
def loadUserId (accessToken mobile : String) : DingTalkAct (Option String) := do
  let dto ← post (.userByMobile accessToken (trim mobile)) (R.onUserByMobile · (trim mobile))
  match dto with
  | none => pure none
  | some dto =>
    if !dto.isSuccess then pure none
    else
      match dto.result with
      | none => throw ⟨"java.lang.NullPointerException", none⟩
      | some user => pure user.userid

/-- `getUserId`; what goes wrong is logged, and the id is `null`. -/
def getUserId (accessToken : String) : Option String → DingTalkAct (Option String)
  | none => pure none
  | some mobile =>
    tryCatch
      (do return some (← R.cacheGet (trim mobile) (R.loadUserId accessToken mobile)))
      fun _ => pure none

/-! ## `DingTalkServiceImpl` -/

def noticeSize : ℕ := 100

def chatSize : ℕ := 40

/-- The ids of the mobiles, one after the other. -/
def mapUserId (accessToken : String) : List (Option String) → DingTalkAct (List (Option String))
  | [] => pure []
  | mobile :: mobiles => do
    let userId ← R.getUserId accessToken mobile
    let userIds ← mapUserId accessToken mobiles
    return userId :: userIds

def getUserIds (mobileList : List (Option String)) (accessToken : String) : DingTalkAct (List String) := do
  let userIds ← R.mapUserId accessToken (mobileList.filter (!isBlank ·))
  return ((userIds.filter (!isBlank ·)).reduceOption).eraseDups

/-- The loop of `sendNotice`, over the numbers of its requests. -/
def noticeLoop (accessToken : String) (agentId : Option String) (message : DingTalkMessage)
    (userIds : List String) : List ℕ → DingTalkAct Bool
  | [] => pure true
  | i :: is => do
    let list ← subList userIds (noticeSize * i) (min userIds.length (noticeSize * (i + 1)))
    let requestDTO : NoticeSendRequestDTO := ⟨agentId, list, message⟩
    let dto ← post (.sendNotice accessToken requestDTO) (R.onSendNotice · requestDTO)
    if isFailure dto then pure false else noticeLoop accessToken agentId message userIds is

/-- The rest of `sendNotice`, from the user ids on. -/
def sendNoticeTo (accessToken : String) (agentId : Option String) (message : DingTalkMessage)
    (userIds : List String) : DingTalkAct Bool :=
  R.noticeLoop accessToken agentId message userIds (List.range (userIds.length / noticeSize + 1))

def sendNotice (accessToken agentId : Option String) (mobileList : List (Option String))
    (message : Option DingTalkMessage) : DingTalkAct Bool :=
  match message with
  | none => throw (illegalArgument "消息内容为空")
  | some message =>
    if mobileList = [] then throw (illegalArgument "手机号为空")
    else
      match accessToken with
      | none => pure false
      | some accessToken =>
        if isBlank (some accessToken) then pure false
        else do
          let userIds ← R.getUserIds mobileList accessToken
          R.sendNoticeTo accessToken agentId message userIds

/-- The private `addCharUser`. -/
def addCharUserIds (accessToken : String) (chatId : Option String) (userIds : List String) (isBlock : Bool) :
    DingTalkAct Unit :=
  let requestDTO : ChatUpdateRequestDTO := ⟨chatId, userIds⟩
  if isBlock then do
    let dto ← post (.updateChat accessToken requestDTO) (R.onUpdateChat · requestDTO)
    if isFailure dto then throw (dingTalkException "添加群成员失败" dto) else pure ()
  else subscribe (.updateChat accessToken requestDTO)

/-- The loop of `createChat` and of `addCharUser`. -/
def chatLoop (accessToken : String) (chatId : Option String) (userIds : List String) (isBlock : Bool) :
    List ℕ → DingTalkAct Unit
  | [] => pure ()
  | i :: is => do
    let list ← subList userIds (chatSize * i) (min userIds.length (chatSize * (i + 1)))
    R.addCharUserIds accessToken chatId list isBlock
    chatLoop accessToken chatId userIds isBlock is

/-- The requests of `createChat` after the first of `count`. -/
def addRest (accessToken : String) (chatId : Option String) (userIds : List String) (count : ℕ) : DingTalkAct Unit :=
  if count > 1 then R.chatLoop accessToken chatId userIds false (List.range' 1 (count - 1)) else pure ()

/-- The rest of `createChat`, from the user ids on. -/
def createChatWith (accessToken name : String) (owner : Option String) (userIds : List String) :
    DingTalkAct (Option String) :=
  if userIds = [] then throw (illegalArgument "有效用户ID为空")
  else if ¬ userIds.length ≤ 1000 then throw (illegalArgument "群成员人数上限为1000")
  else do
    let count := userIds.length / chatSize + 1
    let list ← subList userIds 0 (min userIds.length chatSize)
    let requestDTO : ChatCreateRequestDTO := ⟨name, owner, list⟩
    let dto ← post (.createChat accessToken requestDTO) (R.onCreateChat · requestDTO)
    match dto with
    | none => throw (dingTalkException "创建群会话失败" none)
    | some dto =>
      if !dto.isSuccess then throw (dingTalkException "创建群会话失败" (some dto.toBaseResponseDTO))
      else do
        R.addRest accessToken dto.chatid userIds count
        return dto.chatid

def createChat (accessToken : Option String) (mobileList : List (Option String)) (ownerMobile name : Option String) :
    DingTalkAct (Option String) :=
  match name, mobileList, accessToken with
  | none, _, _ => throw (illegalArgument "群名称为空")
  | some _, [], _ => throw (illegalArgument "群成员手机号为空")
  | some _, _ :: _, none => throw (illegalArgument "accessToken为空")
  | some name, first :: mobiles, some accessToken => do
    let ownerMobile := if isBlank ownerMobile then first else ownerMobile
    let owner ← R.getUserId accessToken ownerMobile
    let userIds ← R.getUserIds (first :: mobiles ++ [ownerMobile]) accessToken
    R.createChatWith accessToken name owner userIds

/-- The rest of `addCharUser`, from the user ids on. -/
def addCharUserTo (accessToken chatId : String) (userIds : List String) : DingTalkAct Unit :=
  R.chatLoop accessToken (some chatId) userIds true (List.range (userIds.length / chatSize + 1))

def addCharUser (accessToken chatId : Option String) (mobileList : List (Option String)) : DingTalkAct Unit :=
  match chatId, mobileList, accessToken with
  | none, _, _ => throw (illegalArgument "群会话ID为空")
  | some _, [], _ => throw (illegalArgument "群成员手机号为空")
  | some _, _ :: _, none => throw (illegalArgument "accessToken为空")
  | some chatId, first :: mobiles, some accessToken => do
    let userIds ← R.getUserIds (first :: mobiles) accessToken
    R.addCharUserTo accessToken chatId userIds

end DingTalkRemote

end StudyTech
