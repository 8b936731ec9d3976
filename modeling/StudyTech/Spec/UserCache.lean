import StudyTech.Spec.RefreshUser

/-!
# The cache of user ids between two calls

What the static cache of `DingTalkUserService` goes through: calls of `getUserId` by any thread,
the users that the handlers of `refreshUser` put one by one, and keys that the cache gives up at
any time. A call of `getUserIds` makes its lookups one after the other while this goes on.
-/

namespace StudyTech

open Lib

inductive CacheEvent
  | getUserId (accessToken : String) (mobile : Option String)
  | put (user : Option DepartUser)
  | evict (mobile : String)
  deriving DecidableEq, Repr

def cacheStep (R : DingTalkRemote) (s : DingTalkState) : CacheEvent → Option DingTalkState
  | .getUserId accessToken mobile => some (R.getUserId accessToken mobile s).2
  | .put user =>
    some (match mobileAndId user with
      | some (mobile, userid) => { s with userCache := Function.update s.userCache mobile (some userid) }
      -- `put` throws and changes nothing
      | none => s)
  | .evict mobile => some { s with userCache := Function.update s.userCache mobile none }

/-- The cache before the first call. -/
def DingTalkState.empty : DingTalkState := ⟨fun _ => none, []⟩

/-- A call of `getUserIds`: the mobiles that are still to look up, and what the lookups so far
ended with. -/
structure GetUserIdsCall where
  state : DingTalkState
  mobiles : List (Option String)
  userIds : List (Option String)

namespace GetUserIdsCall

def start (s : DingTalkState) (mobileList : List (Option String)) : GetUserIdsCall :=
  ⟨s, mobileList.filter (!isBlank ·), []⟩

/-- What the call returns. -/
def result (c : GetUserIdsCall) : List String := ((c.userIds.filter (!isBlank ·)).reduceOption).eraseDups

end GetUserIdsCall

inductive GetUserIdsLabel
  | lookup
  | other (e : CacheEvent)
  deriving DecidableEq, Repr

def getUserIdsStep (R : DingTalkRemote) (accessToken : String) (c : GetUserIdsCall) :
    GetUserIdsLabel → Option GetUserIdsCall
  | .lookup =>
    match c.mobiles with
    | [] => none
    | mobile :: mobiles =>
      match R.getUserId accessToken mobile c.state with
      | (.ok userId, s) => some ⟨s, mobiles, c.userIds ++ [userId]⟩
      | (.error _, _) => none
  | .other e => (cacheStep R c.state e).map fun s => { c with state := s }

end StudyTech
