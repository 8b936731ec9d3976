import Mathlib.Logic.Function.Basic
import StudyTech.Lib.Run
import StudyTech.Spec.DingTalk

/-!
# `refreshUser`

The answer to the list of departments makes a request for the first page of each; the answer to
a page puts its users into the cache, one after the other, and asks for the next page. The
answers arrive in any order and are handled at the same time. The cache takes no `null`: `put`
throws, which ends the handler of the page. The cache gives up nothing.

`done` is for the proofs only: what a task has put.
-/

namespace StudyTech

open Lib

/-- `DepartUserResponseDTO.User`. -/
structure DepartUser where
  userid : Option String
  mobile : Option String
  deriving DecidableEq, Repr

/-- `DepartUserResponseDTO.Result`; a user may be `null`, too. -/
structure DepartUserResult where
  hasMore : Option Bool
  next_cursor : Option ℤ
  list : Option (List (Option DepartUser))
  deriving DecidableEq, Repr

structure DepartUserResponseDTO extends BaseResponseDTO where
  result : Option DepartUserResult
  deriving DecidableEq, Repr

/-- `DepartListResponseDTO.Depart`. -/
structure Depart where
  dept_id : String
  deriving DecidableEq, Repr

structure DepartListResponseDTO extends BaseResponseDTO where
  result : Option (List Depart)
  deriving DecidableEq, Repr

/-- What the remote side answers: the departments, and a page of a department at a cursor. -/
structure DepartRemote where
  onDepartList : DepartListResponseDTO
  onDepartUser : String → Option ℤ → DepartUserResponseDTO

/-- The departments for which `refreshUser` calls `addUser`, in order. -/
def DepartRemote.departs (R : DepartRemote) : List String :=
  if R.onDepartList.isSuccess then (R.onDepartList.result.getD []).map (·.dept_id) else []

/-- Where the chain of `addUser` of a department is: not begun, waiting for the page at a cursor,
or with some of its users to put and then the next page to ask for, or it has ended. -/
inductive AddUserPc
  | idle
  | waiting (cursor : Option ℤ)
  | handling (users : List (Option DepartUser)) (next : Option (Option ℤ))
  | ended
  deriving DecidableEq, Repr

structure AddUserTask where
  pc : AddUserPc := .idle
  done : List (String × String) := []

/-- The cache, and the tasks by the place of their departments in the list. -/
structure RefreshState where
  userCache : String → Option String
  task : ℕ → AddUserTask

def RefreshState.start (userCache : String → Option String) : RefreshState := ⟨userCache, fun _ => {}⟩

/-- A department's first request is made; an answer arrives; a handler takes its next step. -/
inductive RefreshLabel
  | addUser (k : ℕ)
  | respond (k : ℕ)
  | handle (k : ℕ)
  deriving DecidableEq, Repr

/-- The mobile and the id of a user that has both. -/
def mobileAndId (user : Option DepartUser) : Option (String × String) :=
  match user with
  | some ⟨some userid, some mobile⟩ => some (mobile, userid)
  | _ => none

/-- The handler begins. -/
def DepartUserResponseDTO.handler (dto : DepartUserResponseDTO) : AddUserPc :=
  if dto.isSuccess then
    match dto.result with
    | some result =>
      .handling (result.list.getD []) (if result.hasMore = some true then some result.next_cursor else none)
    | none => .ended
  else .ended

namespace RefreshState

variable (s : RefreshState)

def goto (k : ℕ) (pc : AddUserPc) : RefreshState :=
  { s with task := Function.update s.task k { s.task k with pc := pc } }

/-- `USER_CACHE.put` by the handler of a task, which goes on to `pc`. -/
def put (k : ℕ) (mobile userid : String) (pc : AddUserPc) : RefreshState where
  userCache := Function.update s.userCache mobile (some userid)
  task := Function.update s.task k ⟨pc, (s.task k).done ++ [(mobile, userid)]⟩

end RefreshState

def refreshStep (R : DepartRemote) (s : RefreshState) : RefreshLabel → Option RefreshState
  | .addUser k =>
    if k < R.departs.length ∧ (s.task k).pc = .idle ∧ ∀ j < k, (s.task j).pc ≠ .idle then
      some (s.goto k (.waiting (some 0)))
    else none
  | .respond k =>
    match R.departs[k]?, (s.task k).pc with
    | some depart, .waiting cursor => some (s.goto k (R.onDepartUser depart cursor).handler)
    | _, _ => none
  | .handle k =>
    match (s.task k).pc with
    | .handling (user :: users) next =>
      some (match mobileAndId user with
        | some (mobile, userid) => s.put k mobile userid (.handling users next)
        -- the exception ends the handler, and nothing asks for the next page
        | none => s.goto k .ended)
    | .handling [] next =>
      some (s.goto k (match next with
        | some cursor => .waiting cursor
        | none => .ended))
    | _ => none

end StudyTech
