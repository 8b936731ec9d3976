import StudyTech.Spec.RefreshUser

/-!
# The pages of `refreshUser`

One run of `refreshUser` against a server that may answer each request for a page as it likes: the
answer is part of the label. A task of `addUser` that waits has made its request, for the page of
its department at a cursor.

`answers` is for the proofs only: what each task was answered.
-/

namespace StudyTech

open Lib

/-- The task that takes the step. -/
def RefreshLabel.task : RefreshLabel → ℕ
  | .addUser k => k
  | .respond k => k
  | .handle k => k

/-- The departments of the list, in order. -/
def DepartListResponseDTO.departs (dto : DepartListResponseDTO) : List String :=
  if dto.isSuccess then (dto.result.getD []).map (·.dept_id) else []

/-- A run of `refreshUser` with its requests for pages, as department and cursor. -/
structure Paging where
  refresh : RefreshState
  requests : List (String × Option ℤ) := []
  answers : ℕ → List DepartUserResponseDTO := fun _ => []

/-- The request that a task makes when it comes to wait. -/
def requestOf (departs : List String) (refresh : RefreshState) (k : ℕ) : List (String × Option ℤ) :=
  match departs[k]?, (refresh.task k).pc with
  | some depart, .waiting cursor => [(depart, cursor)]
  | _, _ => []

def answersAfter (answers : ℕ → List DepartUserResponseDTO) (dto : DepartUserResponseDTO) :
    RefreshLabel → ℕ → List DepartUserResponseDTO
  | .respond k => Function.update answers k (answers k ++ [dto])
  | _ => answers

/-- A step of `refreshUser`; an answer that arrives is the one of the label. -/
def pagingStep (onDepartList : DepartListResponseDTO) (p : Paging) (l : RefreshLabel × DepartUserResponseDTO) :
    Option Paging :=
  (refreshStep ⟨onDepartList, fun _ _ => l.2⟩ p.refresh l.1).map fun refresh =>
    ⟨refresh, p.requests ++ requestOf onDepartList.departs refresh l.1.task, answersAfter p.answers l.2 l.1⟩

end StudyTech
