import Mathlib.Logic.Function.Basic
import StudyTech.Lib.IdTable
import StudyTech.Spec.StringUtils

/-!
# The types and the tags of the blog

`TypeController` and `TagController` do the same on their tables: a request looks for its name, and then, in
another transaction, saves a new row or renames one. A type has a name that is not blank. How the database
compares names is a parameter. What it refuses is a failed save, or no step.
-/

namespace StudyTech

open Lib

/-- The type or tag that is bound to a request; the id of the path is bound, unless the form has one. -/
structure NameForm where
  id : Option ℤ := none
  name : Option String := none
  deriving DecidableEq, Repr

/-- `post` and `editPost`, with the id of the path. -/
inductive NameRequest
  | post
  | editPost (id : ℤ)
  deriving DecidableEq, Repr

/-- What a request throws. -/
inductive NameError
  | incorrectResultSize
  | entityNotFound
  | identifierAltered
  deriving DecidableEq, Repr

/-- The rows, the ids that the sequence has given, and the requests whose name was not found. -/
structure NameTable (ρ : Type) where
  rows : List (ℤ × Option String)
  usedIds : List ℤ
  saving : ρ → Option (NameRequest × NameForm)

/-- `@NotBlank`. -/
def notBlank : Option String → Bool
  | none => false
  | some name => decide (trim name ≠ "")

section Requests

variable {κ : Type} [DecidableEq κ] (collate : String → κ)

/-- `findByName`; for a name that is `null` it is a query for `null`. -/
def findByName (rows : List (ℤ × Option String)) (name : Option String) :
    Except NameError (Option (ℤ × Option String)) :=
  match rows.filter fun p => p.2.map collate = name.map collate with
  | [] => .ok none
  | [p] => .ok (some p)
  | _ :: _ :: _ => .error .incorrectResultSize

/-- Whether `post` or `editPost` finds no error in the form. -/
def checkName (blankAllowed : Bool) (rows : List (ℤ × Option String)) (form : NameForm) : Except NameError Bool :=
  (findByName collate rows form.name).map fun found => found.isNone && (blankAllowed || notBlank form.name)

end Requests

variable {ρ : Type}

/-- `saveType` or `saveTag`: a row whose id there is is merged, another is inserted. -/
def NameTable.save (table : NameTable ρ) (form : NameForm) (seq : ℤ) : NameTable ρ :=
  match form.id.filter fun id => id ∈ table.rows.map Prod.fst with
  | some id => { table with rows := alterRow table.rows id fun _ => form.name }
  | none => { table with rows := table.rows ++ [(seq, form.name)], usedIds := seq :: table.usedIds }

/-- `updateType` or `updateTag`. -/
def NameTable.update (table : NameTable ρ) (id : ℤ) (form : NameForm) : Except NameError (NameTable ρ) :=
  if id ∈ table.rows.map Prod.fst then
    if form.id = some id then .ok { table with rows := alterRow table.rows id fun _ => form.name }
    else .error .identifierAltered
  else .error .entityNotFound

def NameTable.saveOrUpdate (table : NameTable ρ) (request : NameRequest) (form : NameForm) (seq : ℤ) :
    Except NameError (NameTable ρ) :=
  match request with
  | .post => .ok (table.save form seq)
  | .editPost id => table.update id form

/-- A request checks its form, and saves it, or fails to; a row is deleted. -/
inductive NameLabel (ρ : Type)
  | check (r : ρ) (request : NameRequest) (form : NameForm)
  | save (r : ρ) (seq : ℤ)
  | fail (r : ρ)
  | delete (id : ℤ)
  deriving DecidableEq, Repr

section Step

variable [DecidableEq ρ] {κ : Type} [DecidableEq κ] (collate : String → κ)

def nameStep (blankAllowed : Bool) (table : NameTable ρ) : NameLabel ρ → Option (NameTable ρ)
  | .check r request form =>
    if table.saving r = none then
      match checkName collate blankAllowed table.rows form with
      | .ok true => some { table with saving := Function.update table.saving r (some (request, form)) }
      | .ok false => some table
      | .error _ => some table
    else none
  | .save r seq =>
    match table.saving r with
    | none => none
    | some (request, form) =>
      if seq ∉ table.usedIds then
        match table.saveOrUpdate request form seq with
        | .ok table' => some { table' with saving := Function.update table.saving r none }
        | .error _ => some { table with saving := Function.update table.saving r none }
      else none
  | .fail r => some { table with saving := Function.update table.saving r none }
  | .delete id => some { table with rows := table.rows.filter fun p => p.1 ≠ id }

/-- `TypeController`. -/
def typeStep : NameTable ρ → NameLabel ρ → Option (NameTable ρ) := nameStep collate false

/-- `TagController`. -/
def tagStep : NameTable ρ → NameLabel ρ → Option (NameTable ρ) := nameStep collate true

end Step

end StudyTech
