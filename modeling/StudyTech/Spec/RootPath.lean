import Mathlib.Logic.Function.Basic
import Mathlib.Tactic.Common
import StudyTech.Lib.Run

/-!
# `createRootPath`

`rootStep` lets any number of clients run `createRootPath` on one path, whose parent is there. A
step is one call of ZooKeeper. The server of a client may be behind: `exists` may miss a path
that is there. Nobody deletes the path.
-/

namespace StudyTech

open Lib

/-- The next step of `createRootPath`, or how it ended. -/
inductive RootPc
  | idle
  | rootExists
  | rootCreate
  | returned
  | threw
  deriving DecidableEq, Repr

structure RootWorld (κ : Type) where
  created : Bool
  pc : κ → RootPc

def RootWorld.init (κ : Type) : RootWorld κ := ⟨false, fun _ => .idle⟩

/-- A call starts, and `exists` and `create` are answered; or a call of ZooKeeper fails with the
connection, in which case the server may have made the write. -/
inductive RootLabel (κ : Type)
  | call (c : κ)
  | rootExists (c : κ) (found : Bool)
  | rootCreate (c : κ)
  | fail (c : κ) (executed : Bool)
  deriving DecidableEq, Repr

/-- The connection fails in this step. -/
def RootLabel.Fails {κ : Type} : RootLabel κ → Prop
  | .fail _ _ => True
  | _ => False

variable {κ : Type} [DecidableEq κ]

def RootWorld.goto (w : RootWorld κ) (c : κ) (pc : RootPc) : RootWorld κ :=
  { w with pc := Function.update w.pc c pc }

def rootStep (w : RootWorld κ) : RootLabel κ → Option (RootWorld κ)
  | .call c => if w.pc c = .rootExists ∨ w.pc c = .rootCreate then none else some (w.goto c .rootExists)
  | .rootExists c found =>
    if w.pc c = .rootExists ∧ (found = true → w.created = true) then
      some (w.goto c (if found then .returned else .rootCreate))
    else none
  | .rootCreate c =>
    if w.pc c = .rootCreate then
      -- `NodeExistsException` where the path is there
      some (if w.created then w.goto c .threw else { w.goto c .returned with created := true })
    else none
  | .fail c executed =>
    match w.pc c with
    | .rootExists => some (w.goto c .threw)
    | .rootCreate => some { w.goto c .threw with created := w.created || executed }
    | _ => none

end StudyTech
