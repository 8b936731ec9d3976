import StudyTech.Spec.Rmi

/-!
# `lookup` of a consumer

`lookupStep` runs one call of `lookup` while the event thread replaces the list `urls`, which
is volatile: the size and the element are two reads of it. `registryLookupStep` is the same
call on a consumer of the registry, where `watchNode` replaces the list. `held` is for the
proofs only: the lists that `urls` was during the call.
-/

namespace StudyTech

open Lib

/-- The next step of `lookup`, or how it ended: it returned, having used a url or found none, or
it threw, out of `get` or out of `Naming.lookup`. -/
inductive LookupPc
  | size
  | get (size : ℕ)
  | naming (url : String)
  | returned (url : Option String) (service : Bool)
  | threw (url : Option String)
  deriving DecidableEq, Repr

/-- How `Naming.lookup` ends: with a service, or an exception that `lookup` catches, or
another one. -/
inductive NamingEnd
  | service
  | caught
  | thrown
  deriving DecidableEq, Repr

/-- A step of `lookup`; `index` is the index of the url. -/
inductive LookupCall
  | size
  | get (index : ℕ)
  | naming (r : NamingEnd)
  deriving DecidableEq, Repr

inductive LookupLabel
  | assign (list : List String)
  | call (l : LookupCall)
  deriving DecidableEq, Repr

structure LookupState where
  urls : List String
  pc : LookupPc
  held : List (List String)
  deriving DecidableEq, Repr

def LookupState.start (urls : List String) : LookupState := ⟨urls, .size, [urls]⟩

/-- The url that the call uses. -/
def LookupPc.url : LookupPc → Option String
  | .naming url => some url
  | .returned url _ => url
  | .threw url => url
  | _ => none

def LookupPc.ended : LookupPc → Bool
  | .returned _ _ => true
  | .threw _ => true
  | _ => false

/-- A step of `lookup` where `urls` is the list at the read. -/
def LookupPc.step (urls : List String) : LookupPc → LookupCall → Option LookupPc
  | .size, .size => some (if 0 < urls.length then .get urls.length else .returned none false)
  | .get n, .get index =>
    -- 0 where the size is 1, and a random number otherwise
    if index < n then
      some (match urls[index]? with
        | some url => .naming url
        | none => .threw none)
    else none
  | .naming url, .naming .service => some (.returned (some url) true)
  | .naming url, .naming .caught => some (.returned (some url) false)
  | .naming url, .naming .thrown => some (.threw (some url))
  | _, _ => none

def lookupStep (s : LookupState) : LookupLabel → Option LookupState
  | .assign list => some { s with
      urls := list
      held := if s.pc.ended then s.held else s.held ++ [list] }
  | .call l => (s.pc.step s.urls l).map fun pc => { s with pc := pc }

/-- `lookup` on consumer `c` of the registry. -/
def registryLookupStep {π κ : Type} [DecidableEq π] [DecidableEq κ] (c : κ) (s : RmiWorld π κ × LookupPc) :
    RmiLabel π κ ⊕ LookupCall → Option (RmiWorld π κ × LookupPc)
  | .inl l => (rmiStep s.1 l).map fun w => (w, s.2)
  | .inr l => (s.2.step (s.1.consumer c).urls l).map fun pc => (s.1, pc)

end StudyTech
