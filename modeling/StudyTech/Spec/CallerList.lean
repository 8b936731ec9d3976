import Mathlib.Logic.Function.Basic
import StudyTech.Spec.DingTalk

/-!
# The caller's list

The lists of mobiles are objects of the callers, who hand over a reference. `createChat` adds the
owner to the list that it was given; `sendNotice` and `addCharUser` read theirs. Where the list
can be modified, the rest of `createChat` is that of `DingTalkRemote.createChat`.
-/

namespace StudyTech

open Lib

/-- A `java.util.List` of mobiles. -/
structure MobileList where
  elements : List (Option String)
  modifiable : Bool
  deriving DecidableEq, Repr

/-- A reference to a list. -/
abbrev ListRef := ℕ

structure CallerState where
  dingTalk : DingTalkState
  lists : ListRef → MobileList

abbrev CallerAct (α : Type) := Action JavaException CallerState α

/-- An action that has no list at hand. -/
def onDingTalk {α : Type} (x : DingTalkAct α) : CallerAct α :=
  x.onPart (·.dingTalk) fun s dingTalk => { s with dingTalk := dingTalk }

def elementsOf (list : ListRef) : CallerAct (List (Option String)) := fun s => (.ok (s.lists list).elements, s)

def unsupportedOperation : JavaException := ⟨"java.lang.UnsupportedOperationException", none⟩

/-- `List.add`. -/
def addElement (list : ListRef) (mobile : Option String) : CallerAct Unit := fun s =>
  if (s.lists list).modifiable then
    (.ok (), { s with
      lists := Function.update s.lists list ⟨(s.lists list).elements ++ [mobile], (s.lists list).modifiable⟩ })
  else (.error unsupportedOperation, s)

/-- A call of a caller, with the rest of its arguments. -/
inductive CallerOp
  | sendNotice (agentId : Option String) (message : Option DingTalkMessage)
  | createChat (ownerMobile name : Option String)
  | addCharUser (chatId : Option String)

/-- What the call returns. -/
abbrev CallerOp.Result : CallerOp → Type
  | .sendNotice _ _ => Bool
  | .createChat _ _ => Option String
  | .addCharUser _ => Unit

namespace DingTalkRemote

variable (R : DingTalkRemote)

/-- `createChat` on the caller's list. -/
def createChatOn (accessToken : Option String) (list : ListRef) (ownerMobile name : Option String) :
    CallerAct (Option String) :=
  match name with
  | none => throw (illegalArgument "群名称为空")
  | some name => do
    let mobileList ← elementsOf list
    match mobileList, accessToken with
    | [], _ => throw (illegalArgument "群成员手机号为空")
    | _ :: _, none => throw (illegalArgument "accessToken为空")
    | first :: _, some accessToken => do
      let ownerMobile := if isBlank ownerMobile then first else ownerMobile
      addElement list ownerMobile
      let owner ← onDingTalk (R.getUserId accessToken ownerMobile)
      let mobileList ← elementsOf list
      let userIds ← onDingTalk (R.getUserIds mobileList accessToken)
      onDingTalk (R.createChatWith accessToken name owner userIds)

/-- The call on the caller's list. -/
def call (accessToken : Option String) (list : ListRef) : (op : CallerOp) → CallerAct op.Result
  | .sendNotice agentId message => do
    let mobileList ← elementsOf list
    onDingTalk (R.sendNotice accessToken agentId mobileList message)
  | .createChat ownerMobile name => R.createChatOn accessToken list ownerMobile name
  | .addCharUser chatId => do
    let mobileList ← elementsOf list
    onDingTalk (R.addCharUser accessToken chatId mobileList)

end DingTalkRemote

/-- A call that a caller makes: the access token that it is given, its list and the rest. -/
structure CallerCall where
  accessToken : Option String
  list : ListRef
  op : CallerOp

/-- The calls one after the other; a caller goes on after an exception. -/
def DingTalkRemote.calls (R : DingTalkRemote) (s : CallerState) (cs : List CallerCall) : CallerState :=
  cs.foldl (fun s c => (R.call c.accessToken c.list c.op s).2) s

end StudyTech
