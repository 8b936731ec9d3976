import Mathlib.Data.Int.Notation
import StudyTech.Lib.JavaString
import StudyTech.Lib.Run
import StudyTech.Lib.WatchedDir

/-!
# The RMI registry in ZooKeeper

`rmiStep` lets any number of `Provider`s run `resister` and any number of `Consumer`s run
`watchNode`, the first time in the constructor and then in the event thread of their
session. A step is one call of RMI or of ZooKeeper, or the write of `urls`. The directory
`/rmi` is what the servers agree on; a change counts as made when the servers of the
consumers have it.

`bound`, `urlsAt`, `last` and the stamp of a read are for the proofs only: the urls for
which `Naming.bind` returned, and the version of the directory at a call of `getChildren`:
the one whose list is in `urls`, the last one, and the one being read.
-/

namespace StudyTech

open Lib

/-- The next step of `resister`. -/
inductive ProviderPc
  | idle
  | createRegistry (url : String)
  | bind (url : String)
  | rootExists (url : String)
  | rootCreate (url : String)
  | createNode (url : String)
  deriving DecidableEq, Repr

/-- The next step of `watchNode`; `todo` are the nodes to read, `list` is the data so far. -/
inductive WatchPc
  | idle
  | getChildren
  | reading (todo list : List String) (stamp : ℕ)
  deriving DecidableEq, Repr

/-- The threads that run `watchNode` of a consumer. -/
inductive RmiThread
  | main
  | event
  deriving DecidableEq, Repr

structure RmiConsumer where
  started : Bool := false
  run : RmiThread → WatchPc := fun _ => .idle
  urls : List String := []
  urlsAt : ℕ := 0
  last : ℕ := 0

structure RmiWorld (π κ : Type) where
  dir : WatchedDir String π String κ
  expired : π → Bool
  provider : π → ProviderPc
  bound : π → List String
  consumer : κ → RmiConsumer

def RmiWorld.init (π κ : Type) : RmiWorld π κ :=
  ⟨.init String π String κ, fun _ => false, fun _ => .idle, fun _ => [], fun _ => {}⟩

/-- How `createRegistry` or `bind` ends: it returns, or throws an exception that `publish`
catches, or another one. -/
inductive PublishEnd
  | returned
  | caught
  | thrown
  deriving DecidableEq, Repr

/-- How a call of ZooKeeper ends; `seq` is the number of the new node, and `executed` says
that the server made the write although the call failed. -/
inductive ZkEnd
  | ok (seq : ℕ)
  | fail (executed : Option ℕ)
  deriving DecidableEq, Repr

/-- A step of `watchNode`: a reply of `getChildren` or `getData`, the write of `urls`, or
an exception other than `NoNodeException`. -/
inductive WatchReply
  | nodes (nodeList : List String)
  | data
  | assign
  | fail
  deriving DecidableEq, Repr

inductive RmiLabel (π κ : Type)
  | resister (p : π) (host : String) (port : ℤ) (service : String)
  | publish (p : π) (r : PublishEnd)
  | register (p : π) (r : ZkEnd)
  | expire (p : π)
  | start (c : κ)
  | deliver (c : κ)
  | watch (c : κ) (th : RmiThread) (r : WatchReply)
  deriving DecidableEq, Repr

/-- `String.format("rmi://%s:%d/%s", host, port, service.getClass().getName())`. -/
def rmiUrl (host : String) (port : ℤ) (service : String) : String :=
  "rmi://" ++ host ++ ":" ++ toString port ++ "/" ++ service

/-- The child that `RMI_SERVICE_PATH` becomes. -/
def serviceNode (seq : ℕ) : String := "service" ++ paddedDecimal 10 seq

/-- `resister` goes on with what `publish` returned. -/
def afterPublish : Option String → ProviderPc
  | some url => .rootExists url
  | none => .idle

def RmiConsumer.goto (st : RmiConsumer) (th : RmiThread) (pc : WatchPc) : RmiConsumer :=
  { st with run := Function.update st.run th pc }

namespace RmiWorld

variable {π κ : Type} (w : RmiWorld π κ)

/-- A node can be created with this number. -/
def Creatable (p : π) (seq : ℕ) : Prop :=
  w.expired p = false ∧ w.dir.created = true ∧ serviceNode seq ∉ w.dir.names

instance (p : π) (seq : ℕ) : Decidable (w.Creatable p seq) := inferInstanceAs (Decidable (_ ∧ _))

variable [DecidableEq π] [DecidableEq κ]

def goto (p : π) (pc : ProviderPc) : RmiWorld π κ := { w with provider := Function.update w.provider p pc }

def addNode (p : π) (seq : ℕ) (url : String) : RmiWorld π κ := { w with dir := w.dir.add ⟨serviceNode seq, p, url⟩ }

def setConsumer (c : κ) (st : RmiConsumer) : RmiWorld π κ :=
  { w with consumer := Function.update w.consumer c st }

end RmiWorld

variable {π κ : Type} [DecidableEq π] [DecidableEq κ]

/-- A step of `publish`. -/
def publishStep (w : RmiWorld π κ) (p : π) : ProviderPc → PublishEnd → Option (RmiWorld π κ)
  | .createRegistry url, .returned => some (w.goto p (.bind url))
  | .createRegistry url, .caught => some (w.goto p (afterPublish (some url)))
  | .createRegistry _, .thrown => some (w.goto p .idle)
  | .bind url, .returned =>
    some { w.goto p (afterPublish (some url)) with bound := Function.update w.bound p (url :: w.bound p) }
  | .bind url, .caught => some (w.goto p (afterPublish (some url)))
  | .bind _, .thrown => some (w.goto p .idle)
  | _, _ => none

/-- A step of `createRootPath` or `createNode`. -/
def registerStep (w : RmiWorld π κ) (p : π) : ProviderPc → ZkEnd → Option (RmiWorld π κ)
  | .rootExists url, .ok _ =>
    if w.expired p = false then some (w.goto p (if w.dir.created then .createNode url else .rootCreate url)) else none
  | .rootExists _, .fail _ => some (w.goto p .idle)
  | .rootCreate url, .ok _ =>
    if w.expired p = false ∧ w.dir.created = false then some { w.goto p (.createNode url) with dir := w.dir.create }
    else none
  | .rootCreate _, .fail executed =>
    some { w.goto p .idle with dir := if executed.isSome ∧ w.expired p = false then w.dir.create else w.dir }
  | .createNode url, .ok seq => if w.Creatable p seq then some ((w.addNode p seq url).goto p .idle) else none
  | .createNode _, .fail none => some (w.goto p .idle)
  | .createNode url, .fail (some seq) =>
    if w.Creatable p seq then some ((w.addNode p seq url).goto p .idle) else none
  | _, _ => none

/-- A step of `watchNode` of consumer `c` in thread `th`. A `NoNodeException` ends it. -/
def watchStep (w : RmiWorld π κ) (c : κ) (th : RmiThread) : WatchPc → WatchReply → Option (RmiWorld π κ)
  | .getChildren, .nodes nodeList =>
    if nodeList.Perm w.dir.names then
      if w.dir.created then
        some { w.setConsumer c { (w.consumer c).goto th (.reading nodeList [] w.dir.version) with
                last := w.dir.version } with
          dir := w.dir.watch c }
      else some (w.setConsumer c ((w.consumer c).goto th .idle))
    else none
  | .getChildren, .fail => some (w.setConsumer c ((w.consumer c).goto th .idle))
  | .reading (node :: todo) list stamp, .data =>
    some (w.setConsumer c ((w.consumer c).goto th
      (match w.dir.dataOf node with
        | some data => .reading todo (list ++ [data]) stamp
        | none => .idle)))
  | .reading (_ :: _) _ _, .fail => some (w.setConsumer c ((w.consumer c).goto th .idle))
  | .reading [] list stamp, .assign =>
    some (w.setConsumer c { (w.consumer c).goto th .idle with
      urls := list
      urlsAt := stamp })
  | _, _ => none

def rmiStep (w : RmiWorld π κ) : RmiLabel π κ → Option (RmiWorld π κ)
  | .resister p host port service =>
    if w.provider p = .idle then some (w.goto p (.createRegistry (rmiUrl host port service))) else none
  | .publish p r => publishStep w p (w.provider p) r
  | .register p r => registerStep w p (w.provider p) r
  | .expire p => some { w with dir := w.dir.removeOwner p, expired := Function.update w.expired p true }
  | .start c =>
    if (w.consumer c).started then none
    else some (w.setConsumer c { (w.consumer c).goto .main .getChildren with started := true })
  | .deliver c =>
    if (w.consumer c).run .event = .idle ∧ 0 < w.dir.events c then
      some { w.setConsumer c ((w.consumer c).goto .event .getChildren) with dir := w.dir.pop c }
    else none
  | .watch c th r => watchStep w c th ((w.consumer c).run th) r

end StudyTech
