import StudyTech.Spec.ZkLock

/-!
# The calls of `ZkLock`

`callStep` is `zkStep` with a record of the calls, which no step reads: the child that a
thread's call created, the children of the calls of `tryLock` that were refused, and the
instances that are past `lock` and before `unlock`, with the child of that call of `lock`.
-/

namespace StudyTech

open Lib

/-- The thread is inside `lock`. -/
def UserPc.inLock : UserPc → Bool
  | .rootExists locking => locking
  | .rootCreate locking => locking
  | .create locking => locking
  | .assignSelf locking _ => locking
  | .isMin locking _ => locking
  | .newLatch => true
  | .awaitLatch => true
  | .parked _ => true
  | _ => false

structure CallWorld (ι τ : Type) where
  world : ZkWorld ι τ
  node : τ → Option String
  refused : List String
  past : ι → Bool
  held : ι → Option String

def CallWorld.init (ι τ : Type) : CallWorld ι τ := ⟨.init ι τ, fun _ => none, [], fun _ => false, fun _ => none⟩

variable {ι τ : Type} (F : ZkFleet ι τ)

/-- The child that a create of the thread makes with the number `seq`. -/
def ZkFleet.child (t : τ) (seq : ℕ) : String := F.name (F.inst t) ++ paddedDecimal ZNode.seqDigits seq

/-- The child that the step of the thread creates. -/
def ZkFleet.created (w : ZkWorld ι τ) (t : τ) (r : Reply) : Option String :=
  match w.user t, r with
  | .create _, .ok seq => some (F.child t seq)
  | .create _, .fail _ (some seq) => some (F.child t seq)
  | _, _ => none

variable [DecidableEq ι] [DecidableEq τ]

/-- A call starts without a child, and gets it from its create. -/
def nodeAfter (s : CallWorld ι τ) : ZkLabel ι τ → τ → Option String
  | .lock t => Function.update s.node t none
  | .tryLock t => Function.update s.node t none
  | .user t r => Function.update s.node t ((F.created s.world t r).or (s.node t))
  | _ => s.node

/-- The step of the thread ends `lock`. -/
def Returns (w w' : ZkWorld ι τ) (t : τ) : Prop := (w.user t).inLock = true ∧ w'.user t = .idle none

instance (w w' : ZkWorld ι τ) (t : τ) : Decidable (Returns w w' t) := inferInstanceAs (Decidable (_ ∧ _))

def callStep (s : CallWorld ι τ) (l : ZkLabel ι τ) : Option (CallWorld ι τ) :=
  (zkStep F s.world l).map fun w' =>
    let s' : CallWorld ι τ := { s with
      world := w'
      node := nodeAfter F s l }
    match l with
    | .user t _ =>
      if Returns s.world w' t then
        { s' with
          past := Function.update s.past (F.inst t) true
          held := Function.update s.held (F.inst t) (s.node t) }
      -- a call that returns false is a public `tryLock`
      else if w'.user t = .idle (some false) then { s' with refused := (s'.node t).toList ++ s.refused }
      else s'
    | .unlock t => { s' with past := Function.update s.past (F.inst t) false }
    | _ => s'

end StudyTech
