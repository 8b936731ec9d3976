import Mathlib.Tactic.Common

/-!
# Fallible actions on a state

`Action ε σ α` is a computation that acts on a state `σ` and ends with a value or
with an exception. Unlike a rollback monad, an exception keeps the state: what the
action did before it threw stays done.
-/

namespace Lib

def Action (ε σ α : Type) := σ → Except ε α × σ

namespace Action

variable {ε σ α β : Type}

protected def pure (a : α) : Action ε σ α := fun s => (.ok a, s)

protected def bind (x : Action ε σ α) (f : α → Action ε σ β) : Action ε σ β := fun s =>
  match x s with
  | (.ok a, s') => f a s'
  | (.error e, s') => (.error e, s')

protected def throw (e : ε) : Action ε σ α := fun s => (.error e, s)

protected def tryCatch (x : Action ε σ α) (handler : ε → Action ε σ α) : Action ε σ α := fun s =>
  match x s with
  | (.ok a, s') => (.ok a, s')
  | (.error e, s') => handler e s'

/-- `try` with `finally`: an exception of `finalizer` takes the place of how `x` ended. -/
protected def tryFinally (x : Action ε σ α) (finalizer : Action ε σ Unit) : Action ε σ α := fun s =>
  let (r, s') := finalizer (x s).2
  (r.bind fun _ => (x s).1, s')

/-- The action on a part of a larger state. -/
def onPart {τ : Type} (get : τ → σ) (set : τ → σ → τ) (x : Action ε σ α) : Action ε τ α := fun t =>
  ((x (get t)).1, set t (x (get t)).2)

instance : Monad (Action ε σ) where
  pure := Action.pure
  bind := Action.bind

instance : MonadExcept ε (Action ε σ) where
  throw := Action.throw
  tryCatch := Action.tryCatch

@[simp] theorem pure_apply (a : α) (s : σ) : (pure a : Action ε σ α) s = (.ok a, s) := rfl

@[simp] theorem throw_apply (e : ε) (s : σ) : (throw e : Action ε σ α) s = (.error e, s) := rfl

theorem bind_ok {x : Action ε σ α} {f : α → Action ε σ β} {s s' : σ} {a : α}
    (h : x s = (.ok a, s')) : (x >>= f) s = f a s' := by
  show Action.bind x f s = _
  simp only [Action.bind, h]

theorem bind_error {x : Action ε σ α} {f : α → Action ε σ β} {s s' : σ} {e : ε}
    (h : x s = (.error e, s')) : (x >>= f) s = (.error e, s') := by
  show Action.bind x f s = _
  simp only [Action.bind, h]

/-- A sequence on a part is the sequence of its actions on the part. -/
theorem onPart_bind {τ : Type} {get : τ → σ} {set : τ → σ → τ} (hget : ∀ t a, get (set t a) = a)
    (hset : ∀ t a b, set (set t a) b = set t b) (x : Action ε σ α) (f : α → Action ε σ β) :
    onPart get set (x >>= f) = onPart get set x >>= fun a => onPart get set (f a) := by
  funext t
  rcases hr : x (get t) with ⟨r, s'⟩
  cases r with
  | ok a =>
    have hx : onPart get set x t = (.ok a, set t s') := by
      unfold onPart
      rw [hr]
    rw [bind_ok hx]
    unfold onPart
    rw [bind_ok hr, hget, hset]
  | error e =>
    have hx : onPart get set x t = (.error e, set t s') := by
      unfold onPart
      rw [hr]
    rw [bind_error hx]
    unfold onPart
    rw [bind_error hr]

/-- A sequence that ends with a value went through the middle. -/
theorem bind_eq_ok {x : Action ε σ α} {f : α → Action ε σ β} {s s' : σ} {b : β}
    (h : (x >>= f) s = (.ok b, s')) : ∃ a m, x s = (.ok a, m) ∧ f a m = (.ok b, s') := by
  rcases hr : x s with ⟨r, m⟩
  cases r with
  | ok a => exact ⟨a, m, rfl, (bind_ok hr).symm.trans h⟩
  | error e =>
    rw [bind_error hr] at h
    cases h

theorem tryCatch_ok {x : Action ε σ α} {handler : ε → Action ε σ α} {s s' : σ} {a : α}
    (h : x s = (.ok a, s')) : (tryCatch x handler : Action ε σ α) s = (.ok a, s') := by
  show Action.tryCatch x handler s = _
  simp only [Action.tryCatch, h]

theorem tryCatch_error {x : Action ε σ α} {handler : ε → Action ε σ α} {s s' : σ} {e : ε}
    (h : x s = (.error e, s')) : (tryCatch x handler : Action ε σ α) s = handler e s' := by
  show Action.tryCatch x handler s = _
  simp only [Action.tryCatch, h]

/-- From `s` the action ends with a result and a state that satisfy `Q`. -/
def Ensures (s : σ) (x : Action ε σ α) (Q : Except ε α → σ → Prop) : Prop := Q (x s).1 (x s).2

theorem Ensures.mono {s : σ} {x : Action ε σ α} {P Q : Except ε α → σ → Prop} (h : Ensures s x P)
    (hPQ : ∀ r s', P r s' → Q r s') : Ensures s x Q := hPQ _ _ h

/-- The rule for a sequence: the first action ends in the middle, or it throws. -/
theorem Ensures.bind {s : σ} {x : Action ε σ α} {f : α → Action ε σ β} {P : Except ε α → σ → Prop}
    {Q : Except ε β → σ → Prop} (hx : Ensures s x P) (hok : ∀ a s', P (.ok a) s' → Ensures s' (f a) Q)
    (herror : ∀ e s', P (.error e) s' → Q (.error e) s') : Ensures s (x >>= f) Q := by
  unfold Ensures at hx ⊢
  rcases hr : x s with ⟨r, s'⟩
  rw [hr] at hx
  cases r with
  | ok a => rw [bind_ok hr]; exact hok a s' hx
  | error e => rw [bind_error hr]; exact herror e s' hx

/-- The rule for a handler. -/
theorem Ensures.tryCatch {s : σ} {x : Action ε σ α} {handler : ε → Action ε σ α} {P Q : Except ε α → σ → Prop}
    (hx : Ensures s x P) (hok : ∀ a s', P (.ok a) s' → Q (.ok a) s')
    (herror : ∀ e s', P (.error e) s' → Ensures s' (handler e) Q) :
    Ensures s (MonadExcept.tryCatch x handler) Q := by
  unfold Ensures at hx ⊢
  rcases hr : x s with ⟨r, s'⟩
  rw [hr] at hx
  cases r with
  | ok a => rw [tryCatch_ok hr]; exact hok a s' hx
  | error e => rw [tryCatch_error hr]; exact herror e s' hx

/-- The rule for `finally`, where the postcondition is about the state only. -/
theorem Ensures.tryFinally {s : σ} {x : Action ε σ α} {finalizer : Action ε σ Unit} {P : Except ε α → σ → Prop}
    {Q : σ → Prop} (hx : Ensures s x P) (hfinal : ∀ r s', P r s' → Q (finalizer s').2) :
    Ensures s (Action.tryFinally x finalizer) fun _ s' => Q s' := hfinal _ _ hx

/-- The action keeps an invariant of the state, however it ends. -/
def Keeps (I : σ → Prop) (x : Action ε σ α) : Prop := ∀ s, I s → I (x s).2

theorem keeps_pure {I : σ → Prop} (a : α) : Keeps I (pure a : Action ε σ α) := fun _ h => h

theorem keeps_throw {I : σ → Prop} (e : ε) : Keeps I (throw e : Action ε σ α) := fun _ h => h

theorem Keeps.bind {I : σ → Prop} {x : Action ε σ α} {f : α → Action ε σ β} (hx : Keeps I x)
    (hf : ∀ a, Keeps I (f a)) : Keeps I (x >>= f) := by
  intro s h
  have h' := hx s h
  rcases hr : x s with ⟨r, s'⟩
  rw [hr] at h'
  cases r with
  | ok a => rw [bind_ok hr]; exact hf a s' h'
  | error e => rw [bind_error hr]; exact h'

theorem Keeps.tryCatch {I : σ → Prop} {x : Action ε σ α} {handler : ε → Action ε σ α}
    (hx : Keeps I x) (hh : ∀ e, Keeps I (handler e)) :
    Keeps I (MonadExcept.tryCatch x handler : Action ε σ α) := by
  intro s h
  have h' := hx s h
  rcases hr : x s with ⟨r, s'⟩
  rw [hr] at h'
  cases r with
  | ok a => rw [tryCatch_ok hr]; exact h'
  | error e => rw [tryCatch_error hr]; exact hh e s' h'

end Action

end Lib
