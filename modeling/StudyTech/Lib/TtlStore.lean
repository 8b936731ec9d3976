import Mathlib.Data.Nat.Notation
import Mathlib.Tactic.Common

/-!
# A key/value store with expiry times

A store maps a key to an entry, a value with the time at which it expires (`none`:
never). Every command takes the time at which the store executes it; an entry whose
time has come is not there any more, whether or not it was purged.
-/

namespace Lib

/-- A value and the first moment at which it is gone. -/
structure Entry (V : Type*) where
  value : V
  expireAt : Option ℕ
  deriving DecidableEq, Repr

/-- The entry is still there at time `now`. -/
def Entry.live {V : Type*} (e : Entry V) (now : ℕ) : Bool :=
  match e.expireAt with
  | none => true
  | some d => decide (now < d)

/-- A store. -/
def TtlStore (K V : Type*) := K → Option (Entry V)

namespace TtlStore

variable {K V : Type*}

/-- The store with no entry. -/
def empty : TtlStore K V := fun _ => none

/-- The store with `e` under `k`. -/
def put [DecidableEq K] (st : TtlStore K V) (k : K) (e : Option (Entry V)) : TtlStore K V :=
  fun k' => if k' = k then e else st k'

def get (st : TtlStore K V) (now : ℕ) (k : K) : Option V :=
  (st k).bind fun e => if e.live now then some e.value else none

def hasKey (st : TtlStore K V) (now : ℕ) (k : K) : Bool := (st.get now k).isSome

section Reads

variable {st : TtlStore K V} {now : ℕ} {k : K} {v : V}

@[simp] theorem get_empty : (empty : TtlStore K V).get now k = none := rfl

/-- **Entries only go with time**: what is there later was there before. -/
theorem get_mono {t t' : ℕ} (h : t ≤ t') (hg : st.get t' k = some v) : st.get t k = some v := by
  unfold get at hg ⊢
  cases he : st k with
  | none => rw [he] at hg; simp at hg
  | some e =>
    rw [he] at hg
    simp only [Option.bind_some] at hg ⊢
    -- an entry that is live later is live now
    have hl : e.live t = true := by
      have hl' : e.live t' = true := by by_contra hc; rw [if_neg hc] at hg; cases hg
      unfold Entry.live at hl' ⊢
      cases hd : e.expireAt with
      | none => rfl
      | some d => rw [hd] at hl'; simp only [decide_eq_true_eq] at hl' ⊢; omega
    rw [if_pos hl]
    split at hg
    · exact hg
    · cases hg

/-- Time leaves a value as it is, or removes it. -/
theorem get_later {t t' : ℕ} (h : t ≤ t') (st : TtlStore K V) (k : K) :
    st.get t' k = none ∨ st.get t' k = st.get t k := by
  cases hg : st.get t' k with
  | none => exact Or.inl rfl
  | some v => exact Or.inr (get_mono h hg).symm

end Reads

variable [DecidableEq K]

/-- Store `v` under `k` for `ttl`. -/
def set (st : TtlStore K V) (now : ℕ) (k : K) (v : V) (ttl : ℕ) : TtlStore K V :=
  st.put k (some ⟨v, some (now + ttl)⟩)

/-- Store `v` under `k` for `ttl` unless there is an entry; say whether it was stored. -/
def setIfAbsent (st : TtlStore K V) (now : ℕ) (k : K) (v : V) (ttl : ℕ) : Bool × TtlStore K V :=
  if st.hasKey now k then (false, st) else (true, st.set now k v ttl)

def delete (st : TtlStore K V) (k : K) : TtlStore K V := st.put k none

/-- Let the entry under `k`, if there is one, live for `ttl` from now. -/
def expire (st : TtlStore K V) (now : ℕ) (k : K) (ttl : ℕ) : TtlStore K V :=
  match st.get now k with
  | none => st
  | some v => st.put k (some ⟨v, some (now + ttl)⟩)

variable {st : TtlStore K V} {now : ℕ} {k k' : K} {v : V} {ttl : ℕ}

theorem get_set_self {t : ℕ} :
    (st.set now k v ttl).get t k = if t < now + ttl then some v else none := by
  simp [get, set, put, Entry.live]

theorem get_set_ne {t : ℕ} (h : k' ≠ k) : (st.set now k v ttl).get t k' = st.get t k' := by
  simp [get, set, put, h]

theorem hasKey_set {t : ℕ} :
    (st.set now k v ttl).hasKey t k' = true ↔ (k' = k ∧ t < now + ttl) ∨ (k' ≠ k ∧ st.hasKey t k' = true) := by
  unfold hasKey
  by_cases hk : k' = k
  · subst hk
    rw [get_set_self]
    by_cases ht : t < now + ttl <;> simp [ht]
  · rw [get_set_ne hk]
    simp [hk]

@[simp] theorem get_delete_self {t : ℕ} : (st.delete k).get t k = none := by
  simp [get, delete, put]

theorem get_delete_ne {t : ℕ} (h : k' ≠ k) : (st.delete k).get t k' = st.get t k' := by
  simp [get, delete, put, h]

/-- `expire` changes no value that is there. -/
theorem get_expire (h : 0 < ttl) : (st.expire now k ttl).get now k' = st.get now k' := by
  unfold expire
  cases hv : st.get now k with
  | none => rfl
  | some v =>
    by_cases hk : k' = k
    · subst hk; rw [hv]; simp [get, put, Entry.live, h]
    · simp [get, put, hk]

/-- What is there after `expire` was there before, and is gone `ttl` from now unless the
key was free. -/
theorem get_of_expire {t : ℕ} (h : (st.expire now k ttl).get t k = some v) :
    (st.get now k = some v ∧ t < now + ttl) ∨ (st.get now k = none ∧ st.get t k = some v) := by
  unfold expire at h
  cases hu : st.get now k with
  | none => rw [hu] at h; exact Or.inr ⟨rfl, h⟩
  | some u =>
    rw [hu] at h
    simp only [get, put, Entry.live, if_true, Option.bind_some] at h
    by_cases ht : t < now + ttl
    · simp only [ht, decide_true, if_true] at h
      exact Or.inl ⟨h, ht⟩
    · simp [ht] at h

theorem get_expire_ne {t : ℕ} (h : k' ≠ k) : (st.expire now k ttl).get t k' = st.get t k' := by
  unfold expire
  cases st.get now k with
  | none => rfl
  | some u => simp [get, put, h]

theorem setIfAbsent_of_none (h : st.get now k = none) :
    st.setIfAbsent now k v ttl = (true, st.set now k v ttl) := by
  simp [setIfAbsent, hasKey, h]

theorem setIfAbsent_of_some {u : V} (h : st.get now k = some u) :
    st.setIfAbsent now k v ttl = (false, st) := by
  simp [setIfAbsent, hasKey, h]

theorem setIfAbsent_fst : (st.setIfAbsent now k v ttl).1 = true ↔ st.get now k = none := by
  cases h : st.get now k with
  | none => simp [setIfAbsent_of_none h]
  | some u => simp [setIfAbsent_of_some h]

end TtlStore

end Lib
