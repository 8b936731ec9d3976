import Mathlib.Data.List.Basic
import Mathlib.Tactic.Common

/-!
# Runs of a labelled step function

A machine is a step function `step : S → L → Option S`: what a label makes of a
state, `none` where the label is not enabled. `exec` runs a list of labels.

* `Along ok`: every step of a run satisfies `ok` in the state it starts from.
* `inv_of_along`: an invariant that every step satisfying `ok` preserves holds at
  the end of every run along `ok`.
* `inv_of_history`: the same for an invariant that tells of the labels so far.
* `along_of_run`: such an invariant turns a condition on the steps of a run into
  another one.
* `countP_le_of_exec`: what grows with every step of a kind bounds their number.
* `length_le_of_exec`: what every step makes smaller bounds the length of the runs.
-/

namespace Lib

variable {S L : Type*}

/-- Run the labels from a state. -/
def exec (step : S → L → Option S) (s : S) : List L → Option S
  | [] => some s
  | l :: ls => (step s l).bind fun s' => exec step s' ls

/-- Every step of the run satisfies `ok` in the state it starts from. -/
def Along (step : S → L → Option S) (ok : S → L → Prop) (s : S) : List L → Prop
  | [] => True
  | l :: ls => ok s l ∧ ∀ s', step s l = some s' → Along step ok s' ls

variable {step : S → L → Option S} {ok ok' : S → L → Prop} {I : S → Prop}

@[simp] theorem exec_nil (s : S) : exec step s [] = some s := rfl

@[simp] theorem exec_cons (s : S) (l : L) (ls : List L) :
    exec step s (l :: ls) = (step s l).bind fun s' => exec step s' ls := rfl

theorem exec_append (s : S) (p q : List L) :
    exec step s (p ++ q) = (exec step s p).bind fun m => exec step m q := by
  induction p generalizing s with
  | nil => rfl
  | cons l p ih =>
    simp only [List.cons_append, exec_cons]
    cases step s l with
    | none => rfl
    | some s' => simpa using ih s'

theorem exec_append_some {s m s' : S} {p q : List L} (hp : exec step s p = some m)
    (hq : exec step m q = some s') : exec step s (p ++ q) = some s' := by
  rw [exec_append, hp]; exact hq

theorem exec_append_inv {s s' : S} {p q : List L} (h : exec step s (p ++ q) = some s') :
    ∃ m, exec step s p = some m ∧ exec step m q = some s' := by
  rw [exec_append] at h
  exact Option.bind_eq_some_iff.1 h

theorem exec_cons_inv {s s' : S} {l : L} {ls : List L} (h : exec step s (l :: ls) = some s') :
    ∃ m, step s l = some m ∧ exec step m ls = some s' :=
  Option.bind_eq_some_iff.1 h

@[simp] theorem along_nil (s : S) : Along step ok s [] := trivial

theorem along_cons {s : S} {l : L} {ls : List L} :
    Along step ok s (l :: ls) ↔ ok s l ∧ ∀ s', step s l = some s' → Along step ok s' ls := Iff.rfl

/-- A run is along `ok` when its two parts are. -/
theorem along_append {s : S} {p q : List L} :
    Along step ok s (p ++ q) ↔ Along step ok s p ∧ ∀ m, exec step s p = some m → Along step ok m q := by
  induction p generalizing s with
  | nil => simp
  | cons l p ih =>
    simp only [List.cons_append, along_cons, exec_cons]
    constructor
    · rintro ⟨h, hp⟩
      refine ⟨⟨h, fun s' hs => (ih.1 (hp s' hs)).1⟩, fun m hm => ?_⟩
      obtain ⟨s', hs, hm⟩ := Option.bind_eq_some_iff.1 hm
      exact (ih.1 (hp s' hs)).2 m hm
    · rintro ⟨⟨h, hp⟩, hq⟩
      refine ⟨h, fun s' hs => ih.2 ⟨hp s' hs, fun m hm => hq m ?_⟩⟩
      rw [hs]; exact hm

theorem Along.mono (hok : ∀ s l, ok s l → ok' s l) {s : S} {ls : List L} (h : Along step ok s ls) :
    Along step ok' s ls := by
  induction ls generalizing s with
  | nil => trivial
  | cons l ls ih => exact ⟨hok _ _ h.1, fun s' hs => ih (h.2 s' hs)⟩

theorem along_of_forall_mem {p : L → Prop} {s : S} {ls : List L} (h : ∀ l ∈ ls, p l) :
    Along step (fun _ l => p l) s ls := by
  induction ls generalizing s with
  | nil => trivial
  | cons l ls ih =>
    exact ⟨h l List.mem_cons_self, fun s' _ => ih fun l' hl' => h l' (List.mem_cons_of_mem _ hl')⟩

theorem Along.and {s : S} {ls : List L} (h : Along step ok s ls) (h' : Along step ok' s ls) :
    Along step (fun s l => ok s l ∧ ok' s l) s ls := by
  induction ls generalizing s with
  | nil => trivial
  | cons l ls ih => exact ⟨⟨h.1, h'.1⟩, fun s' hs => ih (h.2 s' hs) (h'.2 s' hs)⟩

instance decidableAlong [∀ s l, Decidable (ok s l)] (s : S) : ∀ ls, Decidable (Along step ok s ls)
  | [] => isTrue trivial
  | l :: ls =>
    match h : step s l with
    | none => decidable_of_iff (ok s l) (by simp [along_cons, h])
    | some s' =>
      have := decidableAlong s' ls
      decidable_of_iff (ok s l ∧ Along step ok s' ls) (by simp [along_cons, h])

/-- **The run rule.** An invariant that the steps satisfying `ok` preserve holds at
the end of every run along `ok`. -/
theorem inv_of_along (hstep : ∀ s l s', I s → ok s l → step s l = some s' → I s') {s s' : S}
    {ls : List L} (h0 : I s) (hok : Along step ok s ls) (hrun : exec step s ls = some s') : I s' := by
  induction ls generalizing s with
  | nil => cases hrun; exact h0
  | cons l ls ih =>
    obtain ⟨m, hm, hrun⟩ := exec_cons_inv hrun
    exact ih (hstep s l m h0 hok.1 hm) (hok.2 m hm) hrun

/-- The run rule without a condition on the steps. -/
theorem inv_of_exec (hstep : ∀ s l s', I s → step s l = some s' → I s') {s s' : S} {ls : List L}
    (h0 : I s) (hrun : exec step s ls = some s') : I s' := by
  induction ls generalizing s with
  | nil => cases hrun; exact h0
  | cons l ls ih =>
    obtain ⟨m, hm, hrun⟩ := exec_cons_inv hrun
    exact ih (hstep s l m h0 hm) hrun

/-- **The history rule.** The run rule for an invariant that tells of the labels so far. -/
theorem inv_of_history {J : List L → S → Prop} {s₀ : S}
    (hstep : ∀ ls s l s', exec step s₀ ls = some s → J ls s → ok s l → step s l = some s' → J (ls ++ [l]) s')
    (h0 : J [] s₀) {ls : List L} {s : S} (hok : Along step ok s₀ ls) (hrun : exec step s₀ ls = some s) : J ls s := by
  -- after the labels `pre` there are the labels `ls` to come
  have key : ∀ ls pre m, exec step s₀ pre = some m → J pre m → Along step ok m ls → exec step m ls = some s →
      J (pre ++ ls) s := by
    intro ls
    induction ls with
    | nil =>
      intro pre m _ hJ _ hrun
      cases hrun
      rwa [List.append_nil]
    | cons l ls ih =>
      intro pre m hpre hJ hok hrun
      obtain ⟨m', hm, hrun⟩ := exec_cons_inv hrun
      have hpre' : exec step s₀ (pre ++ [l]) = some m' := exec_append_some hpre (by rw [exec_cons, hm]; rfl)
      have hJ' := ih (pre ++ [l]) m' hpre' (hstep pre m l m' hpre hJ hok.1 hm) (hok.2 m' hm) hrun
      rwa [List.append_assoc, List.singleton_append] at hJ'
  exact key ls [] s₀ rfl h0 hok hrun

/-- **The step rule.** If the steps satisfying `ok` preserve `I` and satisfy `ok'`
where `I` holds, every run along `ok` from `I` is along `ok'`. -/
theorem along_of_run (hstep : ∀ s l s', I s → ok s l → step s l = some s' → I s')
    (hok' : ∀ s l s', I s → ok s l → step s l = some s' → ok' s l) {s s' : S} {ls : List L} (h0 : I s)
    (hok : Along step ok s ls) (hrun : exec step s ls = some s') : Along step ok' s ls := by
  induction ls generalizing s with
  | nil => trivial
  | cons l ls ih =>
    obtain ⟨m, hm, hrun⟩ := exec_cons_inv hrun
    refine ⟨hok' s l m h0 hok.1 hm, fun m' hm' => ?_⟩
    rw [hm] at hm'
    obtain rfl := Option.some.inj hm'
    exact ih (hstep s l m h0 hok.1 hm) (hok.2 m hm) hrun

/-- **The counting rule.** What grows with every step that has a label in `p`, and never falls,
bounds the number of these labels. -/
theorem countP_le_of_exec {p : L → Bool} (size : S → ℕ)
    (hstep : ∀ s l s', step s l = some s' → size s + (if p l then 1 else 0) ≤ size s') {s s' : S} {ls : List L}
    (hrun : exec step s ls = some s') : size s + ls.countP p ≤ size s' := by
  induction ls generalizing s with
  | nil =>
    cases hrun
    exact Nat.le_refl _
  | cons l ls ih =>
    obtain ⟨m, hm, hrun⟩ := exec_cons_inv hrun
    have hfirst := hstep s l m hm
    have hrest := ih hrun
    rw [List.countP_cons]
    omega

/-- **The measure rule.** What every step makes smaller bounds the length of the runs. -/
theorem length_le_of_exec {I : S → Prop} (size : S → ℕ)
    (hstep : ∀ s l s', I s → step s l = some s' → I s' ∧ size s' < size s) {s s' : S} {ls : List L} (h0 : I s)
    (hrun : exec step s ls = some s') : ls.length + size s' ≤ size s := by
  induction ls generalizing s with
  | nil =>
    cases hrun
    exact Nat.le_of_eq (Nat.zero_add _)
  | cons l ls ih =>
    obtain ⟨m, hm, hrun⟩ := exec_cons_inv hrun
    obtain ⟨hinv, hfirst⟩ := hstep s l m h0 hm
    have hrest := ih hinv hrun
    rw [List.length_cons]
    omega

/-- A label that no step of the run has is not among the labels. -/
theorem not_mem_of_along {x : L} {s s' : S} {ls : List L} (h : Along step (fun _ l => l ≠ x) s ls)
    (hrun : exec step s ls = some s') : x ∉ ls := by
  induction ls generalizing s with
  | nil => simp
  | cons l ls ih =>
    obtain ⟨m, hm, hrun⟩ := exec_cons_inv hrun
    intro hmem
    rcases List.mem_cons.1 hmem with rfl | hmem
    · exact h.1 rfl
    · exact ih (h.2 m hm) hrun hmem

end Lib
