import StudyTech.Lib.Run

/-!
# Forward simulation

A machine simulates another along a relation of their states: each step of the concrete
one is matched by steps of the abstract one, by several or by none.

* `Simulates.run`: so is each run.
* `Simulates.inv`: what holds in every state that the abstract machine reaches holds, through the
  relation, in every state that the concrete one reaches.
-/

namespace Lib

variable {S L T M : Type*}

/-- The steps that satisfy `ok` are matched by runs of `abs` along `R`. -/
def Simulates (step : S → L → Option S) (ok : S → L → Prop) (abs : T → M → Option T) (R : S → T → Prop) : Prop :=
  ∀ s l s' t, R s t → ok s l → step s l = some s' → ∃ ms t', exec abs t ms = some t' ∧ R s' t'

variable {step : S → L → Option S} {ok : S → L → Prop} {abs : T → M → Option T} {R : S → T → Prop}
  {s s' : S} {t t' : T}

/-- A step that is matched by none. -/
theorem matched_nil (h : R s' t) : ∃ ms t', exec abs t ms = some t' ∧ R s' t' := ⟨[], t, rfl, h⟩

/-- A step that is matched by one. -/
theorem matched_one {m : M} (hstep : abs t m = some t') (h : R s' t') : ∃ ms t', exec abs t ms = some t' ∧ R s' t' := by
  refine ⟨[m], t', ?_, h⟩
  rw [exec_cons, hstep]
  rfl

/-- **Every run is matched.** -/
theorem Simulates.run (h : Simulates step ok abs R) {ls : List L} (h0 : R s t) (hok : Along step ok s ls)
    (hrun : exec step s ls = some s') : ∃ ms t', exec abs t ms = some t' ∧ R s' t' := by
  induction ls generalizing s t with
  | nil =>
    cases hrun
    exact ⟨[], t, rfl, h0⟩
  | cons l ls ih =>
    obtain ⟨m, hm, hrun⟩ := exec_cons_inv hrun
    obtain ⟨ms, u, hms, hu⟩ := h s l m t h0 hok.1 hm
    obtain ⟨ms', t', hms', ht'⟩ := ih hu (hok.2 m hm) hrun
    exact ⟨ms ++ ms', t', exec_append_some hms hms', ht'⟩

/-- **Invariants go down.** -/
theorem Simulates.inv (h : Simulates step ok abs R) {I : T → Prop}
    (hinv : ∀ t m t', I t → abs t m = some t' → I t') {ls : List L} (h0 : R s t) (ht : I t)
    (hok : Along step ok s ls) (hrun : exec step s ls = some s') : ∃ t', R s' t' ∧ I t' := by
  obtain ⟨ms, t', hms, hR⟩ := h.run h0 hok hrun
  exact ⟨t', hR, inv_of_exec hinv ht hms⟩

end Lib
