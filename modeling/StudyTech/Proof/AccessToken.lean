import StudyTech.Lib.Run
import StudyTech.Spec.AccessToken

/-!
# The access tokens that are handed out are valid

A token is stored for 100 seconds less than it is valid. So it is valid whenever it is handed out, as long as an
answer is stored within these 100 seconds (`Prompt`), whatever threads call, and whoever else uses the
application (`token_valid`). Errors are not stored: the next call asks again.
-/

namespace StudyTech

open Lib

variable {τ : Type} [DecidableEq τ] {agentId : Option String} {w w' : TokenWorld τ} {l : TokenLabel τ}

/-- What a step does. -/
inductive TokenEffect (agentId : Option String) (w : TokenWorld τ) : TokenLabel τ → TokenWorld τ → Prop
  | tick : TokenEffect agentId w .tick { w with now := w.now + 1 }
  | setOpen {isOpen} : TokenEffect agentId w (.setOpen isOpen) { w with isOpen := isOpen }
  | noAgent {t} (hout : (w.pc t).isOut = true) : TokenEffect agentId w (.get t) (w.goto t (.returned none w.now))
  | present {t accessToken} (hout : (w.pc t).isOut = true) (hget : w.getIfPresent = some accessToken) :
    TokenEffect agentId w (.get t) (w.goto t (.returned (some accessToken) w.now))
  | wait {t t'} (hout : (w.pc t).isOut = true) (hloading : w.loading = some t') :
    TokenEffect agentId w (.get t) (w.goto t .waiting)
  | load {t} (hout : (w.pc t).isOut = true) (hget : w.getIfPresent = none) (hloading : w.loading = none) :
    TokenEffect agentId w (.get t) { w.goto t .loader with loading := some t }
  | closed {t} (hpc : w.pc t = .loader) : TokenEffect agentId w (.send t) (w.goto t (.answered (some .empty) w.now))
  | send {t} (hpc : w.pc t = .loader) :
    TokenEffect agentId w (.send t) { w.goto t .sent with requests := w.requests + 1 }
  | answer {t dto accessToken} (hpc : w.pc t = .sent) (hload : loadAccessToken dto = some accessToken) :
    TokenEffect agentId w (.answer t dto) ((w.serve accessToken).goto t (.answered dto w.now))
  | refused {t dto} (hpc : w.pc t = .sent) (hload : loadAccessToken dto = none) :
    TokenEffect agentId w (.answer t dto) (w.goto t (.answered dto w.now))
  | fail {t} (hpc : w.pc t = .sent) : TokenEffect agentId w (.fail t) (w.goto t (.answered (some .empty) w.now))
  | complete {t dto time} (hpc : w.pc t = .answered dto time) :
    TokenEffect agentId w (.complete t) (w.finish t (loadAccessToken dto))
  | other {accessToken} : TokenEffect agentId w (.other accessToken) (w.serve accessToken)

theorem tokenStep_effect (hs : tokenStep agentId w l = some w') : TokenEffect agentId w l w' := by
  cases l with
  | tick => cases hs; exact .tick
  | setOpen isOpen => cases hs; exact .setOpen
  | get t =>
    simp only [tokenStep] at hs
    split at hs
    · next hout =>
      split at hs
      · cases hs; exact .noAgent hout
      · next hget => cases hs; exact .present hout hget
      · next hloading => cases hs; exact .wait hout hloading
      · next hget hloading => cases hs; exact .load hout hget hloading
    · cases hs
  | send t =>
    simp only [tokenStep] at hs
    split at hs
    · next hpc =>
      split at hs
      · cases hs; exact .closed hpc
      · cases hs; exact .send hpc
    · cases hs
  | answer t dto =>
    simp only [tokenStep] at hs
    split at hs
    · next hpc =>
      split at hs
      · next hload =>
        split at hs
        · cases hs; exact .answer hpc hload
        · cases hs
      · next hload => cases hs; exact .refused hpc hload
    · cases hs
  | fail t =>
    simp only [tokenStep] at hs
    split at hs
    · next hpc => cases hs; exact .fail hpc
    · cases hs
  | complete t =>
    simp only [tokenStep] at hs
    split at hs
    · next hpc => cases hs; exact .complete hpc
    · cases hs
  | other accessToken =>
    simp only [tokenStep] at hs
    split at hs
    · cases hs; exact .other
    · cases hs

/-- An answer with a token is at most 100 seconds old. -/
def TokenPc.Recent (now : ℕ) : TokenPc → Prop
  | .answered dto time => loadAccessToken dto = none ∨ now + expireTime ≤ time + tokenValidity
  | _ => True

/-- Answers are stored within 100 seconds. -/
def Prompt (w : TokenWorld τ) : TokenLabel τ → Prop
  | .complete t => (w.pc t).Recent w.now
  | _ => True

/-- What there is to say of a thread where it is. -/
def TokenWorld.Place (w : TokenWorld τ) : TokenPc → Prop
  | .answered dto time => ∀ accessToken, loadAccessToken dto = some accessToken → (accessToken, time) ∈ w.issued
  | .returned accessToken time => ∀ k, accessToken = some k → w.Valid k time
  | .waiting => w.loading ≠ none
  | _ => True

/-- The invariant of the runs along `Prompt`. -/
structure TokenInv (w : TokenWorld τ) : Prop where
  past : ∀ issue ∈ w.issued, issue.2 ≤ w.now
  place : ∀ t, w.Place (w.pc t)
  cache : ∀ accessToken written, w.cache = some (accessToken, written) → written ≤ w.now ∧
    ∃ issue ∈ w.issued, issue.1 = accessToken ∧ issue.2 ≤ written ∧ written + expireTime ≤ issue.2 + tokenValidity
  loader : ∀ t, (w.pc t).loads = true ↔ w.loading = some t
  absent : w.loading ≠ none → w.getIfPresent = none
  unwritten : w.cache = none → w.stored = 0
  written : ∀ accessToken written, w.cache = some (accessToken, written) → w.stored * expireTime ≤ written + expireTime
  free : w.loading = none → w.requests ≤ w.stored + w.failed
  busy : ∀ t, w.loading = some t → w.requests ≤ w.stored + w.failed + (if w.pc t = .loader then 0 else 1)

omit [DecidableEq τ] in
theorem tokenInv_init (isOpen : Option Bool) : TokenInv (TokenWorld.init τ isOpen) := by
  refine ⟨?_, fun t => trivial, ?_, ?_, fun h => absurd rfl h, fun _ => rfl, ?_, fun _ => Nat.le_refl _, ?_⟩
  · intro issue h
    cases h
  · intro accessToken written h
    cases h
  · intro t
    constructor
    · intro h
      cases h
    · intro h
      cases h
  · intro accessToken written h
    cases h
  · intro t h
    cases h

omit [DecidableEq τ] in
/-- What is said of a thread stays true. -/
theorem TokenWorld.Place.mono (hissued : w.issued ⊆ w'.issued) (hloading : w.loading ≠ none → w'.loading ≠ none)
    {pc : TokenPc} (h : w.Place pc) : w'.Place pc := by
  cases pc with
  | answered dto time => exact fun accessToken hload => hissued (h accessToken hload)
  | returned accessToken time =>
    intro k hk
    obtain ⟨issue, hmem, hissue⟩ := h k hk
    exact ⟨issue, hissued hmem, hissue⟩
  | waiting => exact hloading h
  | idle => trivial
  | loader => trivial
  | sent => trivial

/-- One thread goes on, inside the loader or outside it, and more tokens may have been issued. -/
theorem TokenInv.thread (h : TokenInv w) {t : τ} {pc : TokenPc} (hnow : w'.now = w.now) (hcache : w'.cache = w.cache)
    (hloading : w'.loading = w.loading) (hpc : w'.pc = Function.update w.pc t pc) (hstored : w'.stored = w.stored)
    (hfailed : w'.failed = w.failed) (hissued : w.issued ⊆ w'.issued) (hpast : ∀ issue ∈ w'.issued, issue.2 ≤ w.now)
    (hplace : w'.Place pc) (hloads : pc.loads = (w.pc t).loads)
    (hrequests : w'.requests = w.requests ∧ (w.pc t = .loader ∨ pc ≠ .loader) ∨
      w'.requests = w.requests + 1 ∧ w.pc t = .loader ∧ pc ≠ .loader) : TokenInv w' := by
  have hself : w'.pc t = pc := by rw [hpc, Function.update_self]
  have hother : ∀ t', t' ≠ t → w'.pc t' = w.pc t' := by
    intro t' ht'
    rw [hpc, Function.update_of_ne ht']
  have hsame : ∀ t', (w'.pc t').loads = (w.pc t').loads := by
    intro t'
    by_cases ht' : t' = t
    · rw [ht', hself, hloads]
    · rw [hother t' ht']
  refine ⟨fun issue hmem => hnow ▸ hpast issue hmem, fun t' => ?_, fun accessToken written hc => ?_, fun t' => ?_,
    fun hbusy => ?_, fun hc => ?_, fun accessToken written hc => ?_, fun hfree => ?_, fun t' hbusy => ?_⟩
  · by_cases ht' : t' = t
    · rw [ht', hself]
      exact hplace
    · rw [hother t' ht']
      exact (h.place t').mono hissued (fun hl => hloading ▸ hl)
  · obtain ⟨hle, issue, hmem, hissue⟩ := h.cache accessToken written (hcache ▸ hc)
    exact ⟨hnow ▸ hle, issue, hissued hmem, hissue⟩
  · rw [hsame, hloading]
    exact h.loader t'
  · unfold TokenWorld.getIfPresent
    rw [hcache, hnow]
    exact h.absent (hloading ▸ hbusy)
  · rw [hstored]
    exact h.unwritten (hcache ▸ hc)
  · rw [hstored]
    exact h.written accessToken written (hcache ▸ hc)
  · have hnone : w.loading = none := hloading ▸ hfree
    rw [hstored, hfailed]
    rcases hrequests with ⟨hr, -⟩ | ⟨-, hloader, -⟩
    · rw [hr]
      exact h.free hnone
    · have hsome := (h.loader t).1 (by rw [hloader]; rfl)
      rw [hnone] at hsome
      cases hsome
  · have hbusy' : w.loading = some t' := hloading ▸ hbusy
    have hle := h.busy t' hbusy'
    rw [hstored, hfailed]
    by_cases ht' : t' = t
    · subst ht'
      rw [hself]
      rcases hrequests with ⟨hr, hloader | hnot⟩ | ⟨hr, hloader, hnot⟩
      · rw [if_pos hloader] at hle
        omega
      · rw [if_neg hnot]
        split at hle
        · omega
        · omega
      · rw [if_pos hloader] at hle
        rw [if_neg hnot]
        omega
    · rw [hother t' ht']
      rcases hrequests with ⟨hr, -⟩ | ⟨-, hloader, -⟩
      · rw [hr]
        exact hle
      · have hsome := (h.loader t).1 (by rw [hloader]; rfl)
        rw [hbusy'] at hsome
        exact absurd (Option.some.inj hsome) ht'

omit [DecidableEq τ] in
/-- A thread in no call runs no loader. -/
theorem loads_of_isOut {pc : TokenPc} (h : pc.isOut = true) : pc.loads = false := by
  cases pc with
  | idle => rfl
  | returned _ _ => rfl
  | _ => cases h

omit [DecidableEq τ] in
/-- An entry that has not expired is valid. -/
theorem TokenInv.valid_present (h : TokenInv w) {accessToken : String} (hget : w.getIfPresent = some accessToken) :
    w.Valid accessToken w.now := by
  obtain ⟨⟨token, written⟩, hcache, hlive⟩ := Option.bind_eq_some_iff.1 hget
  obtain ⟨hlt, heq⟩ := Option.ite_none_right_eq_some.1 hlive
  cases heq
  obtain ⟨hle, issue, hmem, htoken, hissue, hvalid⟩ := h.cache _ _ hcache
  refine ⟨issue, hmem, htoken, ?_, ?_⟩
  · omega
  · omega

omit [DecidableEq τ] in
/-- What the loader ends with is valid. -/
theorem TokenInv.valid_answered (h : TokenInv w) {t : τ} {dto : Option AccessTokenResponseDTO} {time : ℕ}
    (hpc : w.pc t = .answered dto time) (hok : Prompt w (.complete t)) {accessToken : String}
    (hload : loadAccessToken dto = some accessToken) :
    (accessToken, time) ∈ w.issued ∧ time ≤ w.now ∧ w.now + expireTime ≤ time + tokenValidity := by
  have hplace := h.place t
  rw [hpc] at hplace
  have hmem := hplace accessToken hload
  refine ⟨hmem, h.past _ hmem, ?_⟩
  have hrecent : (w.pc t).Recent w.now := hok
  rw [hpc] at hrecent
  rcases hrecent with hnone | hle
  · rw [hnone] at hload
    cases hload
  · exact hle

omit [DecidableEq τ] in
/-- While a thread loads, what is stored has expired. -/
theorem TokenInv.expired (h : TokenInv w) (hbusy : w.loading ≠ none) {accessToken : String} {written : ℕ}
    (hcache : w.cache = some (accessToken, written)) : written + expireTime ≤ w.now := by
  have hnone := h.absent hbusy
  unfold TokenWorld.getIfPresent at hnone
  rw [hcache] at hnone
  by_contra hlt
  exact Option.some_ne_none _ ((if_pos (Nat.lt_of_not_le hlt)).symm.trans hnone)

/-- The loader ends. -/
theorem TokenInv.finish (h : TokenInv w) {t : τ} {dto : Option AccessTokenResponseDTO} {time : ℕ}
    (hpc : w.pc t = .answered dto time) (hok : Prompt w (.complete t)) :
    TokenInv (w.finish t (loadAccessToken dto)) := by
  have hloading : w.loading = some t := (h.loader t).1 (by rw [hpc]; rfl)
  have hrequests := h.busy t hloading
  rw [hpc, if_neg TokenPc.noConfusion] at hrequests
  have hvalid : ∀ {accessToken}, loadAccessToken dto = some accessToken → w.Valid accessToken w.now := by
    intro accessToken hload
    obtain ⟨hmem, hle, hlt⟩ := h.valid_answered hpc hok hload
    unfold expireTime at hlt
    exact ⟨_, hmem, rfl, hle, by show w.now < time + tokenValidity; omega⟩
  refine ⟨h.past, fun t' => ?_, fun accessToken written hc => ?_, fun t' => ?_, fun hbusy => absurd rfl hbusy,
    fun hc => ?_, fun accessToken written hc => ?_, fun _ => ?_, fun t' hbusy => ?_⟩
  · show TokenWorld.Place _ (if t' = t ∨ w.pc t' = .waiting then _ else _)
    split
    · exact fun k hk => hvalid hk
    · next hnot =>
      have hplace := h.place t'
      cases hpc' : w.pc t' with
      | waiting => exact absurd (.inr hpc') hnot
      | answered dto' time' => rw [hpc'] at hplace; exact hplace
      | returned token time' => rw [hpc'] at hplace; exact hplace
      | _ => trivial
  · cases hload : loadAccessToken dto with
    | none =>
      rw [hload] at hc
      exact h.cache accessToken written hc
    | some token =>
      rw [hload] at hc
      cases hc
      obtain ⟨hmem, hle, hlt⟩ := h.valid_answered hpc hok hload
      exact ⟨Nat.le_refl _, _, hmem, rfl, hle, hlt⟩
  · show (if t' = t ∨ w.pc t' = .waiting then _ else w.pc t').loads = true ↔ none = some t'
    constructor
    · intro hloads
      split at hloads
      · cases hloads
      · next hnot =>
        have hsame := (h.loader t').1 hloads
        rw [hloading] at hsame
        exact absurd (.inl (Option.some.inj hsame).symm) hnot
    · intro hnone
      cases hnone
  · cases hload : loadAccessToken dto with
    | none =>
      rw [hload] at hc
      exact h.unwritten hc
    | some token =>
      rw [hload] at hc
      cases hc
  · cases hload : loadAccessToken dto with
    | none =>
      rw [hload] at hc
      exact h.written accessToken written hc
    | some token =>
      rw [hload] at hc
      cases hc
      show (w.stored + 1) * expireTime ≤ w.now + expireTime
      cases hcache : w.cache with
      | none =>
        rw [h.unwritten hcache]
        omega
      | some entry =>
        have hold := h.written entry.1 entry.2 hcache
        have hwait := h.expired (by rw [hloading]; exact Option.some_ne_none t) hcache
        rw [Nat.add_mul]
        omega
  · show w.requests ≤ (if (loadAccessToken dto).isSome then w.stored + 1 else w.stored) +
      (if (loadAccessToken dto).isSome then w.failed else w.failed + 1)
    split
    · omega
    · omega
  · cases hbusy

omit [DecidableEq τ] in
/-- Time passes; an entry that has expired stays so. -/
theorem TokenInv.tick (h : TokenInv w) : TokenInv { w with now := w.now + 1 } := by
  refine ⟨fun issue hmem => Nat.le_succ_of_le (h.past issue hmem),
    fun t => (h.place t).mono (fun _ hmem => hmem) id, fun accessToken written hc => ?_, h.loader, fun hbusy => ?_,
    h.unwritten, h.written, h.free, h.busy⟩
  · obtain ⟨hle, hissue⟩ := h.cache accessToken written hc
    exact ⟨Nat.le_succ_of_le hle, hissue⟩
  · have hnone := h.absent hbusy
    unfold TokenWorld.getIfPresent at hnone ⊢
    cases hc : w.cache with
    | none => rfl
    | some entry =>
      rw [hc] at hnone
      have hdead : ¬ w.now < entry.2 + expireTime := by
        intro hlt
        exact Option.some_ne_none _ ((if_pos hlt).symm.trans hnone)
      exact if_neg fun hlt => hdead (Nat.lt_of_succ_lt hlt)

/-- A thread becomes the one that loads. -/
theorem TokenInv.load (h : TokenInv w) {t : τ} (hget : w.getIfPresent = none) (hloading : w.loading = none) :
    TokenInv { w.goto t .loader with loading := some t } := by
  have hfree := h.free hloading
  have hnone : ∀ t', (w.pc t').loads = false := by
    intro t'
    cases hl : (w.pc t').loads with
    | false => rfl
    | true =>
      have hsome := (h.loader t').1 hl
      rw [hloading] at hsome
      cases hsome
  refine ⟨h.past, fun t' => ?_, h.cache, fun t' => ?_, fun _ => hget, h.unwritten, h.written, ?_, ?_⟩
  · by_cases ht : t' = t
    · subst ht
      show TokenWorld.Place { w.goto t' .loader with loading := some t' } (Function.update w.pc t' .loader t')
      rw [Function.update_self]
      exact trivial
    · show TokenWorld.Place { w.goto t .loader with loading := some t } (Function.update w.pc t .loader t')
      rw [Function.update_of_ne ht]
      refine TokenWorld.Place.mono ?_ ?_ (h.place t')
      · exact List.Subset.refl _
      · exact fun _ => Option.some_ne_none t
  · show (Function.update w.pc t .loader t').loads = true ↔ some t = some t'
    by_cases ht : t' = t
    · subst ht
      rw [Function.update_self]
      exact ⟨fun _ => rfl, fun _ => rfl⟩
    · rw [Function.update_of_ne ht, hnone t']
      exact ⟨fun hfalse => absurd hfalse Bool.false_ne_true, fun heq => absurd (Option.some.inj heq).symm ht⟩
  · intro hnone
    cases hnone
  · rintro t' ⟨⟩
    show w.requests ≤ w.stored + w.failed + _
    omega

omit [DecidableEq τ] in
/-- A token that was answered just now is one of the past. -/
theorem TokenInv.past_serve (h : TokenInv w) (accessToken : String) :
    ∀ issue ∈ (w.serve accessToken).issued, issue.2 ≤ w.now := by
  intro issue hmem
  rcases List.mem_cons.1 hmem with rfl | hmem
  · exact Nat.le_refl _
  · exact h.past issue hmem

omit [DecidableEq τ] in
/-- Another client gets the token. -/
theorem TokenInv.other (h : TokenInv w) (accessToken : String) : TokenInv (w.serve accessToken) := by
  have hsub : w.issued ⊆ (w.serve accessToken).issued := List.subset_cons_self _ _
  refine ⟨h.past_serve accessToken, fun t => (h.place t).mono hsub id, fun token written hc => ?_, h.loader, h.absent,
    h.unwritten, h.written, h.free, h.busy⟩
  obtain ⟨hle, issue, hmem, hissue⟩ := h.cache token written hc
  exact ⟨hle, issue, hsub hmem, hissue⟩

/-- **One step.** -/
theorem tokenInv_step (h : TokenInv w) (hok : Prompt w l) (hs : tokenStep agentId w l = some w') : TokenInv w' := by
  cases tokenStep_effect hs with
  | tick => exact h.tick
  | setOpen => exact ⟨h.past, h.place, h.cache, h.loader, h.absent, h.unwritten, h.written, h.free, h.busy⟩
  | @noAgent t hout =>
    refine h.thread rfl rfl rfl rfl rfl rfl (List.Subset.refl _) h.past ?_ (loads_of_isOut hout).symm
      (.inl ⟨rfl, .inr TokenPc.noConfusion⟩)
    intro k hk
    cases hk
  | @present t accessToken hout hget =>
    refine h.thread rfl rfl rfl rfl rfl rfl (List.Subset.refl _) h.past ?_ (loads_of_isOut hout).symm
      (.inl ⟨rfl, .inr TokenPc.noConfusion⟩)
    rintro k ⟨⟩
    exact h.valid_present hget
  | @wait t t' hout hloading =>
    refine h.thread rfl rfl rfl rfl rfl rfl (List.Subset.refl _) h.past ?_ (loads_of_isOut hout).symm
      (.inl ⟨rfl, .inr TokenPc.noConfusion⟩)
    show w.loading ≠ none
    rw [hloading]
    exact Option.some_ne_none t'
  | load _ hget hloading => exact h.load hget hloading
  | @closed t hpc =>
    refine h.thread rfl rfl rfl rfl rfl rfl (List.Subset.refl _) h.past ?_ (by rw [hpc]; rfl) (.inl ⟨rfl, .inl hpc⟩)
    intro accessToken hload
    cases hload
  | @send t hpc =>
    exact h.thread rfl rfl rfl rfl rfl rfl (List.Subset.refl _) h.past trivial (by rw [hpc]; rfl)
      (.inr ⟨rfl, hpc, TokenPc.noConfusion⟩)
  | @answer t dto accessToken hpc hload =>
    refine h.thread rfl rfl rfl rfl rfl rfl (List.subset_cons_self _ _) (h.past_serve accessToken) ?_ (by rw [hpc]; rfl)
      (.inl ⟨rfl, .inr TokenPc.noConfusion⟩)
    intro k hk
    obtain rfl : accessToken = k := Option.some.inj (hload.symm.trans hk)
    exact List.mem_cons_self
  | @refused t dto hpc hload =>
    refine h.thread rfl rfl rfl rfl rfl rfl (List.Subset.refl _) h.past ?_ (by rw [hpc]; rfl)
      (.inl ⟨rfl, .inr TokenPc.noConfusion⟩)
    intro k hk
    rw [hload] at hk
    cases hk
  | @fail t hpc =>
    refine h.thread rfl rfl rfl rfl rfl rfl (List.Subset.refl _) h.past ?_ (by rw [hpc]; rfl)
      (.inl ⟨rfl, .inr TokenPc.noConfusion⟩)
    intro accessToken hload
    cases hload
  | complete hpc => exact h.finish hpc hok
  | other => exact h.other _

/-- What became of the request that `t` sent in `w₁`: it is not through, or it failed and no token was stored since,
or one was. -/
inductive SentSince (w₁ : TokenWorld τ) (t : τ) (w : TokenWorld τ) : Prop
  | loads (hstored : w.stored = w₁.stored) (hfailed : w.failed = w₁.failed) (hloading : w.loading = some t)
    (hpc : w.pc t ≠ .loader)
  | failed (hstored : w.stored = w₁.stored) (hfailed : w₁.failed < w.failed)
  | stored {accessToken : String} {written : ℕ} (hcache : w.cache = some (accessToken, written))
    (hle : w₁.now ≤ written)

/-- A step that ends no loader leaves the cache alone; and while a thread loads, no other begins to. -/
theorem TokenEffect.frame (h : TokenEffect agentId w l w') :
    (∃ t dto, w' = w.finish t (loadAccessToken dto)) ∨
    w.now ≤ w'.now ∧ w'.cache = w.cache ∧ w'.stored = w.stored ∧ w'.failed = w.failed ∧
      ∀ t, w.loading = some t → w'.loading = some t ∧ (w.pc t ≠ .loader → w'.pc t ≠ .loader) := by
  have hgoto : ∀ {t : τ} {pc : TokenPc}, pc ≠ .loader → ∀ t', w.pc t' ≠ .loader →
      Function.update w.pc t pc t' ≠ .loader := by
    intro t pc hpc t' hne
    by_cases ht : t' = t
    · rw [ht, Function.update_self]
      exact hpc
    · rwa [Function.update_of_ne ht]
  cases h with
  | tick => exact .inr ⟨Nat.le_succ _, rfl, rfl, rfl, fun _ hl => ⟨hl, id⟩⟩
  | complete hpc => exact .inl ⟨_, _, rfl⟩
  | load _ _ hloading =>
    refine .inr ⟨Nat.le_refl _, rfl, rfl, rfl, fun t hl => ?_⟩
    rw [hloading] at hl
    cases hl
  | setOpen => exact .inr ⟨Nat.le_refl _, rfl, rfl, rfl, fun _ hl => ⟨hl, id⟩⟩
  | other => exact .inr ⟨Nat.le_refl _, rfl, rfl, rfl, fun _ hl => ⟨hl, id⟩⟩
  | _ => exact .inr ⟨Nat.le_refl _, rfl, rfl, rfl, fun t hl => ⟨hl, hgoto TokenPc.noConfusion t⟩⟩

theorem sentSince_step {w₁ : TokenWorld τ} {t : τ} (h : w₁.now ≤ w.now ∧ SentSince w₁ t w)
    (hs : tokenStep agentId w l = some w') : w₁.now ≤ w'.now ∧ SentSince w₁ t w' := by
  obtain ⟨hnow, hsince⟩ := h
  rcases (tokenStep_effect hs).frame with ⟨t', dto, rfl⟩ | ⟨hle, hcache, hstored, hfailed, hloads⟩
  · refine ⟨hnow, ?_⟩
    cases hload : loadAccessToken dto with
    | some accessToken =>
      have hcache : (w.finish t' (some accessToken)).cache = some (accessToken, w.now) := rfl
      exact .stored hcache hnow
    | none =>
      cases hsince with
      | loads hstored hfailed => exact .failed hstored (hfailed ▸ Nat.lt_succ_self _)
      | failed hstored hfailed => exact .failed hstored (Nat.lt_succ_of_lt hfailed)
      | stored hcache hle => exact .stored hcache hle
  · refine ⟨Nat.le_trans hnow hle, ?_⟩
    cases hsince with
    | loads hs hf hl hpc =>
      obtain ⟨hl', hpc'⟩ := hloads t hl
      exact .loads (hstored.trans hs) (hfailed.trans hf) hl' (hpc' hpc)
    | failed hs hf => exact .failed (hstored.trans hs) (hfailed ▸ hf)
    | stored hc hw => exact .stored (hcache.trans hc) hw

/-- The thread that sends is the one that loads, and then it has sent. -/
theorem sentSince_send {t : τ} (h : TokenInv w) (hs : tokenStep agentId w (.send t) = some w') :
    w.now ≤ w'.now ∧ SentSince w t w' := by
  have hsent : ∀ {pc : TokenPc}, pc ≠ .loader → Function.update w.pc t pc t ≠ .loader := by
    intro pc hpc
    rwa [Function.update_self]
  cases tokenStep_effect hs with
  | closed hpc =>
    exact ⟨Nat.le_refl _, .loads rfl rfl ((h.loader t).1 (by rw [hpc]; rfl)) (hsent TokenPc.noConfusion)⟩
  | send hpc =>
    exact ⟨Nat.le_refl _, .loads rfl rfl ((h.loader t).1 (by rw [hpc]; rfl)) (hsent TokenPc.noConfusion)⟩

/-- **A request is sent 7100 seconds after the one before**, or all that were sent since that one failed. -/
theorem SentSince.spaced {w₁ : TokenWorld τ} {t t' : τ} (h : TokenInv w) (hsince : SentSince w₁ t w)
    (hs : tokenStep agentId w (.send t') = some w') :
    w₁.now + expireTime ≤ w.now ∨ w.stored = w₁.stored ∧ w₁.failed < w.failed := by
  have hpc : w.pc t' = .loader := by
    cases tokenStep_effect hs with
    | closed hpc => exact hpc
    | send hpc => exact hpc
  have hloading : w.loading = some t' := (h.loader t').1 (by rw [hpc]; rfl)
  cases hsince with
  | loads _ _ hl hne =>
    obtain rfl : t = t' := Option.some.inj (hl.symm.trans hloading)
    exact absurd hpc hne
  | failed hstored hfailed => exact .inr ⟨hstored, hfailed⟩
  | @stored accessToken written hcache hle =>
    left
    have hexpired := h.expired (by rw [hloading]; exact Option.some_ne_none t') hcache
    omega

/-- **Tokens are valid when they are handed out**, one thread at most asks for one, and a thread that waits has
one that asks for it. Between two requests there are 7100 seconds, or all requests from the first one on have
failed; in all there are as many as there are spans of 7100 seconds, besides the errors. -/
theorem token_valid {isOpen : Option Bool} {ls : List (TokenLabel τ)}
    (hrun : exec (tokenStep agentId) (.init τ isOpen) ls = some w)
    (hok : Along (tokenStep agentId) Prompt (.init τ isOpen) ls) :
    (∀ t accessToken time, w.pc t = .returned (some accessToken) time → w.Valid accessToken time) ∧
    (∀ t t', (w.pc t).loads = true → (w.pc t').loads = true → t = t') ∧
    (∀ t, w.pc t = .waiting → ∃ t', (w.pc t').loads = true) ∧
    (∀ pre t mid t' post w₁ w₂, ls = pre ++ .send t :: (mid ++ .send t' :: post) →
      exec (tokenStep agentId) (.init τ isOpen) pre = some w₁ →
      exec (tokenStep agentId) w₁ (.send t :: mid) = some w₂ →
      w₁.now + expireTime ≤ w₂.now ∨ w₂.stored = w₁.stored ∧ w₁.failed < w₂.failed) ∧
    w.requests ≤ w.failed + w.now / expireTime + 2 := by
  have hinv : ∀ {w₁ w₂ : TokenWorld τ} {ls : List (TokenLabel τ)}, TokenInv w₁ →
      Along (tokenStep agentId) Prompt w₁ ls → exec (tokenStep agentId) w₁ ls = some w₂ → TokenInv w₂ :=
    inv_of_along (fun _ _ _ => tokenInv_step)
  have h := hinv (tokenInv_init isOpen) hok hrun
  refine ⟨fun t accessToken time hpc => ?_, fun t t' ht ht' => ?_, fun t hpc => ?_, ?_, ?_⟩
  · have hplace := h.place t
    rw [hpc] at hplace
    exact hplace accessToken rfl
  · have hsame := ((h.loader t).1 ht).symm.trans ((h.loader t').1 ht')
    exact Option.some.inj hsame
  · have hplace := h.place t
    rw [hpc] at hplace
    obtain ⟨t', ht'⟩ := Option.ne_none_iff_exists'.1 hplace
    exact ⟨t', (h.loader t').2 ht'⟩
  · rintro pre t mid t' post w₁ w₂ rfl hrun₁ hrun₂
    obtain ⟨hok₁, hok⟩ := along_append.1 hok
    have h₁ := hinv (tokenInv_init isOpen) hok₁ hrun₁
    have hok₂ := hok w₁ hrun₁
    rw [← List.cons_append] at hok₂
    have h₂ := hinv h₁ (along_append.1 hok₂).1 hrun₂
    -- the first request, the steps after it, and the second request
    obtain ⟨m, hsend, hmid⟩ := exec_cons_inv hrun₂
    have hsince := (inv_of_exec (fun _ _ _ => sentSince_step) (sentSince_send h₁ hsend) hmid).2
    rw [← List.cons_append, exec_append, hrun₁, Option.bind_some, exec_append, hrun₂, Option.bind_some] at hrun
    obtain ⟨_, hsend', -⟩ := exec_cons_inv hrun
    exact hsince.spaced h₂ hsend'
  · -- each entry was written 7100 seconds after the one before
    have hstored : w.stored ≤ w.now / expireTime + 1 := by
      cases hcache : w.cache with
      | none =>
        rw [h.unwritten hcache]
        exact Nat.zero_le _
      | some entry =>
        have hwritten := h.written entry.1 entry.2 hcache
        have hpast := (h.cache entry.1 entry.2 hcache).1
        have hle : w.stored ≤ (w.now + expireTime) / expireTime :=
          (Nat.le_div_iff_mul_le (by decide)).2 (by omega)
        rwa [Nat.add_div_right _ (by decide)] at hle
    cases hloading : w.loading with
    | none =>
      have hrequests := h.free hloading
      omega
    | some t =>
      have hrequests := h.busy t hloading
      split at hrequests
      · omega
      · omega

instance (now : ℕ) : DecidablePred (TokenPc.Recent now)
  | .answered _ _ => inferInstanceAs (Decidable (_ ∨ _))
  | .idle => isTrue trivial
  | .loader => isTrue trivial
  | .sent => isTrue trivial
  | .waiting => isTrue trivial
  | .returned _ _ => isTrue trivial

instance (w : TokenWorld Bool) : DecidablePred (Prompt w)
  | .complete t => inferInstanceAs (Decidable ((w.pc t).Recent w.now))
  | .tick => isTrue trivial
  | .setOpen _ => isTrue trivial
  | .get _ => isTrue trivial
  | .send _ => isTrue trivial
  | .answer _ _ => isTrue trivial
  | .fail _ => isTrue trivial
  | .other _ => isTrue trivial

/-- The first answer is an error; of two threads one asks, and the other waits for the token and then finds it. -/
def tokenTwice : List (TokenLabel Bool) :=
  [.get true, .send true, .fail true, .complete true, .tick, .get false, .send false, .get true,
    .answer false (some ⟨⟨some 0, some "ok"⟩, some "token"⟩), .tick, .complete false, .tick, .get true]

/-- The token of the second call is valid. -/
theorem token_valid_twice : ∃ w, exec (tokenStep (some "agent")) (.init Bool none) tokenTwice = some w ∧
    w.pc true = .returned (some "token") 3 ∧ w.Valid "token" 3 ∧ w.requests ≤ w.failed + w.now / expireTime + 2 := by
  have heval : (exec (tokenStep (some "agent")) (.init Bool none) tokenTwice).any (fun w =>
      decide (w.pc true = .returned (some "token") 3)) = true := by decide +kernel
  obtain ⟨w, hrun, hw⟩ := (Option.any_eq_true _ _).1 heval
  have hpc : w.pc true = .returned (some "token") 3 := of_decide_eq_true hw
  have hok : Along (tokenStep (some "agent")) Prompt (.init Bool none) tokenTwice := by decide +kernel
  obtain ⟨hvalid, -, -, -, hrequests⟩ := token_valid hrun hok
  exact ⟨w, hrun, hpc, hvalid true "token" 3 hpc, hrequests⟩

end StudyTech
