import Mathlib.Data.List.ReduceOption
import StudyTech.Proof.Recipients

/-!
# Who a successful notice reached

`sendNotice` returns true although somebody was left out when the lookup of a mobile
fails: `getUserId` logs the failure and returns `null`, and `getUserIds` drops it, as it
drops a blank id (`left_out`). Nobody else is left out: when `sendNotice` returns true, the
user of each mobile was in a request that was answered with errcode 0, unless the mobile
was looked up and every lookup of it failed (`notice_reaches`).
-/

namespace StudyTech

open Lib

/-- Lookup `n` is answered with errcode 0 and a user id. -/
def DingTalkRemote.Resolves (R : DingTalkRemote) (n : ℕ) (mobile u : String) : Prop :=
  ∃ dto user, R.onUserByMobile n mobile = .ok (some dto) ∧ dto.isSuccess = true ∧ dto.result = some user ∧
    user.userid = some u

/-- The cache holds entries of the directory `userId`. -/
def BackedBy (userId : String → Option String) (cache : String → Option String) : Prop :=
  ∀ mobile u, cache mobile = some u → userId mobile = some u

/-- A lookup that succeeds is answered from the directory. -/
def AnswersFrom (userId : String → Option String) (R : DingTalkRemote) : Prop :=
  ∀ n mobile u, R.Resolves n mobile u → userId mobile = some u

/-- Between the two states `request` was made, as the request number `n`. -/
def Asked (s s' : DingTalkState) (n : ℕ) (request : DingTalkRequest) : Prop :=
  s.requests.length ≤ n ∧ s'.requests[n]? = some request

/-- Between the two states the mobile was looked up, and every lookup of it failed. -/
def LookupsFailed (R : DingTalkRemote) (accessToken : String) (s s' : DingTalkState) (mobile : String) : Prop :=
  (∃ n, Asked s s' n (.userByMobile accessToken mobile)) ∧
    ∀ n, Asked s s' n (.userByMobile accessToken mobile) → ∀ u, ¬ R.Resolves n mobile u

/-- What the lookups between the two states found is among the ids. -/
def Found (R : DingTalkRemote) (accessToken : String) (s s' : DingTalkState) (ids : List (Option String)) : Prop :=
  ∀ n mobile u, Asked s s' n (.userByMobile accessToken mobile) → R.Resolves n mobile u → some u ∈ ids

/-- Between the two states the notice was sent to `u`, and answered with errcode 0. -/
def Reached (R : DingTalkRemote) (accessToken : String) (s s' : DingTalkState) (u : String) : Prop :=
  ∃ n dto d, Asked s s' n (.sendNotice accessToken dto) ∧ R.onSendNotice n dto = .ok (some d) ∧
    d.isSuccess = true ∧ u ∈ dto.userIds

/-- The requests of `s` are those of `s'` up to a point. -/
def Later (s s' : DingTalkState) : Prop := s.requests <+: s'.requests

section Frame

variable {R : DingTalkRemote} {accessToken : String} {s₀ s s' s₁ : DingTalkState} {n : ℕ} {request : DingTalkRequest}

theorem Later.refl (s : DingTalkState) : Later s s := List.prefix_refl _

theorem Later.trans (h : Later s₀ s) (h' : Later s s') : Later s₀ s' := List.IsPrefix.trans h h'

theorem later_append (s : DingTalkState) (more : List DingTalkRequest) (cache : String → Option String) :
    Later s ⟨cache, s.requests ++ more⟩ := List.prefix_append _ _

/-- What was asked in between was asked in a longer time. -/
theorem Asked.mono (h : Asked s s' n request) (hs : Later s₀ s) (hs' : Later s' s₁) : Asked s₀ s₁ n request := by
  obtain ⟨hn, hrequest⟩ := h
  obtain ⟨hlt, -⟩ := List.getElem?_eq_some_iff.1 hrequest
  refine ⟨Nat.le_trans hs.length_le hn, ?_⟩
  obtain ⟨more, hmore⟩ := hs'
  rw [← hmore, List.getElem?_append_left hlt]
  exact hrequest

/-- What was asked was asked before the moment in between or after it. -/
theorem Asked.split (h : Asked s s₁ n request) (hs' : Later s' s₁) :
    Asked s s' n request ∨ Asked s' s₁ n request := by
  obtain ⟨hn, hrequest⟩ := h
  by_cases hlt : n < s'.requests.length
  · obtain ⟨more, hmore⟩ := hs'
    rw [← hmore, List.getElem?_append_left hlt] at hrequest
    exact Or.inl ⟨hn, hrequest⟩
  · exact Or.inr ⟨Nat.le_of_not_lt hlt, hrequest⟩

theorem not_asked_self (s : DingTalkState) : ¬ Asked s s n request := by
  rintro ⟨hn, hrequest⟩
  rw [List.getElem?_eq_none hn] at hrequest
  cases hrequest

theorem Reached.mono {u : String} (h : Reached R accessToken s s' u) (hs : Later s₀ s) (hs' : Later s' s₁) :
    Reached R accessToken s₀ s₁ u := by
  obtain ⟨n, dto, d, hasked, hd⟩ := h
  exact ⟨n, dto, d, hasked.mono hs hs', hd⟩

/-- The request that was just made. -/
theorem asked_append (s : DingTalkState) (request : DingTalkRequest) (cache : String → Option String) :
    Asked s ⟨cache, s.requests ++ [request]⟩ s.requests.length request :=
  ⟨Nat.le_refl _, by simp⟩

/-- It was the only one. -/
theorem asked_append_inv {cache : String → Option String} {request' : DingTalkRequest}
    (h : Asked s ⟨cache, s.requests ++ [request']⟩ n request) : n = s.requests.length ∧ request = request' := by
  obtain ⟨hn, hrequest⟩ := h
  have hlt := (List.getElem?_eq_some_iff.1 hrequest).1
  simp only [List.length_append, List.length_singleton] at hlt
  obtain rfl : n = s.requests.length := by omega
  rw [List.getElem?_concat_length] at hrequest
  exact ⟨rfl, (Option.some.inj hrequest).symm⟩

/-- Ids that are found one after the other. -/
theorem Found.append {ids ids' : List (Option String)} (h : Found R accessToken s s' ids)
    (h' : Found R accessToken s' s₁ ids') (hs' : Later s' s₁) : Found R accessToken s s₁ (ids ++ ids') := by
  intro n mobile u hasked hresolves
  rcases hasked.split hs' with hasked | hasked
  · exact List.mem_append_left _ (h n mobile u hasked hresolves)
  · exact List.mem_append_right _ (h' n mobile u hasked hresolves)

end Frame

section Lookup

variable {userId : String → Option String} {R : DingTalkRemote} {accessToken : String} {s : DingTalkState}

/-- The loader makes one request. It returns a user id if the request is answered with one. -/
theorem loadUserId_ensures (mobile : String) :
    Action.Ensures s (R.loadUserId accessToken mobile) fun r s' =>
      s' = { s with requests := s.requests ++ [.userByMobile accessToken (trim mobile)] } ∧
        ((∃ u, r = .ok (some u) ∧ R.Resolves s.requests.length (trim mobile) u) ∨
          (∀ u, r ≠ .ok (some u)) ∧ ∀ u, ¬ R.Resolves s.requests.length (trim mobile) u) := by
  refine Action.Ensures.bind (P := fun r s' => s' = { s with
    requests := s.requests ++ [.userByMobile accessToken (trim mobile)] } ∧
      r = R.onUserByMobile s.requests.length (trim mobile)) ⟨rfl, rfl⟩ ?_ ?_
  · rintro dto s' ⟨rfl, hanswer⟩
    cases dto with
    | none =>
      refine ⟨rfl, Or.inr ⟨fun u h => (by cases h), fun u h => ?_⟩⟩
      obtain ⟨dto, user, hdto, -⟩ := h
      rw [← hanswer] at hdto
      cases hdto
    | some dto =>
      -- what the reply has to say for the lookup to be answered with a user id
      have honly : ∀ u, R.Resolves s.requests.length (trim mobile) u →
          dto.isSuccess = true ∧ ∃ user, dto.result = some user ∧ user.userid = some u := by
        rintro u ⟨dto', user, hdto, hsuccess, huser, hu⟩
        rw [← hanswer] at hdto
        cases hdto
        exact ⟨hsuccess, user, huser, hu⟩
      by_cases hsuccess : dto.isSuccess = true
      · simp only [hsuccess, Bool.not_true, Bool.false_eq_true, if_false]
        cases hresult : dto.result with
        | none =>
          refine ⟨rfl, Or.inr ⟨fun u h => (by cases h), fun u h => ?_⟩⟩
          obtain ⟨-, user, huser, -⟩ := honly u h
          rw [hresult] at huser
          cases huser
        | some user =>
          cases huserid : user.userid with
          | none =>
            simp only [huserid]
            refine ⟨rfl, Or.inr ⟨fun u h => (by cases h), fun u h => ?_⟩⟩
            obtain ⟨-, user', huser, hu⟩ := honly u h
            rw [hresult] at huser
            cases huser
            rw [huserid] at hu
            cases hu
          | some u =>
            simp only [huserid]
            exact ⟨rfl, Or.inl ⟨u, rfl, dto, user, hanswer.symm, hsuccess, hresult, huserid⟩⟩
      · simp only [hsuccess, Bool.not_false, if_true]
        exact ⟨rfl, Or.inr ⟨fun u h => (by cases h), fun u h => hsuccess (honly u h).1⟩⟩
  · rintro e s' ⟨rfl, hanswer⟩
    refine ⟨rfl, Or.inr ⟨fun u h => (by cases h), fun u h => ?_⟩⟩
    obtain ⟨dto, user, hdto, -⟩ := h
    rw [← hanswer] at hdto
    cases hdto

/-- The cache returns what the directory says, or a lookup was made. What a lookup finds is returned. -/
theorem cacheGet_ensures (hR : AnswersFrom userId R) (hs : BackedBy userId s.userCache) (mobile : String) :
    Action.Ensures s (R.cacheGet (trim mobile) (R.loadUserId accessToken mobile)) fun r s' =>
      Later s s' ∧ BackedBy userId s'.userCache ∧ Found R accessToken s s' [r.toOption] ∧
        ((∃ u, r = .ok u ∧ userId (trim mobile) = some u) ∨
          (∃ e, r = .error e) ∧ ∃ n, Asked s s' n (.userByMobile accessToken (trim mobile))) := by
  unfold Action.Ensures DingTalkRemote.cacheGet
  cases hcache : s.userCache (trim mobile) with
  | some u =>
    exact ⟨.refl s, hs, fun _ _ _ hasked => absurd hasked (not_asked_self s), Or.inl ⟨u, rfl, hs _ u hcache⟩⟩
  | none =>
    have hload : Action.Ensures s (R.loadUserId accessToken mobile) _ := loadUserId_ensures mobile
    unfold Action.Ensures at hload
    rcases hr : R.loadUserId accessToken mobile s with ⟨r, s'⟩
    rw [hr] at hload
    obtain ⟨rfl, hload⟩ := hload
    have hlater := later_append s [.userByMobile accessToken (trim mobile)] s.userCache
    rcases hload with ⟨u, rfl, hresolves⟩ | ⟨hnone, hnot⟩
    · have hu := hR _ _ u hresolves
      refine ⟨later_append s _ _, fun k v hk => ?_, fun n m v hasked hv => ?_, Or.inl ⟨u, rfl, hu⟩⟩
      · simp only at hk
        split at hk
        · cases hk
        · split at hk
          · rename_i hkey
            obtain rfl := Option.some.inj hk
            rw [hkey]
            exact hu
          · exact hs k v hk
      · -- the one lookup is the one that found `u`
        obtain ⟨rfl, hrequest⟩ := asked_append_inv hasked
        cases hrequest
        have hv := hR _ _ v hv
        rw [hu] at hv
        exact List.mem_singleton.2 hv.symm
    · have hasked := asked_append s (.userByMobile accessToken (trim mobile)) s.userCache
      have hfound : ∀ ids, Found R accessToken s
          { s with requests := s.requests ++ [.userByMobile accessToken (trim mobile)] } ids := by
        intro ids n m v hasked hv
        obtain ⟨rfl, hrequest⟩ := asked_append_inv hasked
        cases hrequest
        exact absurd hv (hnot v)
      match r with
      | .ok none => exact ⟨hlater, hs, hfound _, Or.inr ⟨⟨_, rfl⟩, _, hasked⟩⟩
      | .ok (some u) => exact absurd rfl (hnone u)
      | .error e => exact ⟨hlater, hs, hfound _, Or.inr ⟨⟨e, rfl⟩, _, hasked⟩⟩

/-- What `getUserId` returns: what the directory says, or a lookup was made. -/
def LookedUp (userId : String → Option String) (R : DingTalkRemote) (accessToken : String) (mobile : String)
    (s : DingTalkState) (id : Option String) (s' : DingTalkState) : Prop :=
  Later s s' ∧ BackedBy userId s'.userCache ∧ Found R accessToken s s' [id] ∧
    ((∃ u, id = some u ∧ userId (trim mobile) = some u) ∨
      ∃ n, Asked s s' n (.userByMobile accessToken (trim mobile)))

theorem getUserId_ensures (hR : AnswersFrom userId R) (hs : BackedBy userId s.userCache) (mobile : String) :
    Action.Ensures s (R.getUserId accessToken (some mobile)) fun r s' =>
      ∃ id, r = .ok id ∧ LookedUp userId R accessToken mobile s id s' := by
  unfold DingTalkRemote.getUserId
  refine Action.Ensures.tryCatch (P := fun r s' => (∃ id, r = .ok id ∧ LookedUp userId R accessToken mobile s id s') ∨
    (∃ e, r = .error e) ∧ LookedUp userId R accessToken mobile s none s') ?_ ?_ ?_
  · refine (cacheGet_ensures hR hs mobile).bind ?_ ?_
    · rintro u s' ⟨hlater, hbacked, hfound, hu⟩
      refine Or.inl ⟨some u, rfl, hlater, hbacked, hfound, ?_⟩
      rcases hu with ⟨u', hu', hdir⟩ | ⟨⟨e, he⟩, -⟩
      · cases hu'
        exact Or.inl ⟨u, rfl, hdir⟩
      · cases he
    · rintro e s' ⟨hlater, hbacked, hfound, hu⟩
      refine Or.inr ⟨⟨e, rfl⟩, hlater, hbacked, hfound, ?_⟩
      rcases hu with ⟨u', hu', -⟩ | ⟨-, hasked⟩
      · cases hu'
      · exact Or.inr hasked
  · rintro id s' (hid | ⟨⟨e, he⟩, -⟩)
    · exact hid
    · cases he
  · -- the handler returns `null`
    rintro e s' (⟨id, hid, -⟩ | ⟨-, hlooked⟩)
    · cases hid
    · exact ⟨none, rfl, hlooked⟩

/-- Each mobile of the list has its user among the ids, or was looked up. What the lookups find is
among the ids. -/
theorem mapUserId_ensures (hR : AnswersFrom userId R) (hs : BackedBy userId s.userCache)
    (mobiles : List (Option String)) :
    Action.Ensures s (R.mapUserId accessToken mobiles) fun r s' =>
      Later s s' ∧ BackedBy userId s'.userCache ∧ ∃ ids, r = .ok ids ∧ Found R accessToken s s' ids ∧
        ∀ mobile, some mobile ∈ mobiles → (∃ u, some u ∈ ids ∧ userId (trim mobile) = some u) ∨
          ∃ n, Asked s s' n (.userByMobile accessToken (trim mobile)) := by
  induction mobiles generalizing s with
  | nil => exact ⟨.refl s, hs, [], rfl, fun _ _ _ hasked => absurd hasked (not_asked_self s), fun mobile h => nomatch h⟩
  | cons first mobiles ih =>
    unfold DingTalkRemote.mapUserId
    have hfirst : Action.Ensures s (R.getUserId accessToken first) fun r s' => Later s s' ∧
        BackedBy userId s'.userCache ∧ ∃ id, r = .ok id ∧ Found R accessToken s s' [id] ∧
          ∀ mobile, first = some mobile → (∃ u, id = some u ∧ userId (trim mobile) = some u) ∨
            ∃ n, Asked s s' n (.userByMobile accessToken (trim mobile)) := by
      cases first with
      | none =>
        exact ⟨.refl s, hs, none, rfl, fun _ _ _ hasked => absurd hasked (not_asked_self s), fun mobile h => nomatch h⟩
      | some mobile =>
        refine (getUserId_ensures hR hs mobile).mono ?_
        rintro r s' ⟨id, rfl, hlater, hbacked, hfound, hid⟩
        exact ⟨hlater, hbacked, id, rfl, hfound, fun m hm => by cases hm; exact hid⟩
    refine hfirst.bind ?_ ?_
    · rintro id s₁ ⟨hlater₁, hbacked₁, id', hid, hfound₁, hmobile⟩
      cases hid
      refine (ih hbacked₁).bind ?_ ?_
      · rintro ids s₂ ⟨hlater₂, hbacked₂, ids', hids, hfound₂, hrest⟩
        cases hids
        refine ⟨hlater₁.trans hlater₂, hbacked₂, id :: ids, rfl, hfound₁.append hfound₂ hlater₂,
          fun mobile hmem => ?_⟩
        rcases List.mem_cons.1 hmem with heq | hmem
        · rcases hmobile mobile heq.symm with ⟨u, rfl, hu⟩ | ⟨n, hasked⟩
          · exact Or.inl ⟨u, List.mem_cons_self, hu⟩
          · exact Or.inr ⟨n, hasked.mono (.refl s) hlater₂⟩
        · rcases hrest mobile hmem with ⟨u, hu, hdir⟩ | ⟨n, hasked⟩
          · exact Or.inl ⟨u, List.mem_cons_of_mem _ hu, hdir⟩
          · exact Or.inr ⟨n, hasked.mono hlater₁ (.refl s₂)⟩
      · rintro e s₂ ⟨-, -, ids', hids, -⟩
        cases hids
    · rintro e s₁ ⟨-, -, id', hid, -⟩
      cases hid

/-- The users of the mobiles that are not blank are among the ids, unless all lookups of a mobile failed. -/
theorem getUserIds_ensures (hR : AnswersFrom userId R) (hs : BackedBy userId s.userCache)
    (mobileList : List (Option String)) :
    Action.Ensures s (R.getUserIds mobileList accessToken) fun r s' =>
      Later s s' ∧ ∃ userIds, r = .ok userIds ∧ ∀ mobile, some mobile ∈ mobileList →
        isBlank (some mobile) = false → ∀ u, userId (trim mobile) = some u → isBlank (some u) = false →
          u ∈ userIds ∨ LookupsFailed R accessToken s s' (trim mobile) := by
  unfold DingTalkRemote.getUserIds
  refine (mapUserId_ensures hR hs _).bind ?_ ?_
  · rintro ids s' ⟨hlater, -, ids', hids, hfound, hmobile⟩
    cases hids
    refine ⟨hlater, _, rfl, fun mobile hmem hblank u hu hnot => ?_⟩
    have hfilter : some mobile ∈ mobileList.filter (!isBlank ·) :=
      List.mem_filter.2 ⟨hmem, by rw [hblank]; rfl⟩
    have hkept : some u ∈ ids → u ∈ ((ids.filter (!isBlank ·)).reduceOption).eraseDups := by
      intro hid
      refine List.mem_eraseDups.2 (List.reduceOption_mem_iff.2 (List.mem_filter.2 ⟨hid, ?_⟩))
      rw [hnot]
      rfl
    rcases hmobile mobile hfilter with ⟨u', hu', hdir⟩ | hasked
    · obtain rfl : u = u' := Option.some.inj (hu.symm.trans hdir)
      exact Or.inl (hkept hu')
    · -- one of the lookups found the user, or all failed
      by_cases hall : ∀ n, Asked s s' n (.userByMobile accessToken (trim mobile)) → ∀ v,
          ¬ R.Resolves n (trim mobile) v
      · exact Or.inr ⟨hasked, hall⟩
      · push Not at hall
        obtain ⟨n, hn, v, hv⟩ := hall
        have hdir := hR n _ v hv
        rw [hu] at hdir
        obtain rfl := Option.some.inj hdir
        exact Or.inl (hkept (hfound n _ u hn hv))
  · rintro e s' ⟨-, -, ids', hids, -⟩
    cases hids

end Lookup

section Send

variable {R : DingTalkRemote} {accessToken : String} {s s' : DingTalkState}

/-- What the loop asks between the two states are notices. -/
def OnlyNotices (accessToken : String) (s s' : DingTalkState) : Prop :=
  ∀ n request, Asked s s' n request → ∃ dto, request = .sendNotice accessToken dto

/-- When the loop returns true, each of its chunks was sent and answered with errcode 0. -/
theorem noticeLoop_ensures (agentId : Option String) (message : DingTalkMessage) (userIds : List String)
    (is : List ℕ) (his : ∀ i ∈ is, DingTalkRemote.noticeSize * i ≤ userIds.length) :
    Action.Ensures s (R.noticeLoop accessToken agentId message userIds is) fun r s' =>
      Later s s' ∧ OnlyNotices accessToken s s' ∧ (r = .ok true → ∀ i ∈ is,
        ∀ u ∈ window DingTalkRemote.noticeSize userIds i, Reached R accessToken s s' u) := by
  induction is generalizing s with
  | nil => exact ⟨.refl s, fun _ _ hasked => absurd hasked (not_asked_self s), fun _ i hi => by cases hi⟩
  | cons i is ih =>
    unfold DingTalkRemote.noticeLoop
    rw [subList_window (his i List.mem_cons_self)]
    set requestDTO : NoticeSendRequestDTO := ⟨agentId, window DingTalkRemote.noticeSize userIds i, message⟩
      with hdto
    have hlater := later_append s [.sendNotice accessToken requestDTO] s.userCache
    have honly : OnlyNotices accessToken s ⟨s.userCache, s.requests ++ [.sendNotice accessToken requestDTO]⟩ :=
      fun _ _ hasked => ⟨requestDTO, (asked_append_inv hasked).2⟩
    refine Action.Ensures.bind (P := fun r s' => r = .ok (window DingTalkRemote.noticeSize userIds i) ∧ s' = s)
      ⟨rfl, rfl⟩ ?_ ?_
    · rintro list s' ⟨hlist, rfl⟩
      cases hlist
      refine Action.Ensures.bind (P := fun r s'' => s'' = { s' with
        requests := s'.requests ++ [.sendNotice accessToken requestDTO] } ∧
          r = R.onSendNotice s'.requests.length requestDTO) ⟨rfl, rfl⟩ ?_ ?_
      · rintro dto s'' ⟨rfl, hanswer⟩
        split
        · exact ⟨hlater, honly, fun h => by cases h⟩
        · rename_i hok
          refine (ih fun j hj => his j (List.mem_cons_of_mem _ hj)).mono ?_
          rintro r s₁ ⟨hlater₁, honly₁, hrest⟩
          refine ⟨hlater.trans hlater₁, fun n request hasked => ?_, fun hr j hj u hu => ?_⟩
          · exact (hasked.split hlater₁).elim (honly n request) (honly₁ n request)
          rcases List.mem_cons.1 hj with rfl | hj
          · -- this chunk is in the request that was just answered
            have hasked := (asked_append s' (.sendNotice accessToken requestDTO) s'.userCache).mono (.refl s') hlater₁
            cases dto with
            | none => exact absurd rfl hok
            | some d =>
              have hsuccess : d.isSuccess = true := by simpa [isFailure] using hok
              exact ⟨_, requestDTO, d, hasked, hanswer.symm, hsuccess, hu⟩
          · exact (hrest hr j hj u hu).mono hlater (.refl s₁)
      · rintro e s'' ⟨rfl, -⟩
        exact ⟨hlater, honly, fun h => by cases h⟩
    · rintro e s' ⟨h, -⟩
      cases h

/-- When `sendNotice` has the ids and returns true, all of them were reached. -/
theorem sendNoticeTo_ensures (agentId : Option String) (message : DingTalkMessage) (userIds : List String) :
    Action.Ensures s (R.sendNoticeTo accessToken agentId message userIds) fun r s' =>
      Later s s' ∧ OnlyNotices accessToken s s' ∧ (r = .ok true → ∀ u ∈ userIds, Reached R accessToken s s' u) := by
  refine (noticeLoop_ensures agentId message userIds _ (start_le _ userIds)).mono ?_
  rintro r s' ⟨hlater, honly, hreached⟩
  refine ⟨hlater, honly, fun hr u hu => ?_⟩
  obtain ⟨i, hi, hmem⟩ := mem_window DingTalkRemote.noticeSize (by decide) hu
  exact hreached hr i hi u hmem

/-- Notices are no lookups. -/
theorem LookupsFailed.append {s₀ : DingTalkState} {mobile : String} (h : LookupsFailed R accessToken s₀ s mobile)
    (hlater : Later s s') (honly : OnlyNotices accessToken s s') : LookupsFailed R accessToken s₀ s' mobile := by
  obtain ⟨⟨n, hasked⟩, hfailed⟩ := h
  refine ⟨⟨n, hasked.mono (.refl s₀) hlater⟩, fun k hk => ?_⟩
  rcases hk.split hlater with hk | hk
  · exact hfailed k hk
  · obtain ⟨dto, hdto⟩ := honly k _ hk
    cases hdto

end Send

/-- **A successful notice reaches everybody who was found.** When `sendNotice` returns true,
the user that the directory has for a mobile of the list was in a request that was
answered with errcode 0, unless the call looked the mobile up and none of its lookups was
answered with errcode 0 and a user id. Blank mobiles and ids are left out. -/
theorem notice_reaches {userId : String → Option String} {R : DingTalkRemote} (hR : AnswersFrom userId R)
    {s s' : DingTalkState} (hs : BackedBy userId s.userCache) {accessToken agentId : Option String}
    {mobileList : List (Option String)} {message : Option DingTalkMessage}
    (hsend : R.sendNotice accessToken agentId mobileList message s = (.ok true, s')) :
    ∃ token, accessToken = some token ∧ ∀ mobile u, some mobile ∈ mobileList → isBlank (some mobile) = false →
      userId (trim mobile) = some u → isBlank (some u) = false →
        Reached R token s s' u ∨ LookupsFailed R token s s' (trim mobile) := by
  have hends : Action.Ensures s (R.sendNotice accessToken agentId mobileList message) fun r s' =>
      r = .ok true → ∃ token, accessToken = some token ∧ ∀ mobile u, some mobile ∈ mobileList →
        isBlank (some mobile) = false → userId (trim mobile) = some u → isBlank (some u) = false →
          Reached R token s s' u ∨ LookupsFailed R token s s' (trim mobile) := by
    unfold DingTalkRemote.sendNotice
    split
    · intro h
      cases h
    · split
      · intro h
        cases h
      · split
        · intro h
          cases h
        · rename_i token
          split
          · intro h
            cases h
          · refine (getUserIds_ensures hR hs mobileList).bind ?_ ?_
            · rintro userIds s₁ ⟨hlater₁, userIds', hids, hmobile⟩
              cases hids
              refine (sendNoticeTo_ensures agentId _ userIds).mono ?_
              intro r s₂ hsent htrue
              obtain ⟨hlater₂, honly, hreached⟩ := hsent
              refine ⟨token, rfl, fun mobile u hmem hblank hu hnot => ?_⟩
              rcases hmobile mobile hmem hblank u hu hnot with hid | hfailed
              · exact Or.inl ((hreached htrue u hid).mono hlater₁ (.refl s₂))
              · exact Or.inr (hfailed.append hlater₂ honly)
            · intro e s₁ _ h
              cases h
  unfold Action.Ensures at hends
  rw [hsend] at hends
  exact hends rfl

/-- Two mobiles. -/
def twoMobiles (mobile : String) : Option String :=
  if mobile = "138" then some "ann" else if mobile = "139" then some "bob" else none

/-- A mobile whose user has a blank id. -/
def blankId (mobile : String) : Option String := if mobile = "140" then some " " else none

/-- Requests before the number `first` end in a timeout, the others are answered from the directory. -/
def answersFrom (first : ℕ) (userId : String → Option String) : DingTalkRemote where
  onUserByMobile := fun n mobile =>
    if n < first then .error ⟨"java.util.concurrent.TimeoutException", none⟩
    else .ok ((userId mobile).map fun u => ⟨⟨some 0, some "ok"⟩, some ⟨some u⟩⟩)
  onSendNotice := fun _ _ => .ok (some ⟨some 0, some "ok"⟩)
  onCreateChat := fun _ _ => .ok (some ⟨⟨some 0, some "ok"⟩, some "chat"⟩)
  onUpdateChat := fun _ _ => .ok (some ⟨some 0, some "ok"⟩)
  evicts := fun _ _ => false

theorem answersFrom_answers (first : ℕ) (userId : String → Option String) :
    AnswersFrom userId (answersFrom first userId) := by
  rintro n mobile u ⟨dto, user, hdto, -, huser, hu⟩
  simp only [answersFrom] at hdto
  split at hdto
  · cases hdto
  · cases hid : userId mobile with
    | none => rw [hid] at hdto; cases hdto
    | some v => rw [hid] at hdto; cases hdto; cases huser; exact hu

theorem backedBy_empty (userId : String → Option String) : BackedBy userId fun _ => none :=
  fun _ _ h => nomatch h

/-- A notice to the mobiles, with an empty cache. -/
def noticeTo (R : DingTalkRemote) (mobileList : List (Option String)) : Except JavaException Bool × DingTalkState :=
  R.sendNotice (some "token") (some "agent") mobileList (some ⟨some "text"⟩) ⟨fun _ => none, []⟩

/-- The first lookup of the first mobile ends in a timeout; it is listed twice, and reached. -/
theorem notice_reaches_second :
    let R := answersFrom 1 twoMobiles
    let after := (noticeTo R [some "138", some " 139 ", some "138 "]).2
    (noticeTo R [some "138", some " 139 ", some "138 "]).1 = .ok true ∧
      Reached R "token" ⟨fun _ => none, []⟩ after "ann" ∧ Reached R "token" ⟨fun _ => none, []⟩ after "bob" := by
  intro R after
  have hsend : noticeTo R [some "138", some " 139 ", some "138 "] = (.ok true, after) := rfl
  obtain ⟨token, htoken, hreaches⟩ :=
    notice_reaches (answersFrom_answers 1 twoMobiles) (backedBy_empty twoMobiles) hsend
  obtain rfl := Option.some.inj htoken
  -- of each mobile there is a lookup that was answered
  have hfound : ∀ n mobile u, 1 ≤ n → after.requests[n]? = some (.userByMobile "token" mobile) →
      twoMobiles mobile = some u → ¬ LookupsFailed R "token" ⟨fun _ => none, []⟩ after mobile := by
    intro n mobile u hn hrequest hu hfailed
    refine hfailed.2 n ⟨Nat.zero_le _, hrequest⟩ u ⟨⟨⟨some 0, some "ok"⟩, some ⟨some u⟩⟩, ⟨some u⟩, ?_, rfl, rfl, rfl⟩
    simp only [R, answersFrom, hu, Nat.not_lt.2 hn, if_false, Option.map_some]
  have hann : twoMobiles (trim "138") = some "ann" := by decide
  have hbob : twoMobiles (trim " 139 ") = some "bob" := by decide
  refine ⟨rfl, ?_, ?_⟩
  · exact (hreaches "138" "ann" (by decide) (by decide) hann (by decide)).resolve_right
      (hfound 2 _ _ (by decide) (by decide +kernel) hann)
  · exact (hreaches " 139 " "bob" (by decide) (by decide) hbob (by decide)).resolve_right
      (hfound 1 _ _ (by decide) (by decide +kernel) hbob)

/-- Who is in no notice that was sent was not reached. -/
theorem not_reached {R : DingTalkRemote} {accessToken u : String} {s s' : DingTalkState}
    (h : ∀ dto, .sendNotice accessToken dto ∈ s'.requests → u ∉ dto.userIds) : ¬ Reached R accessToken s s' u := by
  rintro ⟨n, dto, d, ⟨-, hasked⟩, -, -, hmem⟩
  exact h dto (List.mem_of_getElem? hasked) hmem

/-- **Success, with somebody left out.** The lookup of the first mobile ends in a timeout: the
notice goes to the second one alone, and `sendNotice` returns true. The same where all calls
succeed and the user has a blank id. -/
theorem left_out :
    let timeout := noticeTo (answersFrom 1 twoMobiles) [some "138", some " 139 "]
    let blank := noticeTo (answersFrom 0 blankId) [some "140"]
    (AnswersFrom twoMobiles (answersFrom 1 twoMobiles) ∧ isBlank (some "138") = false ∧
      twoMobiles (trim "138") = some "ann" ∧ timeout.1 = .ok true ∧
      ¬ Reached (answersFrom 1 twoMobiles) "token" ⟨fun _ => none, []⟩ timeout.2 "ann") ∧
    (AnswersFrom blankId (answersFrom 0 blankId) ∧ isBlank (some "140") = false ∧
      blankId (trim "140") = some " " ∧ blank.1 = .ok true ∧
      ¬ Reached (answersFrom 0 blankId) "token" ⟨fun _ => none, []⟩ blank.2 " ") := by
  intro timeout blank
  refine ⟨⟨answersFrom_answers 1 _, by decide, by decide, rfl, not_reached fun dto hdto => ?_⟩,
    answersFrom_answers 0 _, by decide, by decide, rfl, not_reached fun dto hdto => ?_⟩
  · have hrequests : timeout.2.requests = [.userByMobile "token" "138", .userByMobile "token" "139",
        .sendNotice "token" ⟨some "agent", ["bob"], ⟨some "text"⟩⟩] := by decide +kernel
    rw [hrequests] at hdto
    -- the only notice is for `bob`
    simp only [List.mem_cons, List.not_mem_nil, or_false, reduceCtorEq, false_or] at hdto
    cases hdto
    simp
  · have hrequests : blank.2.requests = [.userByMobile "token" "140",
        .sendNotice "token" ⟨some "agent", [], ⟨some "text"⟩⟩] := by decide +kernel
    rw [hrequests] at hdto
    simp only [List.mem_cons, List.not_mem_nil, or_false, reduceCtorEq, false_or] at hdto
    cases hdto
    simp

end StudyTech
