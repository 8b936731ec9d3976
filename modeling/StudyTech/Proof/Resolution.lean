import Mathlib.Data.List.DropRight
import StudyTech.Proof.Owner
import StudyTech.Proof.RefreshUser
import StudyTech.Spec.UserCache

/-!
# Resolution through the cache

Where every call of the remote side answers from one directory, the cache holds under every key
what the directory has for the trimmed key: `refreshUser` puts mobiles as they are on the page, but
only trimmed keys are read. So `getUserIds` returns what the directory has, whatever was looked up,
put or given up before or in between (`getUserIds_directory`).
-/

namespace StudyTech

open Lib

section Trim

/-- Dropping at both ends once is enough. -/
theorem dropWhile_rdropWhile {α : Type*} (p : α → Bool) (xs : List α) :
    ((xs.dropWhile p).rdropWhile p).dropWhile p = (xs.dropWhile p).rdropWhile p := by
  rw [List.dropWhile_eq_self_iff]
  intro hpos
  have hfront : (xs.dropWhile p).rdropWhile p <+: xs.dropWhile p := List.rdropWhile_prefix ..
  have hlength : 0 < (xs.dropWhile p).length := Nat.lt_of_lt_of_le hpos hfront.length_le
  rw [hfront.getElem hpos]
  exact List.dropWhile_get_zero_not p xs hlength

theorem trim_eq (s : String) :
    trim s = String.ofList ((s.toList.dropWhile (·.toNat ≤ 32)).rdropWhile (·.toNat ≤ 32)) := rfl

/-- What is trimmed stays as it is. -/
theorem trim_trim (s : String) : trim (trim s) = trim s := by
  rw [trim_eq (trim s), trim_eq s, String.toList_ofList, dropWhile_rdropWhile, List.rdropWhile_idempotent]

end Trim

/-- Who has which mobile. -/
structure Directory where
  userId : String → Option String
  notBlank : ∀ mobile u, userId mobile = some u → isBlank (some u) = false

namespace Directory

variable (D : Directory)

/-- Every lookup is answered from the directory: with errcode 0 and the id, or with another errcode. -/
structure Follows (R : DingTalkRemote) : Prop where
  found : ∀ n mobile u, D.userId mobile = some u → R.Resolves n mobile u
  absent : ∀ n mobile, D.userId mobile = none →
    ∃ dto, R.onUserByMobile n mobile = .ok (some dto) ∧ dto.isSuccess = false

/-- A user on a page is the directory's, where it has both a mobile and an id. -/
def Reports (user : Option DepartUser) : Prop :=
  ∀ mobile u, mobileAndId user = some (mobile, u) → D.userId (trim mobile) = some u

/-- What `refreshUser` puts is the directory's. -/
def Consistent : CacheEvent → Prop
  | .put user => D.Reports user
  | _ => True

/-- The cache has what the directory has for the trimmed key. -/
def Holds (cache : String → Option String) : Prop := ∀ mobile u, cache mobile = some u → D.userId (trim mobile) = some u

/-- The id of the mobile as the caller gives it. -/
def image (mobile : Option String) : Option String := mobile.bind fun mobile => D.userId (trim mobile)

/-- The ids of the mobiles that are not blank and in the directory, in order. -/
def images (mobileList : List (Option String)) : List String := (mobileList.filter (!isBlank ·)).filterMap D.image

end Directory

section Lookup

variable {D : Directory} {R : DingTalkRemote} {s s' : DingTalkState} {accessToken : String}

theorem holds_update {cache : String → Option String} (h : D.Holds cache) {mobile : String} {value : Option String}
    (hvalue : ∀ u ∈ value, D.userId (trim mobile) = some u) : D.Holds (Function.update cache mobile value) := by
  intro k u hk
  by_cases hkey : k = mobile
  · rw [hkey, Function.update_self] at hk
    rw [hkey]
    exact hvalue u hk
  · rw [Function.update_of_ne hkey] at hk
    exact h k u hk

/-- The loader returns what the directory has. -/
theorem loadUserId_directory (hR : D.Follows R) (mobile : String) (s : DingTalkState) :
    R.loadUserId accessToken mobile s = (.ok (D.userId (trim mobile)),
      { s with requests := s.requests ++ [.userByMobile accessToken (trim mobile)] }) := by
  unfold DingTalkRemote.loadUserId
  cases hid : D.userId (trim mobile) with
  | some u =>
    obtain ⟨dto, user, hdto, hsuccess, huser, hu⟩ := hR.found s.requests.length (trim mobile) u hid
    rw [Action.bind_ok (post_ok hdto)]
    simp only [hsuccess, Bool.not_true, Bool.false_eq_true, if_false, huser, hu]
    rfl
  | none =>
    obtain ⟨dto, hdto, hfailed⟩ := hR.absent s.requests.length (trim mobile) hid
    rw [Action.bind_ok (post_ok hdto)]
    simp only [hfailed, Bool.not_false, if_true]
    rfl

theorem cacheGet_hit {key u : String} {loader : DingTalkAct (Option String)} (h : s.userCache key = some u) :
    R.cacheGet key loader s = (.ok u, s) := by
  rw [DingTalkRemote.cacheGet, h]

theorem cacheGet_loaded {key u : String} {loader : DingTalkAct (Option String)} (h : s.userCache key = none)
    (hload : loader s = (.ok (some u), s')) :
    R.cacheGet key loader s = (.ok u, { s' with
      userCache := fun k => if R.evicts s'.requests.length k then none else if k = key then some u else s'.userCache k
    }) := by
  rw [DingTalkRemote.cacheGet, h, hload]

theorem cacheGet_null {key : String} {loader : DingTalkAct (Option String)} (h : s.userCache key = none)
    (hload : loader s = (.ok none, s')) :
    R.cacheGet key loader s = (.error ⟨"com.google.common.cache.CacheLoader$InvalidCacheLoadException", none⟩, s') := by
  rw [DingTalkRemote.cacheGet, h, hload]

theorem getUserId_cached {mobile u : String}
    (h : R.cacheGet (trim mobile) (R.loadUserId accessToken mobile) s = (.ok u, s')) :
    R.getUserId accessToken (some mobile) s = (.ok (some u), s') := by
  rw [DingTalkRemote.getUserId]
  exact Action.tryCatch_ok (Action.bind_ok h)

/-- What goes wrong is only logged. -/
theorem getUserId_failed {mobile : String} {e : JavaException}
    (h : R.cacheGet (trim mobile) (R.loadUserId accessToken mobile) s = (.error e, s')) :
    R.getUserId accessToken (some mobile) s = (.ok none, s') := by
  rw [DingTalkRemote.getUserId]
  exact Action.tryCatch_error (Action.bind_error h)

/-- A lookup through the cache is one in the directory. -/
theorem getUserId_directory (hR : D.Follows R) (hs : D.Holds s.userCache) (accessToken : String)
    (mobile : Option String) :
    ∃ s', R.getUserId accessToken mobile s = (.ok (D.image mobile), s') ∧ D.Holds s'.userCache := by
  cases mobile with
  | none => exact ⟨s, rfl, hs⟩
  | some mobile =>
    have hload : R.loadUserId accessToken mobile s = _ := loadUserId_directory hR mobile s
    rw [Directory.image, Option.bind_some]
    cases hcache : s.userCache (trim mobile) with
    | some u =>
      have hu := hs (trim mobile) u hcache
      rw [trim_trim] at hu
      rw [hu]
      exact ⟨s, getUserId_cached (cacheGet_hit hcache), hs⟩
    | none =>
      cases hid : D.userId (trim mobile) with
      | some u =>
        rw [hid] at hload
        refine ⟨_, getUserId_cached (cacheGet_loaded hcache hload), ?_⟩
        -- the id is put under the trimmed mobile, and some keys are given up
        intro k v hk
        simp only at hk
        split at hk
        · cases hk
        · split at hk
          · rename_i hkey
            rw [hkey, trim_trim, hid, hk]
          · exact hs k v hk
      | none =>
        rw [hid] at hload
        exact ⟨_, getUserId_failed (cacheGet_null hcache hload), hs⟩

theorem mapUserId_directory (hR : D.Follows R) (hs : D.Holds s.userCache) (accessToken : String)
    (mobiles : List (Option String)) :
    ∃ s', R.mapUserId accessToken mobiles s = (.ok (mobiles.map D.image), s') ∧ D.Holds s'.userCache := by
  induction mobiles generalizing s with
  | nil => exact ⟨s, rfl, hs⟩
  | cons mobile mobiles ih =>
    obtain ⟨s₁, hid, hs₁⟩ := getUserId_directory hR hs accessToken mobile
    obtain ⟨s₂, hids, hs₂⟩ := ih hs₁
    refine ⟨s₂, ?_, hs₂⟩
    rw [DingTalkRemote.mapUserId, Action.bind_ok hid, Action.bind_ok hids]
    rfl

/-- The ids of the directory are not blank, so what is left out is not in it. -/
theorem userIdsOf_image (D : Directory) (mobiles : List (Option String)) :
    userIdsOf (mobiles.map D.image) = mobiles.filterMap D.image := by
  induction mobiles with
  | nil => rfl
  | cons mobile mobiles ih =>
    unfold userIdsOf at ih ⊢
    rw [List.map_cons, List.filterMap_cons]
    cases himage : D.image mobile with
    | none =>
      rw [List.filter_cons_of_neg (by simp [isBlank])]
      exact ih
    | some u =>
      obtain ⟨m, -, hu⟩ := Option.bind_eq_some_iff.1 himage
      have hblank : (!isBlank (some u)) = true := by rw [D.notBlank _ u hu]; rfl
      rw [List.filter_cons, if_pos hblank, List.reduceOption_cons_of_some, ih]

end Lookup

section History

variable {D : Directory} {R : DingTalkRemote} {s s' : DingTalkState} {e : CacheEvent} {es : List CacheEvent}
  {accessToken : String}

theorem holds_step (hR : D.Follows R) (hs : D.Holds s.userCache) (he : D.Consistent e)
    (hstep : cacheStep R s e = some s') : D.Holds s'.userCache := by
  cases e with
  | getUserId accessToken mobile =>
    obtain ⟨s₁, hid, hs₁⟩ := getUserId_directory hR hs accessToken mobile
    rw [cacheStep, hid] at hstep
    cases hstep
    exact hs₁
  | put user =>
    rw [cacheStep] at hstep
    cases huser : mobileAndId user with
    | none =>
      rw [huser] at hstep
      cases hstep
      exact hs
    | some p =>
      rw [huser] at hstep
      cases hstep
      exact holds_update hs fun u hu => by cases hu; exact he _ _ huser
  | evict mobile =>
    cases hstep
    exact holds_update hs fun u hu => nomatch hu

theorem holds_empty (D : Directory) : D.Holds DingTalkState.empty.userCache := fun _ _ h => nomatch h

/-- What a call of `getUserIds` has looked up, with the mobiles it has not. -/
def Resolved (D : Directory) (mobileList : List (Option String)) (c : GetUserIdsCall) : Prop :=
  D.Holds c.state.userCache ∧ ∃ done, mobileList.filter (!isBlank ·) = done ++ c.mobiles ∧ c.userIds = done.map D.image

theorem resolved_step {mobileList : List (Option String)} {c c' : GetUserIdsCall} {l : GetUserIdsLabel}
    (hR : D.Follows R) (h : Resolved D mobileList c) (hl : ∀ e, l = .other e → D.Consistent e)
    (hstep : getUserIdsStep R accessToken c l = some c') : Resolved D mobileList c' := by
  obtain ⟨hs, done, hsplit, hids⟩ := h
  cases l with
  | lookup =>
    rw [getUserIdsStep] at hstep
    cases hmobiles : c.mobiles with
    | nil =>
      rw [hmobiles] at hstep
      cases hstep
    | cons mobile mobiles =>
      obtain ⟨s₁, hid, hs₁⟩ := getUserId_directory hR hs accessToken mobile
      rw [hmobiles] at hstep
      simp only [hid, Option.some.injEq] at hstep
      subst hstep
      refine ⟨hs₁, done ++ [mobile], ?_, ?_⟩
      · rw [hsplit, hmobiles, List.append_assoc, List.singleton_append]
      · rw [hids, List.map_append, List.map_singleton]
  | other e =>
    obtain ⟨s₁, hs₁, rfl⟩ := Option.map_eq_some_iff.1 hstep
    exact ⟨holds_step hR hs (hl e rfl) hs₁, done, hsplit, hids⟩

/-- **Resolution through the cache is resolution in the directory.** After any history of calls of
`getUserId`, of users that `refreshUser` put, and of keys that were given up, `getUserIds` returns
the ids of the mobiles that are not blank and in the directory, in the order of their first
occurrence and without repetition. The same goes for a call that such events interrupt between
any two of its lookups, and it can always go on. -/
theorem getUserIds_directory (hR : D.Follows R) (hes : ∀ e ∈ es, D.Consistent e)
    (hrun : exec (cacheStep R) .empty es = some s) (accessToken : String) (mobileList : List (Option String)) :
    (∃ s', R.getUserIds mobileList accessToken s = (.ok (D.images mobileList).eraseDups, s')) ∧
    ∀ ls c, (∀ e, .other e ∈ ls → D.Consistent e) →
      exec (getUserIdsStep R accessToken) (.start s mobileList) ls = some c →
      (c.mobiles = [] → c.result = (D.images mobileList).eraseDups) ∧
        (c.mobiles ≠ [] → ∃ c', getUserIdsStep R accessToken c .lookup = some c') := by
  have hstep : ∀ s e s', D.Holds s.userCache → D.Consistent e → cacheStep R s e = some s' → D.Holds s'.userCache :=
    fun _ _ _ h he hstep => holds_step hR h he hstep
  have hs : D.Holds s.userCache := inv_of_along hstep (holds_empty D) (along_of_forall_mem hes) hrun
  refine ⟨?_, fun ls c hls hcall => ?_⟩
  · obtain ⟨s', hids, -⟩ := mapUserId_directory hR hs accessToken (mobileList.filter (!isBlank ·))
    refine ⟨s', ?_⟩
    rw [getUserIds_eq hids, userIdsOf_image]
    rfl
  · have hstart : Resolved D mobileList (.start s mobileList) := ⟨hs, [], rfl, rfl⟩
    have hall : ∀ l ∈ ls, ∀ e, l = .other e → D.Consistent e := fun l hl e he => hls e (he ▸ hl)
    have hnext : ∀ c l c', Resolved D mobileList c → (∀ e, l = .other e → D.Consistent e) →
        getUserIdsStep R accessToken c l = some c' → Resolved D mobileList c' :=
      fun _ _ _ h hl hstep => resolved_step hR h hl hstep
    obtain ⟨-, done, hsplit, hids⟩ : Resolved D mobileList c :=
      inv_of_along hnext hstart (along_of_forall_mem hall) hcall
    refine ⟨fun hnil => ?_, fun hne => ?_⟩
    · rw [hnil, List.append_nil] at hsplit
      have hresult : c.result = (userIdsOf c.userIds).eraseDups := rfl
      rw [hresult, hids, userIdsOf_image, ← hsplit]
      rfl
    · obtain ⟨mobile, mobiles, hmobiles⟩ := List.exists_cons_of_ne_nil hne
      obtain ⟨id, s₁, hid⟩ := getUserId_ok R accessToken mobile c.state
      exact ⟨⟨s₁, mobiles, c.userIds ++ [id]⟩, by rw [getUserIdsStep, hmobiles]; simp only [hid]⟩

end History

section Refresh

variable {D : Directory} {R : DingTalkRemote} {Q : DepartRemote} {r r' : RefreshState} {l : RefreshLabel}
  {cache : String → Option String} {requests : List DingTalkRequest}

/-- The users that the handlers still have to put are the directory's, and what has been put so far
is a history of the cache. -/
structure Replayed (D : Directory) (R : DingTalkRemote) (cache : String → Option String)
    (requests : List DingTalkRequest) (r : RefreshState) : Prop where
  reports : ∀ k users next, (r.task k).pc = .handling users next → ∀ user ∈ users, D.Reports user
  events : ∃ es, (∀ e ∈ es, D.Consistent e) ∧ exec (cacheStep R) ⟨cache, requests⟩ es = some ⟨r.userCache, requests⟩

/-- A task that goes on with users of the directory. -/
theorem reports_update {task : ℕ → AddUserTask} {k : ℕ} {t : AddUserTask}
    (h : ∀ k users next, (task k).pc = .handling users next → ∀ user ∈ users, D.Reports user)
    (ht : ∀ users next, t.pc = .handling users next → ∀ user ∈ users, D.Reports user) :
    ∀ j users next, (Function.update task k t j).pc = .handling users next → ∀ user ∈ users, D.Reports user := by
  intro j users next hj
  by_cases hjk : j = k
  · rw [hjk, Function.update_self] at hj
    exact ht users next hj
  · rw [Function.update_of_ne hjk] at hj
    exact h j users next hj

theorem Replayed.goto (h : Replayed D R cache requests r) {k : ℕ} {pc : AddUserPc}
    (hpc : ∀ users next, pc = .handling users next → ∀ user ∈ users, D.Reports user) :
    Replayed D R cache requests (r.goto k pc) :=
  ⟨reports_update h.reports hpc, h.events⟩

theorem replayed_step (hQ : ∀ depart cursor, ∀ user ∈ (Q.onDepartUser depart cursor).users, D.Reports user)
    (h : Replayed D R cache requests r) (hstep : refreshStep Q r l = some r') : Replayed D R cache requests r' := by
  cases refreshStep_effect hstep with
  | addUser _ _ _ =>
    refine h.goto fun users next hpc => ?_
    cases hpc
  | @respond k depart cursor hk hpc =>
    refine h.goto fun users next hhandler user huser => hQ depart cursor user ?_
    by_cases hsuccess : (Q.onDepartUser depart cursor).isSuccess = true
    · rcases handler_eq hsuccess with heq | ⟨heq, -⟩
      · rw [heq] at hhandler
        cases hhandler
        exact huser
      · rw [heq] at hhandler
        cases hhandler
    · rw [DepartUserResponseDTO.handler, if_neg hsuccess] at hhandler
      cases hhandler
  | @put k user users next p hpc huser =>
    have hreports := h.reports k (user :: users) next hpc
    refine ⟨reports_update h.reports fun users' next' hpc' => ?_, ?_⟩
    · cases hpc'
      exact fun u hu => hreports u (List.mem_cons_of_mem _ hu)
    · -- one more user was put
      obtain ⟨es, hes, hrun⟩ := h.events
      refine ⟨es ++ [.put user], fun e he => ?_, ?_⟩
      · rcases List.mem_append.1 he with he | he
        · exact hes e he
        · rw [List.mem_singleton.1 he]
          exact hreports user List.mem_cons_self
      · rw [exec_append, hrun, Option.bind_some, exec_cons, cacheStep, huser]
        rfl
  | fail _ _ =>
    refine h.goto fun users next hpc => ?_
    cases hpc
  | more _ =>
    refine h.goto fun users next hpc => ?_
    cases hpc
  | last _ =>
    refine h.goto fun users next hpc => ?_
    cases hpc

/-- What a run of `refreshUser` does to the cache is a history of users that are put. -/
theorem refresh_events (hQ : ∀ depart cursor, ∀ user ∈ (Q.onDepartUser depart cursor).users, D.Reports user)
    {ls : List RefreshLabel} (hrun : exec (refreshStep Q) (.start cache) ls = some r) :
    ∃ es, (∀ e ∈ es, D.Consistent e) ∧ exec (cacheStep R) ⟨cache, requests⟩ es = some ⟨r.userCache, requests⟩ := by
  have hstart : Replayed D R cache requests (.start cache) :=
    ⟨(fun k users next hpc => nomatch hpc), [], (fun e he => nomatch he), rfl⟩
  have hreplayed : Replayed D R cache requests r :=
    inv_of_exec (fun _ _ _ h hstep => replayed_step hQ h hstep) hstart hrun
  exact hreplayed.events

end Refresh

/-- The directory of two mobiles. -/
def twoMobilesDirectory : Directory where
  userId := twoMobiles
  notBlank := by
    intro mobile u h
    unfold twoMobiles at h
    split at h
    · cases h
      decide
    · split at h
      · cases h
        decide
      · cases h

/-- Everything is answered from the directory of two mobiles. -/
def fromTwoMobiles : DingTalkRemote :=
  { answersOk with
    onUserByMobile := fun _ mobile =>
      match twoMobiles mobile with
      | some u => .ok (some ⟨⟨some 0, some "ok"⟩, some ⟨some u⟩⟩)
      | none => .ok (some ⟨⟨some 60121, some "找不到该用户"⟩, none⟩) }

theorem fromTwoMobiles_follows : twoMobilesDirectory.Follows fromTwoMobiles where
  found := by
    intro n mobile u h
    change twoMobiles mobile = some u at h
    refine ⟨⟨⟨some 0, some "ok"⟩, some ⟨some u⟩⟩, ⟨some u⟩, ?_, rfl, rfl, rfl⟩
    simp only [fromTwoMobiles, h]
  absent := by
    intro n mobile h
    change twoMobiles mobile = none at h
    refine ⟨⟨⟨some 60121, some "找不到该用户"⟩, none⟩, ?_, rfl⟩
    simp only [fromTwoMobiles, h]

/-- One is put under a mobile with blanks, the other one looked up and given up again. -/
def mixedHistory : List CacheEvent :=
  [.put (some ⟨some "bob", some " 139 "⟩), .put (some ⟨none, some "138"⟩), .getUserId "token" (some "138"),
    .evict "138"]

theorem getUserIds_directory_mixed : ∃ s s', exec (cacheStep fromTwoMobiles) .empty mixedHistory = some s ∧
    fromTwoMobiles.getUserIds [some "139 ", none, some " ", some "140", some "138", some "139"] "token" s =
      (.ok ["bob", "ann"], s') := by
  obtain ⟨s, hs⟩ : ∃ s, exec (cacheStep fromTwoMobiles) .empty mixedHistory = some s := ⟨_, rfl⟩
  have hhistory : ∀ e ∈ mixedHistory, twoMobilesDirectory.Consistent e := by
    have hbob : twoMobilesDirectory.Reports (some ⟨some "bob", some " 139 "⟩) := by
      intro mobile u h
      cases h
      decide +kernel
    have hnull : twoMobilesDirectory.Reports (some ⟨none, some "138"⟩) := fun mobile u h => nomatch h
    simp [mixedHistory, Directory.Consistent, hbob, hnull]
  obtain ⟨⟨s', hids⟩, -⟩ := getUserIds_directory fromTwoMobiles_follows hhistory hs "token"
    [some "139 ", none, some " ", some "140", some "138", some "139"]
  have himages : (twoMobilesDirectory.images
      [some "139 ", none, some " ", some "140", some "138", some "139"]).eraseDups = ["bob", "ann"] := by
    decide +kernel
  exact ⟨s, s', hs, by rw [hids, himages]⟩

end StudyTech
