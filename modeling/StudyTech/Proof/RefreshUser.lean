import StudyTech.Spec.RefreshUser

/-!
# What `refreshUser` puts into the cache

A user without a mobile or an id ends the handler of its page: what a department has after its
first such user is not put (`beforeMissing`). `refreshUser_fills` says when the cache has every
user all the same.
-/

namespace StudyTech

open Lib

section Pages

def DepartUserResponseDTO.users (dto : DepartUserResponseDTO) : List (Option DepartUser) :=
  match dto.result with
  | some result => result.list.getD []
  | none => []

/-- The cursor of the next page. -/
def DepartUserResponseDTO.next (dto : DepartUserResponseDTO) : Option (Option ℤ) :=
  match dto.result with
  | some result => if result.hasMore = some true then some result.next_cursor else none
  | none => none

/-- The answers from a cursor on, chained by `hasMore` and `next_cursor`; all calls succeed. -/
inductive Pages (R : DepartRemote) (depart : String) : Option ℤ → List DepartUserResponseDTO → Prop
  | last {cursor : Option ℤ} : (R.onDepartUser depart cursor).isSuccess = true →
      (R.onDepartUser depart cursor).next = none → Pages R depart cursor [R.onDepartUser depart cursor]
  | more {cursor next : Option ℤ} {pages : List DepartUserResponseDTO} :
      (R.onDepartUser depart cursor).isSuccess = true → (R.onDepartUser depart cursor).next = some next →
      Pages R depart next pages → Pages R depart cursor (R.onDepartUser depart cursor :: pages)

/-- The users on the pages, as pairs where they have both a mobile and an id. -/
def entries (pages : List DepartUserResponseDTO) : List (Option (String × String)) :=
  pages.flatMap fun dto => dto.users.map mobileAndId

/-- The values in front of the first one that is missing. -/
def beforeMissing {α : Type} : List (Option α) → List α
  | some a :: xs => a :: beforeMissing xs
  | _ => []

theorem beforeMissing_append {α : Type} (xs : List α) (ys : List (Option α)) :
    beforeMissing (xs.map some ++ ys) = xs ++ beforeMissing ys := by
  induction xs with
  | nil => rfl
  | cons x xs ih => simp [beforeMissing, ih]

/-- A handler begins with the users of its page, unless there is nothing on it. -/
theorem handler_eq {dto : DepartUserResponseDTO} (h : dto.isSuccess = true) :
    dto.handler = .handling dto.users dto.next ∨ dto.handler = .ended ∧ dto.users = [] ∧ dto.next = none := by
  unfold DepartUserResponseDTO.handler DepartUserResponseDTO.users DepartUserResponseDTO.next
  rw [if_pos h]
  cases dto.result with
  | some result => exact .inl rfl
  | none => exact .inr ⟨rfl, rfl, rfl⟩

end Pages

section Run

variable {R : DepartRemote} {cache : String → Option String} {pages : String → List DepartUserResponseDTO}
  {s s' : RefreshState} {l : RefreshLabel} {ls : List RefreshLabel}

/-- What a step does, by the place of its task. -/
inductive RefreshEffect (R : DepartRemote) (s : RefreshState) : RefreshLabel → RefreshState → Prop
  | addUser {k : ℕ} : k < R.departs.length → (s.task k).pc = .idle → (∀ j < k, (s.task j).pc ≠ .idle) →
      RefreshEffect R s (.addUser k) (s.goto k (.waiting (some 0)))
  | respond {k : ℕ} {depart : String} {cursor : Option ℤ} : R.departs[k]? = some depart →
      (s.task k).pc = .waiting cursor →
      RefreshEffect R s (.respond k) (s.goto k (R.onDepartUser depart cursor).handler)
  | put {k : ℕ} {user : Option DepartUser} {users : List (Option DepartUser)} {next : Option (Option ℤ)}
      {p : String × String} : (s.task k).pc = .handling (user :: users) next → mobileAndId user = some p →
      RefreshEffect R s (.handle k) (s.put k p.1 p.2 (.handling users next))
  | fail {k : ℕ} {user : Option DepartUser} {users : List (Option DepartUser)} {next : Option (Option ℤ)} :
      (s.task k).pc = .handling (user :: users) next → mobileAndId user = none →
      RefreshEffect R s (.handle k) (s.goto k .ended)
  | more {k : ℕ} {cursor : Option ℤ} : (s.task k).pc = .handling [] (some cursor) →
      RefreshEffect R s (.handle k) (s.goto k (.waiting cursor))
  | last {k : ℕ} : (s.task k).pc = .handling [] none → RefreshEffect R s (.handle k) (s.goto k .ended)

theorem refreshStep_effect (h : refreshStep R s l = some s') : RefreshEffect R s l s' := by
  cases l with
  | addUser k =>
    simp only [refreshStep, Option.ite_none_right_eq_some] at h
    obtain ⟨⟨hk, hidle, hbefore⟩, h⟩ := h
    cases h
    exact .addUser hk hidle hbefore
  | respond k =>
    simp only [refreshStep] at h
    split at h
    · rename_i depart cursor hk hpc
      cases h
      exact .respond hk hpc
    · cases h
  | handle k =>
    simp only [refreshStep] at h
    split at h
    · rename_i user users next hpc
      cases huser : mobileAndId user with
      | some p =>
        rw [huser] at h
        cases h
        exact .put hpc huser
      | none =>
        rw [huser] at h
        cases h
        exact .fail hpc huser
    · rename_i next hpc
      cases h
      cases next with
      | some cursor => exact .more hpc
      | none => exact .last hpc
    · cases h

/-- What is left of the users of a department. -/
def Remains (R : DepartRemote) (depart : String) : AddUserPc → List (Option (String × String)) → Prop
  | .idle, rest => ∃ pages, Pages R depart (some 0) pages ∧ rest = entries pages
  | .waiting cursor, rest => ∃ pages, Pages R depart cursor pages ∧ rest = entries pages
  | .handling users next, rest => ∃ more, rest = users.map mobileAndId ++ more ∧
      (next = none ∧ more = [] ∨
        ∃ cursor pages, next = some cursor ∧ Pages R depart cursor pages ∧ more = entries pages)
  | .ended, rest => beforeMissing rest = []

/-- The pair is of a user on the pages of a department. -/
def Listed (R : DepartRemote) (pages : String → List DepartUserResponseDTO) (p : String × String) : Prop :=
  ∃ depart ∈ R.departs, some p ∈ entries (pages depart)

/-- The user is in front of the first one of some department that lacks a mobile or an id. -/
def BeforeGap (R : DepartRemote) (pages : String → List DepartUserResponseDTO) (p : String × String) : Prop :=
  ∃ depart ∈ R.departs, p ∈ beforeMissing (entries (pages depart))

/-- A task has put the pair. -/
def Put (R : DepartRemote) (s : RefreshState) (p : String × String) : Prop :=
  ∃ k < R.departs.length, p ∈ (s.task k).done

/-- A mobile is listed with one id only. -/
def OneId (R : DepartRemote) (pages : String → List DepartUserResponseDTO) : Prop :=
  ∀ p q, Listed R pages p → Listed R pages q → p.1 = q.1 → p.2 = q.2

structure RefreshInv (R : DepartRemote) (cache : String → Option String) (pages : String → List DepartUserResponseDTO)
    (s : RefreshState) : Prop where
  tasks : ∀ k depart, R.departs[k]? = some depart →
    ∃ rest, entries (pages depart) = (s.task k).done.map some ++ rest ∧ Remains R depart (s.task k).pc rest
  outside : ∀ k, R.departs.length ≤ k → (s.task k).pc = .idle
  origin : ∀ m u, s.userCache m = some u → cache m = some u ∨ Put R s (m, u)
  stays : OneId R pages → ∀ p, Listed R pages p → Put R s p ∨ cache p.1 = some p.2 → s.userCache p.1 = some p.2

theorem refreshInv_start (hpages : ∀ depart ∈ R.departs, Pages R depart (some 0) (pages depart)) :
    RefreshInv R cache pages (.start cache) where
  tasks := fun _ depart hk => ⟨_, rfl, pages depart, hpages depart (List.mem_of_getElem? hk), rfl⟩
  outside := fun _ _ => rfl
  origin := fun _ _ h => .inl h
  stays := fun _ _ _ h => h.elim (fun ⟨_, _, hdone⟩ => nomatch hdone) id

/-- A task goes on and puts nothing. -/
theorem RefreshInv.goto (h : RefreshInv R cache pages s) {k : ℕ} {depart : String} {pc : AddUserPc}
    (hk : R.departs[k]? = some depart) (hpc : ∀ rest, Remains R depart (s.task k).pc rest → Remains R depart pc rest) :
    RefreshInv R cache pages (s.goto k pc) := by
  have hlt : k < R.departs.length := (List.getElem?_eq_some_iff.1 hk).1
  have hdone : ∀ j, ((s.goto k pc).task j).done = (s.task j).done := by
    intro j
    show (Function.update s.task k _ j).done = _
    by_cases hj : j = k
    · rw [hj, Function.update_self]
    · rw [Function.update_of_ne hj]
  have hput : ∀ p, Put R (s.goto k pc) p ↔ Put R s p := by
    intro p
    simp only [Put, hdone]
  refine ⟨fun j depart' hj => ?_, fun j hj => ?_, fun m u hm => ?_, fun hone p hp hor => ?_⟩
  · obtain ⟨rest, hentries, hrest⟩ := h.tasks j depart' hj
    refine ⟨rest, by rw [hdone]; exact hentries, ?_⟩
    show Remains R depart' (Function.update s.task k _ j).pc rest
    by_cases hjk : j = k
    · rw [hjk, hk] at hj
      obtain rfl := Option.some.inj hj
      rw [hjk, Function.update_self]
      rw [hjk] at hrest
      exact hpc rest hrest
    · rw [Function.update_of_ne hjk]
      exact hrest
  · have hjk : j ≠ k := by omega
    show (Function.update s.task k _ j).pc = .idle
    rw [Function.update_of_ne hjk]
    exact h.outside j hj
  · rw [hput]
    exact h.origin m u hm
  · rw [hput] at hor
    exact h.stays hone p hp hor

/-- A task puts a user. -/
theorem RefreshInv.put (h : RefreshInv R cache pages s) {k : ℕ} {depart m u : String} {user : Option DepartUser}
    {users : List (Option DepartUser)} {next : Option (Option ℤ)} (hk : R.departs[k]? = some depart)
    (hpc : (s.task k).pc = .handling (user :: users) next) (huser : mobileAndId user = some (m, u)) :
    RefreshInv R cache pages (s.put k m u (.handling users next)) := by
  have hlt : k < R.departs.length := (List.getElem?_eq_some_iff.1 hk).1
  obtain ⟨rest, hentries, more, hrest, hmore⟩ : ∃ rest, entries (pages depart) = (s.task k).done.map some ++ rest ∧
      Remains R depart (.handling (user :: users) next) rest := hpc ▸ h.tasks k depart hk
  rw [List.map_cons, huser] at hrest
  have hmem : some (m, u) ∈ entries (pages depart) := by
    rw [hentries, hrest]
    exact List.mem_append_right _ List.mem_cons_self
  have hlisted : Listed R pages (m, u) := ⟨depart, List.mem_of_getElem? hk, hmem⟩
  have hself : (s.put k m u (.handling users next)).task k = ⟨.handling users next, (s.task k).done ++ [(m, u)]⟩ :=
    Function.update_self ..
  have hother : ∀ j, j ≠ k → (s.put k m u (.handling users next)).task j = s.task j := fun j hj =>
    Function.update_of_ne hj ..
  have hput : ∀ p, Put R (s.put k m u (.handling users next)) p → Put R s p ∨ p = (m, u) := by
    rintro p ⟨j, hj, hp⟩
    by_cases hjk : j = k
    · rw [hjk, hself] at hp
      rcases List.mem_append.1 hp with hp | hp
      · exact .inl ⟨k, hlt, hp⟩
      · exact .inr (List.mem_singleton.1 hp)
    · rw [hother j hjk] at hp
      exact .inl ⟨j, hj, hp⟩
  have hold : ∀ p, Put R s p → Put R (s.put k m u (.handling users next)) p := by
    rintro p ⟨j, hj, hp⟩
    refine ⟨j, hj, ?_⟩
    by_cases hjk : j = k
    · rw [hjk, hself]
      rw [hjk] at hp
      exact List.mem_append_left _ hp
    · rw [hother j hjk]
      exact hp
  have hnew : Put R (s.put k m u (.handling users next)) (m, u) :=
    ⟨k, hlt, by rw [hself]; exact List.mem_append_right _ (List.mem_singleton_self _)⟩
  have hcache : (s.put k m u (.handling users next)).userCache = Function.update s.userCache m (some u) := rfl
  refine ⟨fun j depart' hj => ?_, fun j hj => ?_, fun m' u' hm => ?_, fun hone p hp hor => ?_⟩
  · by_cases hjk : j = k
    · rw [hjk, hk] at hj
      obtain rfl := Option.some.inj hj
      rw [hjk, hself]
      refine ⟨users.map mobileAndId ++ more, ?_, more, rfl, hmore⟩
      rw [hentries, hrest, List.map_append, List.append_assoc]
      rfl
    · rw [hother j hjk]
      exact h.tasks j depart' hj
  · rw [hother j (by omega)]
    exact h.outside j hj
  · rw [hcache] at hm
    by_cases hmm : m' = m
    · rw [hmm, Function.update_self] at hm
      rw [hmm, ← Option.some.inj hm]
      exact .inr hnew
    · rw [Function.update_of_ne hmm] at hm
      exact (h.origin m' u' hm).imp_right (hold _)
  · rw [hcache]
    by_cases hmm : p.1 = m
    · rw [hmm, Function.update_self, hone p (m, u) hp hlisted hmm]
    · rw [Function.update_of_ne hmm]
      refine h.stays hone p hp (hor.imp_left fun hp' => (hput p hp').resolve_right fun heq => hmm ?_)
      rw [heq]

theorem refreshInv_step (h : RefreshInv R cache pages s) (hs : refreshStep R s l = some s') :
    RefreshInv R cache pages s' := by
  have hin : ∀ k, (s.task k).pc ≠ .idle → ∃ depart, R.departs[k]? = some depart := by
    intro k hpc
    have hlt : k < R.departs.length := by
      by_contra hle
      exact hpc (h.outside k (Nat.not_lt.1 hle))
    exact ⟨_, List.getElem?_eq_getElem hlt⟩
  cases refreshStep_effect hs with
  | addUser hk hidle _ => exact h.goto (List.getElem?_eq_getElem hk) fun rest hrest => by rwa [hidle] at hrest
  | @respond k depart cursor hk hpc =>
    refine h.goto hk fun rest hrest => ?_
    rw [hpc] at hrest
    obtain ⟨ps, hps, rfl⟩ := hrest
    cases hps with
    | last hsuccess hnext =>
      have hentries :
          entries [R.onDepartUser depart cursor] = (R.onDepartUser depart cursor).users.map mobileAndId := by
        simp [entries]
      rw [hentries]
      rcases handler_eq hsuccess with hhandler | ⟨hhandler, husers, -⟩
      · rw [hhandler, hnext]
        exact ⟨[], (List.append_nil _).symm, .inl ⟨rfl, rfl⟩⟩
      · rw [hhandler, husers]
        rfl
    | @more _ next ps hsuccess hnext hps =>
      rcases handler_eq hsuccess with hhandler | ⟨-, -, hnone⟩
      · rw [hhandler, hnext]
        exact ⟨entries ps, rfl, .inr ⟨next, ps, rfl, hps, rfl⟩⟩
      · rw [hnone] at hnext
        cases hnext
  | @put k user users next p hpc huser =>
    obtain ⟨depart, hk⟩ := hin k (by rw [hpc]; exact AddUserPc.noConfusion)
    exact h.put hk hpc huser
  | @fail k user users next hpc huser =>
    obtain ⟨depart, hk⟩ := hin k (by rw [hpc]; exact AddUserPc.noConfusion)
    refine h.goto hk fun rest hrest => ?_
    rw [hpc] at hrest
    obtain ⟨more, rfl, -⟩ := hrest
    rw [List.map_cons, huser]
    rfl
  | @more k cursor hpc =>
    obtain ⟨depart, hk⟩ := hin k (by rw [hpc]; exact AddUserPc.noConfusion)
    refine h.goto hk fun rest hrest => ?_
    rw [hpc] at hrest
    obtain ⟨more, rfl, ⟨hnone, -⟩ | ⟨cursor', ps, hnext, hps, rfl⟩⟩ := hrest
    · cases hnone
    · cases hnext
      exact ⟨ps, hps, rfl⟩
  | @last k hpc =>
    obtain ⟨depart, hk⟩ := hin k (by rw [hpc]; exact AddUserPc.noConfusion)
    refine h.goto hk fun rest hrest => ?_
    rw [hpc] at hrest
    obtain ⟨more, rfl, ⟨-, rfl⟩ | ⟨cursor', ps, hnext, -, -⟩⟩ := hrest
    · rfl
    · cases hnext

/-- When every task has ended, what was put are the users in front of the gaps. -/
theorem put_iff (h : RefreshInv R cache pages s) (hend : ∀ k < R.departs.length, (s.task k).pc = .ended)
    (p : String × String) : Put R s p ↔ BeforeGap R pages p := by
  have hdone : ∀ k depart, R.departs[k]? = some depart → beforeMissing (entries (pages depart)) = (s.task k).done := by
    intro k depart hk
    obtain ⟨rest, hentries, hrest⟩ := h.tasks k depart hk
    rw [hend k (List.getElem?_eq_some_iff.1 hk).1] at hrest
    have hnothing : beforeMissing rest = [] := hrest
    rw [hentries, beforeMissing_append, hnothing, List.append_nil]
  constructor
  · rintro ⟨k, hk, hp⟩
    have hdepart := List.getElem?_eq_getElem hk
    exact ⟨_, List.mem_of_getElem? hdepart, by rw [hdone k _ hdepart]; exact hp⟩
  · rintro ⟨depart, hdepart, hp⟩
    obtain ⟨k, hk⟩ := List.mem_iff_getElem?.1 hdepart
    exact ⟨k, (List.getElem?_eq_some_iff.1 hk).1, by rw [← hdone k depart hk]; exact hp⟩

/-- **`refreshUser` and the cache**, when all answers have been handled, in any order. The cache
maps the mobile of every listed user that has both a mobile and an id to the id, if and only if
no mobile is listed with two ids, and each such user is in front of the first one of some
department that lacks a mobile or an id, or its entry was there before. -/
theorem refreshUser_fills (hpages : ∀ depart ∈ R.departs, Pages R depart (some 0) (pages depart))
    (hrun : exec (refreshStep R) (.start cache) ls = some s)
    (hend : ∀ k < R.departs.length, (s.task k).pc = .ended) :
    (∀ p, Listed R pages p → s.userCache p.1 = some p.2) ↔
      OneId R pages ∧ ∀ p, Listed R pages p → BeforeGap R pages p ∨ cache p.1 = some p.2 := by
  have h : RefreshInv R cache pages s :=
    inv_of_exec (fun _ _ _ h hs => refreshInv_step h hs) (refreshInv_start hpages) hrun
  constructor
  · intro hfilled
    refine ⟨fun p q hp hq hmobile => ?_, fun p hp => ?_⟩
    · have hq' := hfilled q hq
      rw [← hmobile, hfilled p hp] at hq'
      exact Option.some.inj hq'
    · rcases h.origin p.1 p.2 (hfilled p hp) with hcache | hput
      · exact .inr hcache
      · exact .inl ((put_iff h hend p).1 hput)
  · rintro ⟨hone, hall⟩ p hp
    exact h.stays hone p hp ((hall p hp).imp_left (put_iff h hend p).2)

end Run

/-- One department with two pages, which begin with `first`. -/
def oneDepart (first : DepartUser) : DepartRemote where
  onDepartList := ⟨⟨some 0, some "ok"⟩, some [⟨"1"⟩]⟩
  onDepartUser := fun _ cursor =>
    if cursor = some 0 then
      ⟨⟨some 0, some "ok"⟩, some ⟨some true, some 1, some [some first, some ⟨some "zhang", some "138"⟩]⟩⟩
    else ⟨⟨some 0, some "ok"⟩, some ⟨some false, none, some [some ⟨some "wang", some "139"⟩]⟩⟩

theorem oneDepart_pages (first : DepartUser) :
    ∀ depart ∈ (oneDepart first).departs, Pages (oneDepart first) depart (some 0)
      [(oneDepart first).onDepartUser depart (some 0), (oneDepart first).onDepartUser depart (some 1)] :=
  fun _ _ => .more rfl rfl (.last rfl rfl)

/-- The two answers arrive, and all users are put. -/
def bothPages : List RefreshLabel :=
  [.addUser 0, .respond 0, .handle 0, .handle 0, .handle 0, .respond 0, .handle 0, .handle 0]

theorem refreshUser_fills_bothPages : ∃ s, exec (refreshStep (oneDepart ⟨some "li", some "137"⟩)) (.start fun _ => none)
    bothPages = some s ∧ s.userCache "139" = some "wang" := by
  let R := oneDepart ⟨some "li", some "137"⟩
  let s := (exec (refreshStep R) (.start fun _ => none) bothPages).getD (.start fun _ => none)
  have hrun : exec (refreshStep R) (.start fun _ => none) bothPages = some s := rfl
  have hend : ∀ k < R.departs.length, (s.task k).pc = .ended := by decide
  let pages : String → List DepartUserResponseDTO := fun depart =>
    [R.onDepartUser depart (some 0), R.onDepartUser depart (some 1)]
  let users : List (String × String) := [("137", "li"), ("138", "zhang"), ("139", "wang")]
  have hentries : ∀ depart, entries (pages depart) = users.map some := fun _ => rfl
  have hlisted : ∀ p, Listed R pages p → p ∈ users := by
    rintro p ⟨depart, -, hp⟩
    rw [hentries] at hp
    obtain ⟨q, hq, hqp⟩ := List.mem_map.1 hp
    rwa [← Option.some.inj hqp]
  have hdepart : "1" ∈ R.departs := by decide
  have hone : OneId R pages := fun p q hp hq hmobile => by
    have hdistinct : ∀ p ∈ users, ∀ q ∈ users, p.1 = q.1 → p.2 = q.2 := by decide
    exact hdistinct p (hlisted p hp) q (hlisted q hq) hmobile
  have hfills := refreshUser_fills (oneDepart_pages _) hrun hend
  exact ⟨s, hrun, hfills.2 ⟨hone, fun p hp => .inl ⟨"1", hdepart, hlisted p hp⟩⟩ ("139", "wang")
    ⟨"1", hdepart, by rw [hentries]; decide⟩⟩

/-- **A user without a mobile in front, and nobody of the department is put**, nor asked for. -/
theorem refreshUser_loses : ∃ s, exec (refreshStep (oneDepart ⟨some "li", none⟩)) (.start fun _ => none)
    [.addUser 0, .respond 0, .handle 0] = some s ∧ (s.task 0).pc = .ended ∧
      s.userCache "138" = none ∧ s.userCache "139" = none :=
  ⟨_, rfl, rfl, rfl, rfl⟩

end StudyTech
