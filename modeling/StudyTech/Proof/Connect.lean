import StudyTech.Spec.Connect

/-!
# A connection without its key

`disconnect` acts only on a client that is not connected, so a connection that `connect` made
stays (`disconnect_state`), whatever becomes of the key. `connectServer_registers` has the
exact condition under which none stays without its key; the lock is always released.
-/

namespace StudyTech

open Lib Lib.Action

/-- The client is not connected, or the call created its key; and the lock is not held. -/
structure Registered (s : ConnectState) : Prop where
  key : s.connected = false ∨ s.created = true
  lock : s.locked = false

/-- Redis executes `setIfAbsent` where the key is absent. -/
def Surroundings.Creates (env : Surroundings) : Prop := env.key = none ∧ env.setIfAbsent.executed = true

/-- `connect` is reached and leaves the client connected, the connection lasts, and either
`connect` threw, or the key is not created. -/
structure Surroundings.LeavesBehind (env : Surroundings) : Prop where
  locked : env.tryLock = .ok true
  free : ∃ value, env.get = .ok value ∧ isBlank value = true
  connected : env.connected = true
  lasts : env.lost .unlock = false
  noKey : (∃ e, env.connect = .error e) ∨ env.lost .setIfAbsent = false ∧ ¬ env.Creates ∧
    (env.setIfAbsent = .replied → env.lost .disconnect = false)

variable {env : Surroundings} {s : ConnectState}

/-- `disconnect` leaves the connection as it is. -/
theorem disconnect_state : (disconnectUnlessConnected env s).2 = env.lose .disconnect s := by
  show (Action.bind clientIsConnected _ (env.lose .disconnect s)).2 = _
  cases hconnected : (env.lose .disconnect s).connected with
  | true => simp [Action.bind, clientIsConnected, hconnected]
  | false =>
    simp only [Action.bind, clientIsConnected, hconnected, Bool.not_false, if_true, Surroundings.clientDisconnect,
      Bool.false_and]
    rw [← hconnected]

/-- What is left of `register` after `setIfAbsent`: only `false` leads to `disconnect`, which
takes no connection away. -/
theorem afterSetIfAbsent_ensures (service : AbstractClientService)
    (hservice : service.disconnect = disconnectUnlessConnected env) :
    Ensures s (do
      let success ← env.redisSetIfAbsent
      if success = some false then
        service.disconnect) fun _ s' =>
      (s'.connected = true ↔ s.connected = true ∧ env.lost .setIfAbsent = false ∧
        (env.setIfAbsent = .replied ∧ env.key ≠ none → env.lost .disconnect = false)) ∧
      (s'.created = true ↔ s.created = true ∨ env.Creates) := by
  let after : ConnectState :=
    { env.lose .setIfAbsent s with created := s.created || (env.key.isNone && env.setIfAbsent.executed) }
  have hconnected : after.connected = true ↔ s.connected = true ∧ env.lost .setIfAbsent = false := by
    simp [after, Surroundings.lose]
  have hcreated : after.created = true ↔ s.created = true ∨ env.Creates := by
    simp [after, Surroundings.Creates]
  have hkeep : ¬ (env.setIfAbsent = .replied ∧ env.key ≠ none) → (after.connected = true ↔ s.connected = true ∧
      env.lost .setIfAbsent = false ∧ (env.setIfAbsent = .replied ∧ env.key ≠ none → env.lost .disconnect = false)) :=
    fun hno => hconnected.trans ⟨fun h => ⟨h.1, h.2, fun hyes => absurd hyes hno⟩, fun h => ⟨h.1, h.2.1⟩⟩
  refine Ensures.bind (P := fun r s' =>
      s' = after ∧ (r = .ok (some false) ↔ env.setIfAbsent = .replied ∧ env.key ≠ none))
    ⟨rfl, ?_⟩ ?_ ?_
  · unfold Surroundings.redisSetIfAbsent
    cases env.setIfAbsent <;> cases env.key <;> simp
  · rintro success s' ⟨rfl, hreply⟩
    split
    · rename_i hfalse
      have hyes := hreply.1 (congrArg Except.ok hfalse)
      unfold Ensures
      rw [hservice, disconnect_state]
      refine ⟨?_, hcreated⟩
      simp only [Surroundings.lose, Bool.and_eq_true, hconnected, Bool.not_eq_true', and_assoc]
      exact and_congr_right fun _ => and_congr_right fun _ => ⟨fun h _ => h, fun h => h hyes⟩
    · rename_i hother
      exact ⟨hkeep fun hyes => hother (Except.ok.inj (hreply.2 hyes)), hcreated⟩
  · rintro e s' ⟨rfl, hreply⟩
    exact ⟨hkeep fun hyes => (nomatch hreply.2 hyes), hcreated⟩

/-- How the `try` block leaves the client. -/
theorem register_ensures (service : AbstractClientService) (hconnect : service.connect = env.clientConnect)
    (hdisconnect : service.disconnect = disconnectUnlessConnected env) (hlocked : env.tryLock = .ok true)
    (hconnected : s.connected = false) (hcreated : s.created = false) :
    Ensures s (service.register env) fun _ s' =>
      (s'.connected = true ∧ s'.created = false ∧ env.lost .unlock = false ↔ env.LeavesBehind) := by
  -- where `connect` is not reached
  have hnot : ¬ (∃ value, env.get = .ok value ∧ isBlank value = true) →
      (s.connected = true ∧ s.created = false ∧ env.lost .unlock = false ↔ env.LeavesBehind) := by
    intro hno
    refine iff_of_false (fun h => ?_) fun h => hno h.free
    rw [hconnected] at h
    exact nomatch h.1
  refine Ensures.bind (P := fun r s' => r = env.get ∧ s' = s) ⟨rfl, rfl⟩ ?_ ?_
  · rintro value s' ⟨hget, rfl⟩
    split
    · rename_i hblank
      have hfree : ∃ value, env.get = .ok value ∧ isBlank value = true := ⟨value, hget.symm, hblank⟩
      refine Ensures.bind (P := fun r t => r = env.connect ∧ t = { s' with connected := env.connected })
        (by rw [hconnect]; exact ⟨rfl, rfl⟩) ?_ ?_
      · rintro u t ⟨hok, rfl⟩
        refine (afterSetIfAbsent_ensures service hdisconnect).mono fun r t h => ?_
        obtain ⟨hstays, hmade⟩ := h
        have hmade' : t.created = false ↔ ¬ env.Creates := by
          rw [← Bool.not_eq_true, hmade, hcreated]
          simp
        rw [hstays, hmade']
        constructor
        · rintro ⟨⟨hconn, hset, hdisc⟩, hno, hlasts⟩
          refine ⟨hlocked, hfree, hconn, hlasts, .inr ⟨hset, hno, fun hreplied => hdisc ⟨hreplied, fun hkey => ?_⟩⟩⟩
          exact hno ⟨hkey, by rw [hreplied]; rfl⟩
        · intro h
          rcases h.noKey with ⟨e, herror⟩ | ⟨hset, hno, hdisc⟩
          · rw [herror] at hok
            cases hok
          · exact ⟨⟨h.connected, hset, fun hreplied => hdisc hreplied.1⟩, hno, h.lasts⟩
      · rintro e t ⟨herror, rfl⟩
        exact ⟨fun h => ⟨hlocked, hfree, h.1, h.2.2, .inl ⟨e, herror.symm⟩⟩, fun h => ⟨h.connected, hcreated, h.lasts⟩⟩
    · rename_i hblank
      refine hnot ?_
      rintro ⟨value', hvalue', hblank'⟩
      rw [hvalue', Except.ok.injEq] at hget
      exact hblank (hget ▸ hblank')
  · rintro e s' ⟨hget, rfl⟩
    refine hnot ?_
    rintro ⟨value, hvalue, -⟩
    rw [hvalue] at hget
    cases hget

/-- What the end of the call makes of how the block left the client. -/
theorem unlock_registered {t : ConnectState} :
    Registered (env.lockUnlock t).2 ↔ ¬ (t.connected = true ∧ t.created = false ∧ env.lost .unlock = false) := by
  constructor
  · rintro ⟨hkey, -⟩ ⟨hconn, hcreate, hlasts⟩
    rcases hkey with hgone | hmade
    · simp [Surroundings.lockUnlock, Surroundings.lose, hconn, hlasts] at hgone
    · rw [show t.created = true from hmade] at hcreate
      cases hcreate
  · intro hno
    refine ⟨?_, rfl⟩
    cases hgone : (env.lockUnlock t).2.connected with
    | false => exact .inl rfl
    | true =>
      simp only [Surroundings.lockUnlock, Surroundings.lose, Bool.and_eq_true, Bool.not_eq_true'] at hgone
      cases hmade : t.created with
      | false => exact absurd ⟨hgone.1, hmade, hgone.2⟩ hno
      | true => exact .inr hmade

/-- Where the lock is not obtained, nothing has happened. -/
theorem lockTryLock_state (h : env.tryLock ≠ .ok true) : (env.lockTryLock s).2 = s := by
  unfold Surroundings.lockTryLock
  split <;> simp_all

/-- **`connectServer` and the key.** When the call ends, normally or by an exception, the lock is
not held; and the client of either version is not connected or the call created its key, if and
only if the call does not leave a connection behind. -/
theorem connectServer_registers (env : Surroundings) (hconnected : s.connected = false) (hlock : s.locked = false)
    (hcreated : s.created = false) :
    ∀ service ∈ [V3.mqttClientService env, V5.mqttClientService env],
      let s' := (service.connectServer env s).2
      s'.locked = false ∧ (Registered s' ↔ ¬ env.LeavesBehind) := by
  intro service hservice
  have hmethods : service.connect = env.clientConnect ∧ service.disconnect = disconnectUnlessConnected env ∧
      service.isConnected = clientIsConnected := by
    simp only [List.mem_cons, List.not_mem_nil, or_false] at hservice
    rcases hservice with rfl | rfl <;> exact ⟨rfl, rfl, rfl⟩
  obtain ⟨hconnect, hdisconnect, hisConnected⟩ := hmethods
  have hidle : env.tryLock ≠ .ok true → (env.lockTryLock s).2.locked = false ∧
      (Registered (env.lockTryLock s).2 ↔ ¬ env.LeavesBehind) := by
    intro hno
    rw [lockTryLock_state hno]
    exact ⟨hlock, iff_of_true ⟨.inl hconnected, hlock⟩ fun h => hno h.locked⟩
  show Ensures s (service.connectServer env) fun _ s' => s'.locked = false ∧ (Registered s' ↔ ¬ env.LeavesBehind)
  refine Ensures.bind (P := fun r s' => r = .ok false ∧ s' = s) ?_ ?_ ?_
  · rw [hisConnected]
    exact ⟨congrArg Except.ok hconnected, rfl⟩
  · rintro connected s' ⟨hfalse, rfl⟩
    cases hfalse
    refine Ensures.bind (P := fun r t => r = env.tryLock ∧ t = (env.lockTryLock s').2) ⟨rfl, rfl⟩ ?_ ?_
    · rintro locked t ⟨hlocked, rfl⟩
      cases locked with
      | true =>
        -- the `try` block, whose exceptions are wrapped, and `finally`
        let Q (t : ConnectState) : Prop :=
          t.connected = true ∧ t.created = false ∧ env.lost .unlock = false ↔ env.LeavesBehind
        have hblock : Ensures (env.lockTryLock s').2 (service.register env) fun _ t => Q t :=
          register_ensures service hconnect hdisconnect hlocked.symm hconnected hcreated
        have htry : Ensures (env.lockTryLock s').2 (tryCatch (service.register env) fun e => throw (wrapped e))
            fun _ t => Q t := hblock.tryCatch (fun _ _ h => h) fun _ _ h => h
        rw [if_pos rfl]
        have hfinal : ∀ (r : Except JavaException Unit) t, Q t →
            (env.lockUnlock t).2.locked = false ∧ (Registered (env.lockUnlock t).2 ↔ ¬ env.LeavesBehind) :=
          fun r t h => ⟨rfl, unlock_registered.trans (not_congr h)⟩
        exact htry.tryFinally hfinal
      | false =>
        rw [if_neg Bool.false_ne_true]
        exact hidle fun htrue => (nomatch hlocked.trans htrue)
    · rintro e t ⟨herror, rfl⟩
      exact hidle fun htrue => (nomatch herror.trans htrue)
  · rintro e s' ⟨herror, -⟩
    cases herror

/-- Every call returns normally; `key` is what is under the client key at `setIfAbsent`. -/
def undisturbed (key : Option String) : Surroundings where
  tryLock := .ok true
  get := .ok none
  connect := .ok ()
  connected := true
  key := key
  setIfAbsent := .replied
  disconnect := .ok ()
  unlock := .ok ()
  lost := fun _ => false

theorem connectServer_registers_undisturbed :
    Registered
      ((V5.mqttClientService (undisturbed none)).connectServer (undisturbed none) ⟨false, false, false⟩).2 := by
  have hmem : V5.mqttClientService (undisturbed none) ∈
      [V3.mqttClientService (undisturbed none), V5.mqttClientService (undisturbed none)] := by simp
  refine ((connectServer_registers (undisturbed none) rfl rfl rfl) _ hmem).2.2 fun hleaves => ?_
  rcases hleaves.noKey with ⟨e, herror⟩ | ⟨-, hno, -⟩
  · cases herror
  · exact hno ⟨rfl, rfl⟩

/-- Another instance sets the key between `get` and `setIfAbsent`: the client stays connected. -/
theorem connectServer_stays_connected :
    (V3.mqttClientService (undisturbed (some "client"))).connectServer (undisturbed (some "client"))
      ⟨false, false, false⟩ =
      (.ok (), ⟨true, false, false⟩) ∧ ¬ Registered ⟨true, false, false⟩ := by
  refine ⟨by decide, fun h => ?_⟩
  rcases h.key with hgone | hmade
  · cases hgone
  · cases hmade

end StudyTech
