import Mathlib.Data.Fintype.Basic
import StudyTech.Spec.Mqtt

/-!
# One connected instance per client id

The key has the same value for all instances, so that `disconnected` deletes it whoever
set it: a callback that comes late deletes the key of an instance that connected in the
meantime, and a third one connects as well (`two_connected`). The key may also expire
under an instance that is connected but not yet told to renew it, an instance may be
connected though the call that sets its key failed, and a blank key is no key.

As long as none of this happens (`RegistrationKept`), at most one instance is connected outside
`connectServer` (`one_connected`).
-/

namespace StudyTech

open Lib

variable {ι : Type}

/-- The instance is connected, and not in a call of `connectServer`. -/
def ConnectedOutside (w : MqttWorld ι) (i : ι) : Prop := (w.service i).connected = true ∧ (w.service i).pc = .idle

instance (w : MqttWorld ι) (i : ι) : Decidable (ConnectedOutside w i) := inferInstanceAs (Decidable (_ ∧ _))

/-- No instance that is connected has set the key. -/
def NobodysKey (w : MqttWorld ι) : Prop := ∀ i, w.key = some i → (w.service i).connected = false

/-- The step leaves every connected instance with its key: `delete` and the expiry hit no
connected instance, `connect` does not throw with the client connected, `setIfAbsent` is
executed unless the connection was lost, and `get` finds no key that is blank. -/
def RegistrationKept (clientId : String) (w : MqttWorld ι) : MqttLabel ι → Prop
  | .step i ending =>
    ((w.service i).pc = .get → ending = .returns → w.key = none ∨ isBlank (some clientId) = false) ∧
      ((w.service i).pc = .connect → ending ≠ .fails true) ∧
      ((w.service i).pc = .setIfAbsent → (w.service i).connected = true → ending ≠ .fails false)
  | .delete _ ending => ending.executed = true → NobodysKey w
  | .expire => NobodysKey w
  | _ => True

namespace ConnectPc

/-- The call has not connected the client yet. -/
def before : ConnectPc → Bool
  | .tryLock => true
  | .get => true
  | .connect => true
  | _ => false

/-- The call found no key, and has not set it yet. -/
def keyless : ConnectPc → Bool
  | .connect => true
  | .setIfAbsent => true
  | _ => false

end ConnectPc

/-- The invariant. -/
structure MqttInv (w : MqttWorld ι) : Prop where
  holder : ∀ i, (w.service i).pc.locked = true → w.holder = some i
  offline : ∀ i, (w.service i).pc.before = true → (w.service i).connected = false
  keyless : ∀ i, (w.service i).pc.keyless = true → w.key = none
  registered : ∀ i, (w.service i).connected = true → (w.service i).pc = .setIfAbsent ∨ w.key = some i

theorem mqttInv_init : MqttInv (.init ι) := by
  refine ⟨?_, ?_, ?_, ?_⟩
  · intro i h; cases h
  · intro i h; cases h
  · intro i h; cases h
  · intro i h; cases h

variable {w w' : MqttWorld ι}

/-- A connected instance has its key in the cache, once it has set it. -/
theorem MqttInv.key (h : MqttInv w) {i : ι} (hi : (w.service i).connected = true)
    (hpc : (w.service i).pc ≠ .setIfAbsent) : w.key = some i :=
  (h.registered i hi).resolve_left hpc

/-- **Two instances that are connected outside `connectServer` are one.** -/
theorem MqttInv.unique (h : MqttInv w) {i j : ι} (hi : ConnectedOutside w i) (hj : ConnectedOutside w j) : i = j := by
  have hkey : ∀ k, ConnectedOutside w k → w.key = some k := fun k hk =>
    h.key hk.1 (by rw [hk.2]; exact ConnectPc.noConfusion)
  have hij := hkey i hi
  rw [hkey j hj] at hij
  exact (Option.some.inj hij).symm

/-- Two calls that hold the lock are of one instance. -/
theorem MqttInv.alone (h : MqttInv w) {i j : ι} (hi : (w.service i).pc.locked = true)
    (hj : (w.service j).pc.locked = true) : i = j := by
  have hij := h.holder i hi
  rw [h.holder j hj] at hij
  exact (Option.some.inj hij).symm

section Steps

variable [DecidableEq ι]

/-- One instance changes to `m`, with the lock and the key. -/
theorem MqttInv.update (h : MqttInv w) {i : ι} {m : MqttClientService} {key holder : Option ι}
    (hlock : ∀ j, j ≠ i → (w.service j).pc.locked = true → holder = some j)
    (hlock' : m.pc.locked = true → holder = some i)
    (hoff : m.pc.before = true → m.connected = false)
    (hkeyless : ∀ j, j ≠ i → (w.service j).pc.keyless = true → key = none)
    (hkeyless' : m.pc.keyless = true → key = none)
    (hreg : ∀ j, j ≠ i → (w.service j).connected = true → w.key = some j → key = some j)
    (hreg' : m.connected = true → m.pc = .setIfAbsent ∨ key = some i) :
    MqttInv ⟨key, holder, Function.update w.service i m⟩ := by
  refine ⟨fun j hj => ?_, fun j hj => ?_, fun j hj => ?_, fun j hj => ?_⟩
  · simp only at hj ⊢
    by_cases hji : j = i
    · subst hji
      rw [Function.update_self] at hj
      exact hlock' hj
    · rw [Function.update_of_ne hji] at hj
      exact hlock j hji hj
  · simp only at hj ⊢
    by_cases hji : j = i
    · subst hji
      rw [Function.update_self] at hj ⊢
      exact hoff hj
    · rw [Function.update_of_ne hji] at hj ⊢
      exact h.offline j hj
  · simp only at hj ⊢
    by_cases hji : j = i
    · subst hji
      rw [Function.update_self] at hj
      exact hkeyless' hj
    · rw [Function.update_of_ne hji] at hj
      exact hkeyless j hji hj
  · simp only at hj ⊢
    by_cases hji : j = i
    · subst hji
      rw [Function.update_self] at hj ⊢
      exact hreg' hj
    · rw [Function.update_of_ne hji] at hj ⊢
      exact (h.registered j hj).imp id fun hkey => hreg j hji hj hkey

/-- The instance changes outside its `connectServer`, and is not connected where it was not. -/
theorem MqttInv.background (h : MqttInv w) {i : ι} {m : MqttClientService} (hpc : m.pc = (w.service i).pc)
    (hconn : m.connected = true → (w.service i).connected = true) : MqttInv (w.setService i m) := by
  refine h.update (fun j _ hj => h.holder j hj) (fun hm => ?_) (fun hm => ?_) (fun j _ hj => h.keyless j hj)
    (fun hm => ?_) (fun j _ _ hkey => hkey) (fun hm => ?_)
  · rw [hpc] at hm
    exact h.holder i hm
  · rw [hpc] at hm
    have hoff := h.offline i hm
    by_contra hon
    have hon := hconn (by simpa using hon)
    rw [hoff] at hon
    cases hon
  · rw [hpc] at hm
    exact h.keyless i hm
  · rw [hpc]
    exact h.registered i (hconn hm)

/-- The call of `connectServer` of the instance goes on, with the lock and the key as they are. -/
theorem MqttInv.goto (h : MqttInv w) {i : ι} {pc : ConnectPc} (hlock : pc.locked = true → w.holder = some i)
    (hoff : pc.before = true → (w.service i).connected = false) (hkeyless : pc.keyless = true → w.key = none)
    (hreg : (w.service i).connected = true → w.key = some i) : MqttInv (w.goto i pc) :=
  h.update (fun j _ hj => h.holder j hj) hlock hoff (fun j _ hj => h.keyless j hj) hkeyless
    (fun _ _ _ hkey => hkey) (fun hm => Or.inr (hreg hm))

/-- The same for an instance that is not connected. -/
theorem MqttInv.goto_offline (h : MqttInv w) {i : ι} {pc : ConnectPc} (hoff : (w.service i).connected = false)
    (hlock : pc.locked = true → w.holder = some i) (hkeyless : pc.keyless = true → w.key = none) :
    MqttInv (w.goto i pc) := by
  refine h.goto hlock (fun _ => hoff) hkeyless fun hon => ?_
  rw [hoff] at hon
  cases hon

omit [DecidableEq ι] in
/-- The key goes while the instance that set it is not connected. -/
theorem MqttInv.dropKey (h : MqttInv w) (hkept : NobodysKey w) : MqttInv { w with key := none } := by
  refine ⟨h.holder, h.offline, fun _ _ => rfl, fun i hi => ?_⟩
  rcases h.registered i hi with hpc | hkey
  · exact Or.inl hpc
  · have hoff := hkept i hkey
    rw [hi] at hoff
    cases hoff

omit [DecidableEq ι] in
/-- The lock goes while the instance that has it is not in the locked part. -/
theorem MqttInv.dropLock (h : MqttInv w) {i : ι} (hi : w.holder = some i) (hfree : (w.service i).pc.locked = false) :
    MqttInv { w with holder := none } := by
  refine ⟨fun j hj => ?_, h.offline, h.keyless, h.registered⟩
  have hholder := h.holder j hj
  rw [hi] at hholder
  cases hholder
  rw [hfree] at hj
  cases hj

/-- `tryLock`: nobody else is in the locked part where the lock is taken. -/
theorem MqttInv.tryLockStep (h : MqttInv w) {i : ι} (hpc : (w.service i).pc = .tryLock) (ending : CallEnd) :
    MqttInv (w.tryLockStep i ending) := by
  have hconn : (w.service i).connected = false := h.offline i (by rw [hpc]; rfl)
  unfold MqttWorld.tryLockStep
  split
  · rename_i htaken
    have halone : ∀ j, j ≠ i → (w.service j).pc.locked = true → some i = some j := by
      intro j hji hj
      have hholder := h.holder j hj
      rcases htaken.2 with hfree | hmine
      · rw [hfree] at hholder
        cases hholder
      · rw [hmine] at hholder
        exact hholder
    refine h.update halone (fun _ => rfl) (fun _ => hconn) (fun j _ hj => h.keyless j hj)
      (fun hk => ?_) (fun j _ _ hkey => hkey) (fun hm => ?_)
    · split at hk <;> cases hk
    · simp only at hm
      rw [hconn] at hm
      cases hm
  · exact h.goto_offline hconn (fun hl => nomatch hl) (fun hk => nomatch hk)

/-- `get`: the client is connected next only where there is no key. -/
theorem MqttInv.getStep (h : MqttInv w) {i : ι} (hpc : (w.service i).pc = .get) {ending : CallEnd} {clientId : String}
    (hkept : ending = .returns → w.key = none ∨ isBlank (some clientId) = false) :
    MqttInv (w.getStep clientId i ending) := by
  have hconn : (w.service i).connected = false := h.offline i (by rw [hpc]; rfl)
  have hlock : w.holder = some i := h.holder i (by rw [hpc]; rfl)
  unfold MqttWorld.getStep
  split
  · rename_i hblank
    have hkey : w.key = none := by
      rcases hkept hblank.1 with hnone | hid
      · exact hnone
      · cases hk : w.key with
        | none => rfl
        | some j => rw [hk, Option.map_some, hid] at hblank; exact absurd hblank.2 Bool.false_ne_true
    exact h.goto_offline hconn (fun _ => hlock) (fun _ => hkey)
  · exact h.goto_offline hconn (fun _ => hlock) (fun hk => nomatch hk)

/-- `connect`: where the client is connected, `setIfAbsent` is next. -/
theorem MqttInv.connectStep (h : MqttInv w) {i : ι} (hpc : (w.service i).pc = .connect) {ending : CallEnd}
    (hkept : ending ≠ .fails true) : MqttInv (w.connectStep i ending) := by
  have hconn : (w.service i).connected = false := h.offline i (by rw [hpc]; rfl)
  have hlock : w.holder = some i := h.holder i (by rw [hpc]; rfl)
  have hkey : w.key = none := h.keyless i (by rw [hpc]; rfl)
  unfold MqttWorld.connectStep
  cases ending with
  | returns =>
    exact h.update (fun j _ hj => h.holder j hj) (fun _ => hlock) (fun hb => nomatch hb)
      (fun j _ hj => h.keyless j hj) (fun _ => hkey) (fun j _ _ hkey => hkey) (fun _ => Or.inl rfl)
  | fails executed =>
    cases executed with
    | true => exact absurd rfl hkept
    | false => exact h.goto_offline hconn (fun _ => hlock) (fun hk => nomatch hk)

/-- `setIfAbsent`: a client that is connected gets its key. -/
theorem MqttInv.setIfAbsentStep (h : MqttInv w) {i : ι} (hpc : (w.service i).pc = .setIfAbsent) {ending : CallEnd}
    (hkept : (w.service i).connected = true → ending ≠ .fails false) : MqttInv (w.setIfAbsentStep i ending) := by
  have hlocked : (w.service i).pc.locked = true := by rw [hpc]; rfl
  have hlock : w.holder = some i := h.holder i hlocked
  have hnone : w.key = none := h.keyless i (by rw [hpc]; rfl)
  unfold MqttWorld.setIfAbsentStep
  rw [if_pos hnone]
  refine h.update (fun j _ hj => h.holder j hj) (fun _ => hlock) (fun hb => nomatch hb) (fun j hji hj => ?_)
    (fun hk => nomatch hk) (fun j _ _ hkey => ?_) (fun hon => Or.inr ?_)
  · -- another instance that found no key would hold the lock, too
    have hlocked' : (w.service j).pc.locked = true := by
      cases hpcj : (w.service j).pc <;> rw [hpcj] at hj <;> first | rfl | cases hj
    exact absurd (h.alone hlocked' hlocked) hji
  · rw [hnone] at hkey
    cases hkey
  · have hne := hkept hon
    cases ending with
    | returns => rfl
    | fails executed =>
      cases executed with
      | true => rfl
      | false => exact absurd rfl hne

/-- `unlock`: nobody else is in the locked part. -/
theorem MqttInv.unlockStep (h : MqttInv w) {i : ι} (hpc : (w.service i).pc = .unlock) (ending : CallEnd) :
    MqttInv (w.unlockStep i ending) := by
  have hlocked : (w.service i).pc.locked = true := by rw [hpc]; rfl
  have hne : (w.service i).pc ≠ .setIfAbsent := by rw [hpc]; exact ConnectPc.noConfusion
  exact h.update (fun j hji hj => absurd (h.alone hj hlocked) hji) (fun hl => nomatch hl) (fun hb => nomatch hb)
    (fun j _ hj => h.keyless j hj) (fun hk => nomatch hk) (fun j _ _ hkey => hkey) fun hm => .inr (h.key hm hne)

/-- A step of `connectServer` preserves the invariant. -/
theorem MqttInv.serverStep (h : MqttInv w) {clientId : String} {i : ι} {ending : CallEnd}
    (hok : RegistrationKept clientId w (.step i ending)) (hs : w.serverStep clientId i ending = some w') :
    MqttInv w' := by
  obtain ⟨hget, hconnect, hset⟩ := hok
  unfold MqttWorld.serverStep at hs
  split at hs
  case h_1 => cases hs
  case h_2 hpc => cases hs; exact h.tryLockStep hpc ending
  case h_3 hpc => cases hs; exact h.getStep hpc (hget hpc)
  case h_4 hpc => cases hs; exact h.connectStep hpc (hconnect hpc)
  case h_5 hpc => cases hs; exact h.setIfAbsentStep hpc (hset hpc)
  case h_6 hpc =>
    have hne : (w.service i).pc ≠ .setIfAbsent := by rw [hpc]; exact ConnectPc.noConfusion
    have hlock : w.holder = some i := h.holder i (by rw [hpc]; rfl)
    cases hs
    exact h.goto (fun _ => hlock) (fun hb => nomatch hb) (fun hk => nomatch hk) fun hm => h.key hm hne
  case h_7 hpc => cases hs; exact h.unlockStep hpc ending

/-- **The invariant is preserved by every step that leaves the connected instances their keys.** -/
theorem mqttInv_step (h : MqttInv w) {clientId : String} {l : MqttLabel ι} (hok : RegistrationKept clientId w l)
    (hs : mqttStep clientId w l = some w') : MqttInv w' := by
  cases l with
  | connectServer i =>
    simp only [mqttStep] at hs
    split at hs
    · cases hs
      split
      · exact h
      · rename_i hoff
        exact h.goto_offline (by simpa using hoff) (fun hl => nomatch hl) (fun hk => nomatch hk)
    · cases hs
  | step i ending => exact h.serverStep hok hs
  | lose i =>
    simp only [mqttStep] at hs
    split at hs
    · cases hs
      exact h.background rfl fun hm => nomatch hm
    · cases hs
  | connectComplete i =>
    simp only [mqttStep] at hs
    split at hs
    · cases hs
      exact h.background rfl id
    · cases hs
  | delete i ending =>
    simp only [mqttStep] at hs
    split at hs
    · cases hs
      -- first the key goes, then the callback of the instance
      cases hexec : ending.executed with
      | true => exact (h.dropKey (hok hexec)).background rfl id
      | false => exact h.background rfl id
    · cases hs
  | shutdown i =>
    simp only [mqttStep] at hs
    split at hs
    · cases hs
      exact h.background rfl id
    · cases hs
  | renew i =>
    simp only [mqttStep] at hs
    split at hs
    · cases hs
      exact h
    · cases hs
  | renewThrows i k =>
    simp only [mqttStep] at hs
    split at hs
    · cases hs
      exact h.background rfl id
    · cases hs
  | expire =>
    simp only [mqttStep] at hs
    split at hs
    · cases hs
    · split at hs
      · cases hs
      · cases hs
        exact h.dropKey hok
  | lockExpire =>
    simp only [mqttStep] at hs
    split at hs
    · cases hs
    · rename_i i hi
      split at hs
      · cases hs
      · rename_i hfree
        cases hs
        exact h.dropLock hi (by simpa using hfree)

/-- **At most one instance is connected, unless a connected one has lost its key.** In every run
of any number of instances in which no callback deletes the key of an instance that is
connected, the key does not expire under one, no instance stays connected after `connect` or
`setIfAbsent` failed, and no blank key is found, at most one instance is connected outside a
call of `connectServer`. -/
theorem one_connected {clientId : String} {ls : List (MqttLabel ι)} {w : MqttWorld ι}
    (hok : Along (mqttStep clientId) (RegistrationKept clientId) (.init ι) ls)
    (hrun : exec (mqttStep clientId) (.init ι) ls = some w) {i j : ι}
    (hi : ConnectedOutside w i) (hj : ConnectedOutside w j) : i = j := by
  have h : MqttInv w := inv_of_along (fun _ _ _ ha hok hs => mqttInv_step ha hok hs) mqttInv_init hok hrun
  exact h.unique hi hj

end Steps

instance [DecidableEq ι] [Fintype ι] (w : MqttWorld ι) : Decidable (NobodysKey w) :=
  inferInstanceAs (Decidable (∀ i, w.key = some i → (w.service i).connected = false))

instance [DecidableEq ι] [Fintype ι] (clientId : String) (w : MqttWorld ι) :
    DecidablePred (RegistrationKept clientId w)
  | .step _ _ => inferInstanceAs (Decidable (_ ∧ _ ∧ _))
  | .delete _ ending => inferInstanceAs (Decidable (ending.executed = true → NobodysKey w))
  | .expire => inferInstanceAs (Decidable (NobodysKey w))
  | .connectServer _ | .lose _ | .connectComplete _ | .shutdown _ | .renew _ | .renewThrows _ _ | .lockExpire =>
    inferInstanceAs (Decidable True)

/-- A whole call of `connectServer` that connects. -/
def connects (i : Fin 3) : List (MqttLabel (Fin 3)) :=
  [.connectServer i, .step i .returns, .step i .returns, .step i .returns, .step i .returns, .step i .returns]

/-- A call of `connectServer` whose `tryLock` throws after Redis gave the lock, which then expires. -/
def locksInVain (i : Fin 3) : List (MqttLabel (Fin 3)) := [.connectServer i, .step i (.fails true), .lockExpire]

/-- The first instance connects, loses its connection and is told at once, but its `delete` gets
no reply; the second takes over. -/
def takesOver : List (MqttLabel (Fin 3)) :=
  locksInVain 2 ++ connects 0 ++ [.connectComplete 0, .lose 0, .delete 0 (.fails true)] ++ connects 1

/-- The first instance is told only after the second took over; a third one connects. -/
def lateCallback : List (MqttLabel (Fin 3)) :=
  connects 0 ++ [.connectComplete 0, .lose 0, .expire] ++ connects 1 ++ [.connectComplete 1, .delete 0 .returns] ++
    connects 2

/-- The second instance is the only one after it took over. -/
theorem one_connected_takesOver : ∃ w, exec (mqttStep "study") (.init (Fin 3)) takesOver = some w ∧
    ConnectedOutside w 1 ∧ ∀ i, ConnectedOutside w i → i = 1 := by
  have heval : (exec (mqttStep "study") (.init (Fin 3)) takesOver).any (fun w => decide (ConnectedOutside w 1)) =
      true := by
    decide +kernel
  have hok : Along (mqttStep "study") (RegistrationKept "study") (.init (Fin 3)) takesOver := by decide +kernel
  obtain ⟨w, hrun, hw⟩ := (Option.any_eq_true _ _).1 heval
  have hw : ConnectedOutside w 1 := of_decide_eq_true hw
  exact ⟨w, hrun, hw, fun i hi => one_connected hok hrun hi hw⟩

/-- **Two instances are connected.** The callback of the first instance is delivered when the
second has set the key: it deletes the key, and the third instance connects, too. No call
fails, and the client id is not blank. -/
theorem two_connected : ∃ w, exec (mqttStep "study") (.init (Fin 3)) lateCallback = some w ∧
    ConnectedOutside w 1 ∧ ConnectedOutside w 2 := by
  have heval : (exec (mqttStep "study") (.init (Fin 3)) lateCallback).any (fun w =>
      decide (ConnectedOutside w 1 ∧ ConnectedOutside w 2)) = true := by decide +kernel
  obtain ⟨w, hrun, hw⟩ := (Option.any_eq_true _ _).1 heval
  exact ⟨w, hrun, of_decide_eq_true hw⟩

end StudyTech
