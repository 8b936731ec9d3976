import StudyTech.Spec.DingTalk

/-!
# `AccessTokenService`

Threads that call `getAccessToken`, the Guava cache with one key, and the remote side: a token is valid for
7200 seconds from the last answer with it, and while it is, every answer is that token. The thread that
finds no entry runs the loader, and others that come meanwhile wait for what it ends with. Time is in
seconds; `open` is the switch of `DingTalkWebClient`.
-/

namespace StudyTech

structure AccessTokenResponseDTO extends BaseResponseDTO where
  access_token : Option String
  deriving DecidableEq, Repr

/-- `new AccessTokenResponseDTO()`, which stands for every error. -/
def AccessTokenResponseDTO.empty : AccessTokenResponseDTO := ⟨⟨none, none⟩, none⟩

/-- What the loader returns for the answer. -/
def loadAccessToken (dto : Option AccessTokenResponseDTO) : Option String :=
  match dto with
  | none => none
  | some dto => if dto.isSuccess then dto.access_token else none

/-- `EXPIRE_TIME`. -/
def expireTime : ℕ := 7100

/-- How long a token is valid. -/
def tokenValidity : ℕ := 7200

/-- Where a thread is in `getAccessToken`; an answer and a result have their time. -/
inductive TokenPc
  | idle
  | loader
  | sent
  | answered (dto : Option AccessTokenResponseDTO) (time : ℕ)
  | waiting
  | returned (accessToken : Option String) (time : ℕ)
  deriving DecidableEq, Repr

/-- The thread runs the loader. -/
def TokenPc.loads : TokenPc → Bool
  | .loader => true
  | .sent => true
  | .answered _ _ => true
  | _ => false

/-- The thread is in no call. -/
def TokenPc.isOut : TokenPc → Bool
  | .idle => true
  | .returned _ _ => true
  | _ => false

/-- `cache` has the token and when it was written, `issued` the tokens that were answered and when. No step
reads the three counters. -/
structure TokenWorld (τ : Type) where
  now : ℕ
  isOpen : Option Bool
  cache : Option (String × ℕ)
  loading : Option τ
  pc : τ → TokenPc
  issued : List (String × ℕ)
  requests : ℕ
  stored : ℕ
  failed : ℕ

def TokenWorld.init (τ : Type) (isOpen : Option Bool) : TokenWorld τ :=
  ⟨0, isOpen, none, none, fun _ => .idle, [], 0, 0, 0⟩

/-- Time passes; the switch is set; a thread calls, sends its request, is answered, gets an error, and ends
the loader; another client of the application gets the token. -/
inductive TokenLabel (τ : Type)
  | tick
  | setOpen (isOpen : Option Bool)
  | get (t : τ)
  | send (t : τ)
  | answer (t : τ) (dto : Option AccessTokenResponseDTO)
  | fail (t : τ)
  | complete (t : τ)
  | other (accessToken : String)
  deriving DecidableEq, Repr

variable {τ : Type}

/-- The entry that has not expired. -/
def TokenWorld.getIfPresent (w : TokenWorld τ) : Option String :=
  w.cache.bind fun (accessToken, written) => if w.now < written + expireTime then some accessToken else none

/-- The token is valid at the time. -/
def TokenWorld.Valid (w : TokenWorld τ) (accessToken : String) (time : ℕ) : Prop :=
  ∃ issue ∈ w.issued, issue.1 = accessToken ∧ issue.2 ≤ time ∧ time < issue.2 + tokenValidity

/-- The remote side may answer with the token: none is valid, or this one is. -/
def TokenWorld.Serves (w : TokenWorld τ) (accessToken : String) : Prop :=
  ∀ issue ∈ w.issued, w.now < issue.2 + tokenValidity → issue.1 = accessToken

instance (w : TokenWorld τ) (accessToken : String) : Decidable (w.Serves accessToken) :=
  inferInstanceAs (Decidable (∀ _ ∈ _, _))

/-- The remote side answered with the token. -/
def TokenWorld.serve (w : TokenWorld τ) (accessToken : String) : TokenWorld τ :=
  { w with issued := (accessToken, w.now) :: w.issued }

variable [DecidableEq τ]

def TokenWorld.goto (w : TokenWorld τ) (t : τ) (pc : TokenPc) : TokenWorld τ :=
  { w with pc := Function.update w.pc t pc }

/-- The loader ends: its thread, and those that wait for it, return the token or `null`. -/
def TokenWorld.finish (w : TokenWorld τ) (t : τ) (accessToken : Option String) : TokenWorld τ := { w with
  loading := none
  cache := match accessToken with
    | some accessToken => some (accessToken, w.now)
    | none => w.cache
  pc := fun t' => if t' = t ∨ w.pc t' = .waiting then .returned accessToken w.now else w.pc t'
  stored := if accessToken.isSome then w.stored + 1 else w.stored
  failed := if accessToken.isSome then w.failed else w.failed + 1 }

/-- A step, for the `agentId` of the properties. -/
def tokenStep (agentId : Option String) (w : TokenWorld τ) : TokenLabel τ → Option (TokenWorld τ)
  | .tick => some { w with now := w.now + 1 }
  | .setOpen isOpen => some { w with isOpen := isOpen }
  | .get t =>
    if (w.pc t).isOut then
      match agentId, w.getIfPresent, w.loading with
      | none, _, _ => some (w.goto t (.returned none w.now))
      | some _, some accessToken, _ => some (w.goto t (.returned (some accessToken) w.now))
      | some _, none, some _ => some (w.goto t .waiting)
      | some _, none, none => some { w.goto t .loader with loading := some t }
    else none
  | .send t =>
    if w.pc t = .loader then
      if w.isOpen = some false then some (w.goto t (.answered (some .empty) w.now))
      else some { w.goto t .sent with requests := w.requests + 1 }
    else none
  | .answer t dto =>
    if w.pc t = .sent then
      match loadAccessToken dto with
      | some accessToken =>
        if w.Serves accessToken then some ((w.serve accessToken).goto t (.answered dto w.now)) else none
      | none => some (w.goto t (.answered dto w.now))
    else none
  | .fail t => if w.pc t = .sent then some (w.goto t (.answered (some .empty) w.now)) else none
  | .complete t =>
    match w.pc t with
    | .answered dto _ => some (w.finish t (loadAccessToken dto))
    | _ => none
  | .other accessToken => if w.Serves accessToken then some (w.serve accessToken) else none

end StudyTech
