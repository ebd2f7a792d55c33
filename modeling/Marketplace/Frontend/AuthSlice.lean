import Marketplace.Common

/-!
# frontend: the session, `store/authSlice.ts`

* `AuthState`        the slice.  `none` is null, and also undefined: an answer may lack a field;
* `Action`           what is dispatched; the payload of an answer with an empty body is null, and the
                     reducers that look into it throw;
* `reducer`          the next state, and what is written to `localStorage`;
* `Client`           the slice with the stored session.  `threw`: a call of `localStorage` has thrown;
* `Consistent`       what the session state should be like;
* `session_consistent_iff`   all states of a run are consistent exactly if all its actions are `Fits`;
* `session_broken`   one of them need not be.
-/

namespace Marketplace.Frontend

/-- `Date.now()` -/
abbrev Millis := Int

structure AuthTokens where
  accessToken : Option String
  refreshToken : Option String
  expiresIn : Option Int
  deriving DecidableEq, Repr

structure User where
  userID : Option String
  email : Option String
  role : Option String
  deriving DecidableEq, Repr

inductive Profile where
  | customer (firstName lastName : Option String)
  | seller (storeName : Option String)
  deriving DecidableEq, Repr

inductive Status where
  | idle
  | loading
  | authenticated
  deriving DecidableEq, Repr

structure AuthState where
  accessToken : Option String
  refreshToken : Option String
  expiresAt : Option Millis
  user : Option User
  profile : Option Profile
  hasProfile : Option Bool
  status : Status
  error : Option String
  deriving DecidableEq, Repr

/-- what is kept under `marketplace.session` -/
structure StoredSession where
  accessToken : Option String
  refreshToken : Option String
  expiresAt : Option Millis
  deriving DecidableEq, Repr

def initialState (stored : Option StoredSession) : AuthState where
  accessToken := stored.bind (·.accessToken)
  refreshToken := stored.bind (·.refreshToken)
  expiresAt := stored.bind (·.expiresAt)
  user := none
  profile := none
  hasProfile := none
  status := .idle
  error := none

def toStored (tokens : AuthTokens) (now : Millis) : StoredSession where
  accessToken := tokens.accessToken
  refreshToken := tokens.refreshToken
  -- seconds, less a minute of slack
  expiresAt := some (now + tokens.expiresIn.getD 3600 * 1000 - 60000)

/-- the actions of the slice and of its thunks -/
inductive Action where
  | loginPending
  | loginFulfilled (payload : Option AuthTokens)
  | loginRejected (payload : Option String)
  | registerPending
  | registerFulfilled
  | registerRejected (payload : Option String)
  | loadSessionPending
  | loadSessionFulfilled (user : User) (profile : Option Profile) (hasProfile : Bool)
  | loadSessionRejected
  | logoutPending
  | logoutFulfilled
  | logoutRejected
  | tokensRefreshed (payload : Option AuthTokens)
  | profileCreated (payload : Profile)
  | sessionCleared
  deriving DecidableEq, Repr

/-- what a reducer does: the next state, and the session it stores (`none`: it removes it) -/
structure Reduced where
  state : AuthState
  stores : Option (Option StoredSession)
  deriving DecidableEq, Repr

def AuthState.kept (s : AuthState) : Option Reduced := some ⟨s, none⟩

/-- `none`: the reducer throws, and the state stays as it was -/
def reducer (now : Millis) (s : AuthState) : Action → Option Reduced
  | .tokensRefreshed none => none
  | .tokensRefreshed (some tokens) =>
    let session := toStored tokens now
    some ⟨{ s with
      accessToken := session.accessToken
      refreshToken := session.refreshToken
      expiresAt := session.expiresAt }, some (some session)⟩
  | .profileCreated profile => { s with hasProfile := some true, profile := some profile }.kept
  | .sessionCleared =>
    some ⟨{ s with
      accessToken := none
      refreshToken := none
      expiresAt := none
      user := none
      profile := none
      hasProfile := none
      status := .idle }, some none⟩
  | .loginPending => { s with status := .loading, error := none }.kept
  | .loginFulfilled none => none
  | .loginFulfilled (some tokens) =>
    let session := toStored tokens now
    some ⟨{ s with
      accessToken := session.accessToken
      refreshToken := session.refreshToken
      expiresAt := session.expiresAt
      status := .authenticated }, some (some session)⟩
  | .loginRejected payload =>
    { s with status := .idle, error := some (payload.getD "Login failed") }.kept
  | .registerPending => { s with status := .loading, error := none }.kept
  | .registerRejected payload =>
    { s with status := .idle, error := some (payload.getD "Registration failed") }.kept
  | .loadSessionFulfilled user profile hasProfile =>
    { s with
      user := some user
      profile := profile
      hasProfile := some hasProfile
      status := .authenticated }.kept
  | .loadSessionRejected =>
    -- `expiresAt` and `hasProfile` stay
    some ⟨{ s with
      accessToken := none
      refreshToken := none
      user := none
      profile := none
      status := .idle }, some none⟩
  | .logoutFulfilled =>
    some ⟨{ s with
      accessToken := none
      refreshToken := none
      expiresAt := none
      user := none
      profile := none
      hasProfile := none
      status := .idle }, some none⟩
  | .registerFulfilled => s.kept
  | .loadSessionPending => s.kept
  | .logoutPending => s.kept
  | .logoutRejected => s.kept

/-! ## the client -/

structure Client where
  auth : AuthState
  storage : Option StoredSession
  threw : Bool
  deriving DecidableEq, Repr

/-- the page is loaded, with this in `localStorage`; where reading it throws, nothing is restored -/
def Client.start (storage : Option StoredSession) (throws : Bool) : Client where
  auth := initialState (if throws then none else storage)
  storage := storage
  threw := throws

/-- an action, when it is dispatched, and whether `localStorage` throws -/
structure Event where
  action : Action
  now : Millis
  throws : Bool
  deriving DecidableEq, Repr

def Client.store (c : Client) (throws : Bool) (r : Reduced) : Client :=
  match r.stores with
  | none => { c with auth := r.state }
  | some session =>
    if throws then { c with auth := r.state, threw := true }
    else { c with auth := r.state, storage := session }

def Client.dispatch (c : Client) (e : Event) : Client :=
  match reducer e.now c.auth e.action with
  | none => c
  | some r => c.store e.throws r

def Client.run (c : Client) (es : List Event) : Client := es.foldl Client.dispatch c

/-- ending the session by hand and by logging out is the same -/
theorem reducer_sessionCleared (now : Millis) (s : AuthState) :
    reducer now s .sessionCleared = reducer now s .logoutFulfilled := rfl

/-- a session that could not be loaded ends too, but for two fields -/
theorem reducer_loadSessionRejected (now : Millis) (s : AuthState) {r r' : Reduced}
    (h : reducer now s .loadSessionRejected = some r)
    (h' : reducer now s .sessionCleared = some r') :
    r = { r' with state := { r'.state with expiresAt := s.expiresAt, hasProfile := s.hasProfile } } := by
  cases h
  cases h'
  rfl

/-! ## consistency -/

/-- what the stored session should be -/
def AuthState.session (s : AuthState) : Option StoredSession :=
  if s.accessToken.isSome then some ⟨s.accessToken, s.refreshToken, s.expiresAt⟩ else none

/-- without an access token there is nothing else -/
def AuthState.Empty (s : AuthState) : Prop :=
  s.refreshToken = none ∧ s.expiresAt = none ∧ s.user = none ∧ s.profile = none ∧
    s.hasProfile = none

structure Consistent (c : Client) : Prop where
  authenticated : c.auth.status = .authenticated → c.auth.accessToken ≠ none
  empty : c.auth.accessToken = none → c.auth.Empty
  stored : c.threw = false → c.storage = c.auth.session

/-- what is dispatched fits the session there is: user data arrive while there is one, tokens come
with an access token, and a session fails to load only where nothing but its tokens is there -/
def Action.Fits (s : AuthState) : Action → Prop
  | .loginFulfilled (some tokens) => tokens.accessToken ≠ none
  | .tokensRefreshed (some tokens) => tokens.accessToken ≠ none
  | .loadSessionFulfilled _ _ _ => s.accessToken ≠ none
  | .profileCreated _ => s.accessToken ≠ none
  | .loadSessionRejected => s.expiresAt = none ∧ s.hasProfile = none
  | _ => True

/-- every action of the run fits the state it finds -/
def AllFit (c : Client) : List Event → Prop
  | [] => True
  | e :: es => e.action.Fits c.auth ∧ AllFit (c.dispatch e) es

/-- every state of the run is consistent -/
def AllConsistent (c : Client) : List Event → Prop
  | [] => Consistent c
  | e :: es => Consistent c ∧ AllConsistent (c.dispatch e) es

theorem AllConsistent.head {c : Client} {es : List Event} (h : AllConsistent c es) :
    Consistent c := by
  cases es with
  | nil => exact h
  | cons e es => exact h.1

section
variable {c : Client} {e : Event}

/-- an action that leaves tokens and storage alone -/
theorem Consistent.kept {s : AuthState} (h : Consistent c) (ha : s.accessToken = c.auth.accessToken)
    (hr : s.refreshToken = c.auth.refreshToken) (he : s.expiresAt = c.auth.expiresAt)
    (hs : s.status = .authenticated → s.accessToken ≠ none)
    (hempty : s.accessToken = none →
      s.user = none ∧ s.profile = none ∧ s.hasProfile = none) :
    Consistent { c with auth := s } where
  authenticated := hs
  empty hn := by
    have hold : c.auth.Empty := h.empty (ha.symm.trans hn)
    exact ⟨hr.trans hold.1, he.trans hold.2.1, hempty hn⟩
  stored ht := by
    rw [h.stored ht]
    unfold AuthState.session
    simp only [ha, hr, he]

/-- new tokens, with or without the status of a login -/
theorem consistent_tokens {s : AuthState} {session : StoredSession} (throws : Bool)
    (ha : s.accessToken = session.accessToken) (hr : s.refreshToken = session.refreshToken)
    (he : s.expiresAt = session.expiresAt) (hn : session.accessToken ≠ none) :
    Consistent (c.store throws ⟨s, some (some session)⟩) := by
  have hsession : s.session = some session := by
    unfold AuthState.session
    rw [ha, hr, he, if_pos (Option.isSome_iff_ne_none.mpr hn)]
  cases throws with
  | true => exact ⟨fun _ => ha ▸ hn, fun h => absurd (ha.symm.trans h) hn, fun h => nomatch h⟩
  | false => exact ⟨fun _ => ha ▸ hn, fun h => absurd (ha.symm.trans h) hn, fun _ => hsession.symm⟩

/-- the end of a session -/
theorem consistent_ended {s : AuthState} (throws : Bool) (ha : s.accessToken = none)
    (hs : s.status ≠ .authenticated) (he : s.Empty) : Consistent (c.store throws ⟨s, some none⟩) := by
  have hsession : s.session = none := by
    unfold AuthState.session
    rw [ha]
    rfl
  cases throws with
  | true => exact ⟨fun h => absurd h hs, fun _ => he, fun h => nomatch h⟩
  | false => exact ⟨fun h => absurd h hs, fun _ => he, fun _ => hsession.symm⟩

/-- **one action** that fits keeps the state consistent -/
theorem Consistent.step (h : Consistent c) (hf : e.action.Fits c.auth) :
    Consistent (c.dispatch e) := by
  obtain ⟨action, now, throws⟩ := e
  have hempty := fun hn => (h.empty hn).2.2
  unfold Client.dispatch
  cases action with
  | loginPending => exact h.kept rfl rfl rfl (fun hs => nomatch hs) hempty
  | loginFulfilled payload =>
    cases payload with
    | none => exact h
    | some tokens => exact consistent_tokens throws rfl rfl rfl hf
  | loginRejected payload => exact h.kept rfl rfl rfl (fun hs => nomatch hs) hempty
  | registerPending => exact h.kept rfl rfl rfl (fun hs => nomatch hs) hempty
  | registerFulfilled => exact h
  | registerRejected payload => exact h.kept rfl rfl rfl (fun hs => nomatch hs) hempty
  | loadSessionPending => exact h
  | loadSessionFulfilled user profile hasProfile =>
    exact h.kept rfl rfl rfl (fun _ => hf) fun hn => absurd hn hf
  | loadSessionRejected =>
    exact consistent_ended throws rfl (fun hs => nomatch hs) ⟨rfl, hf.1, rfl, rfl, hf.2⟩
  | logoutPending => exact h
  | logoutFulfilled =>
    exact consistent_ended throws rfl (fun hs => nomatch hs) ⟨rfl, rfl, rfl, rfl, rfl⟩
  | logoutRejected => exact h
  | tokensRefreshed payload =>
    cases payload with
    | none => exact h
    | some tokens => exact consistent_tokens throws rfl rfl rfl hf
  | profileCreated profile => exact h.kept rfl rfl rfl h.authenticated fun hn => absurd hn hf
  | sessionCleared =>
    exact consistent_ended throws rfl (fun hs => nomatch hs) ⟨rfl, rfl, rfl, rfl, rfl⟩

/-- the state after tokens without an access token still has the time they expire at -/
theorem fits_of_tokens {tokens : AuthTokens} {s : AuthState} {now : Millis} {throws : Bool}
    (h : Consistent (c.store throws ⟨s, some (some (toStored tokens now))⟩))
    (ha : s.accessToken = tokens.accessToken)
    (he : s.expiresAt = (toStored tokens now).expiresAt) : tokens.accessToken ≠ none := by
  intro hn
  have hauth : (c.store throws ⟨s, some (some (toStored tokens now))⟩).auth = s := by
    unfold Client.store
    cases throws <;> rfl
  have hexp := (h.empty (by rw [hauth, ha, hn])).2.1
  rw [hauth, he] at hexp
  cases hexp

/-- an action after which the state is consistent fits -/
theorem Consistent.fits (h' : Consistent (c.dispatch e)) : e.action.Fits c.auth := by
  obtain ⟨action, now, throws⟩ := e
  unfold Client.dispatch at h'
  cases action with
  | loginFulfilled payload =>
    cases payload with
    | none => trivial
    | some tokens => exact fits_of_tokens h' rfl rfl
  | tokensRefreshed payload =>
    cases payload with
    | none => trivial
    | some tokens => exact fits_of_tokens h' rfl rfl
  | loadSessionFulfilled user profile hasProfile => exact h'.authenticated rfl
  | profileCreated profile =>
    intro hn
    have hprofile := (h'.empty hn).2.2.2.1
    cases hprofile
  | loadSessionRejected =>
    cases throws with
    | true => exact ⟨(h'.empty rfl).2.1, (h'.empty rfl).2.2.2.2⟩
    | false => exact ⟨(h'.empty rfl).2.1, (h'.empty rfl).2.2.2.2⟩
  | loginPending => trivial
  | loginRejected payload => trivial
  | registerPending => trivial
  | registerFulfilled => trivial
  | registerRejected payload => trivial
  | loadSessionPending => trivial
  | logoutPending => trivial
  | logoutFulfilled => trivial
  | logoutRejected => trivial
  | sessionCleared => trivial

end

theorem allConsistent_iff {c : Client} (h : Consistent c) (es : List Event) :
    AllConsistent c es ↔ AllFit c es := by
  induction es generalizing c with
  | nil => exact ⟨fun _ => trivial, fun _ => h⟩
  | cons e es ih =>
    constructor
    · intro hall
      have hnext : Consistent (c.dispatch e) := hall.2.head
      exact ⟨hnext.fits, (ih hnext).mp hall.2⟩
    · intro hfit
      have hnext : Consistent (c.dispatch e) := h.step hfit.1
      exact ⟨h, (ih hnext).mpr hfit.2⟩

/-- what is restored is consistent if what was stored has an access token -/
theorem consistent_start_iff (stored : Option StoredSession) (throws : Bool) :
    Consistent (Client.start stored throws) ↔
      throws = true ∨ ∀ s ∈ stored, s.accessToken ≠ none := by
  cases throws with
  | true =>
    exact iff_of_true ⟨fun h => (nomatch h), fun _ => ⟨rfl, rfl, rfl, rfl, rfl⟩, fun h => nomatch h⟩
      (.inl rfl)
  | false =>
    constructor
    · intro h
      refine .inr fun s hs hn => ?_
      have hst := h.stored rfl
      obtain rfl := hs
      simp [Client.start, initialState, AuthState.session, hn] at hst
    · rintro (h | h)
      · cases h
      · cases stored with
        | none => exact ⟨fun h => (nomatch h), fun _ => ⟨rfl, rfl, rfl, rfl, rfl⟩, fun _ => rfl⟩
        | some s =>
          have hs : s.accessToken ≠ none := h s rfl
          refine ⟨fun h => (nomatch h), fun hn => absurd hn hs, fun _ => ?_⟩
          have hsome : s.accessToken.isSome = true := Option.isSome_iff_ne_none.mpr hs
          simp [Client.start, initialState, AuthState.session, hsome]

/-- **The session state is consistent** in every state of a run, with the results of overlapping
thunks in any order, exactly if what is restored has an access token and every action fits the state
it finds. -/
theorem session_consistent_iff (stored : Option StoredSession) (throws : Bool) (es : List Event) :
    AllConsistent (Client.start stored throws) es ↔
      (throws = true ∨ ∀ s ∈ stored, s.accessToken ≠ none) ∧
        AllFit (Client.start stored throws) es := by
  rw [← consistent_start_iff]
  constructor
  · exact fun h => ⟨h.head, (allConsistent_iff h.head es).mp h⟩
  · exact fun h => (allConsistent_iff h.1 es).mpr h.2

/-- a session that was restored and then fails to load: the time it expires at stays -/
theorem session_broken :
    ¬AllConsistent (Client.start (some ⟨some "access", some "refresh", some 60⟩) false)
      [⟨.loadSessionPending, 0, false⟩, ⟨.loadSessionRejected, 1, false⟩] := by
  intro h
  have hexp := (h.2.2.empty rfl).2.1
  cases hexp

end Marketplace.Frontend
