import Marketplace.Frontend.AuthSlice

/-!
# frontend: the calls of the app, `api/client.ts`, `auth/refresh.ts`, the thunks of `authSlice.ts`

An async function is a program (`Interleave.Prog`): it yields wherever it awaits.

* `HttpRequest`, `Response`, `Payload`   what goes over the wire, and what is read off an answer;
* `Cmd`, `Ans`       what a call does to the tab it runs in.  `refreshToken` is the look of the 401
                     hook into the store;
* `api`              one refresh and one retry after a 401;
* `installRefresh`   the hook;
* `login`, `register`, `loadSession`, `logout`   the thunks, each with the actions it dispatches;
* `Invocation`       what the app calls.
-/

set_option linter.unusedSectionVars false

namespace Marketplace.Frontend

open Interleave

/-! ## requests and answers -/

inductive Method where
  | GET
  | POST
  | PUT
  | PATCH
  | DELETE
  deriving DecidableEq, Repr

/-- a plain value is sent as JSON, FormData as multipart -/
inductive Body where
  | json (value : Json)
  | formData (payload : Json) (image : Option (List UInt8))

structure HttpRequest where
  method : Method
  path : String
  headers : List (String × String)
  body : Option Body

/-- what the body of an answer is, to those who look into it -/
inductive Payload where
  | null
  | tokens (tokens : AuthTokens)
  | user (user : User)
  | profile (profile : Profile)
  | other (message : Option String)
  deriving DecidableEq, Repr

namespace Payload

/-- `as AuthTokens`: null stays null, and the fields of anything else are undefined -/
def asTokens : Payload → Option AuthTokens
  | .null => none
  | .tokens t => some t
  | _ => some ⟨none, none, none⟩

def asUser : Payload → Option User
  | .null => none
  | .user u => some u
  | _ => some ⟨none, none, none⟩

def asProfile : Payload → Option Profile
  | .null => none
  | .profile p => some p
  | _ => some (.customer none none)

def message : Payload → Option String
  | .other m => m
  | _ => none

end Payload

/-- `payload = none`: reading the body fails -/
structure Response where
  status : Nat
  payload : Option Payload
  deriving DecidableEq, Repr

def Response.ok (r : Response) : Bool := 200 ≤ r.status && r.status < 300

/-- `ApiError`, or what else is thrown -/
inductive Err where
  | apiError (status : Nat) (message : String)
  | typeError
  deriving DecidableEq, Repr

structure RequestOptions where
  method : Method
  body : Option Body
  token : Option String
  skipAuthRetry : Bool

/-! ## programs -/

inductive Cmd where
  | getState
  | refreshToken
  | dispatch (a : Action)
  | fetch (r : HttpRequest)
  | response

/-- a dispatch answers whether the reducer has returned; no response: the fetch was rejected -/
@[reducible]
def Ans : Cmd → Type
  | .getState => AuthState
  | .refreshToken => Option String
  | .dispatch _ => Bool
  | .fetch _ => Unit
  | .response => Option Response

abbrev Task (α : Type) := Prog Cmd Ans α

/-- a program that may throw -/
abbrev Async (α : Type) := ExceptT Err (Prog Cmd Ans) α

def command (c : Cmd) : Task (Ans c) := .call c .ret

/-- a string that is not empty -/
def truthy : Option String → Option String
  | some s => if s = "" then none else some s
  | none => none

/-- the request `send` makes -/
def request (path : String) (o : RequestOptions) (bearer : Option String) : HttpRequest where
  method := o.method
  path := path
  headers :=
    -- FormData sets its own Content-Type
    (match o.body with
      | some (.json _) => [("Content-Type", "application/json")]
      | _ => []) ++
    match truthy bearer with
    | some token => [("Authorization", "Bearer " ++ token)]
    | none => []
  body := o.body

def send (path : String) (o : RequestOptions) (bearer : Option String) : Async Response := do
  let _ ← command (.fetch (request path o bearer))
  match ← command .response with
  | some r => return r
  | none => throw .typeError

/-- the answer to the first request, or to the second, after a 401 and a refresh -/
def retried (onUnauthorized : Option (Task (Option String))) (path : String) (o : RequestOptions)
    (response : Response) : Async Response :=
  if response.status = 401 ∧ o.skipAuthRetry = false then
    match onUnauthorized with
    | none => pure response
    | some handler => do
      match truthy (← handler) with
      | some refreshed => send path o (some refreshed)
      | none => return response
  else pure response

/-- what a call makes of its answer -/
def result (r : Response) : Except Err Payload :=
  match r.payload with
  | none => .error .typeError
  | some payload =>
    if r.ok then .ok payload
    else
      .error (.apiError r.status
        (payload.message.getD ("Request failed with status " ++ toString r.status)))

def api (onUnauthorized : Option (Task (Option String))) (path : String) (o : RequestOptions) :
    Async Payload := do
  let response ← send path o o.token
  let response ← retried onUnauthorized path o response
  liftExcept (result response)
where
  liftExcept (r : Except Err Payload) : Async Payload := ExceptT.mk (pure r)

def refreshOptions (refreshToken : String) : RequestOptions where
  method := .POST
  body := some (.json (.obj [("refreshToken", .str refreshToken)]))
  token := none
  skipAuthRetry := true

/-- the `try` of the hook -/
def refreshed (refreshToken : String) : Async (Option String) := do
  -- the hook is not asked again: `skipAuthRetry`
  let payload ← api none "/api/auth/refresh" (refreshOptions refreshToken)
  let tokens := payload.asTokens
  if ← command (.dispatch (.tokensRefreshed tokens)) then
    return tokens.bind (·.accessToken)
  else throw .typeError

def installRefresh : Task (Option String) := do
  match truthy (← command .refreshToken) with
  | none => return none
  | some refreshToken =>
    match ← (refreshed refreshToken).run with
    | .ok accessToken => return accessToken
    | .error _ =>
      let _ ← command (.dispatch .sessionCleared)
      return none

/-- what the hook returns after the exchange -/
def exchanged : Except Err (Option String) → Task (Option String)
  | .ok accessToken => return accessToken
  | .error _ => do
    let _ ← command (.dispatch .sessionCleared)
    return none

/-- what the hook does with the refresh token that it finds -/
def refreshWith (stored : Option String) : Task (Option String) :=
  match truthy stored with
  | none => return none
  | some refreshToken => (refreshed refreshToken).run >>= exchanged

theorem installRefresh_eq : installRefresh = command .refreshToken >>= refreshWith := by
  refine congrArg (command .refreshToken >>= ·) (funext fun stored => ?_)
  unfold refreshWith
  cases truthy stored with
  | none => rfl
  | some token =>
    refine congrArg ((refreshed token).run >>= ·) (funext fun r => ?_)
    cases r with
    | ok accessToken => rfl
    | error e => rfl

/-- what `send` makes of an answer -/
def delivered : Option Response → Task (Except Err Response)
  | some r => .ret (.ok r)
  | none => .ret (.error .typeError)

/-- with `skipAuthRetry` the hook is not asked -/
theorem api_skip {o : RequestOptions} (h : o.skipAuthRetry = true) (path : String)
    (onUnauthorized : Option (Task (Option String))) :
    api onUnauthorized path o = api none path o := by
  unfold api retried
  simp only [h, Bool.true_eq_false, and_false, if_false]

/-! ## the thunks -/

/-- the app installs the hook before it renders -/
def call (path : String) (o : RequestOptions) : Async Payload := api (some installRefresh) path o

def Err.message (fallback : String) : Err → String
  | .apiError _ message => message
  | .typeError => fallback

/-- the answer says whether `unwrap` returns -/
def login (email password : String) : Task Bool := do
  let _ ← command (.dispatch .loginPending)
  let answer ← (call "/api/auth/login"
    { method := .POST
      body := some (.json (.obj [("email", .str email), ("password", .str password)]))
      token := none
      skipAuthRetry := true }).run
  match answer with
  | .ok payload => command (.dispatch (.loginFulfilled payload.asTokens))
  | .error e =>
    let _ ← command (.dispatch (.loginRejected (some (e.message "Login failed"))))
    return false

inductive Role where
  | CUSTOMER
  | SELLER
  | ADMIN
  deriving DecidableEq, Repr

def register (email password phoneNumber : String) (role : Role) : Task Unit := do
  let _ ← command (.dispatch .registerPending)
  let path :=
    if role = .SELLER then "/api/auth/register/seller" else "/api/auth/register/customer"
  let answer ← (call path
    { method := .POST
      body := some (.json (.obj
        [("email", .str email), ("password", .str password), ("phoneNumber", .str phoneNumber)]))
      token := none
      skipAuthRetry := true }).run
  match answer with
  | .ok _ =>
    -- what `unwrap` throws is no `ApiError`
    if ← login email password then
      let _ ← command (.dispatch .registerFulfilled)
    else
      let _ ← command (.dispatch (.registerRejected (some "Registration failed")))
  | .error e =>
    let message :=
      match e with
      | .apiError 409 m => m ++ ". Sign in instead — you can finish your profile there."
      | e => e.message "Registration failed"
    let _ ← command (.dispatch (.registerRejected (some message)))

def authorizedGet (token : Option String) : RequestOptions where
  method := .GET
  body := none
  token := token
  skipAuthRetry := false

structure LoadedSession where
  user : User
  profile : Option Profile
  hasProfile : Bool
  deriving DecidableEq, Repr

/-- the payload creator of `loadSession` -/
def loadedSession (token : Option String) : Async LoadedSession := do
  match (← call "/api/users/me" (authorizedGet token)).asUser with
  | none => throw .typeError
  | some user =>
    if user.role = some "ADMIN" then return ⟨user, none, true⟩
    else
      let path := if user.role = some "SELLER" then "/api/sellers/me" else "/api/customers/me"
      match ← ExceptT.lift (call path (authorizedGet token)).run with
      | .ok profile => return ⟨user, profile.asProfile, true⟩
      | .error (.apiError status message) =>
        if status = 404 ∨ status = 403 then return ⟨user, none, false⟩
        else throw (.apiError status message)
      | .error e => throw e

def loadSession : Task Unit := do
  let _ ← command (.dispatch .loadSessionPending)
  let s ← command .getState
  match ← (loadedSession s.accessToken).run with
  | .ok loaded =>
    let _ ← command (.dispatch
      (.loadSessionFulfilled loaded.user loaded.profile loaded.hasProfile))
  | .error _ =>
    let _ ← command (.dispatch .loadSessionRejected)

def jsonOf : Option String → Json
  | some s => .str s
  | none => .null

def logout : Task Unit := do
  let _ ← command (.dispatch .logoutPending)
  let s ← command .getState
  -- the session of the client ends whatever the answer is
  let _ ← (call "/api/auth/logout"
    { method := .POST
      body := some (.json (.obj [("refreshToken", jsonOf s.refreshToken)]))
      token := s.accessToken
      skipAuthRetry := true }).run
  let _ ← command (.dispatch .logoutFulfilled)

/-- `ProfileSetup` -/
def createProfile (path : String) (o : RequestOptions) : Task Unit := do
  match ← (call path o).run with
  | .ok payload =>
    let _ ← command (.dispatch (.profileCreated (payload.asProfile.getD (.customer none none))))
  | .error _ => return ()

/-- what the app calls.  `api`: with a token it has at hand; `authorized`: with the one in the
store, as the thunks of the other slices do -/
inductive Invocation where
  | login (email password : String)
  | register (email password phoneNumber : String) (role : Role)
  | loadSession
  | logout
  | createProfile (path : String) (o : RequestOptions)
  | api (path : String) (o : RequestOptions)
  | authorized (path : String) (o : RequestOptions)

/-- a program that returns what it makes of an answer -/
def Invocation.task : Invocation → Task (Except Err Payload)
  | .login email password => do
    let _ ← Frontend.login email password
    return .ok .null
  | .register email password phoneNumber role => do
    Frontend.register email password phoneNumber role
    return .ok .null
  | .loadSession => do
    Frontend.loadSession
    return .ok .null
  | .logout => do
    Frontend.logout
    return .ok .null
  | .createProfile path o => do
    Frontend.createProfile path o
    return .ok .null
  | .api path o => (call path o).run
  | .authorized path o => do
    let s ← command .getState
    (call path { o with token := s.accessToken }).run

end Marketplace.Frontend
