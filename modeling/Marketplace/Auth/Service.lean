import Marketplace.Auth.Store

/-!
# auth-service: sessions, `AuthServiceImpl`

Every operation is one transaction.  Hibernate keeps what it loads: `save` of a loaded entity sends
nothing, and the flush before the commit sends the inserts first, then one UPDATE by id for every
entity that was assigned to, without a version.

* `Stmt`, `stmt`     the statements.  The bulk update of a logout is a snapshot of the rows to
                     update, and then, row by row, a lock and a second look;
* `Ask`              what a call takes from the machine it runs on: the time, a random uuid;
* `login`, `refreshToken`, `logout`   the operations;
* `Reads`, `watch`   how far the log was when a process read its input (its first statement).  Nothing
                     in the code looks at this;
* `spec`             the service.
-/

set_option linter.unusedSectionVars false

namespace Marketplace.Auth

open Table ReadCommitted Interleave Service

inductive Stmt where
  | findByEmail (email : String)
  | findUser (userID : UUID)
  | findByTokenHash (tokenHash : String)
  | insertToken (userID : UUID) (tokenHash : String) (expiresAt : Time)
  | updateToken (entity : RefreshToken)
  | snapshotTokens (userID : UUID)
  | revokeToken (tokenID userID : UUID)
  deriving DecidableEq, Repr

@[reducible]
def Row : Stmt → Type
  | .findByEmail _ => Option User
  | .findUser _ => Option User
  | .findByTokenHash _ => Option RefreshToken
  | .insertToken _ _ _ => Unit
  | .updateToken _ => Unit
  | .snapshotTokens _ => List UUID
  | .revokeToken _ _ => Nat

inductive Ask where
  | now
  | randomUUID
  deriving DecidableEq, Repr

@[reducible]
def Reply : Ask → Type
  | .now => Time
  | .randomUUID => UUID

def answer : (r : Ask) → Choice Unit → Reply r
  | .now, x => x.now
  | .randomUUID, x => x.id

/-! ## the statements -/

section
variable {P : Type} [DecidableEq P]

abbrev St (P : Type) := Store P Db Write Lock

def St.writing {α : Type} (s : St P) (p : P) (w : Write) (row : α) :
    Option (Except PgErr α × St P) :=
  (s.put p w).map fun t => (.ok row, t)

def St.failing {α : Type} (s : St P) (e : PgErr) : Option (Except PgErr α × St P) :=
  some (.error e, s)

/-- the tokens of a user that are not revoked -/
def Db.revocable (d : Db) (u : UUID) : List UUID :=
  (d.tokens.filter fun t => t.userID == u && !t.revoked).map (·.tokenID)

def stmt (p : P) : (q : Stmt) → Choice Unit → St P → Option (Except PgErr (Row q) × St P)
  | .findByEmail email, _, s => some (.ok ((s.view p).findByEmail email), s)
  | .findUser u, _, s => some (.ok ((s.view p).findUser u), s)
  | .findByTokenHash h, _, s => some (.ok ((s.view p).findByTokenHash h), s)
  | .insertToken u h expiresAt, x, s =>
    if !(s.free p (.token x.id) && s.free p (.hash h)) then none
    else if (s.view p).find x.id ≠ none then s.failing .uniqueViolation
    else if (s.view p).findByTokenHash h ≠ none then s.failing .uniqueViolation
    -- the foreign key
    else if (s.view p).findUser u = none then s.failing .integrityViolation
    else s.writing p (.insertToken ⟨x.id, u, h, expiresAt, false, x.now⟩) ()
  | .updateToken entity, _, s =>
    if !s.free p (.token entity.tokenID) then none
    else
      match (s.view p).find entity.tokenID with
      -- no row was updated
      | none => s.failing .other
      | some _ => s.writing p (.updateToken entity.tokenID entity) ()
  | .snapshotTokens u, _, s => some (.ok ((s.view p).revocable u), s)
  | .revokeToken i u, _, s =>
    if !s.free p (.token i) then none
    else
      match (s.view p).find i with
      | none => some (.ok 0, s)
      | some t =>
        if t.userID = u ∧ t.revoked = false then
          s.writing p (.updateToken i { t with revoked := true }) 1
        else some (.ok 0, s)

theorem writing_eq {α : Type} {s t : St P} {p : P} {w : Write} {row : α} {a : Except PgErr α}
    (h : s.writing p w row = some (a, t)) : a = .ok row ∧ s.put p w = some t := by
  obtain ⟨u, hu, e⟩ := Option.map_eq_some_iff.mp h
  cases e
  exact ⟨rfl, hu⟩

theorem failing_eq {α : Type} {s t : St P} {e : PgErr} {a : Except PgErr α}
    (h : s.failing e = some (a, t)) : a = .error e ∧ t = s := by
  cases h
  exact ⟨rfl, rfl⟩

/-- what a statement leaves in the store: nothing, or one write -/
inductive Effect (p : P) (q : Stmt) (s : St P) : Except PgErr (Row q) → St P → Prop where
  | none (a : Except PgErr (Row q)) : Effect p q s a s
  | write {w : Write} {t : St P} (a : Row q) (h : s.put p w = some t) : Effect p q s (.ok a) t

section
variable {p : P} {x : Choice Unit} {s t : St P}

theorem insertToken_cases {u : UUID} {h : String} {expiresAt : Time} {a : Except PgErr Unit}
    (hs : stmt p (.insertToken u h expiresAt) x s = some (a, t)) :
    (∃ e, a = .error e ∧ t = s) ∨
    (a = .ok () ∧ (s.view p).find x.id = none ∧ (s.view p).findByTokenHash h = none ∧
      s.put p (.insertToken ⟨x.id, u, h, expiresAt, false, x.now⟩) = some t) := by
  simp only [stmt] at hs
  split at hs
  · cases hs
  · split at hs
    · exact .inl ⟨_, failing_eq hs⟩
    · rename_i hi
      split at hs
      · exact .inl ⟨_, failing_eq hs⟩
      · rename_i hh
        split at hs
        · exact .inl ⟨_, failing_eq hs⟩
        · obtain ⟨ha, hp⟩ := writing_eq hs
          exact .inr ⟨ha, not_not.mp hi, not_not.mp hh, hp⟩

theorem updateToken_cases {entity : RefreshToken} {a : Except PgErr Unit}
    (hs : stmt p (.updateToken entity) x s = some (a, t)) :
    (a = .error .other ∧ t = s) ∨
    (∃ old, a = .ok () ∧ (s.view p).find entity.tokenID = some old ∧
      s.put p (.updateToken entity.tokenID entity) = some t) := by
  simp only [stmt] at hs
  split at hs
  · cases hs
  · split at hs
    · exact .inl (failing_eq hs)
    · rename_i old hold
      obtain ⟨ha, hp⟩ := writing_eq hs
      exact .inr ⟨old, ha, hold, hp⟩

/-- a row that meets the condition no more is left alone -/
theorem revokeToken_cases {i u : UUID} {a : Except PgErr Nat}
    (hs : stmt p (.revokeToken i u) x s = some (a, t)) :
    (a = .ok 0 ∧ t = s ∧
      ∀ row, (s.view p).find i = some row → row.userID = u → row.revoked = true) ∨
    (∃ row, a = .ok 1 ∧ (s.view p).find i = some row ∧ row.userID = u ∧
      s.put p (.updateToken i { row with revoked := true }) = some t) := by
  simp only [stmt] at hs
  split at hs
  · cases hs
  · split at hs
    · rename_i hn
      cases hs
      refine .inl ⟨rfl, rfl, fun row hrow => ?_⟩
      rw [hn] at hrow
      cases hrow
    · rename_i row hrow
      split at hs
      · rename_i hc
        obtain ⟨ha, hp⟩ := writing_eq hs
        exact .inr ⟨row, ha, hrow, hc.1, hp⟩
      · rename_i hc
        cases hs
        refine .inl ⟨rfl, rfl, fun row' hrow' hu => ?_⟩
        obtain rfl : row = row' := Option.some.inj (hrow.symm.trans hrow')
        cases hr : row.revoked with
        | true => rfl
        | false => exact absurd ⟨hu, hr⟩ hc

theorem stmt_effect {q : Stmt} {a : Except PgErr (Row q)} (h : stmt p q x s = some (a, t)) :
    Effect p q s a t := by
  cases q with
  | findByEmail email => cases h; exact .none _
  | findUser u => cases h; exact .none _
  | findByTokenHash hash => cases h; exact .none _
  | snapshotTokens u => cases h; exact .none _
  | insertToken u hash expiresAt =>
    rcases insertToken_cases h with ⟨e, -, rfl⟩ | ⟨rfl, -, -, hp⟩
    · exact .none _
    · exact .write _ hp
  | updateToken entity =>
    rcases updateToken_cases h with ⟨-, rfl⟩ | ⟨old, rfl, -, hp⟩
    · exact .none _
    · exact .write _ hp
  | revokeToken i u =>
    rcases revokeToken_cases h with ⟨-, rfl, -⟩ | ⟨row, rfl, -, -, hp⟩
    · exact .none _
    · exact .write _ hp

theorem stmt_quiet {q : Stmt} {a : Except PgErr (Row q)} (h : stmt p q x s = some (a, t)) :
    Quiet p s t := by
  cases stmt_effect h with
  | none => exact Quiet.refl p s
  | write _ h => exact Quiet.put h

/-- a statement takes the locks it needs -/
theorem stmt_wellLocked {q : Stmt} {a : Except PgErr (Row q)} (hw : WellLocked s)
    (h : stmt p q x s = some (a, t)) : WellLocked t := by
  cases stmt_effect h with
  | none => exact hw
  | write _ h => exact wellLocked_put hw h fun l hl => .inl hl

end

/-! ## the service -/

/-- the log when a process read its input -/
abbrev Reads (P : Type) := P → Option (List (Commit P Db))

def watch (p : P) (_ : Stmt) (_ : Choice Unit) (s : St P) (e : Reads P) : Reads P :=
  match e p with
  | none => Function.update e p (some s.log)
  | some _ => e

def spec : Spec P Db Write Lock (Reads P) Unit Row Reply where
  stmt := stmt
  note := watch
  remote _ r x e := some (answer r x, e)
  env _ _ := none
  quiet := stmt_quiet

end

/-! ## the operations -/

inductive Err where
  | invalidCredentials
  | unauthorized (message : String)
  | userNotFound (message : String)
  | invalidToken (message : String)
  | internal
  deriving DecidableEq, Repr

/-- `GlobalExceptionHandler` -/
def Err.status : Err → Nat
  | .invalidCredentials => 401
  | .unauthorized _ => 401
  | .userNotFound _ => 404
  | .invalidToken _ => 401
  | .internal => 500

def Err.message : Err → String
  | .invalidCredentials => "Invalid email or password"
  | .unauthorized m => m
  | .userNotFound m => m
  | .invalidToken m => m
  | .internal => "Internal server error"

structure TokenResponse where
  accessToken : String
  refreshToken : String
  expiresIn : Nat
  tokenType : String
  deriving DecidableEq, Repr

/-- the parts of the service that are left to libraries: tokens, bcrypt, SHA-256 in hex -/
structure AuthServiceImpl where
  jwtUtil : JwtUtil
  passwordMatches : String → String → Bool
  hash : String → String

abbrev Op (α : Type) := Call Row Reply Err α

def exec (q : Stmt) : Op (Row q) := Service.sql (fun _ => .internal) q

/-- `@Transactional` -/
def transactional {α : Type} (body : Op α) : Op α :=
  inTx (fun _ => .internal) (fun _ => .internal) body

/-- what jjwt and the code around it throw -/
def orThrow {α : Type} : Except Jwt.Err α → Op α
  | .ok a => pure a
  | .error (.invalidToken m) => throw (.invalidToken m)
  | .error .other => throw .internal

namespace AuthServiceImpl
variable (A : AuthServiceImpl)

/-- both tokens for a user, and the row to be inserted -/
def newTokens (user : User) : Op (TokenResponse × Time) := do
  let issued ← remote .now
  let accessToken := A.jwtUtil.generateAccessToken user.userID user.email user.role.name issued
  let jti ← remote .randomUUID
  let reissued ← remote .now
  let refreshToken := A.jwtUtil.generateRefreshToken user.userID jti reissued
  let recorded ← remote .now
  return (⟨accessToken, refreshToken, A.jwtUtil.accessTokenExpirySeconds, "Bearer"⟩,
    recorded + A.jwtUtil.refreshExpiryDays * 86400)

def loginBody (email password : String) : Op TokenResponse := do
  match ← exec (.findByEmail email) with
  | none => throw .invalidCredentials
  | some user =>
    if !user.isActive then throw (.unauthorized "Account is blocked")
    else if !A.passwordMatches password user.passwordHash then throw .invalidCredentials
    else do
      let (tokens, expiresAt) ← A.newTokens user
      exec (.insertToken user.userID (A.hash tokens.refreshToken) expiresAt)
      return tokens

def refreshTokenBody (token : String) : Op TokenResponse := do
  let asked ← remote .now
  if !A.jwtUtil.isTokenValid token asked then throw (.unauthorized "Invalid refresh token")
  else do
    let typed ← remote .now
    if !(← orThrow (A.jwtUtil.isRefreshToken token typed)) then
      throw (.unauthorized "Invalid refresh token")
    else
      match ← exec (.findByTokenHash (A.hash token)) with
      | none => throw (.unauthorized "Refresh token is not recognised")
      | some stored => do
        let looked ← remote .now
        if !stored.isUsable looked then
          throw (.unauthorized "Refresh token has been revoked or expired")
        else do
          let read ← remote .now
          let userID ← orThrow (A.jwtUtil.extractUserId token read)
          match ← exec (.findUser userID) with
          | none => throw (.userNotFound "User not found")
          | some user =>
            if !user.isActive then throw (.unauthorized "Account is blocked")
            else do
              let (tokens, expiresAt) ← A.newTokens user
              exec (.insertToken user.userID (A.hash tokens.refreshToken) expiresAt)
              exec (.updateToken { stored with revoked := true })
              return tokens

/-- the rows of the snapshot, one after the other -/
def revokeEach (u : UUID) : List UUID → Op Nat
  | [] => pure 0
  | i :: is => do
    let n ← exec (.revokeToken i u)
    let m ← revokeEach u is
    return n + m

/-- `UPDATE refresh_tokens SET revoked = true WHERE user_id = .. AND revoked = false` -/
def revokeAllForUser (u : UUID) : Op Nat := do
  let is ← exec (.snapshotTokens u)
  revokeEach u is

end AuthServiceImpl

/-- a call of the service -/
inductive Invocation where
  | login (email password : String)
  | refreshToken (token : String)
  | logout (userID : UUID)
  deriving DecidableEq, Repr

inductive Answer where
  | tokens (t : TokenResponse)
  | noContent
  deriving DecidableEq, Repr

def Invocation.body (A : AuthServiceImpl) : Invocation → Op Answer
  | .login email password => do return .tokens (← A.loginBody email password)
  | .refreshToken token => do return .tokens (← A.refreshTokenBody token)
  | .logout u => do
    let _ ← AuthServiceImpl.revokeAllForUser u
    return .noContent

def Invocation.op (A : AuthServiceImpl) (i : Invocation) : Op Answer := transactional (i.body A)

section
variable {P : Type} [DecidableEq P]

abbrev Config (P : Type) :=
  Conf P (Cmd Stmt Ask) (Ans Row Reply) (State P Db Write Lock (Reads P)) (Except Err Answer)

/-- every process is about to run its call on the contents `d` -/
def start (A : AuthServiceImpl) (calls : P → Invocation) (d : Db) : Config P where
  state := ⟨Store.fresh d, fun _ => none⟩
  prog p := some ((calls p).op A).run

end

end Marketplace.Auth
