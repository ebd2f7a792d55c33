import Marketplace.Accounts.Store

/-!
# Accounts and profiles: the operations

`AuthServiceImpl` as far as accounts go, `AdminBootstrap`, `CustomerServiceImpl` and
`SellerService`.  Every operation is one transaction of its service; what it creates or assigns to is
written when Hibernate flushes: before the commit, and before a query on the same table.

* `Stmt`, `stmt`     the statements.  An INSERT or UPDATE checks the unique columns (`UniqueKeys`); an
                     UPDATE sets every column from the entity as it was loaded and assigned to;
                     `getUser` is the call of `GET /internal/users/{userId}`, which reads what
                     auth-service has committed;
* `Err`              the exceptions, with the status and the message they are answered with;
* `register`, `updateCurrentUser`, `createProfile`, ..   the operations;
* `spec`, `start`    the services.
-/

set_option linter.unusedSectionVars false

namespace Marketplace.Accounts

open Auth (Role UserStatus)
open Service ReadCommitted Interleave UniqueKeys

/-- `PasswordEncoder.encode`, with its random salt -/
class PasswordEncoder where
  encode : String → Nat → String

inductive Stmt where
  | existsByEmail (email : String)
  | existsByPhoneNumber (phoneNumber : String)
  | findById (userID : UUID)
  | insertUser (entity : User)
  | updateUser (entity : User)
  | getUser (userID : UUID)
  | existsByUserID (k : Kind) (userID : UUID)
  | findByUserID (k : Kind) (userID : UUID)
  | insertProfile (entity : Profile)
  | updateProfile (entity : Profile)
  deriving DecidableEq, Repr

@[reducible]
def Reads : Stmt → Type
  | .existsByEmail _ => Bool
  | .existsByPhoneNumber _ => Bool
  | .findById _ => Option User
  | .insertUser _ => User
  | .updateUser _ => Unit
  | .getUser _ => Option Role
  | .existsByUserID _ _ => Bool
  | .findByUserID _ _ => Option Profile
  | .insertProfile _ => Profile
  | .updateProfile _ => Unit

inductive Ask where
  | encode (password : String)
  deriving DecidableEq, Repr

@[reducible]
def Reply : Ask → Type
  | .encode _ => String

/-! ## the statements -/

section
variable {P : Type} [DecidableEq P]

abbrev St (P : Type) := Store P Db Write Key

/-- INSERT of an entity under a generated id -/
def inserting {α : Type} (p : P) (new : Row) (entity : α) (s : St P) :
    Option (Except PgErr α × St P) :=
  if new.fits then (insert p new s).map fun r => (r.1.map fun _ => entity, r.2)
  else some (.error .other, s)

/-- UPDATE of the row with the primary key `k` -/
def updating (p : P) (k : Key) (set : Row → Row) (s : St P) : Option (Except PgErr Unit × St P) :=
  match (s.view p).lookup k with
  -- no row was updated
  | none => some (.error .other, s)
  | some old => if (set old).fits then replace p old (set old) s else some (.error .other, s)

/-- the columns that an UPDATE sets: `user_id` of sellers is not one of them -/
def Profile.set (entity : Profile) : Row → Row
  | .profile (.seller old) =>
    match entity with
    | .seller s => .profile (.seller { s with userID := old.userID })
    | .customer _ => .profile (.seller old)
  | old =>
    match entity with
    | .customer c => .profile (.customer c)
    | .seller _ => old

def stmt (p : P) : (q : Stmt) → Choice Unit → St P → Option (Except PgErr (Reads q) × St P)
  | .existsByEmail email, _, s => some (.ok ((s.view p).lookup (.email email)).isSome, s)
  | .existsByPhoneNumber n, _, s => some (.ok ((s.view p).lookup (.phone n)).isSome, s)
  | .findById u, _, s => some (.ok (((s.view p).lookup (.user u)).bind Row.user?), s)
  | .insertUser u, x, s => inserting p (.user { u with userID := x.id }) { u with userID := x.id } s
  | .updateUser u, _, s => updating p (.user u.userID) (fun _ => .user u) s
  | .getUser u, _, s =>
    some (.ok ((s.committed.lookup (.user u)).bind Row.user? |>.map (·.role)), s)
  | .existsByUserID k u, _, s => some (.ok ((s.view p).lookup (.owner k u)).isSome, s)
  | .findByUserID k u, _, s => some (.ok (((s.view p).lookup (.owner k u)).bind Row.profile?), s)
  | .insertProfile f, x, s => inserting p (.profile (f.withID x.id)) (f.withID x.id) s
  | .updateProfile f, _, s => updating p (.profile f.kind f.profileID) f.set s

theorem inserting_cases {α : Type} {p : P} {new : Row} {entity : α} {s t : St P}
    {a : Except PgErr α} (h : inserting p new entity s = some (a, t)) :
    (a = .ok entity ∧ insert p new s = some (.ok (), t)) ∨ (∃ e, a = .error e ∧ t = s) := by
  unfold inserting at h
  split at h
  · obtain ⟨⟨b, u⟩, hi, e⟩ := Option.map_eq_some_iff.mp h
    cases e
    rcases insert_cases hi with ⟨rfl, -, -⟩ | ⟨rfl, rfl, -⟩
    · exact .inl ⟨rfl, hi⟩
    · exact .inr ⟨_, rfl, rfl⟩
  · cases h
    exact .inr ⟨_, rfl, rfl⟩

theorem updating_cases {p : P} {k : Key} {set : Row → Row} {s t : St P} {a : Except PgErr Unit}
    (h : updating p k set s = some (a, t)) :
    (∃ old, a = .ok () ∧ (s.view p).lookup k = some old ∧
      replace p old (set old) s = some (.ok (), t)) ∨ (∃ e, a = .error e ∧ t = s) := by
  unfold updating at h
  split at h
  · cases h
    exact .inr ⟨_, rfl, rfl⟩
  · rename_i old hold
    split at h
    · rcases replace_cases h with ⟨rfl, -, -⟩ | ⟨rfl, rfl, -⟩
      · exact .inl ⟨old, rfl, hold, h⟩
      · exact .inr ⟨_, rfl, rfl⟩
    · cases h
      exact .inr ⟨_, rfl, rfl⟩

/-- a statement reads, or makes one checked edit -/
theorem stmt_moves {p : P} {q : Stmt} {x : Choice Unit} {s t : St P} {a : Except PgErr (Reads q)}
    (h : stmt p q x s = some (a, t)) : Moves p s t := by
  have inserted : ∀ {α : Type} {new : Row} {entity : α} {a : Except PgErr α},
      inserting p new entity s = some (a, t) → Moves p s t := by
    intro α new entity a h
    rcases inserting_cases h with ⟨-, hi⟩ | ⟨e, -, rfl⟩
    · exact .insert hi
    · exact .read
  have updated : ∀ {k : Key} {set : Row → Row} {a : Except PgErr Unit},
      updating p k set s = some (a, t) → Moves p s t := by
    intro k set a h
    rcases updating_cases h with ⟨old, -, hold, hr⟩ | ⟨e, -, rfl⟩
    · exact .replace (mem_under.mp (mem_of_lookup hold)).1 hr
    · exact .read
  cases q with
  | insertUser u => exact inserted h
  | updateUser u => exact updated h
  | insertProfile f => exact inserted h
  | updateProfile f => exact updated h
  | existsByEmail e => cases h; exact .read
  | existsByPhoneNumber n => cases h; exact .read
  | findById u => cases h; exact .read
  | getUser u => cases h; exact .read
  | existsByUserID k u => cases h; exact .read
  | findByUserID k u => cases h; exact .read

variable [PasswordEncoder]

def answer : (r : Ask) → Choice Unit → Reply r
  | .encode password, x => PasswordEncoder.encode password x.tag

def spec : Spec P Db Write Key Unit Unit Reads Reply where
  stmt := stmt
  note _ _ _ _ _ := ()
  remote _ r x e := some (answer r x, e)
  env _ _ := none
  quiet h := (stmt_moves h).quiet

end

/-! ## the exceptions -/

inductive Err where
  | emailAlreadyExists (email : String)
  | phoneAlreadyExists (phoneNumber : String)
  | userNotFound (userID : UUID)
  | profileAlreadyExists (k : Kind)
  | profileNotFound (k : Kind) (userID : UUID)
  | authService
  | invalidUserRole (k : Kind)
  | unexpected (e : PgErr)
  deriving DecidableEq, Repr

def Err.status : Err → Nat
  | .emailAlreadyExists _ => 409
  | .phoneAlreadyExists _ => 409
  | .userNotFound _ => 404
  | .profileAlreadyExists _ => 409
  | .profileNotFound _ _ => 404
  | .authService => 503
  | .invalidUserRole _ => 403
  | .unexpected _ => 500

/-- `text` is `UUID.toString` -/
def Err.message (text : UUID → String) : Err → String
  | .emailAlreadyExists email => "Email already registered: " ++ email
  | .phoneAlreadyExists phone => "Phone number already registered: " ++ phone
  | .userNotFound u => "User not found: " ++ text u
  | .profileAlreadyExists .customer => "Customer profile already exists for this user"
  | .profileAlreadyExists .seller => "Seller profile already exists for this user"
  | .profileNotFound .customer _ => "Customer profile not found"
  | .profileNotFound .seller u => "Seller not found for user: " ++ text u
  | .authService => "Auth service unavailable"
  | .invalidUserRole .customer => "User is not a CUSTOMER"
  | .invalidUserRole .seller => "User is not a SELLER"
  | .unexpected _ => "Internal server error"

/-- the operation was stopped by a failure rather than refused -/
def Err.isFailure : Err → Bool
  | .unexpected _ => true
  | .authService => true
  | _ => false

/-! ## auth-service -/

abbrev Op (α : Type) : Type := Call Reads Reply Err α

def inTx {α : Type} (fn : Op α) : Op α := Service.inTx .unexpected .unexpected fn

def sql (q : Stmt) : Op (Reads q) := Service.sql .unexpected q

def refuseIf (b : Bool) (e : Err) : Op Unit := if b then throw e else pure ()

structure RegisterRequest where
  email : String
  password : String
  phoneNumber : String
  deriving DecidableEq, Repr

/-- a field that is `none` is not to be changed -/
structure UpdateUserRequest where
  email : Option String
  phoneNumber : Option String
  deriving DecidableEq, Repr

/-- a user without the hash -/
structure UserResponse where
  userID : UUID
  email : String
  phoneNumber : String
  role : Role
  status : UserStatus
  deriving DecidableEq, Repr

def toResponse (u : User) : UserResponse := ⟨u.userID, u.email, u.phoneNumber, u.role, u.status⟩

def register (request : RegisterRequest) (role : Role) : Op UserResponse :=
  inTx do
    let taken ← sql (.existsByEmail request.email)
    refuseIf taken (.emailAlreadyExists request.email)
    let taken ← sql (.existsByPhoneNumber request.phoneNumber)
    refuseIf taken (.phoneAlreadyExists request.phoneNumber)
    let passwordHash ← remote (.encode request.password)
    let saved ← sql (.insertUser
      ⟨UUID.nil, request.email, request.phoneNumber, passwordHash, role, .ACTIVE⟩)
    pure (toResponse saved)

def registerCustomer (request : RegisterRequest) : Op UserResponse := register request .CUSTOMER

def registerSeller (request : RegisterRequest) : Op UserResponse := register request .SELLER

def getCurrentUser (userID : UUID) : Op UserResponse :=
  inTx do
    match ← sql (.findById userID) with
    | none => throw (.userNotFound userID)
    | some user => pure (toResponse user)

/-- an entity that was not assigned to is not written -/
def flush (loaded user : User) : Op Unit :=
  if user = loaded then pure () else sql (.updateUser user)

def setEmail (user : User) : Option String → Op User
  | none => pure user
  | some email =>
    if email = user.email then pure user
    else do
      let taken ← sql (.existsByEmail email)
      refuseIf taken (.emailAlreadyExists email)
      pure { user with email := email }

/-- the query flushes what was assigned before it: the entity as it is in the database, and as it is -/
def setPhoneNumber (loaded user : User) : Option String → Op (User × User)
  | none => pure (loaded, user)
  | some phoneNumber =>
    if phoneNumber = user.phoneNumber then pure (loaded, user)
    else do
      flush loaded user
      let taken ← sql (.existsByPhoneNumber phoneNumber)
      refuseIf taken (.phoneAlreadyExists phoneNumber)
      pure (user, { user with phoneNumber := phoneNumber })

def updateCurrentUser (userID : UUID) (request : UpdateUserRequest) : Op UserResponse :=
  inTx do
    match ← sql (.findById userID) with
    | none => throw (.userNotFound userID)
    | some loaded =>
      let user ← setEmail loaded request.email
      let r ← setPhoneNumber loaded user request.phoneNumber
      flush r.1 r.2
      pure (toResponse r.2)

/-- `AdminBootstrap`, at the start of the service; no password is one that is not set or blank -/
def seedAdminUser (email : String) (password : Option String) (phone : String) : Op Unit :=
  match password with
  | none => pure ()
  | some password => do
    -- not one transaction: the query has its own
    match ← sql (.existsByEmail email) with
    | true => pure ()
    | false =>
      let passwordHash ← remote (.encode password)
      inTx do
        let _ ← sql (.insertUser ⟨UUID.nil, email, phone, passwordHash, .ADMIN, .ACTIVE⟩)
        pure ()

/-! ## customer-service and seller-service -/

/-- any answer but a user of the role is refused; `none` is a 404 -/
def requireRole (k : Kind) : Except PgErr (Option Role) → Op Unit
  | .error _ => throw .authService
  | .ok none => throw .authService
  | .ok (some role) => refuseIf (role ≠ k.role) (.invalidUserRole k)

/-- `AuthClient` -/
def verifyRole (k : Kind) (userID : UUID) : Op Unit := do
  let found ← query (Stmt.getUser userID)
  requireRole k found

def verifyCustomer (userID : UUID) : Op Unit := verifyRole .customer userID

def verifySeller (userID : UUID) : Op Unit := verifyRole .seller userID

def openProfile (userID : UUID) (verify : Op Unit) (entity : Profile) : Op Profile :=
  inTx do
    let found ← sql (.existsByUserID entity.kind userID)
    refuseIf found (.profileAlreadyExists entity.kind)
    verify
    sql (.insertProfile entity)

structure CustomerRequest where
  firstName : String
  lastName : String
  deriving DecidableEq, Repr

structure SellerCreateRequest where
  storeName : String
  description : Option String
  city : Option String
  address : Option String
  deriving DecidableEq, Repr

/-- of customer-service -/
def createProfile (userID : UUID) (request : CustomerRequest) : Op Profile :=
  openProfile userID (verifyCustomer userID)
    (.customer ⟨UUID.nil, userID, request.firstName, request.lastName, .ACTIVE⟩)

/-- of seller-service -/
def createSeller (userID : UUID) (request : SellerCreateRequest) : Op Profile :=
  openProfile userID (verifySeller userID)
    (.seller ⟨UUID.nil, userID, request.storeName, request.description, request.city,
      request.address⟩)

/-- a profile is found by the user it belongs to -/
def withProfile (k : Kind) (userID : UUID) (f : Profile → Op Profile) : Op Profile :=
  inTx do
    match ← sql (.findByUserID k userID) with
    | none => throw (.profileNotFound k userID)
    | some profile => f profile

def getMyProfile (userID : UUID) : Op Profile := withProfile .customer userID pure

def getSellerByUserID (userID : UUID) : Op Profile := withProfile .seller userID pure

/-- a field that is `none` is not to be changed -/
structure UpdateCustomerRequest where
  firstName : Option String
  lastName : Option String
  deriving DecidableEq, Repr

structure SellerUpdateRequest where
  storeName : Option String
  description : Option String
  city : Option String
  address : Option String
  deriving DecidableEq, Repr

def UpdateCustomerRequest.assign (r : UpdateCustomerRequest) : Profile → Profile
  | .customer c => .customer { c with
      firstName := r.firstName.getD c.firstName
      lastName := r.lastName.getD c.lastName }
  | .seller s => .seller s

def SellerUpdateRequest.assign (r : SellerUpdateRequest) : Profile → Profile
  | .customer c => .customer c
  | .seller s => .seller { s with
      storeName := r.storeName.getD s.storeName
      description := r.description.or s.description
      city := r.city.or s.city
      address := r.address.or s.address }

def flushProfile (loaded profile : Profile) : Op Unit :=
  if profile = loaded then pure () else sql (.updateProfile profile)

/-- assign, and write what was assigned -/
def assigning (assign : Profile → Profile) (profile : Profile) : Op Profile := do
  flushProfile profile (assign profile)
  pure (assign profile)

/-- of customer-service -/
def updateMyProfile (userID : UUID) (request : UpdateCustomerRequest) : Op Profile :=
  withProfile .customer userID (assigning request.assign)

/-- of seller-service -/
def updateSeller (userID : UUID) (request : SellerUpdateRequest) : Op Profile :=
  withProfile .seller userID (assigning request.assign)

/-! ## the calls -/

inductive Invocation where
  | registerCustomer (request : RegisterRequest)
  | registerSeller (request : RegisterRequest)
  | getCurrentUser (userID : UUID)
  | updateCurrentUser (userID : UUID) (request : UpdateUserRequest)
  | seedAdminUser (email : String) (password : Option String) (phone : String)
  | createProfile (userID : UUID) (request : CustomerRequest)
  | getMyProfile (userID : UUID)
  | updateMyProfile (userID : UUID) (request : UpdateCustomerRequest)
  | createSeller (userID : UUID) (request : SellerCreateRequest)
  | getSellerByUserID (userID : UUID)
  | updateSeller (userID : UUID) (request : SellerUpdateRequest)
  deriving DecidableEq, Repr

inductive Answer where
  | user (u : UserResponse)
  | profile (f : Profile)
  | done
  deriving DecidableEq, Repr

def answering {α : Type} (f : α → Answer) (op : Op α) : Op Answer := do
  let a ← op
  pure (f a)

def Invocation.op : Invocation → Op Answer
  | .registerCustomer r => answering .user (Accounts.registerCustomer r)
  | .registerSeller r => answering .user (Accounts.registerSeller r)
  | .getCurrentUser u => answering .user (Accounts.getCurrentUser u)
  | .updateCurrentUser u r => answering .user (Accounts.updateCurrentUser u r)
  | .seedAdminUser e pw ph => answering (fun _ => .done) (Accounts.seedAdminUser e pw ph)
  | .createProfile u r => answering .profile (Accounts.createProfile u r)
  | .getMyProfile u => answering .profile (Accounts.getMyProfile u)
  | .updateMyProfile u r => answering .profile (Accounts.updateMyProfile u r)
  | .createSeller u r => answering .profile (Accounts.createSeller u r)
  | .getSellerByUserID u => answering .profile (Accounts.getSellerByUserID u)
  | .updateSeller u r => answering .profile (Accounts.updateSeller u r)

abbrev Config (P : Type) :=
  Conf P (Cmd Stmt Ask) (Ans Reads Reply) (State P Db Write Key Unit) (Except Err Answer)

/-- every call is a process of its own; nobody is registered yet -/
def start {P : Type} (calls : P → Invocation) : Config P where
  prog p := some (calls p).op.run
  state := ⟨.fresh Rows.empty, ()⟩

end Marketplace.Accounts
