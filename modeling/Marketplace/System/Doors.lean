import Marketplace.Lib.Routes
import Marketplace.System.Identity

/-!
# The doors of the services

What stands between a request and the handler it is for: the routers of the seven services with the
guards they mount, and, in front of all that, what each framework makes of the token and of the key.

* `Handler`          the handlers, by service;
* `Door`             a route: method, pattern, guard, handler.  A static segment goes before a variable
                     one, so of the doors that fit the first is taken;
* `requestDoors`, `offerDoors`, ..   the routers;
* `Rule`, `authRules`, ..   the filter chains of the services in Java, which decide by the path;
* `serve`            what becomes of a request;
* `Access`, `Handler.access`   whom each handler is meant for.
-/

namespace Marketplace.System.Doors

open Text Routes Marketplace.Auth Verifiers Identity

/-! ## handlers -/

inductive AuthHandler where
  | registerCustomer
  | registerSeller
  | login
  | refreshToken
  | logout
  | getCurrentUser
  | updateCurrentUser
  | getUserById
  | getPhoneByUserId
  | getUsersByRole
  deriving DecidableEq, Repr

inductive CustomerHandler where
  | createProfile
  | getMyProfile
  | updateMyProfile
  | getCustomerById
  | getCustomerByUserId
  deriving DecidableEq, Repr

inductive SellerHandler where
  | createSeller
  | getMyProfile
  | updateMyProfile
  | getPublicProfile
  | getByUserId
  | getBySellerId
  deriving DecidableEq, Repr

inductive RequestHandler where
  | list
  | similar
  | get
  | image
  | create
  | mine
  | join
  | updateQuantity
  | leave
  | internalEnsure
  | internalGet
  | internalDemand
  | internalParticipants
  | internalSetOfferCount
  deriving DecidableEq, Repr

inductive OfferHandler where
  | submitOffer
  | myOffers
  | offersForRequest
  | getOffer
  | updateOffer
  | offerImage
  | cancelOffer
  | pendingOffers
  | readOffer
  | setStatus
  deriving DecidableEq, Repr

inductive AdminHandler where
  | pendingOffers
  | approve
  | reject
  | listAccess
  | revokeAccess
  | contacts
  | internalCheckAccess
  deriving DecidableEq, Repr

inductive NotificationHandler where
  | myNotifications
  | myUnreadCount
  | markRead
  | createNotification
  | createNotifications
  deriving DecidableEq, Repr

/-- what every service has: health, its OpenAPI document, and Spring's other endpoints -/
inductive Endpoint where
  | health
  | apiDocs
  | info
  | prometheus
  deriving DecidableEq, Repr

inductive Handler where
  | auth (h : AuthHandler)
  | customer (h : CustomerHandler)
  | seller (h : SellerHandler)
  | request (h : RequestHandler)
  | offer (h : OfferHandler)
  | admin (h : AdminHandler)
  | notification (h : NotificationHandler)
  | endpoint (e : Endpoint)
  deriving DecidableEq, Repr

/-! ## requests -/

/-- a request; an absent header is empty, and a header is the list of its bytes -/
structure Request where
  method : String
  /-- as it is spelled -/
  requestURI : List Char
  /-- the segments of the path, as the framework hands them to its router -/
  path : List String
  authorization : List Char
  /-- `X-Internal-Api-Key` -/
  internalAPIKey : List Char

/-! ## Go and Python -/

inductive Guard where
  | anyone
  /-- `RequireJWT`, `CurrentPrincipal` -/
  | requireJWT
  /-- `RequireRole`, `require_role` -/
  | requireRole (allowed : List String)
  /-- `RequireInternalAPIKey`, `require_internal_api_key` -/
  | requireInternalAPIKey
  deriving DecidableEq, Repr

structure Door where
  method : String
  pattern : Pattern
  guard : Guard
  handler : Handler

def Door.route (d : Door) : Route := ⟨some d.method, d.pattern⟩

def healthDoors : List Door :=
  [⟨"GET", [.lit "health"], .anyone, .endpoint .health⟩,
   ⟨"GET", [.lit "actuator", .lit "health"], .anyone, .endpoint .health⟩,
   ⟨"GET", [.lit "v3", .lit "api-docs"], .anyone, .endpoint .apiDocs⟩]

/-- `requests.NewRouter` -/
def requestDoors : List Door := healthDoors ++
  [⟨"GET", [.lit "api", .lit "requests"], .anyone, .request .list⟩,
   ⟨"GET", [.lit "api", .lit "requests", .lit "similar"], .anyone, .request .similar⟩,
   ⟨"GET", [.lit "api", .lit "requests", .lit "me"], .requireRole ["CUSTOMER"], .request .mine⟩,
   ⟨"GET", [.lit "api", .lit "requests", .var], .anyone, .request .get⟩,
   ⟨"GET", [.lit "api", .lit "requests", .var, .lit "image"], .anyone, .request .image⟩,
   ⟨"POST", [.lit "api", .lit "requests"], .requireRole ["CUSTOMER"], .request .create⟩,
   ⟨"POST", [.lit "api", .lit "requests", .var, .lit "participants"], .requireRole ["CUSTOMER"],
    .request .join⟩,
   ⟨"PUT", [.lit "api", .lit "requests", .var, .lit "participants", .lit "me"],
    .requireRole ["CUSTOMER"], .request .updateQuantity⟩,
   ⟨"DELETE", [.lit "api", .lit "requests", .var, .lit "participants", .lit "me"],
    .requireRole ["CUSTOMER"], .request .leave⟩,
   ⟨"POST", [.lit "internal", .lit "requests"], .requireInternalAPIKey, .request .internalEnsure⟩,
   ⟨"GET", [.lit "internal", .lit "requests", .var], .requireInternalAPIKey, .request .internalGet⟩,
   ⟨"GET", [.lit "internal", .lit "requests", .var, .lit "demand"], .requireInternalAPIKey,
    .request .internalDemand⟩,
   ⟨"GET", [.lit "internal", .lit "requests", .var, .lit "participants"], .requireInternalAPIKey,
    .request .internalParticipants⟩,
   ⟨"PUT", [.lit "internal", .lit "requests", .var, .lit "offers", .lit "count"],
    .requireInternalAPIKey, .request .internalSetOfferCount⟩]

/-- `admin.NewRouter` -/
def adminDoors : List Door := healthDoors ++
  [⟨"GET", [.lit "api", .lit "admin", .lit "offers", .lit "pending"], .requireRole ["ADMIN"],
    .admin .pendingOffers⟩,
   ⟨"POST", [.lit "api", .lit "admin", .lit "offers", .var, .lit "approve"], .requireRole ["ADMIN"],
    .admin .approve⟩,
   ⟨"POST", [.lit "api", .lit "admin", .lit "offers", .var, .lit "reject"], .requireRole ["ADMIN"],
    .admin .reject⟩,
   ⟨"GET", [.lit "api", .lit "admin", .lit "contact-access"], .requireRole ["ADMIN"],
    .admin .listAccess⟩,
   ⟨"DELETE", [.lit "api", .lit "admin", .lit "contact-access", .var], .requireRole ["ADMIN"],
    .admin .revokeAccess⟩,
   ⟨"GET", [.lit "api", .lit "contacts", .lit "requests", .var], .requireRole ["SELLER"],
    .admin .contacts⟩,
   ⟨"GET", [.lit "internal", .lit "contact-access"], .requireInternalAPIKey,
    .admin .internalCheckAccess⟩]

/-- the routers of offer-service, in the order of their declarations -/
def offerDoors : List Door :=
  [⟨"POST", [.lit "api", .lit "offers"], .requireRole ["SELLER"], .offer .submitOffer⟩,
   ⟨"GET", [.lit "api", .lit "offers", .lit "me"], .requireRole ["SELLER"], .offer .myOffers⟩,
   ⟨"GET", [.lit "api", .lit "offers", .lit "request", .var], .requireJWT, .offer .offersForRequest⟩,
   ⟨"GET", [.lit "api", .lit "offers", .var], .requireJWT, .offer .getOffer⟩,
   ⟨"PUT", [.lit "api", .lit "offers", .var], .requireRole ["SELLER"], .offer .updateOffer⟩,
   ⟨"GET", [.lit "api", .lit "offers", .var, .lit "image"], .requireJWT, .offer .offerImage⟩,
   ⟨"DELETE", [.lit "api", .lit "offers", .var], .requireRole ["SELLER"], .offer .cancelOffer⟩,
   ⟨"GET", [.lit "internal", .lit "offers", .lit "pending"], .requireInternalAPIKey,
    .offer .pendingOffers⟩,
   ⟨"GET", [.lit "internal", .lit "offers", .var], .requireInternalAPIKey, .offer .readOffer⟩,
   ⟨"PATCH", [.lit "internal", .lit "offers", .var, .lit "status"], .requireInternalAPIKey,
    .offer .setStatus⟩] ++ healthDoors

/-- the routers of notification-service -/
def notificationDoors : List Door :=
  [⟨"GET", [.lit "api", .lit "notifications", .lit "me"], .requireJWT,
    .notification .myNotifications⟩,
   ⟨"GET", [.lit "api", .lit "notifications", .lit "me", .lit "unread-count"], .requireJWT,
    .notification .myUnreadCount⟩,
   ⟨"PATCH", [.lit "api", .lit "notifications", .var, .lit "read"], .requireJWT,
    .notification .markRead⟩,
   ⟨"POST", [.lit "internal", .lit "notifications"], .requireInternalAPIKey,
    .notification .createNotification⟩,
   ⟨"POST", [.lit "internal", .lit "notifications", .lit "bulk"], .requireInternalAPIKey,
    .notification .createNotifications⟩] ++ healthDoors

/-! ## Java -/

inductive Demand where
  | permitAll
  | authenticated
  | hasAuthority (authority : String)
  deriving DecidableEq, Repr

/-- `requestMatchers(..)` with what it demands; no method is any method -/
structure Rule where
  method : Option String
  pattern : Pattern
  demand : Demand

def Rule.route (c : Rule) : Route := ⟨c.method, c.pattern⟩

def commonRules : List Rule :=
  [⟨none, [.lit "v3", .lit "api-docs", .rest], .permitAll⟩,
   ⟨none, [.lit "actuator", .lit "health", .rest], .permitAll⟩,
   ⟨none, [.lit "actuator", .lit "info"], .permitAll⟩,
   ⟨none, [.lit "actuator", .rest], .hasAuthority "INTERNAL"⟩]

/-- the filter chain of auth-service, but for its last rule: `anyRequest().authenticated()` -/
def authRules : List Rule := commonRules ++
  [⟨some "POST", [.lit "api", .lit "auth", .lit "register", .lit "customer"], .permitAll⟩,
   ⟨some "POST", [.lit "api", .lit "auth", .lit "register", .lit "seller"], .permitAll⟩,
   ⟨some "POST", [.lit "api", .lit "auth", .lit "login"], .permitAll⟩,
   ⟨some "POST", [.lit "api", .lit "auth", .lit "refresh"], .permitAll⟩,
   ⟨none, [.lit "internal", .rest], .hasAuthority "INTERNAL"⟩,
   ⟨none, [.lit "api", .lit "users", .lit "me"], .authenticated⟩,
   ⟨none, [.lit "api", .lit "auth", .lit "logout"], .authenticated⟩,
   ⟨none, [.lit "api", .lit "admin", .rest], .hasAuthority "ADMIN"⟩]

def customerRules : List Rule := commonRules ++
  [⟨none, [.lit "internal", .rest], .hasAuthority "INTERNAL"⟩]

def sellerRules : List Rule := commonRules ++
  [⟨none, [.lit "internal", .rest], .hasAuthority "INTERNAL"⟩,
   ⟨none, [.lit "api", .lit "sellers", .lit "me"], .authenticated⟩,
   ⟨some "GET", [.lit "api", .lit "sellers", .var], .permitAll⟩]

def demandBy : Option Rule → Demand
  | some c => c.demand
  | none => .authenticated

def demandOf (rules : List Rule) (r : Request) : Demand :=
  demandBy (rules.find? (·.route.fits r.method r.path))

/-- a mapping of a controller -/
structure Mapping where
  method : String
  pattern : Pattern
  handler : Handler

def Mapping.route (m : Mapping) : Route := ⟨some m.method, m.pattern⟩

/-- the endpoints that are exposed -/
def endpoints : List Mapping :=
  [⟨"GET", [.lit "v3", .lit "api-docs"], .endpoint .apiDocs⟩,
   ⟨"GET", [.lit "actuator", .lit "health"], .endpoint .health⟩,
   ⟨"GET", [.lit "actuator", .lit "info"], .endpoint .info⟩,
   ⟨"GET", [.lit "actuator", .lit "prometheus"], .endpoint .prometheus⟩]

def authMappings : List Mapping := endpoints ++
  [⟨"POST", [.lit "api", .lit "auth", .lit "register", .lit "customer"], .auth .registerCustomer⟩,
   ⟨"POST", [.lit "api", .lit "auth", .lit "register", .lit "seller"], .auth .registerSeller⟩,
   ⟨"POST", [.lit "api", .lit "auth", .lit "login"], .auth .login⟩,
   ⟨"POST", [.lit "api", .lit "auth", .lit "refresh"], .auth .refreshToken⟩,
   ⟨"POST", [.lit "api", .lit "auth", .lit "logout"], .auth .logout⟩,
   ⟨"GET", [.lit "api", .lit "users", .lit "me"], .auth .getCurrentUser⟩,
   ⟨"PUT", [.lit "api", .lit "users", .lit "me"], .auth .updateCurrentUser⟩,
   ⟨"GET", [.lit "internal", .lit "users", .var], .auth .getUserById⟩,
   ⟨"GET", [.lit "internal", .lit "users", .lit "by-role", .var], .auth .getUsersByRole⟩,
   ⟨"GET", [.lit "internal", .lit "users", .var, .lit "phone"], .auth .getPhoneByUserId⟩]

def customerMappings : List Mapping := endpoints ++
  [⟨"POST", [.lit "api", .lit "customers"], .customer .createProfile⟩,
   ⟨"GET", [.lit "api", .lit "customers", .lit "me"], .customer .getMyProfile⟩,
   ⟨"PUT", [.lit "api", .lit "customers", .lit "me"], .customer .updateMyProfile⟩,
   ⟨"GET", [.lit "internal", .lit "customers", .var], .customer .getCustomerById⟩,
   ⟨"GET", [.lit "internal", .lit "customers", .lit "by-user", .var],
    .customer .getCustomerByUserId⟩]

def sellerMappings : List Mapping := endpoints ++
  [⟨"POST", [.lit "api", .lit "sellers"], .seller .createSeller⟩,
   ⟨"GET", [.lit "api", .lit "sellers", .lit "me"], .seller .getMyProfile⟩,
   ⟨"PUT", [.lit "api", .lit "sellers", .lit "me"], .seller .updateMyProfile⟩,
   ⟨"GET", [.lit "api", .lit "sellers", .var], .seller .getPublicProfile⟩,
   ⟨"GET", [.lit "internal", .lit "sellers", .lit "by-user", .var], .seller .getByUserId⟩,
   ⟨"GET", [.lit "internal", .lit "sellers", .var], .seller .getBySellerId⟩]

/-! ## what becomes of a request -/

inductive Service where
  | auth
  | customer
  | seller
  | request
  | offer
  | admin
  | notification
  deriving DecidableEq, Repr

inductive Outcome where
  /-- the framework answers by itself -/
  | noHandler
  | refused (status : Nat)
  /-- with the user id that the guard has put on the request -/
  | entered (h : Handler) (who : Option UUID)
  deriving DecidableEq, Repr

/-- the bytes of a configured key -/
def utf8 (key : List Char) : List Char :=
  (String.ofList key).toUTF8.data.toList.map fun b => Char.ofNat b.toNat

section
variable (L : Libraries) (key : List Char) (r : Request)

/-- the middleware of the services in Go -/
def guardGo : Guard → Except Nat (Option UUID)
  | .anyone => .ok none
  | .requireJWT =>
    match L.authenticate r.authorization with
    | none => .error 401
    | some claims => .ok (some claims.userID)
  | .requireRole allowed =>
    match L.authenticate r.authorization with
    | none => .error 401
    | some claims => if claims.role ∈ allowed then .ok (some claims.userID) else .error 403
  | .requireInternalAPIKey =>
    if key = [] then .error 401
    else if r.internalAPIKey ≠ utf8 key then .error 401
    else .ok none

/-- `principal.role not in allowed`; a list or an object cannot be looked up -/
def roleIn (allowed : List String) : Json → Except Nat Unit
  | .str role => if role ∈ allowed then .ok () else .error 403
  | .arr _ => .error 500
  | .obj _ => .error 500
  | _ => .error 403

/-- the dependencies of the services in Python -/
def guardPython : Guard → Except Nat (Option UUID)
  | .anyone => .ok none
  | .requireJWT =>
    match L.getPrincipal r.authorization with
    | none => .error 401
    | some principal => .ok (some principal.userID)
  | .requireRole allowed =>
    match L.getPrincipal r.authorization with
    | none => .error 401
    | some principal => (roleIn allowed principal.role).map fun _ => some principal.userID
  | .requireInternalAPIKey =>
    if key = [] then .error 401
    else if r.internalAPIKey ≠ key then .error 401
    else .ok none

/-- what the security context holds -/
inductive Caller where
  | internal
  | user (a : Authentication)
  deriving DecidableEq, Repr

def Caller.authority : Caller → String
  | .internal => "INTERNAL"
  | .user a => a.authority

def Caller.userID : Caller → Option UUID
  | .internal => none
  | .user a => some a.userID

def belowInternal : Bool := "/internal/".toList.isPrefixOf r.requestURI

/-- `InternalApiKeyFilter` -/
def internalApiKeyFilter : Except Nat (Option Caller) :=
  if !belowInternal r then .ok none
  else if !hasText key then .error 401
  else if !hasText r.internalAPIKey || r.internalAPIKey ≠ key then .error 401
  else .ok (some .internal)

def meets : Demand → Option Caller → Except Nat Unit
  | .permitAll, _ => .ok ()
  | .authenticated, none => .error 401
  | .authenticated, some _ => .ok ()
  | .hasAuthority _, none => .error 401
  | .hasAuthority authority, some c => if c.authority = authority then .ok () else .error 403

/-- the filters one after the other: a good token takes the place of the key -/
def filterChain (rules : List Rule) : Except Nat (Option UUID) := do
  -- `StrictHttpFirewall` lets no URI pass that is spelled below another path than it means
  if belowInternal r ∧ r.path.head? ≠ some "internal" then throw 400
  let internal ← internalApiKeyFilter key r
  let caller := ((L.doFilterInternal r.authorization).map Caller.user).or internal
  meets (demandOf rules r) caller
  return caller.bind Caller.userID

def through (guard : Guard → Except Nat (Option UUID)) : Option Door → Outcome
  | none => .noHandler
  | some d =>
    match guard d.guard with
    | .error status => .refused status
    | .ok who => .entered d.handler who

def throughJava (rules : List Rule) : Option Mapping → Outcome
  | none => .noHandler
  | some m =>
    match filterChain L key r rules with
    | .error status => .refused status
    | .ok who => .entered m.handler who

def serve : Service → Outcome
  | .auth => throughJava L key r authRules (authMappings.find? (·.route.fits r.method r.path))
  | .customer =>
    throughJava L key r customerRules (customerMappings.find? (·.route.fits r.method r.path))
  | .seller => throughJava L key r sellerRules (sellerMappings.find? (·.route.fits r.method r.path))
  | .request => through (guardGo L key r) (requestDoors.find? (·.route.fits r.method r.path))
  | .admin => through (guardGo L key r) (adminDoors.find? (·.route.fits r.method r.path))
  | .offer => through (guardPython L key r) (offerDoors.find? (·.route.fits r.method r.path))
  | .notification =>
    through (guardPython L key r) (notificationDoors.find? (·.route.fits r.method r.path))

end

/-! ## whom the handlers are meant for -/

inductive Access where
  | anyone
  /-- any user of the platform -/
  | member
  | only (role : Role)
  /-- another service -/
  | services
  | nobody
  deriving DecidableEq, Repr

def AuthHandler.access : AuthHandler → Access
  | .registerCustomer | .registerSeller | .login | .refreshToken => .anyone
  | .logout | .getCurrentUser | .updateCurrentUser => .member
  | .getUserById | .getPhoneByUserId | .getUsersByRole => .services

/-- the role of a new profile is left to the handler -/
def CustomerHandler.access : CustomerHandler → Access
  | .createProfile | .getMyProfile | .updateMyProfile => .member
  | .getCustomerById | .getCustomerByUserId => .services

def SellerHandler.access : SellerHandler → Access
  | .createSeller | .getMyProfile | .updateMyProfile => .member
  | .getPublicProfile => .anyone
  | .getByUserId | .getBySellerId => .services

def RequestHandler.access : RequestHandler → Access
  | .list | .similar | .get | .image => .anyone
  | .create | .mine | .join | .updateQuantity | .leave => .only .CUSTOMER
  | .internalEnsure | .internalGet | .internalDemand | .internalParticipants
  | .internalSetOfferCount => .services

def OfferHandler.access : OfferHandler → Access
  | .submitOffer | .myOffers | .updateOffer | .cancelOffer => .only .SELLER
  | .offersForRequest | .getOffer | .offerImage => .member
  | .pendingOffers | .readOffer | .setStatus => .services

def AdminHandler.access : AdminHandler → Access
  | .pendingOffers | .approve | .reject | .listAccess | .revokeAccess => .only .ADMIN
  | .contacts => .only .SELLER
  | .internalCheckAccess => .services

def NotificationHandler.access : NotificationHandler → Access
  | .myNotifications | .myUnreadCount | .markRead => .member
  | .createNotification | .createNotifications => .services

/-- metrics are to be behind the key, but the key is only looked at below `/internal/` -/
def Endpoint.access : Endpoint → Access
  | .health | .apiDocs | .info => .anyone
  | .prometheus => .nobody

def Handler.access : Handler → Access
  | .auth h => h.access
  | .customer h => h.access
  | .seller h => h.access
  | .request h => h.access
  | .offer h => h.access
  | .admin h => h.access
  | .notification h => h.access
  | .endpoint e => e.access

end Marketplace.System.Doors
