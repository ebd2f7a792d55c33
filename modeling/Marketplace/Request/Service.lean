import Marketplace.Request.Statements

/-!
# request-service: the operations of `service.go`

Each operation is one transaction over the statements of `Statements`.  `Join`, `UpdateQuantity`
and `Leave` share `mutateParticipants`: the request's row is locked, the participants change,
the demand is recomputed.  `Create` and `EnsureForItem` open a request under the advisory lock of
its item name.
-/

namespace Marketplace.Request

open Events Interleave
open Service hiding query

/-- the errors of the operations; `wrap` is `fmt.Errorf("text: %w", err)` -/
inductive Err where
  | requestExists (existing : PurchaseRequest)
  | requestNotFound
  | notParticipant
  | alreadyParticipant
  | pg (e : PgErr)
  | wrap (text : String) (e : Err)
  deriving DecidableEq, Repr

/-- the operation was stopped by the database rather than refused by the service -/
def Err.isDatabase : Err → Bool
  | .pg _ => true
  | .wrap _ e => e.isDatabase
  | _ => false

abbrev NoReply : Empty → Type := fun r => nomatch r

abbrev Op (α : Type) : Type := Service.Call Row NoReply Err α

def inTx {α : Type} (fn : Op α) : Op α :=
  Service.inTx (fun e => .wrap "beginning transaction" (.pg e)) .pg fn

/-- a statement whose error is passed on under a text -/
def exec (text : String) (q : Stmt) : Op (Row q) := Service.sql (fun e => .wrap text (.pg e)) q

/-- a statement whose error is looked at -/
def query (q : Stmt) : Op (Except PgErr (Row q)) := Service.query q

/-- `events.Enqueue` -/
def enqueue (key : RoutingKey) (ns : List Notification) : Op Unit :=
  if ns = [] then pure ()
  else exec ("enqueuing " ++ key.text) (.insertOutbox key ns)

structure CreateInput where
  itemName : String
  description : String
  category : String
  quantity : Int
  actorUserID : UUID
  image : Bytes
  imageType : String

structure EnsureInput where
  itemName : String
  description : String
  category : String

def storeImage (requestID : UUID) (image : Bytes) (imageType : String) : Op Unit :=
  if image.length = 0 then pure ()
  else do
    let _ ← exec "storing request image" (.setRequestImage requestID image)
    let _ ← exec "storing request image type" (.setRequestImageType requestID imageType)
    pure ()

/-- a name collision: the caller is told so if already in that request, else handed it -/
def refuseExisting (existing : PurchaseRequest) (customerID : UUID) : Op PurchaseRequest := do
  match ← query (.getParticipant existing.requestID customerID) with
  | .ok _ => throw .alreadyParticipant
  | .error .noRows => throw (.requestExists existing)
  | .error e => throw (.wrap "checking existing participation" (.pg e))

def createdNotification (inp : CreateInput) (created : PurchaseRequest) : Notification where
  userID := inp.actorUserID
  type := "REQUEST_JOINED"
  channel := ""
  title := "Your request is open"
  message := "Your request for " ++ created.itemName ++
    " is open. You are its first participant, wanting " ++ toString inp.quantity ++ "."

/-- the part of `Create` after nothing was found under the name -/
def openRequest (customerID : UUID) (inp : CreateInput) : Op PurchaseRequest := do
  let request : PurchaseRequest ← exec "creating request"
    (.createRequest inp.itemName inp.description inp.category (some customerID))
  let _ ← exec "adding creator as participant"
    (.addParticipant request.requestID customerID inp.quantity)
  storeImage request.requestID inp.image inp.imageType
  let created : PurchaseRequest ← exec "recalculating demand" (.recalculateDemand request.requestID)
  enqueue .requestJoined [createdNotification inp created]
  return created

def create (customerID : UUID) (inp : CreateInput) : Op PurchaseRequest := inTx do
  let _ ← exec "locking item name" (.lockItemName inp.itemName)
  match ← query (.findRequestByItemName inp.itemName) with
  | .ok existing => refuseExisting existing customerID
  | .error .noRows => openRequest customerID inp
  | .error e => throw (.wrap "looking for an open request for the same item" (.pg e))

/-- the part of `EnsureForItem` after nothing was found under the name -/
def openForItem (inp : EnsureInput) : Op (PurchaseRequest × Bool) := do
  let opened : PurchaseRequest ← exec "creating request"
    (.createRequest inp.itemName inp.description inp.category none)
  let request : PurchaseRequest ← exec "recalculating demand" (.recalculateDemand opened.requestID)
  return (request, true)

/-- the request of an item, and whether it had to be opened -/
def ensureForItem (inp : EnsureInput) : Op (PurchaseRequest × Bool) := inTx do
  let _ ← exec "locking item name" (.lockItemName inp.itemName)
  match ← query (.findRequestByItemName inp.itemName) with
  | .ok existing => return (existing, false)
  | .error .noRows => openForItem inp
  | .error e => throw (.wrap "looking for a request for the same item" (.pg e))

/-- `LockRequest`, with a missing row reported as such -/
def lockRequest (requestID : UUID) : Op Unit := do
  match ← query (.lockRequest requestID) with
  | .ok _ => pure ()
  | .error .noRows => throw .requestNotFound
  | .error e => throw (.wrap "locking request" (.pg e))

def setOfferCount (requestID : UUID) (totalOffers : Int) : Op PurchaseRequest := inTx do
  lockRequest requestID
  let _ ← exec "recording the offer count" (.setOfferCount requestID totalOffers)
  exec "recalculating demand" (.recalculateDemand requestID)

/-- a participant change and the demand it implies, as one unit -/
def mutateParticipants (requestID : UUID) (mutate : Op Unit)
    (notify : Option (PurchaseRequest → List Notification)) : Op PurchaseRequest := inTx do
  lockRequest requestID
  mutate
  let updated : PurchaseRequest ← exec "recalculating demand" (.recalculateDemand requestID)
  match notify with
  | none => return updated
  | some f => do
    enqueue .requestJoined (f updated)
    return updated

def joinedNotification (actorUserID : UUID) (quantity : Int) (updated : PurchaseRequest) :
    Notification where
  userID := actorUserID
  type := "REQUEST_JOINED"
  channel := ""
  title := "You joined a request"
  message := "You joined the request for " ++ updated.itemName ++ ", wanting " ++
    toString quantity ++ ". It now has " ++ toString updated.totalCustomers ++
    " customers wanting " ++ toString updated.totalQuantity ++ " in total."

/-- the unique constraint, not a prior read, refuses a double join -/
def addParticipant (requestID customerID : UUID) (quantity : Int) : Op Unit := do
  match ← query (.addParticipant requestID customerID quantity) with
  | .ok _ => pure ()
  | .error .uniqueViolation => throw .alreadyParticipant
  | .error e => throw (.pg e)

def join (requestID customerID actorUserID : UUID) (quantity : Int) : Op PurchaseRequest :=
  mutateParticipants requestID (addParticipant requestID customerID quantity)
    (some fun updated => [joinedNotification actorUserID quantity updated])

def changeQuantity (requestID customerID : UUID) (quantity : Int) : Op Unit := do
  match ← query (.updateParticipantQuantity requestID customerID quantity) with
  | .ok _ => pure ()
  | .error .noRows => throw .notParticipant
  | .error e => throw (.pg e)

def updateQuantity (requestID customerID : UUID) (quantity : Int) : Op PurchaseRequest :=
  mutateParticipants requestID (changeQuantity requestID customerID quantity) none

def removeParticipant (requestID customerID : UUID) : Op Unit := do
  match ← query (.deleteParticipant requestID customerID) with
  | .ok (affected : Nat) => if affected = 0 then throw .notParticipant else pure ()
  | .error e => throw (.pg e)

def leave (requestID customerID : UUID) : Op PurchaseRequest :=
  mutateParticipants requestID (removeParticipant requestID customerID) none

/-! ## what the handlers admit -/

structure CreateRequestBody where
  itemName : String
  description : String
  category : String
  quantity : Int

structure EnsureRequestBody where
  itemName : String
  description : String
  category : String

def CreateRequestBody.trimmed (b : CreateRequestBody) : CreateRequestBody :=
  { b with
    itemName := trimSpace b.itemName
    description := trimSpace b.description
    category := trimSpace b.category }

def EnsureRequestBody.trimmed (b : EnsureRequestBody) : EnsureRequestBody :=
  ⟨trimSpace b.itemName, trimSpace b.description, trimSpace b.category⟩

/-- the checks of a name that two handlers share; `len` counts bytes -/
def checkItemName (itemName : String) : Except String Unit :=
  if itemName = "" then .error "itemName is required"
  else if 200 < itemName.utf8ByteSize then .error "itemName must be at most 200 characters"
  else .ok ()

/-- `quantityBody.validate`, and the last check of `createRequestBody.validate` -/
def checkQuantity (quantity : Int) : Except String Unit :=
  if quantity ≤ 0 then .error "quantity must be greater than zero" else .ok ()

def CreateRequestBody.validate (b : CreateRequestBody) : Except String CreateRequestBody := do
  checkItemName b.trimmed.itemName
  checkQuantity b.trimmed.quantity
  return b.trimmed

def EnsureRequestBody.validate (b : EnsureRequestBody) : Except String EnsureRequestBody := do
  checkItemName b.trimmed.itemName
  return b.trimmed

/-! ## the calls as processes -/

inductive Invocation where
  | create (customerID : UUID) (inp : CreateInput)
  | ensureForItem (inp : EnsureInput)
  | join (requestID customerID actorUserID : UUID) (quantity : Int)
  | updateQuantity (requestID customerID : UUID) (quantity : Int)
  | leave (requestID customerID : UUID)
  | setOfferCount (requestID : UUID) (totalOffers : Int)

/-- the call comes from a body that its handler lets pass; a quantity is an int32 -/
def Invocation.Admitted : Invocation → Prop
  | .create _ inp => inp.quantity ≤ maxInt32 ∧ ∃ b : CreateRequestBody,
      b.validate = .ok ⟨inp.itemName, inp.description, inp.category, inp.quantity⟩
  | .ensureForItem inp => ∃ b : EnsureRequestBody,
      b.validate = .ok ⟨inp.itemName, inp.description, inp.category⟩
  | .join _ _ _ q => q ≤ maxInt32 ∧ checkQuantity q = .ok ()
  | .updateQuantity _ _ q => q ≤ maxInt32 ∧ checkQuantity q = .ok ()
  | .leave _ _ => True
  | .setOfferCount _ _ => True

/-- what an operation returns: a request, and whether the operation wrote it (every one does but
`EnsureForItem` on a name that exists, which answers created = false) -/
structure Answer where
  request : PurchaseRequest
  wrote : Bool
  deriving DecidableEq, Repr

def returning (op : Op PurchaseRequest) : Op Answer := do
  let request ← op
  return ⟨request, true⟩

def Invocation.op : Invocation → Op Answer
  | .create c inp => returning (Marketplace.Request.create c inp)
  | .ensureForItem inp => do
    let r ← Marketplace.Request.ensureForItem inp
    return ⟨r.1, r.2⟩
  | .join r c u q => returning (Marketplace.Request.join r c u q)
  | .updateQuantity r c q => returning (Marketplace.Request.updateQuantity r c q)
  | .leave r c => returning (Marketplace.Request.leave r c)
  | .setOfferCount r n => returning (Marketplace.Request.setOfferCount r n)

section
variable [Postgres] {P : Type} [DecidableEq P]

abbrev Config (P : Type) : Type :=
  Conf P (Cmd Stmt Empty) (Ans Row NoReply) (State P Db Write Lock Unit) (Except Err Answer)

/-- any number of calls on a database with the contents `d`, none of them begun -/
def start (calls : P → Invocation) (d : Db) : Config P where
  state := { store := ReadCommitted.Store.fresh d, ext := () }
  prog p := some (calls p).op.run

end

end Marketplace.Request
