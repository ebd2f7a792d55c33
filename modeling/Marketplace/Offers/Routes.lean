import Marketplace.Offers.Service
import Marketplace.Lib.Alone

/-!
# offer-service: the routes of a seller, `routers/offers.py`

* `Principal`        the caller: the role of the token, and the seller the user resolves to;
* `Response`         what is answered, with `errors.py` for what is thrown;
* `Body`             what reading the body of a request gives.  Pydantic is left out: the terms are
                     there, or a message;
* `detect`           the media type of a picture, from its bytes;
* `serve`            the routes.  A route that reads does so at once; one that writes is its handler
                     of `Service.lean`, alone;
* `responses`        the answers to a sequence of calls.
-/

set_option linter.unusedSectionVars false

namespace Marketplace.Offers

open Interleave Service ReadCommitted

def roleCustomer : String := "CUSTOMER"
def roleSeller : String := "SELLER"
def roleAdmin : String := "ADMIN"

/-- what `resolve_seller_id` throws -/
inductive ResolveErr where
  | sellerProfileMissing
  | upstreamUnavailable
  deriving DecidableEq, Repr

structure Principal where
  role : String
  sellerID : Except ResolveErr UUID

/-! ## what is answered -/

/-- what one seller is allowed to learn about another seller's offer -/
structure CompetingOfferOut where
  offerID : UUID
  requestID : UUID
  availableQuantity : Int
  pricePerUnit : Int
  currency : String
  status : OfferStatus
  createdAt : Time
  deriving DecidableEq, Repr

def CompetingOfferOut.of (o : Offer) : CompetingOfferOut where
  offerID := o.offerID
  requestID := o.requestID
  availableQuantity := o.availableQuantity
  pricePerUnit := o.pricePerUnit
  currency := o.currency
  status := o.status
  createdAt := o.createdAt

inductive Projection where
  | offer (o : OfferOut)
  | competing (o : CompetingOfferOut)
  deriving DecidableEq, Repr

def projectForSeller (offer : Offer) (ownSellerID : UUID) : Projection :=
  if offer.sellerID = ownSellerID then .offer (.of offer) else .competing (.of offer)

inductive Content where
  | empty
  | offers (os : List Projection)
  | offer (o : Projection)
  | image (data : Bytes) (mediaType : String)
  | error (message : String)
  | conflict (message : String) (existing : OfferOut)
  deriving DecidableEq, Repr

structure Response where
  status : Nat
  headers : List (String × String)
  content : Content
  deriving DecidableEq, Repr

def errorResponse (status : Nat) (message : String) : Response := ⟨status, [], .error message⟩

def ResolveErr.response : ResolveErr → Response
  | .sellerProfileMissing => errorResponse 403 "No seller profile exists for this account"
  | .upstreamUnavailable => errorResponse 503 "A dependency is unavailable"

def Err.response : Err → Response
  | .offerNotFound => errorResponse 404 "Offer not found"
  | .notOfferOwner => errorResponse 403 "This offer belongs to another seller"
  | .offerNotPending => errorResponse 409 "Offer is no longer pending and can no longer be changed"
  | .offerAlreadyMade existing =>
    ⟨409, [], .conflict ("You already have an offer on this request. Answering the same demand " ++
      "twice is one offer changed, not two - update that one instead.") existing⟩
  | .pg _ => errorResponse 500 "Internal server error"

/-! ## bodies -/

/-- `media.MAX_BYTES` -/
def maxBytes : Nat := 1048576

/-- `media.detect` -/
def detect (data : Bytes) : Except String String :=
  if data = [] then .error "image is empty"
  else if maxBytes < data.length then
    .error ("image must be at most " ++ toString maxBytes ++ " bytes")
  else if data.take 3 = [0xff, 0xd8, 0xff] then .ok "image/jpeg"
  else if data.take 8 = [0x89, 0x50, 0x4e, 0x47, 0x0d, 0x0a, 0x1a, 0x0a] then .ok "image/png"
  else if data.take 4 = [0x52, 0x49, 0x46, 0x46] ∧
      (data.drop 8).take 4 = [0x57, 0x45, 0x42, 0x50] then .ok "image/webp"
  else .error "unsupported image format (accepted: JPEG, PNG, WebP)"

/-- the terms and the picture (`[]`: none), or why the body is refused -/
abbrev Body := Except String (Terms × Bytes)

/-- `_body_with_image` -/
def bodyWithImage (body : Body) : Except String (Terms × Bytes × String) := do
  let (payload, image) ← body
  if image = [] then return (payload, [], "")
  else return (payload, image, ← detect image)

/-! ## reading -/

def Db.listForRequest (d : Db) (r : UUID) : List Offer :=
  (d.offers.filter (·.requestID == r)).mergeSort fun a b => a.createdAt ≤ b.createdAt

def Db.listForSeller (d : Db) (s : UUID) : List Offer :=
  (d.offers.filter (·.sellerID == s)).mergeSort fun a b => b.createdAt ≤ a.createdAt

/-- `service.offer_image` -/
def Db.offerImage (d : Db) (offerID : UUID) : Except Err (Bytes × String × Time) :=
  match d.find offerID with
  | none => .error .offerNotFound
  | some offer =>
    if offer.imageType = "" then .error .offerNotFound
    else
      match d.findImage offerID with
      | none => .error .offerNotFound
      | some stored => .ok (stored.imageData, offer.imageType, stored.updatedAt)

/-! ## the routes -/

/-- `require_role` -/
def Principal.require (pr : Principal) (role : String) (f : Response) : Response :=
  if pr.role = role then f
  else errorResponse 403 ("Role " ++ pr.role ++ " may not perform this action")

def Principal.resolved (pr : Principal) (f : UUID → Response) : Response :=
  match pr.sellerID with
  | .ok s => f s
  | .error e => e.response

def myOffers (pr : Principal) (d : Db) : Response :=
  pr.require roleSeller (pr.resolved fun s =>
    ⟨200, [], .offers ((d.listForSeller s).map fun o => .offer (.of o))⟩)

def offersForRequest (pr : Principal) (requestID : UUID) (d : Db) : Response :=
  let offers := d.listForRequest requestID
  if pr.role = roleCustomer ∨ pr.role = roleAdmin then
    ⟨200, [], .offers (offers.map fun o => .offer (.of o))⟩
  else pr.resolved fun own => ⟨200, [], .offers (offers.map (projectForSeller · own))⟩

def getOfferRoute (pr : Principal) (offerID : UUID) (d : Db) : Response :=
  match d.find offerID with
  | none => Err.offerNotFound.response
  | some offer =>
    if pr.role = roleCustomer ∨ pr.role = roleAdmin then ⟨200, [], .offer (.offer (.of offer))⟩
    else pr.resolved fun own => ⟨200, [], .offer (projectForSeller offer own)⟩

/-- the picture of an offer, for those who may see it -/
def imageResponse (ifNoneMatch : Option String) (offerID : UUID) (d : Db) : Response :=
  match d.offerImage offerID with
  | .error e => e.response
  | .ok (data, imageType, updatedAt) =>
    let etag := "\"" ++ toString updatedAt ++ "\""
    let headers := [("ETag", etag), ("Cache-Control", "private, max-age=300"),
      ("X-Content-Type-Options", "nosniff")]
    if ifNoneMatch = some etag then ⟨304, headers, .empty⟩
    else ⟨200, headers, .image data imageType⟩

def offerImageRoute (pr : Principal) (offerID : UUID) (ifNoneMatch : Option String) (d : Db) :
    Response :=
  if pr.role = roleSeller then
    pr.resolved fun own =>
      match d.find offerID with
      | none => Err.offerNotFound.response
      | some offer =>
        -- a rival's picture is like no picture
        if offer.sellerID ≠ own then Err.offerNotFound.response
        else imageResponse ifNoneMatch offerID d
  else imageResponse ifNoneMatch offerID d

/-- what the machine decides at each command of a call -/
abbrev Env := Cmd Stmt Report → Choice Unit

/-- the handler of an operation, alone: what it returns, and the contents it leaves -/
def runAlone (inv : Invocation) (x : Env) (d : Db) : Option (Except Err Offer × Db) :=
  ((spec Outside.nothing).machine.alone () x inv.handler.run ⟨Store.fresh d, ()⟩).map fun r =>
    (r.1, r.2.store.committed)

/-- a route that writes -/
def writing (inv : Invocation) (x : Env) (ok : Offer → Response) (d : Db) :
    Option (Response × Db) :=
  (runAlone inv x d).map fun r =>
    (match r.1 with
      | .ok offer => ok offer
      | .error e => e.response, r.2)

def updateOfferRoute (pr : Principal) (x : Env) (offerID : UUID) (body : Body) (d : Db) :
    Option (Response × Db) :=
  if pr.role ≠ roleSeller then some (pr.require roleSeller (errorResponse 403 ""), d)
  else
    match bodyWithImage body with
    | .error message => some (errorResponse 400 message, d)
    | .ok (payload, image, imageType) =>
      match pr.sellerID with
      | .error e => some (e.response, d)
      | .ok s =>
        writing (.updateOffer offerID s payload image imageType) x
          (fun offer => ⟨200, [], .offer (.offer (.of offer))⟩) d

def cancelOfferRoute (pr : Principal) (x : Env) (offerID : UUID) (d : Db) :
    Option (Response × Db) :=
  if pr.role ≠ roleSeller then some (pr.require roleSeller (errorResponse 403 ""), d)
  else
    match pr.sellerID with
    | .error e => some (e.response, d)
    | .ok s => writing (.cancelOffer offerID s) x (fun _ => ⟨204, [], .empty⟩) d

inductive Route where
  | myOffers
  | offersForRequest (requestID : UUID)
  | getOffer (offerID : UUID)
  | offerImage (offerID : UUID) (ifNoneMatch : Option String)
  | updateOffer (offerID : UUID) (body : Body)
  | cancelOffer (offerID : UUID)

def serve (pr : Principal) (x : Env) : Route → Db → Option (Response × Db)
  | .myOffers, d => some (Offers.myOffers pr d, d)
  | .offersForRequest r, d => some (Offers.offersForRequest pr r d, d)
  | .getOffer i, d => some (getOfferRoute pr i d, d)
  | .offerImage i etag, d => some (offerImageRoute pr i etag d, d)
  | .updateOffer i body, d => updateOfferRoute pr x i body d
  | .cancelOffer i, d => cancelOfferRoute pr x i d

/-- the answers to one call after the other -/
def responses (pr : Principal) : List (Route × Env) → Db → List (Option Response)
  | [], _ => []
  | (route, x) :: calls, d =>
    match serve pr x route d with
    | none => [none]
    | some (r, e) => some r :: responses pr calls e

end Marketplace.Offers
