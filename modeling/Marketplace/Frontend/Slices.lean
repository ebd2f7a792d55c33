import Marketplace.Frontend.AuthSlice

/-!
# frontend: the store, `store/index.ts` and its slices

What arrives is a record with the fields that a reducer looks at; the others are kept as they came
(`rest`).  A pending action that no reducer looks at is left out.

* `RequestsSlice`, `OffersSlice`, `AdminSlice`, `NotificationsSlice`   state, actions, `reducer`;
* `RootState`, `RootAction`   the store, with the slice of the session;
* `RootState.dispatch`        an action goes to every slice, and each looks at its own.
-/

namespace Marketplace.Frontend

structure PurchaseRequest where
  requestID : Option String
  exact : Option Bool
  rest : String
  deriving DecidableEq, Repr, Inhabited

/-- `OfferOut` -/
structure Offer where
  offerID : String
  sellerID : String
  rest : String
  deriving DecidableEq, Repr, Inhabited

/-- `Offer | CompetingOffer`: a competitor's comes without its seller -/
structure AnyOffer where
  offerID : String
  sellerID : Option String
  rest : String
  deriving DecidableEq, Repr, Inhabited

def Offer.any (o : Offer) : AnyOffer := ⟨o.offerID, some o.sellerID, o.rest⟩

structure PendingOffer where
  offerID : Option String
  rest : String
  deriving DecidableEq, Repr, Inhabited

structure ContactAccess where
  accessID : Option String
  status : Option String
  rest : String
  deriving DecidableEq, Repr, Inhabited

structure Contact where
  customerID : Option String
  firstName : Option String
  lastName : Option String
  phoneNumber : Option String
  deriving DecidableEq, Repr, Inhabited

structure ContactList where
  contacts : Option (List Contact)
  requestID : Option String
  deriving DecidableEq, Repr, Inhabited

structure Notification where
  notificationID : String
  rest : String
  deriving DecidableEq, Repr, Inhabited

/-- the message of a rejected thunk -/
def orSomethingWrong (message : Option String) : String := message.getD "Something went wrong"

/-! ## requests -/

namespace RequestsSlice

structure State where
  browse : List PurchaseRequest
  mine : List PurchaseRequest
  current : Option PurchaseRequest
  similar : List PurchaseRequest
  loading : Bool
  error : Option String
  deriving DecidableEq, Repr

def initialState : State := ⟨[], [], none, [], false, none⟩

structure CreateRejection where
  message : String
  existing : Option PurchaseRequest
  deriving DecidableEq, Repr

inductive Action where
  | errorCleared
  | similarCleared
  | fetchPending
  | fetchFulfilled (payload : List PurchaseRequest)
  | fetchMineFulfilled (payload : List PurchaseRequest)
  | fetchOneFulfilled (payload : PurchaseRequest)
  | fetchSimilarFulfilled (payload : List PurchaseRequest)
  | createFulfilled (payload : PurchaseRequest)
  | createRejected (payload : Option CreateRejection)
  | joinFulfilled (payload : PurchaseRequest)
  | updateQuantityFulfilled (payload : PurchaseRequest)
  /-- the id is that of the call -/
  | leaveFulfilled (id : String)
  /-- of any other thunk -/
  | rejected (payload : Option String)
  deriving DecidableEq, Repr

def replace (updated : PurchaseRequest) (list : List PurchaseRequest) : List PurchaseRequest :=
  list.map fun r => if r.requestID = updated.requestID then updated else r

/-- the matcher of `joinRequest` and `updateQuantity` -/
def State.keepInStep (s : State) (updated : PurchaseRequest) : State :=
  { s with
    current := some updated
    browse := replace updated s.browse
    mine := replace updated s.mine
    error := none }

/-- the matcher of `rejected` -/
def State.failed (s : State) (message : Option String) : State :=
  { s with loading := false, error := some (orSomethingWrong message) }

def reducer (s : State) : Action → State
  | .errorCleared => { s with error := none }
  | .similarCleared => { s with similar := [] }
  | .fetchPending => { s with loading := true }
  | .fetchFulfilled payload => { s with loading := false, browse := payload }
  | .fetchMineFulfilled payload => { s with mine := payload }
  | .fetchOneFulfilled payload => { s with current := some payload }
  | .fetchSimilarFulfilled payload => { s with similar := payload }
  | .createFulfilled payload => { s with mine := payload :: s.mine, similar := [], error := none }
  | .createRejected payload =>
    let shown :=
      match payload.bind (·.existing) with
      | some existing => { s with similar := [{ existing with exact := some true }] }
      | none => s
    shown.failed (payload.map (·.message))
  | .joinFulfilled joined =>
    let added :=
      if s.mine.any (·.requestID = joined.requestID) then s
      else { s with mine := joined :: s.mine }
    added.keepInStep joined
  | .updateQuantityFulfilled updated => s.keepInStep updated
  | .leaveFulfilled id => { s with mine := s.mine.filter (·.requestID ≠ some id) }
  | .rejected payload => s.failed payload

end RequestsSlice

/-! ## offers -/

namespace OffersSlice

structure State where
  mine : List Offer
  forRequest : List AnyOffer
  loading : Bool
  error : Option String
  deriving DecidableEq, Repr

def initialState : State := ⟨[], [], false, none⟩

inductive Action where
  | fetchMinePending
  | fetchMineFulfilled (payload : List Offer)
  | fetchForRequestFulfilled (payload : List AnyOffer)
  | createFulfilled (payload : Offer)
  | updateFulfilled (payload : Offer)
  | cancelFulfilled (offerID : String)
  /-- of any thunk: the message of the payload -/
  | rejected (message : Option String)
  deriving DecidableEq, Repr

def reducer (s : State) : Action → State
  | .fetchMinePending => { s with loading := true }
  | .fetchMineFulfilled payload => { s with loading := false, mine := payload }
  | .fetchForRequestFulfilled payload => { s with forRequest := payload }
  | .createFulfilled payload => { s with mine := payload :: s.mine, error := none }
  | .updateFulfilled payload =>
    { s with
      mine := s.mine.map fun offer => if offer.offerID = payload.offerID then payload else offer
      forRequest := s.forRequest.map fun offer =>
        if offer.offerID = payload.offerID then payload.any else offer
      error := none }
  | .cancelFulfilled offerID =>
    { s with
      mine := s.mine.filter (·.offerID ≠ offerID)
      forRequest := s.forRequest.filter (·.offerID ≠ offerID)
      error := none }
  | .rejected message => { s with loading := false, error := some (orSomethingWrong message) }

end OffersSlice

/-! ## admin -/

namespace AdminSlice

structure State where
  pending : List PendingOffer
  grants : List ContactAccess
  contacts : Option ContactList
  loading : Bool
  error : Option String
  deriving DecidableEq, Repr

def initialState : State := ⟨[], [], none, false, none⟩

inductive Action where
  | contactsCleared
  | fetchPendingPending
  | fetchPendingFulfilled (payload : List PendingOffer)
  /-- the reducer looks at the id alone, which is that of the call -/
  | decideFulfilled (offerID : String)
  | fetchGrantsFulfilled (payload : List ContactAccess)
  | revokeFulfilled (accessID : String)
  | fetchContactsFulfilled (payload : ContactList)
  | rejected (payload : Option String)
  deriving DecidableEq, Repr

def reducer (s : State) : Action → State
  | .contactsCleared => { s with contacts := none, error := none }
  | .fetchPendingPending => { s with loading := true }
  | .fetchPendingFulfilled payload => { s with loading := false, pending := payload }
  | .decideFulfilled offerID =>
    { s with pending := s.pending.filter (·.offerID ≠ some offerID), error := none }
  | .fetchGrantsFulfilled payload => { s with grants := payload }
  | .revokeFulfilled accessID =>
    { s with
      grants := s.grants.map fun g =>
        if g.accessID = some accessID then { g with status := some "REVOKED" } else g }
  | .fetchContactsFulfilled payload => { s with contacts := some payload, error := none }
  | .rejected payload => { s with loading := false, error := some (orSomethingWrong payload) }

end AdminSlice

/-! ## notifications -/

namespace NotificationsSlice

structure State where
  items : List Notification
  unread : Int
  loading : Bool
  deriving DecidableEq, Repr

def initialState : State := ⟨[], 0, false⟩

inductive Action where
  | fetchPending
  | fetchFulfilled (payload : List Notification)
  | unreadFulfilled (unreadCount : Option Int)
  | markReadFulfilled (payload : Notification)
  deriving DecidableEq, Repr

def reducer (s : State) : Action → State
  | .fetchPending => { s with loading := true }
  | .fetchFulfilled payload => { s with loading := false, items := payload }
  | .unreadFulfilled unreadCount => { s with unread := unreadCount.getD 0 }
  | .markReadFulfilled payload =>
    { s with
      items := s.items.map fun n => if n.notificationID = payload.notificationID then payload else n
      unread := max 0 (s.unread - 1) }

end NotificationsSlice

/-! ## the store -/

structure RootState where
  auth : AuthState
  requests : RequestsSlice.State
  offers : OffersSlice.State
  admin : AdminSlice.State
  notifications : NotificationsSlice.State
  deriving DecidableEq, Repr

/-- the page is loaded -/
def RootState.initial (stored : Option StoredSession) : RootState where
  auth := initialState stored
  requests := RequestsSlice.initialState
  offers := OffersSlice.initialState
  admin := AdminSlice.initialState
  notifications := NotificationsSlice.initialState

inductive RootAction where
  | auth (a : Action)
  | requests (a : RequestsSlice.Action)
  | offers (a : OffersSlice.Action)
  | admin (a : AdminSlice.Action)
  | notifications (a : NotificationsSlice.Action)
  deriving DecidableEq, Repr

/-- where a reducer throws the state stays as it was -/
def RootState.dispatch (now : Millis) (s : RootState) : RootAction → RootState
  | .auth a =>
    match reducer now s.auth a with
    | some r => { s with auth := r.state }
    | none => s
  | .requests a => { s with requests := RequestsSlice.reducer s.requests a }
  | .offers a => { s with offers := OffersSlice.reducer s.offers a }
  | .admin a => { s with admin := AdminSlice.reducer s.admin a }
  | .notifications a => { s with notifications := NotificationsSlice.reducer s.notifications a }

end Marketplace.Frontend
