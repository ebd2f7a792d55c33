import Marketplace.Common

/-!
# The notification outbox

The table is the same in request-service, offer-service and admin-service: an event is written
to it in the transaction that causes it, and a relay moves it to the broker.
-/

namespace Marketplace.Events

/-- routing keys of the producers -/
inductive RoutingKey where
  | requestJoined
  | offerCreated
  | offerApproved
  | offerRejected
  | contactAccessGranted
  deriving DecidableEq, Repr

def RoutingKey.text : RoutingKey → String
  | .requestJoined => "request.joined"
  | .offerCreated => "offer.created"
  | .offerApproved => "offer.approved"
  | .offerRejected => "offer.rejected"
  | .contactAccessGranted => "contact.access.granted"

/-- one notification as the producers build it; `channel` is left out of the JSON when empty -/
structure Notification where
  userID : UUID
  type : String
  channel : String
  title : String
  message : String
  deriving DecidableEq, Repr

/-- a JSONB payload: the encoding of a list of notifications, or a text that is none -/
inductive Payload where
  | notifications (ns : List Notification)
  | other (raw : String)
  deriving DecidableEq, Repr

/-- `json.Unmarshal` into a list of notifications -/
def Payload.decode : Payload → Except String (List Notification)
  | .notifications ns => .ok ns
  | .other raw => .error ("cannot unmarshal " ++ raw)

/-- a row of notification_outbox -/
structure NotificationOutbox where
  outboxID : UUID
  eventID : UUID
  routingKey : RoutingKey
  payload : Payload
  createdAt : Time
  publishedAt : Option Time
  attempts : Nat
  lastError : Option String
  deriving DecidableEq, Repr

/-- the row that `Enqueue` inserts -/
def NotificationOutbox.of (outboxID eventID : UUID) (key : RoutingKey) (ns : List Notification)
    (now : Time) : NotificationOutbox where
  outboxID := outboxID
  eventID := eventID
  routingKey := key
  payload := .notifications ns
  createdAt := now
  publishedAt := none
  attempts := 0
  lastError := none

end Marketplace.Events
