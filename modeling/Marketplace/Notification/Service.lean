import Marketplace.Notification.Store
import Marketplace.Events.Relay

/-!
# notification-service: the consumer and the routes

* `recordEvent`      `record_event`; the order in which the flush sends its two INSERTs is left to
                     SQLAlchemy (`eventFirst`);
* `handle`           `Consumer._handle`, `consume` what it does with a body;
* `create`, `createBulk`, `markRead`   what the HTTP routes call;
* `spec`             any number of them at work.  What lies outside is the relays and the broker,
                     which hands out any message that its queue has ever accepted, again and in any
                     order.
-/

set_option linter.unusedSectionVars false

namespace Marketplace.Notifications

open Events ReadCommitted Interleave
open Service hiding begin commit remote

inductive Remote where
  /-- `_now()` -/
  | now
  | receive
  | ack (m : Message)
  | reject (m : Message)

/-- a delivery is a message and the `occurredAt` in its body -/
@[reducible]
def Reply : Remote → Type
  | .now => Time
  | .receive => Message × Time
  | .ack _ => Unit
  | .reject _ => Unit

inductive Err where
  | duplicateEvent
  | notificationNotFound
  | pg (e : PgErr)
  deriving DecidableEq, Repr

abbrev Op (α : Type) : Type := Call Row Reply Err α

def exec (q : Stmt) : Op (Row q) := sql .pg q

def remote (r : Remote) : Op (Reply r) := Service.remote r

def begin : Op Unit := Service.begin >>= orThrow .pg

def commit : Op Unit := Service.commit >>= orThrow .pg

/-! ## service.py -/

/-- `_build` and `_deliver`: storing an IN_APP notification is sending it -/
def build (payload : NotificationCreate) (sent : Option Time) : Draft where
  userID := payload.userID
  type := payload.type.val
  channel := payload.channel
  title := payload.title.val
  message := payload.message.val
  status := if sent = none then .PENDING else .SENT
  sentAt := sent

def deliver (payload : NotificationCreate) : Op Draft :=
  if payload.channel = .IN_APP then do
    let t : Time ← remote .now
    return build payload (some t)
  else return build payload none

def buildAll : List NotificationCreate → Op (List Draft)
  | [] => return []
  | c :: cs => do
    let n ← deliver c
    let ns ← buildAll cs
    return n :: ns

def refresh (notificationID : UUID) : Op NotificationRow := do
  match ← exec (.getNotification notificationID) with
  | some r => return r
  -- InvalidRequestError
  | none => throw (.pg .other)

def refreshAll : List NotificationRow → Op (List NotificationRow)
  | [] => return []
  | r :: rs => do
    let r' ← refresh r.notificationID
    let rs' ← refreshAll rs
    return r' :: rs'

/-- `create_bulk`; `create` is the case of one notification -/
def createBulk (payloads : List NotificationCreate) : Op (List NotificationRow) := do
  let drafts ← buildAll payloads
  begin
  let rows : List NotificationRow ← exec (.insertNotifications none drafts)
  commit
  refreshAll rows

/-- the flush: the two tables do not depend on each other -/
def flushEvent (eventFirst : Bool) (envelope : EventEnvelope) (drafts : List Draft) :
    Op (List NotificationRow) :=
  if eventFirst then do
    exec (.insertProcessedEvent envelope.eventID envelope.source.val)
    exec (.insertNotifications (some envelope.eventID) drafts)
  else do
    let rows : List NotificationRow ← exec (.insertNotifications (some envelope.eventID) drafts)
    exec (.insertProcessedEvent envelope.eventID envelope.source.val)
    return rows

/-- `session.commit()` of `record_event` -/
def commitEvent (eventFirst : Bool) (envelope : EventEnvelope) (drafts : List Draft) :
    Op (List NotificationRow) := do
  begin
  let rows ← flushEvent eventFirst envelope drafts
  commit
  return rows

/-- `IntegrityError` -/
def integrityError : PgErr → Bool
  | .uniqueViolation => true
  | .integrityViolation => true
  | _ => false

def recordEvent (eventFirst : Bool) (envelope : EventEnvelope) : Op (List NotificationRow) := do
  let drafts ← buildAll envelope.bulk.notifications
  match ← attempt (commitEvent eventFirst envelope drafts) with
  | .ok rows => refreshAll rows
  | .error (.pg e) =>
    if integrityError e then do
      rollback
      throw .duplicateEvent
    else throw (.pg e)
  | .error e => throw e

def markRead (notificationID userID : UUID) : Op NotificationRow := do
  begin
  match ← exec (.getNotification notificationID) with
  | none => throw .notificationNotFound
  | some r =>
    if r.draft.userID ≠ userID then throw .notificationNotFound
    else if r.draft.status = .SENT then do
      exec (.setRead notificationID)
      commit
      refresh notificationID
    else return r

/-- the session of a call: whatever is not committed when it ends is rolled back -/
def inSession {α : Type} (body : Op α) : Op α := do
  match ← attempt body with
  | .ok a => do
    rollback
    return a
  | .error e => do
    rollback
    throw e

/-! ## events.py -/

section
variable [Texts]

/-- `_handle`, once the body has been received -/
def consume (eventFirst : Bool) (m : Message) (body : Json) : Op Unit :=
  match EventEnvelope.validate body with
  | none => remote (.reject m)
  | some envelope => do
    match ← attempt (inSession (recordEvent eventFirst envelope)) with
    | .ok _ => remote (.ack m)
    | .error .duplicateEvent => remote (.ack m)
    | .error _ => remote (.reject m)

def handle (eventFirst : Bool) : Op Unit := do
  let delivery : Message × Time ← remote .receive
  consume eventFirst delivery.1 (messageBody delivery.1 delivery.2)

/-! ## the calls as processes -/

inductive Invocation where
  | handle (eventFirst : Bool)
  | create (payload : NotificationCreate)
  | createBulk (payload : Bulk)
  | markRead (notificationID userID : UUID)

def Invocation.op : Invocation → Op (List NotificationRow)
  | .handle eventFirst => do
    Notifications.handle eventFirst
    return []
  | .create payload => inSession (Notifications.createBulk [payload])
  | .createBulk payload => inSession (Notifications.createBulk payload.notifications)
  | .markRead i u => inSession do
    let r ← Notifications.markRead i u
    return [r]

/-- what the network decides: the delivery that is handed out, whether an ack arrives, and the moves
of the relays and of the broker -/
structure Net (Q : Type) where
  pick : Nat
  lost : Bool
  act : Act Q (Choice Network)

/-- the relays with the broker, and the messages that were acked -/
structure Outside (N Q : Type) where
  relays : Relay.Config N Q
  acked : List Message

def Outside.queue {N Q : Type} (o : Outside N Q) : List Message := o.relays.state.ext.queue

section
variable {N Q P : Type} [DecidableEq N] [DecidableEq Q] [DecidableEq P]

def Outside.remote (o : Outside N Q) : (r : Remote) → Choice (Net Q) → Option (Reply r × Outside N Q)
  | .now, x => some (x.now, o)
  | .receive, x => (o.queue[x.ext.pick]?).map fun m => ((m, x.now), o)
  | .ack m, x => some ((), if x.ext.lost then o else { o with acked := m :: o.acked })
  | .reject _, _ => some ((), o)

def spec (replica : Q → N) : Spec P Db Write Lock (Outside N Q) (Net Q) Row Reply where
  stmt := stmt
  note _ _ _ _ o := o
  remote _ r x o := o.remote r x
  env x o := ((Relay.spec replica).machine.step o.relays x.ext.act).map fun c =>
    { o with relays := c }
  quiet := stmt_quiet

abbrev Config (N Q P : Type) : Type :=
  Conf P (Cmd Stmt Remote) (Ans Row Reply) (State P Db Write Lock (Outside N Q))
    (Except Err (List NotificationRow))

/-- any number of producers and relays, any number of consumers and routes, and empty tables -/
def start (calls : Q → Relay.Invocation) (invs : P → Invocation) : Config N Q P where
  state := { store := Store.fresh Db.empty, ext := ⟨Relay.start calls, []⟩ }
  prog p := some (invs p).op.run

end

end

end Marketplace.Notifications
