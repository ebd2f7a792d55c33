import Marketplace.Lib.Text
import Marketplace.Events.Broker

/-!
# The wire format of an event, and what notification-service accepts of it

* `Texts`            how the uuid and date libraries write and read values (left to them);
* `Notification.json`, `Message.body`     what the relays send;
* `NotificationCreate`, `EventEnvelope`   the schemas of `schemas.py`; a value of one of them has
                     passed its checks;
* `validate_body`    what is accepted carries the event id and, in order, the notifications sent.
-/

set_option linter.unusedSectionVars false

namespace Marketplace.Notifications

open Events Text

/-- what the libraries leave to themselves: the text of a uuid and of a timestamp.  What is written
is read back. -/
class Texts where
  uuid : UUID → String
  parseUUID : String → Option UUID
  parse_uuid : ∀ u, parseUUID (uuid u) = some u
  isoformat : Time → String
  isDatetime : String → Bool
  datetime_isoformat : ∀ t, isDatetime (isoformat t) = true

/-! ## strings -/

/-- the pattern `^[A-Z][A-Z0-9_]*$` -/
def typeShape (s : String) : Bool :=
  match s.toList with
  | [] => false
  | c :: cs => c.isUpper && cs.all fun c => c.isUpper || c.isDigit || c == '_'

/-! ## the schemas -/

/-- a string that was stripped and is not blank, of at most `max` characters -/
structure Words (max : Nat) where
  val : String
  stripped : strip val = val
  nonempty : val ≠ ""
  short : val.length ≤ max
  deriving DecidableEq

/-- `Field(min_length=1, max_length=max)` and `not_blank` -/
def Words.validate (max : Nat) (s : String) : Option (Words max) :=
  if h : (1 ≤ s.length ∧ s.length ≤ max) ∧ strip s ≠ "" then
    some ⟨strip s, strip_idem s, h.2, (length_strip s).trans h.1.2⟩
  else none

inductive Channel where
  | IN_APP
  | EMAIL
  | SMS
  | PUSH
  deriving DecidableEq, Repr

/-- `Literal["IN_APP", "EMAIL", "SMS", "PUSH"]` -/
def Channel.validate : String → Option Channel
  | "IN_APP" => some .IN_APP
  | "EMAIL" => some .EMAIL
  | "SMS" => some .SMS
  | "PUSH" => some .PUSH
  | _ => none

/-- `Field(pattern=TYPE_PATTERN, max_length=64)` -/
structure TypeName where
  val : String
  shape : typeShape val = true
  short : val.length ≤ 64
  deriving DecidableEq

def TypeName.validate (s : String) : Option TypeName :=
  if h : typeShape s = true ∧ s.length ≤ 64 then some ⟨s, h.1, h.2⟩ else none

structure NotificationCreate where
  userID : UUID
  type : TypeName
  channel : Channel
  title : Words 200
  message : Words 2000
  deriving DecidableEq

def MAX_BULK : Nat := 500

/-- `Field(min_length=1, max_length=MAX_BULK)` -/
structure Bulk where
  notifications : List NotificationCreate
  pos : 1 ≤ notifications.length
  few : notifications.length ≤ MAX_BULK

/-- `Field(min_length=1, max_length=64)` -/
structure Source where
  val : String
  pos : 1 ≤ val.length
  short : val.length ≤ 64
  deriving DecidableEq

structure EventEnvelope where
  eventID : UUID
  source : Source
  bulk : Bulk

section
variable [Texts]

/-- the channel may be left out -/
def Channel.read : Option Json → Option Channel
  | none => some .IN_APP
  | some j => j.string.bind Channel.validate

def NotificationCreate.validate (j : Json) : Option NotificationCreate := do
  let fs ← j.members ["userId", "type", "channel", "title", "message"]
  let userID ← ((Json.field "userId" fs).bind Json.string).bind Texts.parseUUID
  let type ← ((Json.field "type" fs).bind Json.string).bind TypeName.validate
  let channel ← Channel.read (Json.field "channel" fs)
  let title ← ((Json.field "title" fs).bind Json.string).bind (Words.validate 200)
  let message ← ((Json.field "message" fs).bind Json.string).bind (Words.validate 2000)
  return ⟨userID, type, channel, title, message⟩

def Bulk.of (ns : List NotificationCreate) : Option Bulk :=
  if h : 1 ≤ ns.length ∧ ns.length ≤ MAX_BULK then some ⟨ns, h.1, h.2⟩ else none

def Bulk.validate (j : Json) : Option Bulk := do
  let xs ← j.list
  let ns ← xs.mapM NotificationCreate.validate
  Bulk.of ns

def Source.validate (s : String) : Option Source :=
  if h : 1 ≤ s.length ∧ s.length ≤ 64 then some ⟨s, h.1, h.2⟩ else none

/-- `occurred_at: datetime | None = None` -/
def occurredAtOk : Option Json → Bool
  | none => true
  | some .null => true
  | some (.str s) => Texts.isDatetime s
  | _ => false

def EventEnvelope.validate (j : Json) : Option EventEnvelope := do
  let fs ← j.members ["eventId", "occurredAt", "source", "notifications"]
  let eventID ← ((Json.field "eventId" fs).bind Json.string).bind Texts.parseUUID
  if !occurredAtOk (Json.field "occurredAt" fs) then none
  else do
    let source ← ((Json.field "source" fs).bind Json.string).bind Source.validate
    let bulk ← (Json.field "notifications" fs).bind Bulk.validate
    return ⟨eventID, source, bulk⟩

/-! ## what is sent -/

/-- a notification as it stands in a payload: the channel is left out when it is empty -/
def notificationJson (n : Notification) : Json :=
  .obj ([("userId", .str (Texts.uuid n.userID)), ("type", .str n.type)] ++
    (if n.channel = "" then [] else [("channel", .str n.channel)]) ++
    [("title", .str n.title), ("message", .str n.message)])

def payloadJson : Payload → Json
  | .notifications ns => .arr (ns.map notificationJson)
  | .other raw => .str raw

/-- the body of a message; `occurredAt` is the clock of the publisher -/
def messageBody (m : Message) (occurredAt : Time) : Json :=
  .obj [("eventId", .str (Texts.uuid m.eventID)), ("occurredAt", .str (Texts.isoformat occurredAt)),
    ("source", .str m.source), ("notifications", payloadJson m.notifications)]

/-! ## what is accepted is what was sent -/

/-- the channel that a notification names -/
def channelOf (n : Notification) : Option Channel :=
  if n.channel = "" then some .IN_APP else Channel.validate n.channel

/-- `c` is the notification `n`, its texts stripped -/
structure Accepts (n : Notification) (c : NotificationCreate) : Prop where
  userID : c.userID = n.userID
  type : c.type.val = n.type
  channel : channelOf n = some c.channel
  title : c.title.val = strip n.title
  message : c.message.val = strip n.message

theorem Words.validate_val {max : Nat} {s : String} {w : Words max}
    (h : Words.validate max s = some w) : w.val = strip s := by
  unfold Words.validate at h
  split at h
  · cases h
    rfl
  · cases h

theorem TypeName.validate_val {s : String} {t : TypeName} (h : TypeName.validate s = some t) :
    t.val = s := by
  unfold TypeName.validate at h
  split at h
  · cases h
    rfl
  · cases h

theorem validate_notification {n : Notification} :
    NotificationCreate.validate (notificationJson n) = do
      let type ← TypeName.validate n.type
      let channel ← channelOf n
      let title ← Words.validate 200 n.title
      let message ← Words.validate 2000 n.message
      return ⟨n.userID, type, channel, title, message⟩ := by
  by_cases hc : n.channel = ""
  · simp [NotificationCreate.validate, notificationJson, hc, Json.members, Json.field,
      Json.string, Texts.parse_uuid, channelOf, Channel.read]
  · simp [NotificationCreate.validate, notificationJson, hc, Json.members, Json.field,
      Json.string, Texts.parse_uuid, channelOf, Channel.read]

theorem accepts_of_validate {n : Notification} {c : NotificationCreate}
    (h : NotificationCreate.validate (notificationJson n) = some c) : Accepts n c := by
  rw [validate_notification] at h
  obtain ⟨ty, hty, h⟩ := Option.bind_eq_some_iff.mp h
  obtain ⟨ch, hch, h⟩ := Option.bind_eq_some_iff.mp h
  obtain ⟨ti, hti, h⟩ := Option.bind_eq_some_iff.mp h
  obtain ⟨me, hme, h⟩ := Option.bind_eq_some_iff.mp h
  cases h
  exact ⟨rfl, TypeName.validate_val hty, hch, Words.validate_val hti, Words.validate_val hme⟩

theorem accepts_all {ns : List Notification} {cs : List NotificationCreate}
    (h : (ns.map notificationJson).mapM NotificationCreate.validate = some cs) :
    List.Forall₂ Accepts ns cs := by
  induction ns generalizing cs with
  | nil =>
    rw [List.map_nil, List.mapM_nil] at h
    cases h
    exact .nil
  | cons n ns ih =>
    rw [List.map_cons, List.mapM_cons] at h
    obtain ⟨c, hc, h⟩ := Option.bind_eq_some_iff.mp h
    obtain ⟨cs', hcs, h⟩ := Option.bind_eq_some_iff.mp h
    cases h
    exact .cons (accepts_of_validate hc) (ih hcs)

theorem Bulk.of_eq {ns : List NotificationCreate} {b : Bulk} (h : Bulk.of ns = some b) :
    b.notifications = ns := by
  unfold Bulk.of at h
  split at h
  · cases h
    rfl
  · cases h

theorem validate_message (m : Message) (t : Time) :
    EventEnvelope.validate (messageBody m t) = do
      let source ← Source.validate m.source
      let bulk ← Bulk.validate (payloadJson m.notifications)
      return ⟨m.eventID, source, bulk⟩ := by
  simp [EventEnvelope.validate, messageBody, Json.members, Json.field, Json.string,
    Texts.parse_uuid, Texts.datetime_isoformat, occurredAtOk]

/-- **what is accepted is what was sent**: the event id, and in order the notifications -/
theorem validate_body {m : Message} {t : Time} {env : EventEnvelope}
    (h : EventEnvelope.validate (messageBody m t) = some env) :
    env.eventID = m.eventID ∧ ∃ ns, m.notifications = .notifications ns ∧
      List.Forall₂ Accepts ns env.bulk.notifications := by
  rw [validate_message] at h
  obtain ⟨source, -, h⟩ := Option.bind_eq_some_iff.mp h
  obtain ⟨bulk, hb, h⟩ := Option.bind_eq_some_iff.mp h
  cases h
  refine ⟨rfl, ?_⟩
  cases hm : m.notifications with
  | other raw =>
    rw [hm] at hb
    cases hb
  | notifications ns =>
    rw [hm] at hb
    obtain ⟨cs, hcs, hof⟩ := Option.bind_eq_some_iff.mp hb
    refine ⟨ns, rfl, ?_⟩
    rw [Bulk.of_eq hof]
    exact accepts_all hcs

end

end Marketplace.Notifications
