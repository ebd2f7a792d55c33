import Marketplace.Events.Relay
import Marketplace.Request.Service
import Marketplace.Offers.Service
import Marketplace.Admin.Service
import Marketplace.Notification.Schemas

/-!
# From the producers to the consumer: what is accepted

Three producers build the payload of an event, notification-service checks it against schemas of
its own.

* `Sound n`           the notification passes the checks of `NotificationCreate`;
* `envelopeOf k row`  what the relay of the producer `k` publishes from an outbox row;
* `Received k row`    the consumer accepts that envelope, with the event id of the row and, in order,
                      the notifications of its payload;
* `received_iff`      for sound notifications this is a matter of how many there are;
* `sound_..`          the notifications of the producers are sound, whatever they quote.
-/

set_option linter.unusedSectionVars false

namespace Marketplace.System

open Events Interleave ReadCommitted Service Text
open Relay (Producer)
open Notifications

/-! ## one notification -/

/-- the notification passes the checks of the consumer -/
structure Sound (n : Notification) : Prop where
  type : typeShape n.type = true ∧ n.type.length ≤ 64
  channel : n.channel = ""
  title : (1 ≤ n.title.length ∧ n.title.length ≤ 200) ∧ strip n.title ≠ ""
  message : (1 ≤ n.message.length ∧ n.message.length ≤ 2000) ∧ strip n.message ≠ ""

/-- `c` is the notification `n`, for the default channel, its texts stripped -/
structure Arrives (n : Notification) (c : NotificationCreate) : Prop where
  userID : c.userID = n.userID
  type : c.type.val = n.type
  channel : c.channel = .IN_APP
  title : c.title.val = strip n.title
  message : c.message.val = strip n.message

section
variable [Texts]

theorem Sound.validate {n : Notification} (h : Sound n) :
    ∃ c, NotificationCreate.validate (notificationJson n) = some c ∧ Arrives n c := by
  rw [validate_notification]
  have ht : TypeName.validate n.type = some ⟨n.type, h.type.1, h.type.2⟩ := dif_pos h.type
  have hc : channelOf n = some .IN_APP := if_pos h.channel
  have hti : Words.validate 200 n.title = some _ := dif_pos h.title
  have hme : Words.validate 2000 n.message = some _ := dif_pos h.message
  rw [ht, hc, hti, hme]
  exact ⟨_, rfl, rfl, rfl, rfl, rfl, rfl⟩

theorem validate_all {ns : List Notification} (h : ∀ n ∈ ns, Sound n) :
    ∃ cs, (ns.map notificationJson).mapM NotificationCreate.validate = some cs ∧
      List.Forall₂ Arrives ns cs := by
  induction ns with
  | nil => exact ⟨[], rfl, .nil⟩
  | cons n ns ih =>
    obtain ⟨c, hc, ha⟩ := (h n List.mem_cons_self).validate
    obtain ⟨cs, hcs, has⟩ := ih fun m hm => h m (List.mem_cons_of_mem _ hm)
    refine ⟨c :: cs, ?_, .cons ha has⟩
    rw [List.map_cons, List.mapM_cons, hc, hcs]
    rfl

/-! ## one event -/

/-- what a relay publishes from an outbox row -/
def envelopeOf (k : Producer) (row : NotificationOutbox) : Message where
  eventID := row.eventID
  source := k.source
  routingKey := row.routingKey
  notifications := row.payload

/-- the Go relay decodes the payload and sends it again -/
theorem publishEvent_envelope (k : Producer) {row : NotificationOutbox} {ns : List Notification}
    (hp : row.payload = .notifications ns) (hns : ns ≠ []) :
    row.payload.decode = .ok ns ∧ Relay.publishEvent k row.eventID row.routingKey ns =
      Relay.attempts (envelopeOf k row) "%!w(<nil>)" 2 := by
  refine ⟨by rw [hp]; rfl, ?_⟩
  unfold Relay.publishEvent envelopeOf
  rw [if_neg hns, hp]

/-- the Python relay sends it as it is -/
theorem publishEventPython_envelope (k : Producer) {row : NotificationOutbox}
    (hns : row.payload ≠ .notifications []) :
    Relay.publishEventPython k row = Relay.attemptsPython (envelopeOf k row) "publish failed" 2 :=
  if_neg hns

/-- the consumer accepts the event of the row, and reads it as it was written -/
def Received (k : Producer) (row : NotificationOutbox) : Prop :=
  ∃ ns, row.payload = .notifications ns ∧ ∀ occurredAt, ∃ env,
    EventEnvelope.validate (messageBody (envelopeOf k row) occurredAt) = some env ∧
      env.eventID = row.eventID ∧ List.Forall₂ Arrives ns env.bulk.notifications

theorem validate_source (k : Producer) : ∃ s, Source.validate k.source = some s := by
  cases k with
  | request => exact ⟨_, dif_pos (by decide)⟩
  | offer => exact ⟨_, dif_pos (by decide)⟩
  | admin => exact ⟨_, dif_pos (by decide)⟩

/-- **sound notifications are accepted unless there are too many of them** -/
theorem received_iff (k : Producer) {row : NotificationOutbox} {ns : List Notification}
    (hp : row.payload = .notifications ns) (hne : ns ≠ []) (hs : ∀ n ∈ ns, Sound n) :
    Received k row ↔ ns.length ≤ MAX_BULK := by
  obtain ⟨cs, hcs, hall⟩ := validate_all hs
  obtain ⟨src, hsrc⟩ := validate_source k
  have hlen : cs.length = ns.length := hall.length_eq.symm
  have hpos : 1 ≤ cs.length := by
    rw [hlen]
    exact List.length_pos_iff.mpr hne
  have hbulk : Bulk.validate (payloadJson row.payload) = Bulk.of cs := by
    rw [hp]
    show ((ns.map notificationJson).mapM NotificationCreate.validate).bind Bulk.of = _
    rw [hcs]
    rfl
  have hbody : ∀ t, EventEnvelope.validate (messageBody (envelopeOf k row) t) =
      (Bulk.of cs).map fun bulk => ⟨row.eventID, src, bulk⟩ := by
    intro t
    rw [validate_message]
    show (do
      let source ← Source.validate k.source
      let bulk ← Bulk.validate (payloadJson row.payload)
      pure (EventEnvelope.mk row.eventID source bulk)) = _
    rw [hsrc, hbulk]
    exact Option.map_eq_bind.symm
  constructor
  · rintro ⟨ns', -, h⟩
    obtain ⟨env, henv, -⟩ := h 0
    rw [hbody] at henv
    obtain ⟨bulk, hof, -⟩ := Option.map_eq_some_iff.mp henv
    have hfew := bulk.few
    rw [Bulk.of_eq hof, hlen] at hfew
    exact hfew
  · intro hfew
    have hof : Bulk.of cs = some ⟨cs, hpos, hlen.symm ▸ hfew⟩ := dif_pos ⟨hpos, hlen.symm ▸ hfew⟩
    refine ⟨ns, hp, fun t => ⟨⟨row.eventID, src, cs, hpos, hlen.symm ▸ hfew⟩, ?_, rfl, hall⟩⟩
    rw [hbody, hof]
    rfl

/-- so a single one always is -/
theorem received_one (k : Producer) {row : NotificationOutbox} {n : Notification}
    (hp : row.payload = .notifications [n]) (hs : Sound n) : Received k row := by
  refine (received_iff k hp (List.cons_ne_nil _ _) ?_).mpr (Nat.succ_le_succ (Nat.zero_le _))
  intro m hm
  exact List.mem_singleton.mp hm ▸ hs

end

/-! ## the texts of the producers -/

/-- a text that begins with something visible is not blank -/
theorem strip_ne {s : String} (c : Char) (hc : isSpace c = false) (h : c ∈ s.toList) :
    strip s ≠ "" := by
  intro e
  have hnil : trimBy isSpace s.toList = [] := by
    have := congrArg String.toList e
    rwa [strip, String.toList_ofList] at this
  exact Bool.false_ne_true (hc.symm.trans (trimBy_eq_nil.mp hnil c h))

/-- what a producer builds: fixed type and title, and a message that has something visible in it -/
theorem Sound.of {n : Notification} (type title : String) (c : Char) (htype : n.type = type)
    (hchannel : n.channel = "") (htitle : n.title = title)
    (htypes : typeShape type = true ∧ type.length ≤ 64)
    (htitles : (1 ≤ title.length ∧ title.length ≤ 200) ∧ strip title ≠ "")
    (hc : isSpace c = false) (hm : c ∈ n.message.toList) (hlen : n.message.length ≤ 2000) :
    Sound n where
  type := htype.symm ▸ htypes
  channel := hchannel
  title := htitle.symm ▸ htitles
  message := by
    refine ⟨⟨?_, hlen⟩, strip_ne c hc hm⟩
    rw [← String.length_toList]
    exact List.length_pos_of_mem hm

theorem sound_created {inp : Request.CreateInput} {pr : Request.PurchaseRequest}
    (hq : 0 ≤ inp.quantity ∧ inp.quantity ≤ Request.maxInt32) (hn : pr.itemName.length ≤ 200) :
    Sound (Request.createdNotification inp pr) := by
  have hd : (toString inp.quantity).length ≤ 10 :=
    length_toString_int (by decide) hq.1 (lt_of_le_of_lt hq.2 (by decide))
  refine Sound.of "REQUEST_JOINED" "Your request is open" 'Y' rfl rfl rfl (by decide) (by decide)
    (by decide) (by simp [Request.createdNotification]) ?_
  have h1 : "Your request for ".length = 17 := by decide
  have h2 : " is open. You are its first participant, wanting ".length = 49 := by decide
  have h3 : ".".length = 1 := by decide
  simp only [Request.createdNotification, String.length_append]
  omega

theorem sound_joined {actorUserID : UUID} {quantity : Int} {pr : Request.PurchaseRequest}
    (hq : 0 ≤ quantity ∧ quantity ≤ Request.maxInt32) (hn : pr.itemName.length ≤ 200)
    (hc : 0 ≤ pr.totalCustomers ∧ pr.totalCustomers ≤ Request.maxInt32)
    (ht : 0 ≤ pr.totalQuantity ∧ pr.totalQuantity ≤ Request.maxInt32 * Request.maxInt32) :
    Sound (Request.joinedNotification actorUserID quantity pr) := by
  have hdq : (toString quantity).length ≤ 10 :=
    length_toString_int (by decide) hq.1 (lt_of_le_of_lt hq.2 (by decide))
  have hdc : (toString pr.totalCustomers).length ≤ 10 :=
    length_toString_int (by decide) hc.1 (lt_of_le_of_lt hc.2 (by decide))
  have hdt : (toString pr.totalQuantity).length ≤ 19 :=
    length_toString_int (by decide) ht.1 (lt_of_le_of_lt ht.2 (by decide))
  refine Sound.of "REQUEST_JOINED" "You joined a request" 'Y' rfl rfl rfl (by decide) (by decide)
    (by decide) (by simp [Request.joinedNotification]) ?_
  have h1 : "You joined the request for ".length = 27 := by decide
  have h2 : ", wanting ".length = 10 := by decide
  have h3 : ". It now has ".length = 13 := by decide
  have h4 : " customers wanting ".length = 19 := by decide
  have h5 : " in total.".length = 10 := by decide
  simp only [Request.joinedNotification, String.length_append]
  omega

theorem sound_outcome {sellerUserID : UUID} {inp : Admin.DecideInput}
    (hr : inp.reason.length ≤ 1000) : Sound (Admin.outcomeNotification sellerUserID inp) := by
  have hreason : (if inp.reason = "" then "" else " Reason: " ++ inp.reason).length ≤ 1009 := by
    split
    · decide
    · have h1 : " Reason: ".length = 9 := by decide
      rw [String.length_append]
      omega
  cases hd : inp.decision with
  | APPROVED =>
    have h1 : "An admin approved your offer.".length = 29 := by decide
    refine Sound.of "OFFER_APPROVED" "Your offer was approved" 'A' (by simp [Admin.outcomeNotification, hd])
      rfl (by simp [Admin.outcomeNotification, hd]) (by decide) (by decide) (by decide)
      (by simp [Admin.outcomeNotification, hd]) ?_
    simp only [Admin.outcomeNotification, hd, String.length_append]
    omega
  | REJECTED =>
    have h1 : "An admin reviewed your offer and did not approve it.".length = 52 := by decide
    refine Sound.of "OFFER_REJECTED" "Your offer was not approved" 'A' (by simp [Admin.outcomeNotification, hd])
      rfl (by simp [Admin.outcomeNotification, hd]) (by decide) (by decide) (by decide)
      (by simp [Admin.outcomeNotification, hd]) ?_
    simp only [Admin.outcomeNotification, hd, String.length_append]
    omega

theorem sound_access {sellerUserID : UUID} {contactsGranted : Nat} (hn : contactsGranted < 2 ^ 63) :
    Sound (Admin.accessNotification sellerUserID contactsGranted) := by
  have hd : (toString contactsGranted).length ≤ 19 :=
    length_toString_nat (by decide) (lt_of_lt_of_le hn (by decide))
  refine Sound.of "CONTACT_ACCESS_GRANTED" "You can now contact the customers" 'Y' rfl rfl rfl
    (by decide) (by decide) (by decide) (by simp [Admin.accessNotification]) ?_
  have h1 : "You have been granted contact access to ".length = 40 := by decide
  have h2 : " customer(s) on this request.".length = 29 := by decide
  simp only [Admin.accessNotification, String.length_append]
  omega

theorem sound_newOffer {offer : Offers.Offer} {adminID : UUID}
    (hr : Offers.inRange offer.availableQuantity offer.pricePerUnit = true)
    (hv : offer.valid = true) : Sound (Offers.newOfferNotification offer adminID) := by
  simp only [Offers.inRange, Bool.and_eq_true, decide_eq_true_eq] at hr
  simp only [Offers.Offer.valid, Bool.and_eq_true, decide_eq_true_eq] at hv
  obtain ⟨⟨⟨hq, hp⟩, hcur, -⟩, -⟩ := hv
  have hdq : (toString offer.availableQuantity).length ≤ 10 :=
    length_toString_int (by decide) hq.le (lt_of_le_of_lt hr.1 (by decide))
  have hdp : (toString (offer.pricePerUnit / 100)).length ≤ 12 :=
    length_toString_int (by decide) (by omega) (by omega)
  have hdr : (toString (offer.pricePerUnit % 100)).length ≤ 2 :=
    length_toString_int (by decide) (by omega) (by omega)
  have hdot : (if offer.pricePerUnit % 100 < 10 then ".0" else ".").length ≤ 2 := by
    split <;> decide
  rw [String.length_toList] at hcur
  refine Sound.of "NEW_OFFER" "An offer is waiting for review" 'A' rfl rfl rfl
    (by decide) (by decide) (by decide) (by simp [Offers.newOfferNotification]) ?_
  have h1 : "A seller offered ".length = 17 := by decide
  have h2 : " at ".length = 4 := by decide
  have h3 : " ".length = 1 := by decide
  have h4 : " per unit.".length = 10 := by decide
  simp only [Offers.newOfferNotification, Offers.priceText, String.length_append]
  omega

end Marketplace.System
