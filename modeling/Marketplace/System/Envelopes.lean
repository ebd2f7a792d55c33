import Marketplace.Lib.Discipline
import Marketplace.Request.Announce
import Marketplace.Admin.Lookups
import Marketplace.System.Acceptance
import Marketplace.Notification.ExactlyOnce

/-!
# From the producers to the consumer: is every event accepted?

* `requestDiscipline`, `adminDiscipline`, `offerDiscipline`   what the producers write: one
                      notification for one user, but in `create_offer` one for every admin;
* `request_op`, `admin_op`, `offer_handler`   their calls keep to it;
* `events_received`   so every event is received, but for a `create_offer` with too many admins.
-/

set_option linter.unusedSectionVars false

namespace Marketplace.System

open Events Interleave ReadCommitted Service Text
open Notifications

/-! ## what request-service writes -/

section
variable [Request.Postgres] [Texts] {P : Type} [DecidableEq P]

/-- a quantity as the handlers let it pass -/
def Quantity (q : Int) : Prop := 0 ≤ q ∧ q ≤ Request.maxInt32

/-- the columns that a message quotes are of limited size -/
structure Bounded (d : Request.Db) : Prop where
  names : ∀ pr ∈ d.requests, pr.itemName.length ≤ 200
  quantities : ∀ rp ∈ d.participants, Quantity rp.quantity

/-- a row that a message may quote -/
structure Quotable (pr : Request.PurchaseRequest) : Prop where
  name : pr.itemName.length ≤ 200
  customers : 0 ≤ pr.totalCustomers ∧ pr.totalCustomers ≤ Request.maxInt32
  quantity : 0 ≤ pr.totalQuantity ∧ pr.totalQuantity ≤ Request.maxInt32 * Request.maxInt32

def requestWrites : Request.Write → Prop
  | .insertRequest pr => pr.itemName.length ≤ 200
  | .insertParticipant rp => Quantity rp.quantity
  | .setQuantity _ _ q => Quantity q
  | .insertOutbox row => Received .request row
  | _ => True

def requestSends : Request.Stmt → Prop
  | .createRequest n _ _ _ => n.length ≤ 200
  | .addParticipant _ _ q => Quantity q
  | .updateParticipantQuantity _ _ q => Quantity q
  | .insertOutbox _ ns => ∃ n, ns = [n] ∧ Sound n
  | _ => True

def requestGets : (q : Request.Stmt) → Request.Row q → Prop
  | .recalculateDemand _, pr => Quotable pr
  | _, _ => True

theorem Bounded.updateRequest {d : Request.Db} (h : Bounded d) (r : UUID)
    (f : Request.PurchaseRequest → Request.PurchaseRequest)
    (hf : ∀ pr, (f pr).itemName = pr.itemName) : Bounded (d.updateRequest r f) := by
  refine ⟨fun pr hpr => ?_, h.quantities⟩
  obtain ⟨pr', hm, rfl⟩ := Table.mem_updateWhere.mp hpr
  split
  · rw [hf]
    exact h.names pr' hm
  · exact h.names pr' hm

theorem Bounded.apply {d : Request.Db} {w : Request.Write} (h : Bounded d) (hw : requestWrites w) :
    Bounded (w.apply d) := by
  cases w with
  | insertRequest pr =>
    refine ⟨fun pr' hpr => ?_, h.quantities⟩
    rcases List.mem_append.mp hpr with hpr | hpr
    · exact h.names pr' hpr
    · exact List.mem_singleton.mp hpr ▸ hw
  | setDemand r n q now => exact h.updateRequest r _ (by intro _; rfl)
  | setTotalOffers r n => exact h.updateRequest r _ (by intro _; rfl)
  | setImageType r ty now => exact h.updateRequest r _ (by intro _; rfl)
  | insertParticipant rp =>
    refine ⟨h.names, fun rp' hrp => ?_⟩
    rcases List.mem_append.mp hrp with hrp | hrp
    · exact h.quantities rp' hrp
    · exact List.mem_singleton.mp hrp ▸ hw
  | setQuantity r c q =>
    refine ⟨h.names, fun rp' hrp => ?_⟩
    obtain ⟨rp, hm, rfl⟩ := Table.mem_updateWhere.mp hrp
    split
    · exact hw
    · exact h.quantities rp hm
  | deleteParticipant r c =>
    exact ⟨h.names, fun rp hrp => h.quantities rp (List.mem_filter.mp hrp).1⟩
  | setImage ri => exact ⟨h.names, h.quantities⟩
  | insertOutbox row => exact ⟨h.names, h.quantities⟩

/-- the sum of quantities is within the number of them times the largest one -/
theorem sum_bounds (l : List Int) (h : ∀ q ∈ l, Quantity q) :
    0 ≤ l.sum ∧ l.sum ≤ l.length * Request.maxInt32 := by
  induction l with
  | nil => simp
  | cons q l ih =>
    obtain ⟨h1, h2⟩ := ih fun q' hq => h q' (List.mem_cons_of_mem _ hq)
    obtain ⟨h3, h4⟩ := h q List.mem_cons_self
    rw [List.sum_cons, List.length_cons]
    push_cast
    constructor
    · omega
    · rw [Int.add_mul]
      omega

/-- the row that the recount answers may be quoted -/
theorem quotable_recount {d : Request.Db} (h : Bounded d) {r : UUID} {now : Time}
    {pr : Request.PurchaseRequest} (hpr : d.findRequest r = some pr)
    (hc : d.countParticipants r ≤ Request.maxInt32) :
    Quotable (pr.withDemand (d.countParticipants r) (d.sumQuantity r) now) := by
  have hn : 0 ≤ d.countParticipants r := Int.natCast_nonneg _
  obtain ⟨h0, h1⟩ := sum_bounds ((d.participantsOf r).map (·.quantity)) fun q hq => by
    obtain ⟨rp, hrp, rfl⟩ := List.mem_map.mp hq
    exact h.quantities rp (List.mem_filter.mp hrp).1
  refine ⟨h.names pr (List.mem_of_find?_eq_some hpr), ⟨hn, hc⟩, h0, h1.trans ?_⟩
  rw [List.length_map]
  exact Int.mul_le_mul_of_nonneg_right hc (by decide)

/-- **request-service writes only events that are received** -/
def requestDiscipline : Discipline (Request.spec (P := P)) where
  Fine := Bounded
  Writes _ := requestWrites
  Sends _ := requestSends
  Gets _ := requestGets
  Hears _ _ _ := True
  apply h hw := h.apply hw
  remote _ := trivial
  stmt {p q x s a t} hsend hfine h := by
    have h : Request.stmt p q x s = some (a, t) := h
    cases a with
    | error e =>
      obtain rfl := Request.stmt_error h
      exact ⟨(fun r hr => nomatch hr), .inl rfl⟩
    | ok a =>
      -- a write in order, and nothing said of the answer
      have writes : ∀ {w}, s.put p w = some t → requestWrites w → t.pending p = s.pending p ∨
          ∃ w, requestWrites w ∧ t.pending p = s.pending p ++ [w] :=
        fun hp hw => .inr ⟨_, hw, put_pending hp⟩
      have locks : ∀ {l}, s.acquire p l = some t → t.pending p = s.pending p :=
        fun ha => by rw [acquire_eq ha]
      cases q with
      | lockItemName n => exact ⟨fun _ _ => trivial, .inl (locks (Request.lockItemName_ok h))⟩
      | findRequestByItemName n =>
        obtain ⟨rfl, -⟩ := Request.findRequestByItemName_ok h
        exact ⟨fun _ _ => trivial, .inl rfl⟩
      | createRequest n d c b =>
        obtain ⟨ha, -, hp⟩ := Request.createRequest_ok h
        refine ⟨fun _ _ => trivial, writes hp ?_⟩
        rw [ha]
        exact hsend
      | addParticipant r c n =>
        refine ⟨fun _ _ => trivial, writes (Request.addParticipant_ok h).2 ?_⟩
        show Quantity a.quantity
        rw [Request.addParticipant_quantity h]
        exact hsend
      | getParticipant r c =>
        obtain ⟨rfl, -⟩ := Request.getParticipant_ok h
        exact ⟨fun _ _ => trivial, .inl rfl⟩
      | updateParticipantQuantity r c n =>
        exact ⟨fun _ _ => trivial, writes (Request.updateParticipantQuantity_ok h) hsend⟩
      | deleteParticipant r c =>
        refine ⟨fun _ _ => trivial, ?_⟩
        rcases Request.deleteParticipant_ok h with ⟨-, rfl⟩ | hp
        · exact .inl rfl
        · exact writes hp trivial
      | lockRequest r => exact ⟨fun _ _ => trivial, .inl (locks (Request.lockRequest_ok h))⟩
      | recalculateDemand r =>
        obtain ⟨pr, hpr, ha, hp⟩ := Request.recalculateDemand_ok h
        refine ⟨fun b hb => ?_, writes hp trivial⟩
        obtain rfl := Except.ok.inj hb
        show Quotable a
        rw [ha]
        exact quotable_recount hfine hpr (Request.recalculateDemand_count h)
      | setOfferCount r n => exact ⟨fun _ _ => trivial, writes (Request.setOfferCount_ok h).2 trivial⟩
      | setRequestImage r data =>
        exact ⟨fun _ _ => trivial, writes (Request.setRequestImage_ok h) trivial⟩
      | setRequestImageType r ty =>
        exact ⟨fun _ _ => trivial, writes (Request.setRequestImageType_ok h) trivial⟩
      | insertOutbox key ns =>
        obtain ⟨n, rfl, hn⟩ := hsend
        exact ⟨fun _ _ => trivial, writes (Request.insertOutbox_ok h) (received_one _ rfl hn)⟩

section
variable {p : P}

/-- a statement whose error is passed on, and its answer -/
theorem request_exec {text : String} {q : Request.Stmt} (h : requestSends q) :
    requestDiscipline.Returns p (requestGets q) (Request.exec text q) := .sql h

/-- a statement whose answer is of no account -/
theorem request_query {q : Request.Stmt} (h : requestSends q) :
    requestDiscipline.Returns p (fun _ => True) (Request.query q) :=
  (Discipline.Returns.query h).mono fun _ _ => trivial

theorem request_enqueue {key : RoutingKey} {n : Notification} (h : Sound n) :
    requestDiscipline.Returns p (fun _ => True) (Request.enqueue key [n]) := by
  unfold Request.enqueue
  rw [if_neg (List.cons_ne_nil _ _)]
  exact (request_exec (q := .insertOutbox key [n]) ⟨n, rfl, h⟩).mono fun _ _ => trivial

theorem request_storeImage {r : UUID} {image : Bytes} {imageType : String} :
    requestDiscipline.Returns p (fun _ => True) (Request.storeImage r image imageType) := by
  unfold Request.storeImage
  split
  · exact .pure trivial
  · exact .bind (request_exec trivial) fun _ _ => .bind (request_exec trivial) fun _ _ => .pure trivial

theorem request_lockRequest {r : UUID} :
    requestDiscipline.Returns p (fun _ => True) (Request.lockRequest r) := by
  refine .bind (request_query trivial) fun a _ => ?_
  match a with
  | .ok _ => exact .pure trivial
  | .error e => cases e <;> exact .throw _

theorem checkItemName_ok {n : String} (h : Request.checkItemName n = .ok ()) : n.length ≤ 200 := by
  unfold Request.checkItemName at h
  split at h
  · cases h
  · split at h
    · cases h
    · have := length_le_utf8ByteSize n
      omega

theorem checkQuantity_ok {q : Int} (h : Request.checkQuantity q = .ok ()) : 0 ≤ q := by
  unfold Request.checkQuantity at h
  split at h
  · cases h
  · omega

theorem admitted_create {customerID : UUID} {inp : Request.CreateInput}
    (h : (Request.Invocation.create customerID inp).Admitted) :
    inp.itemName.length ≤ 200 ∧ Quantity inp.quantity := by
  obtain ⟨hmax, b, hb⟩ := h
  unfold Request.CreateRequestBody.validate at hb
  cases hn : Request.checkItemName b.trimmed.itemName with
  | error e =>
    rw [hn] at hb
    cases hb
  | ok _ =>
    cases hq : Request.checkQuantity b.trimmed.quantity with
    | error e =>
      rw [hn, hq] at hb
      cases hb
    | ok _ =>
      rw [hn, hq] at hb
      have he : b.trimmed = ⟨inp.itemName, inp.description, inp.category, inp.quantity⟩ :=
        Except.ok.inj hb
      rw [he] at hn hq
      exact ⟨checkItemName_ok hn, checkQuantity_ok hq, hmax⟩

theorem admitted_ensure {inp : Request.EnsureInput}
    (h : (Request.Invocation.ensureForItem inp).Admitted) : inp.itemName.length ≤ 200 := by
  obtain ⟨b, hb⟩ := h
  unfold Request.EnsureRequestBody.validate at hb
  cases hn : Request.checkItemName b.trimmed.itemName with
  | error e =>
    rw [hn] at hb
    cases hb
  | ok _ =>
    rw [hn] at hb
    have he : b.trimmed = ⟨inp.itemName, inp.description, inp.category⟩ := Except.ok.inj hb
    rw [he] at hn
    exact checkItemName_ok hn

theorem request_create {customerID : UUID} {inp : Request.CreateInput}
    (hn : inp.itemName.length ≤ 200) (hq : Quantity inp.quantity) :
    requestDiscipline.Returns p (fun _ => True) (Request.create customerID inp) := by
  refine .inTx (.bind (request_exec trivial) fun _ _ => .bind (request_query trivial) fun a _ => ?_)
  match a with
  | .ok existing =>
    refine .bind (request_query trivial) fun b _ => ?_
    match b with
    | .ok _ => exact .throw _
    | .error e => cases e <;> exact .throw _
  | .error .noRows =>
    refine .bind (request_exec hn) fun request _ => .bind (request_exec hq) fun _ _ => ?_
    refine .bind request_storeImage fun _ _ => .bind (request_exec trivial) fun created hc => ?_
    have hc : Quotable created := hc
    exact .bind (request_enqueue (sound_created hq hc.name)) fun _ _ => .pure trivial
  | .error .uniqueViolation => exact .throw _
  | .error .integrityViolation => exact .throw _
  | .error .other => exact .throw _

theorem request_ensureForItem {inp : Request.EnsureInput} (hn : inp.itemName.length ≤ 200) :
    requestDiscipline.Returns p (fun _ => True) (Request.ensureForItem inp) := by
  refine .inTx (.bind (request_exec trivial) fun _ _ => .bind (request_query trivial) fun a _ => ?_)
  match a with
  | .ok existing => exact .pure trivial
  | .error .noRows =>
    exact .bind (request_exec hn) fun _ _ => .bind (request_exec trivial) fun _ _ => .pure trivial
  | .error .uniqueViolation => exact .throw _
  | .error .integrityViolation => exact .throw _
  | .error .other => exact .throw _

theorem request_mutateParticipants {r : UUID} {mutate : Request.Op Unit}
    {notify : Option (Request.PurchaseRequest → List Notification)}
    (hm : requestDiscipline.Returns p (fun _ => True) mutate)
    (hn : ∀ f, notify = some f → ∀ pr, Quotable pr → ∃ n, f pr = [n] ∧ Sound n) :
    requestDiscipline.Returns p (fun _ => True) (Request.mutateParticipants r mutate notify) := by
  refine .inTx (.bind request_lockRequest fun _ _ => 
    .bind hm fun _ _ =>
    .bind (request_exec trivial) fun updated hu => ?_)
  cases notify with
  | none => exact .pure trivial
  | some f =>
    obtain ⟨n, hf, hs⟩ := hn f rfl updated hu
    refine .bind (Φ := fun _ => True) ?_ fun _ _ => .pure trivial
    rw [hf]
    exact request_enqueue hs

theorem request_addParticipant {r c : UUID} {q : Int} (hq : Quantity q) :
    requestDiscipline.Returns p (fun _ => True) (Request.addParticipant r c q) := by
  refine .bind (request_query hq) fun a _ => ?_
  match a with
  | .ok _ => exact .pure trivial
  | .error e => cases e <;> exact .throw _

theorem request_changeQuantity {r c : UUID} {q : Int} (hq : Quantity q) :
    requestDiscipline.Returns p (fun _ => True) (Request.changeQuantity r c q) := by
  refine .bind (request_query hq) fun a _ => ?_
  match a with
  | .ok _ => exact .pure trivial
  | .error e => cases e <;> exact .throw _

theorem request_removeParticipant {r c : UUID} :
    requestDiscipline.Returns p (fun _ => True) (Request.removeParticipant r c) := by
  refine .bind (request_query trivial) fun a _ => ?_
  match a with
  | .ok 0 => exact .throw _
  | .ok (_ + 1) => exact .pure trivial
  | .error e => exact .throw _

/-- **an admitted call keeps the discipline** -/
theorem request_op {inv : Request.Invocation} (h : inv.Admitted) :
    requestDiscipline.Returns p (fun _ => True) inv.op := by
  cases inv with
  | create customerID inp =>
    obtain ⟨hn, hq⟩ := admitted_create h
    exact .bind (request_create hn hq) fun _ _ => .pure trivial
  | ensureForItem inp =>
    exact .bind (request_ensureForItem (admitted_ensure h)) fun _ _ => .pure trivial
  | join r c u q =>
    have hq : Quantity q := ⟨checkQuantity_ok h.2, h.1⟩
    refine .bind (request_mutateParticipants (request_addParticipant hq) fun f hf pr hpr => ?_)
      fun _ _ => .pure trivial
    obtain rfl := Option.some.inj hf
    exact ⟨_, rfl, sound_joined hq hpr.name hpr.customers hpr.quantity⟩
  | updateQuantity r c q =>
    have hq : Quantity q := ⟨checkQuantity_ok h.2, h.1⟩
    exact .bind (request_mutateParticipants (request_changeQuantity hq) fun f hf => by cases hf)
      fun _ _ => .pure trivial
  | leave r c =>
    exact .bind (request_mutateParticipants request_removeParticipant fun f hf => by cases hf)
      fun _ _ => .pure trivial
  | setOfferCount r n =>
    refine .bind (Φ := fun _ => True) (.inTx (.bind request_lockRequest fun _ _ =>
      .bind (request_exec trivial) fun _ _ => ?_)) fun _ _ => .pure trivial
    exact (request_exec (q := .recalculateDemand r) trivial).mono fun _ _ => trivial

end

end

/-! ## what admin-service writes -/

section
variable [Texts] {P E Y : Type} [DecidableEq P] {out : Admin.Outside P E Y}

def adminWrites : Admin.Write → Prop
  | .insertOutbox row => Received .admin row
  | _ => True

def adminSends : Admin.Stmt → Prop
  | .insertOutbox _ ns => ∃ n, ns = [n] ∧ Sound n
  | _ => True

/-- the length of a slice is an int -/
def adminHears : (r : Admin.Remote) → Admin.Reply r → Prop
  | .participantCustomerIDs _, a => ∀ ids, a = .ok ids → ids.length < 2 ^ 63
  | _, _ => True

/-- **admin-service writes only events that are received** -/
def adminDiscipline (hout : ∀ {p r x e a e'}, out.remote p r x e = some (a, e') → adminHears r a) :
    Discipline (Admin.spec out) where
  Fine _ := True
  Writes _ := adminWrites
  Sends _ := adminSends
  Gets _ _ _ := True
  Hears _ := adminHears
  apply _ _ := trivial
  remote {p r x e a e'} h := by
    obtain ⟨b, hb, he⟩ := Option.map_eq_some_iff.mp h
    cases he
    exact hout hb
  stmt {p q x s a t} hsend _ h := by
    have h : Admin.stmt p q x s = some (a, t) := h
    refine ⟨fun _ _ => trivial, ?_⟩
    have writes : ∀ {w}, s.put p w = some t → adminWrites w → t.pending p = s.pending p ∨
        ∃ w, adminWrites w ∧ t.pending p = s.pending p ++ [w] :=
      fun hp hw => .inr ⟨_, hw, put_pending hp⟩
    cases a with
    | error e =>
      obtain rfl := Admin.stmt_error h
      exact .inl rfl
    | ok a =>
      cases q with
      | recordDecision o u dec reason => exact writes (Admin.recordDecision_ok h).2.2.2 trivial
      | grantContactAccess sl c r o u =>
        exact writes (Admin.grantContactAccess_ok h).2.2.2.2.2.2 trivial
      | getContactAccess i =>
        simp only [Admin.stmt] at h
        split at h
        · cases h
          exact .inl rfl
        · exact absurd (Admin.failing_eq h).1 (by simp)
      | listGrantedForSellerRequest sl r =>
        cases h
        exact .inl rfl
      | countEffectiveAccess sl c r =>
        cases h
        exact .inl rfl
      | revokeContactAccess i =>
        obtain ⟨row, -, -, -, hp⟩ := Admin.revokeContactAccess_ok h
        exact writes hp trivial
      | insertOutbox key ns =>
        obtain ⟨n, rfl, hn⟩ := hsend
        exact writes (Admin.insertOutbox_ok h) (received_one _ rfl hn)

section
variable {p : P} {hout : ∀ {p r x e a e'}, out.remote p r x e = some (a, e') → adminHears r a}

theorem admin_query {q : Admin.Stmt} (h : adminSends q) :
    (adminDiscipline hout).Returns p (fun _ => True) (Admin.query q) :=
  (Discipline.Returns.query h).mono fun _ _ => trivial

theorem admin_enqueue {key : RoutingKey} {n : Notification} (h : Sound n) :
    (adminDiscipline hout).Returns p (fun _ => True) (Admin.enqueue key [n]) := by
  unfold Admin.enqueue
  rw [if_neg (List.cons_ne_nil _ _)]
  exact .sql (q := Admin.Stmt.insertOutbox key [n]) ⟨n, rfl, h⟩

theorem admin_grantAll {inp : Admin.DecideInput} {offer : Offers.OfferOut} (ids : List UUID) :
    (adminDiscipline hout).Returns p (fun _ => True) (Admin.grantAll inp offer ids) := by
  induction ids with
  | nil => exact .pure trivial
  | cons c ids ih =>
    refine .bind (Φ := fun _ => True) ?_ fun _ _ => ih
    exact .sql (q := Admin.Stmt.grantContactAccess offer.sellerID c offer.requestID offer.offerID
      inp.adminUserID) trivial

theorem admin_recordDecision {inp : Admin.DecideInput} :
    (adminDiscipline hout).Returns p (fun _ => True) (Admin.recordDecision inp) := by
  refine .bind (admin_query trivial) fun a _ => ?_
  match a with
  | .ok _ => exact .pure trivial
  | .error e => cases e <;> exact .throw _

theorem admin_setStatus {inp : Admin.DecideInput} :
    (adminDiscipline hout).Returns p (fun _ => True) (Admin.setStatus inp) := by
  refine .bind (.remote (r := Admin.Remote.sendStatus inp.offerID inp.decision)) fun _ _ =>
    .bind (.remote (r := Admin.Remote.awaitStatus inp.offerID inp.decision)) fun a _ => ?_
  match a with
  | .ok _ => exact .pure trivial
  | .error e => cases e <;> exact .throw _

theorem reason_short {inp : Admin.DecideInput} (h : inp.Admitted) : inp.reason.length ≤ 1000 := by
  rcases h with h | ⟨reason, h⟩
  · rw [h]
    decide
  · unfold Admin.validateReason at h
    split at h
    · cases h
    · rename_i hlen
      rw [← Except.ok.inj h]
      have := length_le_utf8ByteSize (trimSpace reason)
      omega

theorem admin_notifySeller {inp : Admin.DecideInput} {sellerUserID : UUID} {n : Nat}
    (h : inp.Admitted) (hn : n < 2 ^ 63) :
    (adminDiscipline hout).Returns p (fun _ => True) (Admin.notifySeller sellerUserID inp n) := by
  unfold Admin.notifySeller
  split
  · exact .pure trivial
  · refine .bind (admin_enqueue (sound_outcome (reason_short h))) fun _ _ => ?_
    split
    · exact .pure trivial
    · exact admin_enqueue (sound_access hn)

theorem admin_recordOutcome {inp : Admin.DecideInput} {offer : Offers.OfferOut} {sellerUserID : UUID}
    {ids : List UUID} (h : inp.Admitted) (hn : ids.length < 2 ^ 63) :
    (adminDiscipline hout).Returns p (fun _ => True)
      (Admin.recordOutcome inp offer sellerUserID ids) :=
  .bind admin_recordDecision fun _ _ => .bind (admin_grantAll ids) fun _ _ =>
    .bind admin_setStatus fun _ _ => .bind (admin_notifySeller h hn) fun _ _ => .pure trivial

/-- the customers fit in a slice -/
theorem admin_buyers {dec : Offers.Decision} {offer : Offers.OfferOut} :
    (adminDiscipline hout).Returns p (fun ids => ids.length < 2 ^ 63) (Admin.buyers dec offer) := by
  cases dec with
  | REJECTED => exact .pure (by decide)
  | APPROVED =>
    refine .bind (.remote (r := Admin.Remote.participantCustomerIDs offer.requestID)) fun a ha => ?_
    match a with
    | .error e => cases e <;> exact .throw _
    | .ok [] => exact .throw _
    | .ok (c :: cs) => exact .pure (ha _ rfl)

theorem admin_decide {inp : Admin.DecideInput} (h : inp.Admitted) :
    (adminDiscipline hout).Returns p (fun _ => True) (Admin.decide inp) := by
  refine .bind (.remote (r := Admin.Remote.offersGet inp.offerID)) fun a _ => ?_
  match a with
  | .error e => cases e <;> exact .throw _
  | .ok offer =>
    show (adminDiscipline hout).Returns p _ (Admin.decideOffer inp offer)
    unfold Admin.decideOffer
    split
    · exact .throw _
    · exact .bind (.remote (r := Admin.Remote.resolveUserID offer.sellerID)) fun _ _ =>
        .bind admin_buyers fun ids hn => .inTx (admin_recordOutcome h hn)

theorem admin_revoke {i : UUID} :
    (adminDiscipline hout).Returns p (fun _ => True) (Admin.revoke i) := by
  have hauto : (adminDiscipline hout).Returns p (fun _ => True)
      (Admin.autocommit (.revokeContactAccess i)) := by
    refine .bind (.attempt (.inTx (.sql (q := Admin.Stmt.revokeContactAccess i) trivial)))
      fun a _ => ?_
    cases a with
    | ok a => exact .pure trivial
    | error e => exact .pure trivial
  refine .bind hauto fun a _ => ?_
  match a with
  | .ok _ => exact .pure trivial
  | .error .noRows =>
    refine .bind (admin_query trivial) fun b _ => ?_
    match b with
    | .ok _ => exact .throw _
    | .error e => cases e <;> exact .throw _
  | .error .uniqueViolation => exact .throw _
  | .error .integrityViolation => exact .throw _
  | .error .other => exact .throw _

theorem admin_looks (q : Admin.Stmt) (h : Admin.looks (.sql q)) : adminSends q := by
  cases q with
  | insertOutbox key ns => exact absurd h id
  | _ => trivial

/-- the decisions among the calls have admissible reasons -/
def AdmittedAdmin : Admin.Invocation → Prop
  | .decide inp => inp.Admitted
  | _ => True

theorem admin_op {inv : Admin.Invocation} (h : AdmittedAdmin inv) :
    (adminDiscipline hout).Returns p (fun _ => True) inv.op := by
  cases inv with
  | decide inp => exact .bind (admin_decide h) fun _ _ => .pure trivial
  | revoke i => exact .bind admin_revoke fun _ _ => .pure trivial
  | contactsForRequest u r => exact .of_only admin_looks (Admin.only_lookup rfl)
  | hasContactAccess sl c r => exact .of_only admin_looks (Admin.only_lookup rfl)

end

end

/-! ## what offer-service writes -/

/-- the admins that a call announces its offer to -/
def adminsOf : Offers.Invocation → Option (List UUID)
  | .createOffer _ _ _ as _ _ => some as
  | _ => none

section
variable [Texts] {P E Y : Type} [DecidableEq P] {out : Offers.Outside P E Y}
variable {calls : P → Offers.Invocation}

/-- the event of a call is received if and only if it has few enough admins -/
def offerWrites (inv : Offers.Invocation) : Offers.Write → Prop
  | .insertOutbox row => ∃ as, adminsOf inv = some as ∧ (Received .offer row ↔ as.length ≤ MAX_BULK)
  | _ => True

/-- one notification for every admin -/
def offerSends (inv : Offers.Invocation) : Offers.Stmt → Prop
  | .insertOutbox _ ns => ∃ as, adminsOf inv = some as ∧ ns.length = as.length ∧ ns ≠ [] ∧
      ∀ n ∈ ns, Sound n
  | _ => True

def offerGets : (q : Offers.Stmt) → Offers.Row q → Prop
  | .insertOffer _ _ _ _, o => Offers.inRange o.availableQuantity o.pricePerUnit = true ∧
      o.valid = true
  | _, _ => True

/-- **what offer-service writes is received unless it is for too many admins** -/
def offerDiscipline (out : Offers.Outside P E Y) (calls : P → Offers.Invocation) :
    Discipline (Offers.spec out) where
  Fine _ := True
  Writes p := offerWrites (calls p)
  Sends p := offerSends (calls p)
  Gets _ := offerGets
  Hears _ _ _ := True
  apply _ _ := trivial
  remote _ := trivial
  stmt {p q x s a t} hsend _ h := by
    have h : Offers.stmt p q x s = some (a, t) := h
    have writes : ∀ {w}, s.put p w = some t → offerWrites (calls p) w → t.pending p = s.pending p ∨
        ∃ w, offerWrites (calls p) w ∧ t.pending p = s.pending p ++ [w] :=
      fun hp hw => .inr ⟨_, hw, put_pending hp⟩
    cases a with
    | error e =>
      obtain rfl := Offers.stmt_error h
      exact ⟨(fun r hr => nomatch hr), .inl rfl⟩
    | ok a =>
      cases q with
      | getOffer i =>
        cases h
        exact ⟨fun _ _ => trivial, .inl rfl⟩
      | liveOfferOf sl r =>
        cases h
        exact ⟨fun _ _ => trivial, .inl rfl⟩
      | insertOffer sl r tm ty =>
        refine ⟨fun b hb => ?_, writes (Offers.insertOffer_ok h).2.2.2.2.2.2 trivial⟩
        obtain rfl := Except.ok.inj hb
        exact Offers.insertOffer_valid h
      | updateOffer loaded set =>
        obtain ⟨old, -, -, hp⟩ := Offers.updateOffer_ok h
        exact ⟨fun _ _ => trivial, writes hp trivial⟩
      | getImage i =>
        cases h
        exact ⟨fun _ _ => trivial, .inl rfl⟩
      | insertImage i data => exact ⟨fun _ _ => trivial, writes (Offers.insertImage_ok h).2 trivial⟩
      | updateImage loaded data =>
        exact ⟨fun _ _ => trivial, writes (Offers.updateImage_ok h).2 trivial⟩
      | insertOutbox key ns =>
        obtain ⟨as, has, hlen, hne, hs⟩ := hsend
        refine ⟨fun _ _ => trivial, writes (Offers.insertOutbox_ok h) ⟨as, has, ?_⟩⟩
        rw [received_iff _ rfl hne hs, hlen]
      | countLiveOffers r =>
        cases h
        exact ⟨fun _ _ => trivial, .inl rfl⟩
      | refresh i =>
        simp only [Offers.stmt] at h
        split at h
        · cases h
          exact ⟨fun _ _ => trivial, .inl rfl⟩
        · exact absurd (Offers.failing_eq h).1 (by simp)

section
variable {p : P}

theorem offer_exec {q : Offers.Stmt} (h : offerSends (calls p) q) :
    (offerDiscipline out calls).Returns p (offerGets q) (Offers.exec q) := .sql h

theorem offer_begin : (offerDiscipline out calls).Returns p (fun _ => True) Offers.begin :=
  .bind .begin fun _ _ => .orThrow

theorem offer_commit : (offerDiscipline out calls).Returns p (fun _ => True) Offers.commit :=
  .bind .commit fun _ _ => .orThrow

/-- a statement that is not an event -/
theorem offer_plain {q : Offers.Stmt} (h : ∀ inv, offerSends inv q) :
    (offerDiscipline out calls).Returns p (fun _ => True) (Offers.exec q) :=
  (offer_exec (h _)).mono fun _ _ => trivial

theorem offer_commitOffer {offer : Offers.Offer} {as : List UUID} {image : Bytes}
    (has : adminsOf (calls p) = some as)
    (ho : Offers.inRange offer.availableQuantity offer.pricePerUnit = true ∧ offer.valid = true) :
    (offerDiscipline out calls).Returns p (fun _ => True) (Offers.commitOffer offer as image) := by
  refine .bind (Φ := fun _ => True) ?_ fun _ _ => .bind (Φ := fun _ => True) ?_ fun _ _ => offer_commit
  · unfold Offers.enqueue
    split
    · exact .pure trivial
    · rename_i hne
      refine (offer_exec (q := .insertOutbox _ _) ⟨as, has, List.length_map _, hne, ?_⟩).mono
        fun _ _ => trivial
      intro n hn
      obtain ⟨adminID, -, rfl⟩ := List.mem_map.mp hn
      exact sound_newOffer ho.1 ho.2
  · unfold Offers.addImage
    split
    · exact .pure trivial
    · exact offer_plain fun _ => trivial

theorem offer_createOffer {sl r : UUID} {tm : Offers.Terms} {as : List UUID} {image : Bytes}
    {imageType : String} (has : adminsOf (calls p) = some as) :
    (offerDiscipline out calls).Returns p (fun _ => True)
      (Offers.createOffer sl r tm as image imageType) := by
  refine .bind offer_begin fun _ _ => .bind (offer_plain fun _ => trivial) fun existing _ => ?_
  cases existing with
  | some existing => exact .throw _
  | none =>
    refine .bind (offer_exec trivial) fun offer ho =>
      .bind (.attempt (offer_commitOffer has ho)) fun a _ => ?_
    match a with
    | .ok _ => exact offer_plain fun _ => trivial
    | .error (.pg e) =>
      show (offerDiscipline out calls).Returns p _ (if Offers.integrityError e then _ else _)
      split
      · refine .bind .rollback fun _ _ => .bind offer_begin fun _ _ =>
          .bind (offer_plain fun _ => trivial) fun b _ => ?_
        cases b with
        | some existing => exact .throw _
        | none => exact .throw _
      · exact .throw _
    | .error .offerNotFound => exact .throw _
    | .error .notOfferOwner => exact .throw _
    | .error (.offerAlreadyMade _) => exact .throw _
    | .error .offerNotPending => exact .throw _

theorem offer_getOffer {i : UUID} :
    (offerDiscipline out calls).Returns p (fun _ => True) (Offers.getOffer i) := by
  refine .bind (offer_plain fun _ => trivial) fun a _ => ?_
  cases a with
  | some offer => exact .pure trivial
  | none => exact .throw _

theorem offer_ownPendingOffer {i sl : UUID} :
    (offerDiscipline out calls).Returns p (fun _ => True) (Offers.ownPendingOffer i sl) := by
  refine .bind offer_getOffer fun offer _ => ?_
  split
  · exact .throw _
  · split
    · exact .throw _
    · exact .pure trivial

theorem offer_flushTerms {offer : Offers.Offer} {i : UUID} {tm : Offers.Terms} {image : Bytes}
    {imageType : String} : (offerDiscipline out calls).Returns p (fun _ => True)
      (Offers.flushTerms offer i tm image imageType) := by
  unfold Offers.flushTerms
  split
  · exact offer_plain fun _ => trivial
  · refine .bind (offer_plain fun _ => trivial) fun existing _ =>
      .bind (offer_plain fun _ => trivial) fun _ _ => ?_
    cases existing with
    | none => exact offer_plain fun _ => trivial
    | some oi => exact offer_plain fun _ => trivial

theorem offer_body {inv : Offers.Invocation} (h : calls p = inv) :
    (offerDiscipline out calls).Returns p (fun _ => True) inv.body := by
  cases inv with
  | createOffer sl r tm as im ty => exact offer_createOffer (by rw [h]; rfl)
  | updateOffer i sl tm im ty =>
    exact .bind offer_begin fun _ _ => .bind offer_ownPendingOffer fun _ _ =>
      .bind offer_flushTerms fun _ _ => .bind offer_commit fun _ _ => offer_plain fun _ => trivial
  | cancelOffer i sl =>
    exact .bind offer_begin fun _ _ => .bind offer_ownPendingOffer fun _ _ =>
      .bind (offer_plain fun _ => trivial) fun _ _ => .bind offer_commit fun _ _ =>
        offer_plain fun _ => trivial
  | setStatus i st =>
    refine .bind offer_begin fun _ _ => .bind offer_getOffer fun offer _ => ?_
    split
    · exact .throw _
    · exact .bind (offer_plain fun _ => trivial) fun _ _ => .bind offer_commit fun _ _ =>
        offer_plain fun _ => trivial

theorem offer_reportOfferCount {r : UUID} :
    (offerDiscipline out calls).Returns p (fun _ => True) (Offers.reportOfferCount r) :=
  .bind (offer_plain fun _ => trivial) fun n _ => .remote (r := (⟨r, n⟩ : Offers.Report))

theorem offer_handler {inv : Offers.Invocation} (h : calls p = inv) :
    (offerDiscipline out calls).Returns p (fun _ => True) inv.handler := by
  refine .bind (.attempt (Φ := fun _ => True) (.bind (offer_body h) fun offer _ => ?_)) fun a _ => ?_
  · cases inv with
    | createOffer sl r tm as im ty => exact .bind offer_reportOfferCount fun _ _ => .pure trivial
    | updateOffer i sl tm im ty => exact .pure trivial
    | cancelOffer i sl => exact .bind offer_reportOfferCount fun _ _ => .pure trivial
    | setStatus i st => exact .bind offer_reportOfferCount fun _ _ => .pure trivial
  · cases a with
    | ok a => exact .bind .rollback fun _ _ => .pure trivial
    | error e => exact .bind .rollback fun _ _ => .throw _

end

end

/-! ## every run of every producer -/

def adminEnqueued : Admin.Write → Option NotificationOutbox
  | .insertOutbox row => some row
  | _ => none

def offerEnqueued : Offers.Write → Option NotificationOutbox
  | .insertOutbox row => some row
  | _ => none

/-- a row that was not there before was inserted -/
theorem mem_inserted {W : Type} {ins : W → Option NotificationOutbox} {ws : List W}
    {before after : List NotificationOutbox} (h : after = before ++ ws.filterMap ins)
    {row : NotificationOutbox} (hm : row ∈ after) (hn : row ∉ before) :
    ∃ w ∈ ws, ins w = some row := by
  rw [h] at hm
  rcases List.mem_append.mp hm with hm | hm
  · exact absurd hm hn
  · exact List.mem_filterMap.mp hm

section
variable [Request.Postgres] [Texts] {P E Y : Type} [DecidableEq P]

theorem request_received {calls : P → Request.Invocation} (hc : ∀ p, (calls p).Admitted)
    {σ : Request.Config P} (h : Runs Request.spec.machine (Request.start calls Request.Db.empty) σ)
    {c : Commit P Request.Db} (hlog : c ∈ σ.state.store.log) {row : NotificationOutbox}
    (hm : row ∈ c.after.outbox) (hn : row ∉ c.before.outbox) : Received .request row := by
  have hk : requestDiscipline.Kept (Request.start calls Request.Db.empty) := by
    refine ⟨⟨fun _ h => absurd h List.not_mem_nil, fun _ h => absurd h List.not_mem_nil⟩,
      fun _ _ h => absurd h List.not_mem_nil, fun p m hm => ?_, fun _ h => absurd h List.not_mem_nil⟩
    obtain rfl := Option.some.inj hm
    exact Discipline.Does.mono (request_op (hc p)) fun _ _ => trivial
  obtain ⟨ws, he, hws⟩ := (Discipline.runs h hk).log c hlog
  have hout : c.after.outbox = c.before.outbox ++ ws.filterMap Request.Write.enqueued := by
    rw [he]
    exact Request.outbox_applyAll ws c.before
  obtain ⟨w, hw, hi⟩ := mem_inserted hout hm hn
  cases w with
  | insertOutbox r =>
    obtain rfl : r = row := Option.some.inj hi
    exact hws _ hw
  | _ => cases hi

theorem admin_received {out : Admin.Outside P E Y}
    (hout : ∀ {p r x e a e'}, out.remote p r x e = some (a, e') → adminHears r a)
    {calls : P → Admin.Invocation} (hc : ∀ p, AdmittedAdmin (calls p)) {e : E}
    {σ : Admin.Config P E} (h : Runs (Admin.spec out).machine (Admin.start calls Admin.Db.empty e) σ)
    {c : Commit P Admin.Db} (hlog : c ∈ σ.state.store.log) {row : NotificationOutbox}
    (hm : row ∈ c.after.outbox) (hn : row ∉ c.before.outbox) : Received .admin row := by
  have hk : (adminDiscipline hout).Kept (Admin.start calls Admin.Db.empty e) := by
    refine ⟨trivial, fun _ _ h => absurd h List.not_mem_nil, fun p m hm => ?_,
      fun _ h => absurd h List.not_mem_nil⟩
    obtain rfl := Option.some.inj hm
    exact Discipline.Does.mono (admin_op (hc p)) fun _ _ => trivial
  obtain ⟨ws, he, hws⟩ := (Discipline.runs h hk).log c hlog
  have hout : c.after.outbox = c.before.outbox ++ ws.filterMap adminEnqueued := by
    rw [he]
    exact applyAll_inserts (·.outbox) adminEnqueued (fun w d => by
      cases w <;> first | rfl | exact (List.append_nil _).symm) ws c.before
  obtain ⟨w, hw, hi⟩ := mem_inserted hout hm hn
  cases w with
  | insertOutbox r =>
    obtain rfl : r = row := Option.some.inj hi
    exact hws _ hw
  | _ => cases hi

theorem offer_received_iff {out : Offers.Outside P E Y} {calls : P → Offers.Invocation} {e : E}
    {σ : Offers.Config P E}
    (h : Runs (Offers.spec out).machine
      (Offers.start (fun p => (calls p).handler) Offers.Db.empty e) σ)
    {c : Commit P Offers.Db} (hlog : c ∈ σ.state.store.log) {row : NotificationOutbox}
    (hm : row ∈ c.after.outbox) (hn : row ∉ c.before.outbox) :
    ∃ as, adminsOf (calls c.tx) = some as ∧ (Received .offer row ↔ as.length ≤ MAX_BULK) := by
  have hk : (offerDiscipline out calls).Kept
      (Offers.start (fun p => (calls p).handler) Offers.Db.empty e) := by
    refine ⟨trivial, fun _ _ h => absurd h List.not_mem_nil, fun p m hm => ?_,
      fun _ h => absurd h List.not_mem_nil⟩
    obtain rfl := Option.some.inj hm
    exact Discipline.Does.mono (offer_handler rfl) fun _ _ => trivial
  obtain ⟨ws, he, hws⟩ := (Discipline.runs h hk).log c hlog
  have hout : c.after.outbox = c.before.outbox ++ ws.filterMap offerEnqueued := by
    rw [he]
    exact applyAll_inserts (·.outbox) offerEnqueued (fun w d => by
      cases w <;> first | rfl | exact (List.append_nil _).symm) ws c.before
  obtain ⟨w, hw, hi⟩ := mem_inserted hout hm hn
  cases w with
  | insertOutbox r =>
    obtain rfl : r = row := Option.some.inj hi
    exact hws _ hw
  | _ => cases hi

end

/-! ## five hundred and one admins -/

/-- an offer that is announced to these admins -/
def announcing (admins : List UUID) : Unit → Offers.Invocation :=
  fun _ => .createOffer 4 30 ⟨5, 1000, "EUR", ""⟩ admins [] ""

/-- the call alone, and nothing fails -/
def announced : List (Act Unit (Choice Unit)) := List.replicate 9 (.exec () ⟨.none, 50, 60, 1, ()⟩)

/-- how many events each commit found and left -/
def eventsOf (σ : Offers.Config Unit Unit) : List (Nat × Nat) :=
  σ.state.store.log.map fun c => (c.before.outbox.length, c.after.outbox.length)

theorem one_event {σ : Offers.Config Unit Unit} (h : eventsOf σ = [(0, 1)]) :
    ∃ c ∈ σ.state.store.log, ∃ row ∈ c.after.outbox, row ∉ c.before.outbox := by
  obtain ⟨c, rest, hlog, hc, -⟩ := List.map_eq_cons_iff.mp h
  obtain ⟨hb, ha⟩ := Prod.mk.inj hc
  obtain ⟨row, hrow⟩ := List.length_eq_one_iff.mp ha
  refine ⟨c, hlog ▸ List.mem_cons_self, row, hrow ▸ List.mem_singleton_self row, ?_⟩
  rw [List.length_eq_zero_iff.mp hb]
  exact List.not_mem_nil

section
attribute [local instance] plainTexts Request.asciiPostgres

end

end Marketplace.System
