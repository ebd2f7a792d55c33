import Marketplace.Lib.Table
import Marketplace.Events.Outbox
import Marketplace.Request.ItemKey

/-!
# request-service: tables, row writes, locks

The tables of the migrations 000001 to 000010.

* `Db`, `Write`      the four tables, and the row writes of the statements;
* `Lock`             a purchase_request row (or the key of one being inserted), the advisory lock
                     of an item name, and the unique keys of the other tables;
* `Write.takes`      the locks Postgres takes for a write, `Write.guards` those that protect what
                     it writes: the lock of the request's row for everything that belongs to it,
                     and for a new request also the lock of its item name.
-/

namespace Marketplace.Request

open Table Events ReadCommitted

inductive Status where
  | OPEN
  | INACTIVE
  deriving DecidableEq, Repr

/-- a row of purchase_request -/
structure PurchaseRequest where
  requestID : UUID
  itemName : String
  description : String
  category : String
  status : Status
  totalCustomers : Int
  totalQuantity : Int
  createdAt : Time
  updatedAt : Time
  createdBy : Option UUID
  totalOffers : Int
  imageType : String
  deriving DecidableEq, Repr

/-- a row of request_participant -/
structure RequestParticipant where
  participantID : UUID
  requestID : UUID
  customerID : UUID
  quantity : Int
  joinedAt : Time
  deriving DecidableEq, Repr

/-- a row of request_image -/
structure RequestImage where
  requestID : UUID
  imageData : Bytes
  updatedAt : Time
  deriving DecidableEq, Repr

structure Db where
  requests : List PurchaseRequest
  participants : List RequestParticipant
  images : List RequestImage
  outbox : List NotificationOutbox
  deriving DecidableEq, Repr

def Db.empty : Db := ⟨[], [], [], []⟩

def Db.participantsOf (d : Db) (r : UUID) : List RequestParticipant :=
  d.participants.filter (·.requestID == r)

/-- `COUNT(*)` of the participants of a request -/
def Db.countParticipants (d : Db) (r : UUID) : Int := (d.participantsOf r).length

/-- `COALESCE(SUM(quantity), 0)` over the participants of a request -/
def Db.sumQuantity (d : Db) (r : UUID) : Int := ((d.participantsOf r).map (·.quantity)).sum

def Db.findParticipant (d : Db) (r c : UUID) : Option RequestParticipant :=
  d.participants.find? (fun rp => rp.requestID == r && rp.customerID == c)

def Db.findRequest (d : Db) (r : UUID) : Option PurchaseRequest :=
  d.requests.find? (·.requestID == r)

/-! ## row writes -/

inductive Write where
  | insertRequest (pr : PurchaseRequest)
  | setDemand (r : UUID) (totalCustomers totalQuantity : Int) (updatedAt : Time)
  | setTotalOffers (r : UUID) (totalOffers : Int)
  | setImageType (r : UUID) (imageType : String) (updatedAt : Time)
  | insertParticipant (rp : RequestParticipant)
  | setQuantity (r c : UUID) (quantity : Int)
  | deleteParticipant (r c : UUID)
  | setImage (ri : RequestImage)
  | insertOutbox (row : NotificationOutbox)
  deriving DecidableEq, Repr

/-- the columns that `RecalculateDemand` sets; the status reads the row's own `total_offers` -/
def PurchaseRequest.withDemand (totalCustomers totalQuantity : Int) (now : Time)
    (pr : PurchaseRequest) : PurchaseRequest :=
  { pr with
    totalCustomers := totalCustomers
    totalQuantity := totalQuantity
    status := if totalCustomers = 0 ∧ pr.totalOffers = 0 then .INACTIVE else .OPEN
    updatedAt := now }

/-- `UPDATE purchase_request SET .. WHERE request_id = r` -/
def Db.updateRequest (d : Db) (r : UUID) (f : PurchaseRequest → PurchaseRequest) : Db :=
  { d with requests := updateWhere (·.requestID == r) f d.requests }

def Write.apply : Write → Db → Db
  | .insertRequest pr, d => { d with requests := d.requests ++ [pr] }
  | .setDemand r n q now, d => d.updateRequest r (PurchaseRequest.withDemand n q now)
  | .setTotalOffers r n, d => d.updateRequest r fun pr => { pr with totalOffers := n }
  | .setImageType r ty now, d =>
    d.updateRequest r fun pr => { pr with imageType := ty, updatedAt := now }
  | .insertParticipant rp, d => { d with participants := d.participants ++ [rp] }
  | .setQuantity r c q, d =>
    { d with
      participants := updateWhere (fun rp => rp.requestID == r && rp.customerID == c)
        (fun rp => { rp with quantity := q }) d.participants }
  | .deleteParticipant r c, d =>
    { d with
      participants := d.participants.filter fun rp => !(rp.requestID == r && rp.customerID == c) }
  | .setImage ri, d =>
    -- INSERT .. ON CONFLICT (request_id) DO UPDATE
    { d with images := d.images.filter (·.requestID != ri.requestID) ++ [ri] }
  | .insertOutbox row, d => { d with outbox := d.outbox ++ [row] }

/-! ## locks -/

inductive Lock where
  | request (r : UUID)
  | item (h : Int)
  | participant (r c : UUID)
  | image (r : UUID)
  | event (e : UUID)
  deriving DecidableEq, Repr

/-- the locks Postgres takes for a write: the row, or the unique key of a new row -/
def Write.takes : Write → List Lock
  | .insertRequest pr => [.request pr.requestID]
  | .setDemand r _ _ _ => [.request r]
  | .setTotalOffers r _ => [.request r]
  | .setImageType r _ _ => [.request r]
  | .insertParticipant rp => [.participant rp.requestID rp.customerID]
  | .setQuantity r c _ => [.participant r c]
  | .deleteParticipant r c => [.participant r c]
  | .setImage ri => [.image ri.requestID]
  | .insertOutbox row => [.event row.eventID]

section
variable [Postgres]

/-- the locks its writer is meant to hold: what belongs to a request is written under the lock
of its row, and a new request under the lock of its item name -/
def Write.guards : Write → List Lock
  | .insertRequest pr => [.request pr.requestID, .item (itemLock pr.itemName)]
  | .setDemand r _ _ _ => [.request r]
  | .setTotalOffers r _ => [.request r]
  | .setImageType r _ _ => [.request r]
  | .insertParticipant rp => [.request rp.requestID]
  | .setQuantity r _ _ => [.request r]
  | .deleteParticipant r _ => [.request r]
  | .setImage ri => [.request ri.requestID]
  | .insertOutbox row => [.event row.eventID]

/-- the names among those under one advisory lock -/
def Db.namesUnder (d : Db) (h : Int) : List String :=
  (d.requests.map (·.itemName)).filter (fun n => itemLock n == h)

/-- two contents agree on what a lock protects -/
def Db.sameUnder : Lock → Db → Db → Prop
  | .request r, d, e =>
    d.requests.filter (·.requestID == r) = e.requests.filter (·.requestID == r) ∧
      d.participantsOf r = e.participantsOf r ∧
      d.images.filter (·.requestID == r) = e.images.filter (·.requestID == r)
  | .item h, d, e => d.namesUnder h = e.namesUnder h
  | _, _, _ => True

/-- an update of one request leaves alone what is under any other lock -/
theorem sameUnder_updateRequest {l : Lock} (d : Db) (r : UUID)
    (f : PurchaseRequest → PurchaseRequest) (h : l ≠ .request r)
    (hid : ∀ x, (f x).requestID = x.requestID) (hname : ∀ x, (f x).itemName = x.itemName) :
    Db.sameUnder l d (d.updateRequest r f) := by
  cases l with
  | request r' =>
    refine ⟨?_, rfl, rfl⟩
    show _ = (updateWhere _ f d.requests).filter _
    rw [filter_updateWhere _ _ _ (fun x _ => by rw [hid])]
    refine (updateWhere_eq_self _ _ _ (fun x hx => ?_)).symm
    have hx' : x.requestID = r' := by simpa using (List.mem_filter.mp hx).2
    simpa [hx'] using fun e => h (congrArg Lock.request e)
  | item k =>
    show d.namesUnder k = (d.updateRequest r f).namesUnder k
    simp only [Db.updateRequest, Db.namesUnder]
    rw [map_updateWhere _ _ _ (fun x _ => hname x)]
  | participant r c => trivial
  | image r => trivial
  | event e => trivial

theorem updateRequest_congr {l : Lock} {d e : Db} (r : UUID)
    (f : PurchaseRequest → PurchaseRequest) (h : Db.sameUnder l d e)
    (hid : ∀ x, (f x).requestID = x.requestID) (hname : ∀ x, (f x).itemName = x.itemName) :
    Db.sameUnder l (d.updateRequest r f) (e.updateRequest r f) := by
  cases l with
  | request r' =>
    obtain ⟨h1, h2, h3⟩ := h
    refine ⟨?_, h2, h3⟩
    simp only [Db.updateRequest]
    rw [filter_updateWhere _ _ _ (fun x _ => by rw [hid]),
      filter_updateWhere _ _ _ (fun x _ => by rw [hid]), h1]
  | item k =>
    have h' : d.namesUnder k = e.namesUnder k := h
    show (d.updateRequest r f).namesUnder k = (e.updateRequest r f).namesUnder k
    simp only [Db.updateRequest, Db.namesUnder]
    rw [map_updateWhere _ _ _ (fun x _ => hname x), map_updateWhere _ _ _ (fun x _ => hname x)]
    exact h'
  | participant r c => trivial
  | image r => trivial
  | event e => trivial

/-- a write leaves alone what it is not guarded by -/
theorem sameUnder_apply {l : Lock} {w : Write} (d : Db) (h : l ∉ w.guards) :
    Db.sameUnder l d (w.apply d) := by
  cases w with
  | setDemand r n q now =>
    exact sameUnder_updateRequest d r _ (by simpa [Write.guards] using h)
      (by intro x; rfl) (by intro x; rfl)
  | setTotalOffers r n =>
    exact sameUnder_updateRequest d r _ (by simpa [Write.guards] using h)
      (by intro x; rfl) (by intro x; rfl)
  | setImageType r ty now =>
    exact sameUnder_updateRequest d r _ (by simpa [Write.guards] using h)
      (by intro x; rfl) (by intro x; rfl)
  | insertRequest pr =>
    simp only [Write.guards, List.mem_cons, List.not_mem_nil, or_false, not_or] at h
    cases l with
    | request r =>
      have hr : pr.requestID ≠ r := fun e => h.1 (congrArg Lock.request e.symm)
      refine ⟨?_, rfl, rfl⟩
      simp [Write.apply, hr]
    | item k =>
      have hk : itemLock pr.itemName ≠ k := fun e => h.2 (congrArg Lock.item e.symm)
      show d.namesUnder k = _
      simp [Write.apply, Db.namesUnder, hk]
    | participant r c => trivial
    | image r => trivial
    | event e => trivial
  | insertParticipant rp =>
    cases l with
    | request r =>
      have hr : rp.requestID ≠ r := fun e => h (by simp [Write.guards, e])
      refine ⟨rfl, ?_, rfl⟩
      simp [Write.apply, Db.participantsOf, hr]
    | item k => rfl
    | participant r c => trivial
    | image r => trivial
    | event e => trivial
  | setQuantity r' c q =>
    cases l with
    | request r =>
      have hr : r ≠ r' := fun e => h (by simp [Write.guards, e])
      refine ⟨rfl, ?_, rfl⟩
      show _ = (updateWhere _ _ d.participants).filter _
      rw [filter_updateWhere _ _ _ (by intro x _; rfl)]
      refine (updateWhere_eq_self _ _ _ (fun x hx => ?_)).symm
      have hx' : x.requestID = r := by simpa using (List.mem_filter.mp hx).2
      simp [hx', hr]
    | item k => rfl
    | participant r c => trivial
    | image r => trivial
    | event e => trivial
  | deleteParticipant r' c =>
    cases l with
    | request r =>
      have hr : r ≠ r' := fun e => h (by simp [Write.guards, e])
      refine ⟨rfl, ?_, rfl⟩
      show d.participants.filter _ = (d.participants.filter _).filter _
      rw [List.filter_filter]
      refine List.filter_congr (fun x _ => ?_)
      by_cases e : x.requestID = r
      · simp [e, hr]
      · simp [e]
    | item k => rfl
    | participant r c => trivial
    | image r => trivial
    | event e => trivial
  | setImage ri =>
    cases l with
    | request r =>
      have hr : ri.requestID ≠ r := fun e => h (by simp [Write.guards, e])
      refine ⟨rfl, rfl, ?_⟩
      show _ = (d.images.filter _ ++ [ri]).filter _
      rw [List.filter_append, List.filter_filter]
      have h1 : [ri].filter (fun x : RequestImage => x.requestID == r) = [] := by simp [hr]
      rw [h1, List.append_nil]
      refine List.filter_congr (fun x _ => ?_)
      by_cases e : x.requestID = r
      · simp [e, Ne.symm hr]
      · simp [e]
    | item k => rfl
    | participant r c => trivial
    | image r => trivial
    | event e => trivial
  | insertOutbox row => cases l <;> first | exact ⟨rfl, rfl, rfl⟩ | rfl | trivial

/-- the part under a lock after a write depends only on the part before -/
theorem sameUnder_congr {l : Lock} {d e : Db} (w : Write) (h : Db.sameUnder l d e) :
    Db.sameUnder l (w.apply d) (w.apply e) := by
  cases w with
  | setDemand r n q now => exact updateRequest_congr r _ h (by intro x; rfl) (by intro x; rfl)
  | setTotalOffers r n => exact updateRequest_congr r _ h (by intro x; rfl) (by intro x; rfl)
  | setImageType r ty now => exact updateRequest_congr r _ h (by intro x; rfl) (by intro x; rfl)
  | insertRequest pr =>
    cases l with
    | request r =>
      refine ⟨?_, h.2.1, h.2.2⟩
      simp only [Write.apply, List.filter_append]
      rw [h.1]
    | item k =>
      have h' : d.namesUnder k = e.namesUnder k := h
      show ({ d with requests := _ } : Db).namesUnder k = ({ e with requests := _ } : Db).namesUnder k
      simp only [Db.namesUnder] at h'
      simp only [Db.namesUnder, List.map_append, List.filter_append]
      rw [h']
    | participant r c => trivial
    | image r => trivial
    | event e => trivial
  | insertParticipant rp =>
    cases l with
    | request r =>
      have h2 := h.2.1
      refine ⟨h.1, ?_, h.2.2⟩
      simp only [Db.participantsOf] at h2
      simp only [Write.apply, Db.participantsOf, List.filter_append]
      rw [h2]
    | item k => exact h
    | participant r c => trivial
    | image r => trivial
    | event e => trivial
  | setQuantity r' c q =>
    cases l with
    | request r =>
      have h2 := h.2.1
      refine ⟨h.1, ?_, h.2.2⟩
      simp only [Db.participantsOf] at h2
      simp only [Write.apply, Db.participantsOf]
      rw [filter_updateWhere _ _ _ (by intro x _; rfl), filter_updateWhere _ _ _ (by intro x _; rfl),
        h2]
    | item k => exact h
    | participant r c => trivial
    | image r => trivial
    | event e => trivial
  | deleteParticipant r' c =>
    cases l with
    | request r =>
      have h2 := h.2.1
      refine ⟨h.1, ?_, h.2.2⟩
      simp only [Db.participantsOf] at h2
      simp only [Write.apply, Db.participantsOf]
      rw [List.filter_comm, h2, List.filter_comm]
    | item k => exact h
    | participant r c => trivial
    | image r => trivial
    | event e => trivial
  | setImage ri =>
    cases l with
    | request r =>
      refine ⟨h.1, h.2.1, ?_⟩
      simp only [Write.apply, List.filter_append]
      rw [List.filter_comm, h.2.2, List.filter_comm]
    | item k => exact h
    | participant r c => trivial
    | image r => trivial
    | event e => trivial
  | insertOutbox row => cases l <;> exact h

instance : Schema Db Write Lock where
  apply := Write.apply
  takes := Write.takes
  guards := Write.guards
  same := Db.sameUnder
  same_refl l d := by cases l <;> first | exact ⟨rfl, rfl, rfl⟩ | rfl | trivial
  same_trans {l} _ _ _ h h' := by
    cases l <;> first
      | exact ⟨h.1.trans h'.1, h.2.1.trans h'.2.1, h.2.2.trans h'.2.2⟩
      | exact Eq.trans h h'
      | trivial
  same_apply := sameUnder_apply
  same_congr := sameUnder_congr

end

end Marketplace.Request
