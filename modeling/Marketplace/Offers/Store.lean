import Marketplace.Lib.Table
import Marketplace.Events.Outbox

/-!
# offer-service: tables, row writes, locks

The tables of `models.py`.

* `Offer`, `OfferImage`, `Db`   the rows; prices are in hundredths (NUMERIC(12, 2));
* `Columns`          the columns of an offer that the operations assign.  The session compares them
                     with the row it loaded and sends only those that differ
                     (`Columns.changed`), whatever the row holds by then;
* `Lock`             an offer's row (or key), the entry of the partial unique index
                     `idx_offer_one_live_per_seller_request`, and the other unique keys.  An
                     update moves a live row, or makes a row live, under the lock of its entry.
-/

namespace Marketplace.Offers

open Table Events ReadCommitted

inductive OfferStatus where
  | PENDING
  | APPROVED
  | REJECTED
  | CANCELLED
  deriving DecidableEq, Repr

/-- `OfferStatus.LIVE` -/
def OfferStatus.live : OfferStatus → Bool
  | .PENDING => true
  | .APPROVED => true
  | .REJECTED => false
  | .CANCELLED => false

/-- a row of offer -/
structure Offer where
  offerID : UUID
  sellerID : UUID
  requestID : UUID
  availableQuantity : Int
  pricePerUnit : Int
  currency : String
  description : String
  imageType : String
  status : OfferStatus
  createdAt : Time
  updatedAt : Time
  deriving DecidableEq, Repr

/-- a row of offer_image -/
structure OfferImage where
  offerID : UUID
  imageData : Bytes
  updatedAt : Time
  deriving DecidableEq, Repr

structure Db where
  offers : List Offer
  images : List OfferImage
  outbox : List NotificationOutbox
  deriving DecidableEq, Repr

def Db.empty : Db := ⟨[], [], []⟩

def Db.rowsOf (d : Db) (o : UUID) : List Offer := d.offers.filter (·.offerID == o)
def Db.imagesOf (d : Db) (o : UUID) : List OfferImage := d.images.filter (·.offerID == o)
def Db.find (d : Db) (o : UUID) : Option Offer := d.offers.find? (·.offerID == o)
def Db.findImage (d : Db) (o : UUID) : Option OfferImage := d.images.find? (·.offerID == o)

/-- the offers of a seller on a request -/
def Db.offersBy (d : Db) (s r : UUID) : List Offer :=
  d.offers.filter fun o => o.sellerID == s && o.requestID == r

/-- the CHECK constraints of offer -/
def Offer.valid (o : Offer) : Bool :=
  0 < o.availableQuantity && 0 < o.pricePerUnit &&
    (o.currency.toList.length = 3 && o.currency.toList.all fun c => 'A' ≤ c && c ≤ 'Z') &&
    ["", "image/jpeg", "image/png", "image/webp"].contains o.imageType

/-- the ranges of INTEGER and NUMERIC(12, 2) -/
def inRange (availableQuantity pricePerUnit : Int) : Bool :=
  availableQuantity ≤ 2147483647 && pricePerUnit ≤ 999999999999

/-- a text column takes every character but NUL -/
def textFits (s : String) : Bool := !s.toList.contains (Char.ofNat 0)

/-- the CHECK constraints of offer_image -/
def imageValid (data : Bytes) : Bool := 0 < data.length && data.length ≤ 2097152

/-! ## assigned columns -/

structure Columns where
  availableQuantity : Option Int := none
  pricePerUnit : Option Int := none
  currency : Option String := none
  description : Option String := none
  imageType : Option String := none
  status : Option OfferStatus := none
  deriving DecidableEq, Repr

/-- the row with the columns assigned -/
def Columns.over (c : Columns) (o : Offer) : Offer :=
  { o with
    availableQuantity := c.availableQuantity.getD o.availableQuantity
    pricePerUnit := c.pricePerUnit.getD o.pricePerUnit
    currency := c.currency.getD o.currency
    description := c.description.getD o.description
    imageType := c.imageType.getD o.imageType
    status := c.status.getD o.status }

/-- the columns that the session sends: those that differ from the row it loaded -/
def Columns.changed (c : Columns) (loaded : Offer) : Columns where
  availableQuantity := c.availableQuantity.filter (· ≠ loaded.availableQuantity)
  pricePerUnit := c.pricePerUnit.filter (· ≠ loaded.pricePerUnit)
  currency := c.currency.filter (· ≠ loaded.currency)
  description := c.description.filter (· ≠ loaded.description)
  imageType := c.imageType.filter (· ≠ loaded.imageType)
  status := c.status.filter (· ≠ loaded.status)

/-- a value that its column does not take is refused; what is not sent is not looked at -/
def Columns.fits (c : Columns) : Bool :=
  inRange (c.availableQuantity.getD 0) (c.pricePerUnit.getD 0) && textFits (c.description.getD "")

/-! ## row writes -/

inductive Write where
  | insertOffer (o : Offer)
  /-- `old` is the row as the statement found it -/
  | updateOffer (old : Offer) (set : Columns) (updatedAt : Time)
  | insertImage (oi : OfferImage)
  | updateImage (offerID : UUID) (imageData : Option Bytes) (updatedAt : Time)
  | insertOutbox (row : NotificationOutbox)
  deriving DecidableEq, Repr

/-- the same row, in the columns that no update changes while somebody else has it locked -/
def Offer.isRow (old o : Offer) : Bool :=
  o.offerID == old.offerID && o.sellerID == old.sellerID && o.requestID == old.requestID &&
    o.status.live == old.status.live

def Offer.updated (set : Columns) (now : Time) (o : Offer) : Offer :=
  { set.over o with updatedAt := now }

theorem updated_offerID (set : Columns) (now : Time) (o : Offer) :
    (o.updated set now).offerID = o.offerID := rfl
theorem updated_requestID (set : Columns) (now : Time) (o : Offer) :
    (o.updated set now).requestID = o.requestID := rfl

def Write.apply : Write → Db → Db
  | .insertOffer o, d => { d with offers := d.offers ++ [o] }
  | .updateOffer old set now, d =>
    { d with offers := updateWhere old.isRow (Offer.updated set now) d.offers }
  | .insertImage oi, d => { d with images := d.images ++ [oi] }
  | .updateImage o data now, d =>
    { d with
      images := updateWhere (·.offerID == o)
        (fun oi => { oi with imageData := data.getD oi.imageData, updatedAt := now }) d.images }
  | .insertOutbox row, d => { d with outbox := d.outbox ++ [row] }

/-! ## locks -/

inductive Lock where
  | offer (o : UUID)
  | live (s r : UUID)
  | image (o : UUID)
  | event (e : UUID)
  deriving DecidableEq, Repr

/-- the update moves the row in the index of live offers -/
def Columns.moves (set : Columns) (old : Offer) : Bool :=
  match set.status with
  | some st => old.status.live || st.live
  | none => false

def Write.takes : Write → List Lock
  | .insertOffer o => [.offer o.offerID, .live o.sellerID o.requestID]
  | .updateOffer old set _ =>
    .offer old.offerID :: if set.moves old then [.live old.sellerID old.requestID] else []
  | .insertImage oi => [.image oi.offerID]
  | .updateImage o _ _ => [.image o]
  | .insertOutbox row => [.event row.eventID]

/-- which offers of the seller on the request are live -/
def Db.liveMap (d : Db) (s r : UUID) : List (UUID × Bool) :=
  (d.offersBy s r).map fun o => (o.offerID, o.status.live)

def Db.sameUnder : Lock → Db → Db → Prop
  | .offer o, d, e => d.rowsOf o = e.rowsOf o
  | .live s r, d, e => d.liveMap s r = e.liveMap s r
  | .image o, d, e => d.imagesOf o = e.imagesOf o
  | .event _, _, _ => True

/-- how an update moves a row in the index -/
theorem live_updated (set : Columns) (now : Time) (o : Offer) :
    (o.updated set now).status.live = ((set.status.map OfferStatus.live).getD o.status.live) := by
  show (set.status.getD o.status).live = _
  cases set.status with
  | none => rfl
  | some st => rfl

/-- the index after an update, from the index before -/
theorem liveMap_updateOffer (old : Offer) (set : Columns) (now : Time) (d : Db) (s r : UUID) :
    (Write.apply (.updateOffer old set now) d).liveMap s r =
      (d.liveMap s r).map fun x =>
        if x.1 == old.offerID && s == old.sellerID && r == old.requestID &&
            x.2 == old.status.live then
          (x.1, (set.status.map OfferStatus.live).getD x.2)
        else x := by
  show ((updateWhere old.isRow (Offer.updated set now) d.offers).filter _).map _ = _
  rw [filter_updateWhere _ _ _ (by intro x _; rfl)]
  show (updateWhere old.isRow (Offer.updated set now) (d.offersBy s r)).map _ = _
  simp only [updateWhere, Db.liveMap, List.map_map]
  refine List.map_congr_left (fun o ho => ?_)
  have ho' := (List.mem_filter.mp ho).2
  simp only [Bool.and_eq_true, beq_iff_eq] at ho'
  simp only [Function.comp, Offer.isRow, ho'.1, ho'.2]
  split
  · rw [updated_offerID, live_updated]
  · rfl

theorem sameUnder_apply {l : Lock} {w : Write} (d : Db) (h : l ∉ w.takes) :
    Db.sameUnder l d (w.apply d) := by
  cases w with
  | insertOffer o =>
    simp only [Write.takes, List.mem_cons, List.not_mem_nil, or_false, not_or] at h
    cases l with
    | offer i =>
      have hi : o.offerID ≠ i := fun e => h.1 (congrArg Lock.offer e.symm)
      show d.rowsOf i = _
      simp [Write.apply, Db.rowsOf, hi]
    | live s r =>
      have hs : (o.sellerID == s && o.requestID == r) = false := by
        rw [Bool.and_eq_false_iff]
        by_contra hc
        simp only [beq_eq_false_iff_ne, ne_eq, not_or, not_not] at hc
        exact h.2 (by rw [hc.1, hc.2])
      show d.liveMap s r = _
      simp [Write.apply, Db.liveMap, Db.offersBy, hs]
    | image o => rfl
    | event e => trivial
  | updateOffer old set now =>
    simp only [Write.takes, List.mem_cons, not_or] at h
    cases l with
    | offer i =>
      have hi : old.offerID ≠ i := fun e => h.1 (congrArg Lock.offer e.symm)
      show d.rowsOf i = (updateWhere _ _ d.offers).filter _
      rw [filter_updateWhere _ _ _ (by intro x _; rfl)]
      refine (updateWhere_eq_self _ _ _ (fun x hx => ?_)).symm
      have hx' : x.offerID = i := by simpa using (List.mem_filter.mp hx).2
      simp [Offer.isRow, hx', Ne.symm hi]
    | live s r =>
      show d.liveMap s r = _
      rw [liveMap_updateOffer]
      refine (List.map_id _).symm.trans (List.map_congr_left fun x _ => ?_)
      show x = _
      split
      · rename_i hx
        simp only [Bool.and_eq_true, beq_iff_eq] at hx
        obtain ⟨⟨⟨-, hs⟩, hr⟩, hl⟩ := hx
        have hm : set.moves old = false := by
          cases hm : set.moves old with
          | false => rfl
          | true =>
            refine absurd ?_ h.2
            rw [if_pos hm, hs, hr]
            exact List.mem_singleton_self _
        unfold Columns.moves at hm
        cases hst : set.status with
        | none => rfl
        | some st =>
          simp only [hst, Bool.or_eq_false_iff] at hm
          simp [hm.2, hl, hm.1, Prod.ext_iff]
      · rfl
    | image o => rfl
    | event e => trivial
  | insertImage oi =>
    cases l with
    | image i =>
      have hi : oi.offerID ≠ i := fun e => h (by simp [Write.takes, e])
      show d.imagesOf i = _
      simp [Write.apply, Db.imagesOf, hi]
    | offer i => rfl
    | live s r => rfl
    | event e => trivial
  | updateImage o data now =>
    cases l with
    | image i =>
      have hi : i ≠ o := fun e => h (by simp [Write.takes, e])
      show d.imagesOf i = (updateWhere _ _ d.images).filter _
      rw [filter_updateWhere _ _ _ (by intro x _; rfl)]
      refine (updateWhere_eq_self _ _ _ (fun x hx => ?_)).symm
      have hx' : x.offerID = i := by simpa using (List.mem_filter.mp hx).2
      simp [hx', hi]
    | offer i => rfl
    | live s r => rfl
    | event e => trivial
  | insertOutbox row => cases l <;> first | rfl | trivial

theorem sameUnder_congr {l : Lock} {d e : Db} (w : Write) (h : Db.sameUnder l d e) :
    Db.sameUnder l (w.apply d) (w.apply e) := by
  cases w with
  | insertOffer o =>
    cases l with
    | offer i =>
      have h' : d.rowsOf i = e.rowsOf i := h
      show (Write.apply _ d).rowsOf i = (Write.apply _ e).rowsOf i
      simp only [Db.rowsOf] at h'
      simp only [Write.apply, Db.rowsOf, List.filter_append]
      rw [h']
    | live s r =>
      have h' : d.liveMap s r = e.liveMap s r := h
      show (Write.apply _ d).liveMap s r = (Write.apply _ e).liveMap s r
      simp only [Db.liveMap, Db.offersBy] at h'
      simp only [Write.apply, Db.liveMap, Db.offersBy, List.filter_append, List.map_append]
      rw [h']
    | image o => exact h
    | event e => trivial
  | updateOffer old set now =>
    cases l with
    | offer i =>
      have h' : d.rowsOf i = e.rowsOf i := h
      show (Write.apply _ d).rowsOf i = (Write.apply _ e).rowsOf i
      simp only [Db.rowsOf] at h'
      simp only [Write.apply, Db.rowsOf]
      rw [filter_updateWhere _ _ _ (by intro x _; rfl), filter_updateWhere _ _ _ (by intro x _; rfl),
        h']
    | live s r =>
      have h' : d.liveMap s r = e.liveMap s r := h
      show (Write.apply _ d).liveMap s r = (Write.apply _ e).liveMap s r
      rw [liveMap_updateOffer, liveMap_updateOffer, h']
    | image o => exact h
    | event e => trivial
  | insertImage oi =>
    cases l with
    | image i =>
      have h' : d.imagesOf i = e.imagesOf i := h
      show (Write.apply _ d).imagesOf i = (Write.apply _ e).imagesOf i
      simp only [Db.imagesOf] at h'
      simp only [Write.apply, Db.imagesOf, List.filter_append]
      rw [h']
    | offer i => exact h
    | live s r => exact h
    | event e => trivial
  | updateImage o data now =>
    cases l with
    | image i =>
      have h' : d.imagesOf i = e.imagesOf i := h
      show (Write.apply _ d).imagesOf i = (Write.apply _ e).imagesOf i
      simp only [Db.imagesOf] at h'
      simp only [Write.apply, Db.imagesOf]
      rw [filter_updateWhere _ _ _ (by intro x _; rfl), filter_updateWhere _ _ _ (by intro x _; rfl),
        h']
    | offer i => exact h
    | live s r => exact h
    | event e => trivial
  | insertOutbox row => cases l <;> exact h

/-- the database itself takes every lock that is needed -/
instance : Schema Db Write Lock where
  apply := Write.apply
  takes := Write.takes
  guards := Write.takes
  same := Db.sameUnder
  same_refl l d := by cases l <;> first | rfl | trivial
  same_trans {l} _ _ _ h h' := by
    cases l <;> first
      | exact Eq.trans h h'
      | trivial
  same_apply := sameUnder_apply
  same_congr := sameUnder_congr

end Marketplace.Offers
