import Marketplace.Offers.Store

/-!
# offer-service: the operations of `service.py` and their handlers

An operation works on one SQLAlchemy session: rows are loaded, attributes are assigned, and the
statements go out when the session is flushed, at the latest by its commit.  A flush sends the
changed columns of each row it holds (`UPDATE offer SET .. WHERE offer_id = ..`), rows of `Offer`
before those of `OfferImage`, and checks no version.

* `Stmt`, `stmt`     the statements a session sends;
* `createOffer`, `updateOffer`, `cancelOffer`, `setStatus`   `service.py`;
* `Invocation.op`    an operation in its session, `Invocation.handler` the route around it, which
                     counts the live offers of the request and reports the count;
* `Outside`          what receives the reports (and may watch the statements go by).
-/

set_option linter.unusedSectionVars false

namespace Marketplace.Offers

open Table Events ReadCommitted Interleave Service

/-- the terms in a body, `OfferCreate` or `OfferUpdate` -/
structure Terms where
  availableQuantity : Int
  pricePerUnit : Int
  currency : String
  description : String
  deriving DecidableEq, Repr

def Offer.terms (o : Offer) : Terms :=
  ⟨o.availableQuantity, o.pricePerUnit, o.currency, o.description⟩

inductive Stmt where
  | getOffer (offerID : UUID)
  | liveOfferOf (sellerID requestID : UUID)
  | insertOffer (sellerID requestID : UUID) (terms : Terms) (imageType : String)
  | updateOffer (loaded : Offer) (set : Columns)
  | getImage (offerID : UUID)
  | insertImage (offerID : UUID) (imageData : Bytes)
  | updateImage (loaded : OfferImage) (imageData : Bytes)
  | insertOutbox (routingKey : RoutingKey) (notifications : List Notification)
  | countLiveOffers (requestID : UUID)
  | refresh (offerID : UUID)

@[reducible]
def Row : Stmt → Type
  | .getOffer _ => Option Offer
  | .liveOfferOf _ _ => Option Offer
  | .insertOffer _ _ _ _ => Offer
  | .updateOffer _ _ => Unit
  | .getImage _ => Option OfferImage
  | .insertImage _ _ => Unit
  | .updateImage _ _ => Unit
  | .insertOutbox _ _ => Unit
  | .countLiveOffers _ => Nat
  | .refresh _ => Offer

/-- the body of `PUT /internal/requests/{id}/offers/count` -/
structure Report where
  requestID : UUID
  totalOffers : Nat
  deriving DecidableEq, Repr

@[reducible]
def Reply : Report → Type := fun _ => Unit

section
variable {P : Type} [DecidableEq P]

abbrev St (P : Type) := Store P Db Write Lock

def Db.liveOfferOf (d : Db) (s r : UUID) : Option Offer :=
  d.offers.find? fun o => o.sellerID == s && o.requestID == r && o.status.live

def Db.countLive (d : Db) (r : UUID) : Nat :=
  (d.offers.filter fun o => o.requestID == r && o.status.live).length

def St.writing {α : Type} (s : St P) (p : P) (w : Write) (row : α) :
    Option (Except PgErr α × St P) :=
  (s.put p w).map fun t => (.ok row, t)

def St.failing {α : Type} (s : St P) (e : PgErr) : Option (Except PgErr α × St P) :=
  some (.error e, s)

/-- another live offer of the same seller on the same request -/
def Db.liveTwin (d : Db) (o : Offer) : Bool :=
  d.offers.any fun o' => o'.offerID != o.offerID && o'.sellerID == o.sellerID &&
    o'.requestID == o.requestID && o'.status.live

def stmt {Y : Type} (p : P) : (q : Stmt) → Choice Y → St P → Option (Except PgErr (Row q) × St P)
  | .getOffer i, _, s => some (.ok ((s.view p).find i), s)
  | .liveOfferOf sl r, _, s => some (.ok ((s.view p).liveOfferOf sl r), s)
  | .insertOffer sl r t ty, x, s =>
    let o : Offer := ⟨x.id, sl, r, t.availableQuantity, t.pricePerUnit, t.currency, t.description,
      ty, .PENDING, s.now p, s.now p⟩
    if !(inRange t.availableQuantity t.pricePerUnit && textFits t.description) then
      s.failing .other
    else if !o.valid then s.failing .integrityViolation
    else if !(s.free p (.offer x.id) && s.free p (.live sl r)) then none
    else if (s.view p).find x.id ≠ none then s.failing .uniqueViolation
    else if (s.view p).liveOfferOf sl r ≠ none then s.failing .uniqueViolation
    else s.writing p (.insertOffer o) o
  | .updateOffer loaded set, x, s =>
    if !s.free p (.offer loaded.offerID) then none
    else
      match (s.view p).find loaded.offerID with
      -- no row matched
      | none => s.failing .other
      | some old =>
        let sent := set.changed loaded
        let new := old.updated sent x.now
        if !sent.fits then s.failing .other
        else if !new.valid then s.failing .integrityViolation
        else if sent.moves old && !s.free p (.live old.sellerID old.requestID) then none
        else if !old.status.live && new.status.live && (s.view p).liveTwin old then
          s.failing .uniqueViolation
        else s.writing p (.updateOffer old sent x.now) ()
  | .getImage i, _, s => some (.ok ((s.view p).findImage i), s)
  | .insertImage i data, _, s =>
    if !imageValid data then s.failing .integrityViolation
    else if !s.free p (.image i) then none
    else if (s.view p).findImage i ≠ none then s.failing .uniqueViolation
    -- the foreign key
    else if (s.view p).find i = none then s.failing .integrityViolation
    else s.writing p (.insertImage ⟨i, data, s.now p⟩) ()
  | .updateImage loaded data, x, s =>
    if !s.free p (.image loaded.offerID) then none
    else if (s.view p).findImage loaded.offerID = none then s.failing .other
    else if !imageValid data then s.failing .integrityViolation
    else s.writing p (.updateImage loaded.offerID
      (if data = loaded.imageData then none else some data) x.now) ()
  | .insertOutbox key ns, x, s =>
    if !s.free p (.event x.tag) then none
    else if (s.view p).outbox.any (·.eventID == x.tag) then s.failing .uniqueViolation
    else s.writing p (.insertOutbox (NotificationOutbox.of x.id x.tag key ns (s.now p))) ()
  | .countLiveOffers r, _, s => some (.ok ((s.view p).countLive r), s)
  | .refresh i, _, s =>
    match (s.view p).find i with
    | some o => some (.ok o, s)
    | none => s.failing .other

theorem writing_eq {α : Type} {s t : St P} {p : P} {w : Write} {row : α} {a : Except PgErr α}
    (h : s.writing p w row = some (a, t)) : a = .ok row ∧ s.put p w = some t := by
  obtain ⟨u, hu, e⟩ := Option.map_eq_some_iff.mp h
  cases e
  exact ⟨rfl, hu⟩

theorem failing_eq {α : Type} {s t : St P} {e : PgErr} {a : Except PgErr α}
    (h : s.failing e = some (a, t)) : a = .error e ∧ t = s := by
  cases h
  exact ⟨rfl, rfl⟩

/-- a failure is no answer -/
theorem failing_ok {α : Type} {s t : St P} {e : PgErr} {row : α}
    (h : s.failing e = some (.ok row, t)) : False := by
  cases h

/-- what a statement leaves in the store: nothing, or one write -/
inductive Effect (p : P) (q : Stmt) (s : St P) : Except PgErr (Row q) → St P → Prop where
  | none (a : Except PgErr (Row q)) : Effect p q s a s
  | write {w : Write} {t : St P} (a : Row q) (h : s.put p w = some t) : Effect p q s (.ok a) t

theorem stmt_effect {Y : Type} {p : P} {q : Stmt} {x : Choice Y} {s t : St P}
    {a : Except PgErr (Row q)} (h : stmt p q x s = some (a, t)) : Effect p q s a t := by
  have fails : ∀ {e : PgErr}, s.failing e = some (a, t) → Effect p q s a t := by
    intro e h
    obtain ⟨rfl, rfl⟩ := failing_eq h
    exact .none _
  have writes : ∀ {w : Write} {row : Row q}, s.writing p w row = some (a, t) →
      Effect p q s a t := by
    intro w row h
    obtain ⟨rfl, hp⟩ := writing_eq h
    exact .write _ hp
  cases q with
  | getOffer i => cases h; exact .none _
  | liveOfferOf sl r => cases h; exact .none _
  | getImage i => cases h; exact .none _
  | countLiveOffers r => cases h; exact .none _
  | insertOffer sl r t ty =>
    simp only [stmt] at h
    split at h
    · exact fails h
    · split at h
      · exact fails h
      · split at h
        · cases h
        · split at h
          · exact fails h
          · split at h
            · exact fails h
            · exact writes h
  | updateOffer loaded set =>
    simp only [stmt] at h
    split at h
    · cases h
    · split at h
      · exact fails h
      · split at h
        · exact fails h
        · split at h
          · exact fails h
          · split at h
            · cases h
            · split at h
              · exact fails h
              · exact writes h
  | insertImage i data =>
    simp only [stmt] at h
    split at h
    · exact fails h
    · split at h
      · cases h
      · split at h
        · exact fails h
        · split at h
          · exact fails h
          · exact writes h
  | updateImage loaded data =>
    simp only [stmt] at h
    split at h
    · cases h
    · split at h
      · exact fails h
      · split at h
        · exact fails h
        · exact writes h
  | insertOutbox key ns =>
    simp only [stmt] at h
    split at h
    · cases h
    · split at h
      · exact fails h
      · exact writes h
  | refresh i =>
    simp only [stmt] at h
    split at h
    · cases h; exact .none _
    · exact fails h

theorem stmt_quiet {Y : Type} {p : P} {q : Stmt} {x : Choice Y} {s t : St P}
    {a : Except PgErr (Row q)} (h : stmt p q x s = some (a, t)) : Quiet p s t := by
  cases stmt_effect h with
  | none => exact Quiet.refl p s
  | write _ h => exact Quiet.put h

/-- a statement that fails changes nothing -/
theorem stmt_error {Y : Type} {p : P} {q : Stmt} {x : Choice Y} {s t : St P} {e : PgErr}
    (h : stmt p q x s = some (.error e, t)) : t = s := by
  cases stmt_effect h with
  | none => rfl

section
variable {Y : Type} {p : P} {x : Choice Y} {s t : St P}

/-- what is stored is the row of the arguments, within the ranges and the constraints -/
theorem insertOffer_eq {sl r : UUID} {tm : Terms} {ty : String} {o : Offer}
    (h : stmt p (.insertOffer sl r tm ty) x s = some (.ok o, t)) :
    o = ⟨x.id, sl, r, tm.availableQuantity, tm.pricePerUnit, tm.currency, tm.description, ty,
        .PENDING, s.now p, s.now p⟩ ∧
      inRange tm.availableQuantity tm.pricePerUnit = true ∧ o.valid = true ∧
      (s.view p).find o.offerID = none ∧ (s.view p).liveOfferOf sl r = none ∧
      s.put p (.insertOffer o) = some t := by
  simp only [stmt] at h
  split at h
  · exact (failing_ok h).elim
  · rename_i hf
    split at h
    · exact (failing_ok h).elim
    · rename_i hv
      split at h
      · cases h
      · split at h
        · exact (failing_ok h).elim
        · rename_i hn
          split at h
          · exact (failing_ok h).elim
          · rename_i hl
            obtain ⟨e, hp⟩ := writing_eq h
            cases e
            have hfits : inRange tm.availableQuantity tm.pricePerUnit = true ∧
                textFits tm.description = true := by simpa using hf
            exact ⟨rfl, hfits.1, by simpa using hv, not_not.mp hn, not_not.mp hl, hp⟩

theorem insertOffer_ok {sl r : UUID} {tm : Terms} {ty : String} {o : Offer}
    (h : stmt p (.insertOffer sl r tm ty) x s = some (.ok o, t)) :
    o.sellerID = sl ∧ o.requestID = r ∧ o.terms = tm ∧ o.status = .PENDING ∧
      (s.view p).find o.offerID = none ∧ (s.view p).liveOfferOf sl r = none ∧
      s.put p (.insertOffer o) = some t := by
  obtain ⟨rfl, -, -, hn, hl, hp⟩ := insertOffer_eq h
  exact ⟨rfl, rfl, rfl, rfl, hn, hl, hp⟩

theorem insertOffer_valid {sl r : UUID} {tm : Terms} {ty : String} {o : Offer}
    (h : stmt p (.insertOffer sl r tm ty) x s = some (.ok o, t)) :
    inRange o.availableQuantity o.pricePerUnit = true ∧ o.valid = true := by
  obtain ⟨rfl, hr, hv, -⟩ := insertOffer_eq h
  exact ⟨hr, hv⟩

theorem updateOffer_ok {loaded : Offer} {set : Columns} {a : Unit}
    (h : stmt p (.updateOffer loaded set) x s = some (.ok a, t)) :
    ∃ old, (s.view p).find loaded.offerID = some old ∧
      (old.status.live = false → (old.updated (set.changed loaded) x.now).status.live = true →
        (s.view p).liveTwin old = false) ∧
      s.put p (.updateOffer old (set.changed loaded) x.now) = some t := by
  simp only [stmt] at h
  split at h
  · cases h
  · split at h
    · exact (failing_ok h).elim
    · rename_i old hold
      split at h
      · exact (failing_ok h).elim
      · split at h
        · exact (failing_ok h).elim
        · split at h
          · cases h
          · split at h
            · exact (failing_ok h).elim
            · rename_i htwin
              refine ⟨old, hold, fun h1 h2 => ?_, (writing_eq h).2⟩
              simpa [h1, h2] using htwin

theorem insertImage_ok {i : UUID} {data : Bytes} {a : Unit}
    (h : stmt p (.insertImage i data) x s = some (.ok a, t)) :
    (s.view p).findImage i = none ∧ s.put p (.insertImage ⟨i, data, s.now p⟩) = some t := by
  simp only [stmt] at h
  split at h
  · exact (failing_ok h).elim
  · split at h
    · cases h
    · split at h
      · exact (failing_ok h).elim
      · rename_i hn
        split at h
        · exact (failing_ok h).elim
        · exact ⟨not_not.mp hn, (writing_eq h).2⟩

theorem updateImage_ok {loaded : OfferImage} {data : Bytes} {a : Unit}
    (h : stmt p (.updateImage loaded data) x s = some (.ok a, t)) :
    (s.view p).findImage loaded.offerID ≠ none ∧
      s.put p (.updateImage loaded.offerID (if data = loaded.imageData then none else some data)
        x.now) = some t := by
  simp only [stmt] at h
  split at h
  · cases h
  · split at h
    · exact (failing_ok h).elim
    · rename_i hn
      split at h
      · exact (failing_ok h).elim
      · exact ⟨hn, (writing_eq h).2⟩

theorem insertOutbox_ok {key : RoutingKey} {ns : List Notification} {a : Unit}
    (h : stmt p (.insertOutbox key ns) x s = some (.ok a, t)) :
    s.put p (.insertOutbox (NotificationOutbox.of x.id x.tag key ns (s.now p))) = some t := by
  simp only [stmt] at h
  split at h
  · cases h
  · split at h
    · exact (failing_ok h).elim
    · exact (writing_eq h).2

end

/-- what lies outside the database of offer-service -/
structure Outside (P E Y : Type) where
  note : P → Stmt → Choice Y → St P → E → E
  report : P → Report → Choice Y → E → Option E
  env : Choice Y → E → Option E

/-- the reports go nowhere -/
def Outside.nothing : Outside P Unit Unit where
  note _ _ _ _ e := e
  report _ _ _ e := some e
  env _ _ := none

def spec {E Y : Type} (out : Outside P E Y) : Spec P Db Write Lock E Y Row Reply where
  stmt := stmt
  note := out.note
  remote p r x e := (out.report p r x e).map fun e => ((), e)
  env := out.env
  quiet := stmt_quiet

end

/-! ## service.py -/

/-- the wire projection -/
structure OfferOut where
  offerID : UUID
  requestID : UUID
  sellerID : UUID
  terms : Terms
  status : OfferStatus
  createdAt : Time
  updatedAt : Time
  hasImage : Bool
  deriving DecidableEq, Repr

def OfferOut.of (o : Offer) : OfferOut where
  offerID := o.offerID
  requestID := o.requestID
  sellerID := o.sellerID
  terms := o.terms
  status := o.status
  createdAt := o.createdAt
  updatedAt := o.updatedAt
  hasImage := o.imageType != ""

inductive Err where
  | offerNotFound
  | notOfferOwner
  | offerAlreadyMade (existing : OfferOut)
  | offerNotPending
  | pg (e : PgErr)
  deriving DecidableEq, Repr

abbrev Op (α : Type) : Type := Call Row Reply Err α

def exec (q : Stmt) : Op (Row q) := sql .pg q

def begin : Op Unit := Service.begin >>= orThrow .pg

def commit : Op Unit := Service.commit >>= orThrow .pg

/-- `IntegrityError` -/
def integrityError : PgErr → Bool
  | .uniqueViolation => true
  | .integrityViolation => true
  | _ => false

/-- `events.enqueue`; the row is sent by the flush of the commit -/
def enqueue (key : RoutingKey) (ns : List Notification) : Op Unit :=
  if ns = [] then pure ()
  else exec (.insertOutbox key ns)

/-- a price with its two decimals -/
def priceText (hundredths : Int) : String :=
  toString (hundredths / 100) ++ (if hundredths % 100 < 10 then ".0" else ".") ++
    toString (hundredths % 100)

def newOfferNotification (offer : Offer) (adminID : UUID) : Notification where
  userID := adminID
  type := "NEW_OFFER"
  channel := ""
  title := "An offer is waiting for review"
  message := "A seller offered " ++ toString offer.availableQuantity ++ " at " ++
    priceText offer.pricePerUnit ++ " " ++ offer.currency ++ " per unit."

def addImage (offerID : UUID) (image : Bytes) : Op Unit :=
  if image = [] then pure ()
  else exec (.insertImage offerID image)

/-- the commit of `create_offer`: its flush sends the event and the picture -/
def commitOffer (offer : Offer) (adminUserIDs : List UUID) (image : Bytes) : Op Unit := do
  enqueue .offerCreated (adminUserIDs.map (newOfferNotification offer))
  addImage offer.offerID image
  commit

def createOffer (sellerID requestID : UUID) (payload : Terms) (adminUserIDs : List UUID)
    (image : Bytes) (imageType : String) : Op Offer := do
  begin
  match ← exec (.liveOfferOf sellerID requestID) with
  | some existing => throw (.offerAlreadyMade (.of existing))
  | none => do
    -- the flush is outside the `try` below: an IntegrityError here is passed on
    let offer : Offer ← exec (.insertOffer sellerID requestID payload
      (if image = [] then "" else imageType))
    match ← attempt (commitOffer offer adminUserIDs image) with
    | .ok _ => exec (.refresh offer.offerID)
    | .error (.pg e) =>
      if integrityError e then do
        rollback
        begin
        match ← exec (.liveOfferOf sellerID requestID) with
        | some existing => throw (.offerAlreadyMade (.of existing))
        | none => throw (.pg e)
      else throw (.pg e)
    | .error e => throw e

def getOffer (offerID : UUID) : Op Offer := do
  match ← exec (.getOffer offerID) with
  | some offer => pure offer
  | none => throw .offerNotFound

def ownPendingOffer (offerID sellerID : UUID) : Op Offer := do
  let offer ← getOffer offerID
  if offer.sellerID ≠ sellerID then throw .notOfferOwner
  else if offer.status ≠ .PENDING then throw .offerNotPending
  else pure offer

def Terms.columns (t : Terms) : Columns where
  availableQuantity := some t.availableQuantity
  pricePerUnit := some t.pricePerUnit
  currency := some t.currency
  description := some t.description

/-- the flush of `_replace_image` -/
def storeImage (existing : Option OfferImage) (offerID : UUID) (image : Bytes) : Op Unit :=
  match existing with
  | none => exec (.insertImage offerID image)
  | some oi => exec (.updateImage oi image)

/-- `_replace_image` if there is a picture, and the flush of the commit -/
def flushTerms (offer : Offer) (offerID : UUID) (payload : Terms) (image : Bytes)
    (imageType : String) : Op Unit :=
  if image = [] then exec (.updateOffer offer payload.columns)
  else do
    let existing : Option OfferImage ← exec (.getImage offerID)
    let _ ← exec (.updateOffer offer { payload.columns with imageType := some imageType })
    storeImage existing offerID image

def updateOffer (offerID sellerID : UUID) (payload : Terms) (image : Bytes) (imageType : String) :
    Op Offer := do
  begin
  let offer ← ownPendingOffer offerID sellerID
  flushTerms offer offerID payload image imageType
  commit
  exec (.refresh offerID)

def cancelOffer (offerID sellerID : UUID) : Op Offer := do
  begin
  let offer ← ownPendingOffer offerID sellerID
  let _ ← exec (.updateOffer offer { status := some .CANCELLED })
  commit
  exec (.refresh offerID)

def setStatus (offerID : UUID) (newStatus : OfferStatus) : Op Offer := do
  begin
  let offer ← getOffer offerID
  if offer.status ≠ .PENDING then throw .offerNotPending
  else do
    let _ ← exec (.updateOffer offer { status := some newStatus })
    commit
    exec (.refresh offerID)

/-! ## the routes -/

/-- `StatusUpdate.status` -/
inductive Decision where
  | APPROVED
  | REJECTED
  deriving DecidableEq, Repr

def Decision.status : Decision → OfferStatus
  | .APPROVED => .APPROVED
  | .REJECTED => .REJECTED

inductive Invocation where
  | createOffer (sellerID requestID : UUID) (payload : Terms) (adminUserIDs : List UUID)
      (image : Bytes) (imageType : String)
  | updateOffer (offerID sellerID : UUID) (payload : Terms) (image : Bytes) (imageType : String)
  | cancelOffer (offerID sellerID : UUID)
  | setStatus (offerID : UUID) (status : Decision)
  deriving DecidableEq, Repr

def Invocation.body : Invocation → Op Offer
  | .createOffer s r t as im ty => Offers.createOffer s r t as im ty
  | .updateOffer i s t im ty => Offers.updateOffer i s t im ty
  | .cancelOffer i s => Offers.cancelOffer i s
  | .setStatus i st => Offers.setStatus i st.status

/-- `get_session`: whatever is not committed when the route ends is rolled back -/
def getSession {α : Type} (body : Op α) : Op α := do
  match ← attempt body with
  | .ok a => do
    rollback
    return a
  | .error e => do
    rollback
    throw e

/-- an operation in its session -/
def Invocation.op (inv : Invocation) : Op Offer := getSession inv.body

/-- `count_live_offers` and `report_offer_count` -/
def reportOfferCount (requestID : UUID) : Op Unit := do
  let n : Nat ← exec (.countLiveOffers requestID)
  remote (⟨requestID, n⟩ : Report)

/-- the route of an operation; all but `update_offer` report the count -/
def Invocation.handler (inv : Invocation) : Op Offer := getSession do
  let offer ← inv.body
  match inv with
  | .updateOffer _ _ _ _ _ => return offer
  | .createOffer _ r _ _ _ _ => do
    reportOfferCount r
    return offer
  | .cancelOffer _ _ => do
    reportOfferCount offer.requestID
    return offer
  | .setStatus _ _ => do
    reportOfferCount offer.requestID
    return offer

abbrev Config (P E : Type) : Type :=
  Conf P (Cmd Stmt Report) (Ans Row Reply) (State P Db Write Lock E) (Except Err Offer)

/-- any number of programs on a database with the contents `d`, none of them begun -/
def start {P E : Type} (progs : P → Op Offer) (d : Db) (e : E) : Config P E where
  state := { store := Store.fresh d, ext := e }
  prog p := some (progs p).run

end Marketplace.Offers
