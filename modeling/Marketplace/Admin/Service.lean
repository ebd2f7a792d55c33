import Mathlib.Data.List.Sort
import Marketplace.Admin.Store

/-!
# admin-service: the operations of `service.go`

* `Stmt`, `stmt`     the statements of `queries/admin.sql`;
* `Remote`, `Reply`  the calls to the other services.  `Offers.SetStatus` is sent and then awaited:
                     offer-service works on it in between, and the answer may not arrive;
* `Outside`          whoever answers these calls; an offer comes back under the id it was asked by;
* `Event`            what a call has done so far: its remote calls with their answers, and the
                     contents and the time of its reads of the grants;
* `decide`, `revoke`, `contactsForRequest`, `hasContactAccess`   `service.go`.
-/

set_option linter.unusedSectionVars false

namespace Marketplace.Admin

open Table Events ReadCommitted Interleave
open Service hiding query remote
open Offers (Decision OfferOut OfferStatus)

/-! ## statements -/

inductive Stmt where
  | recordDecision (offerID adminUserID : UUID) (decision : Decision) (reason : String)
  | grantContactAccess (sellerID customerID requestID offerID grantedBy : UUID)
  | getContactAccess (accessID : UUID)
  | listGrantedForSellerRequest (sellerID requestID : UUID)
  | countEffectiveAccess (sellerID customerID : UUID) (requestID : Option UUID)
  | revokeContactAccess (accessID : UUID)
  | insertOutbox (routingKey : RoutingKey) (notifications : List Notification)

@[reducible]
def Row : Stmt → Type
  | .recordDecision _ _ _ _ => OfferDecision
  | .grantContactAccess _ _ _ _ _ => ContactAccess
  | .getContactAccess _ => ContactAccess
  | .listGrantedForSellerRequest _ _ => List ContactAccess
  | .countEffectiveAccess _ _ _ => Nat
  | .revokeContactAccess _ => ContactAccess
  | .insertOutbox _ _ => Unit

/-- `expires_at IS NULL OR expires_at > now()` -/
def unexpired (expiresAt : Option Time) (now : Time) : Bool :=
  match expiresAt with
  | none => true
  | some t => now < t

def Db.listGranted (d : Db) (s r : UUID) (now : Time) : List ContactAccess :=
  (d.accesses.filter fun a => a.sellerID == s && a.requestID == r && a.status == .GRANTED &&
    unexpired a.expiresAt now).insertionSort (fun a b => a.grantedAt ≤ b.grantedAt)

def Db.countEffective (d : Db) (s c : UUID) (r : Option UUID) (now : Time) : Nat :=
  (d.accesses.filter fun a => a.sellerID == s && a.customerID == c &&
    (match r with
    | none => true
    | some r => a.requestID == r) && a.status == .GRANTED && unexpired a.expiresAt now).length

def Db.findAccess (d : Db) (a : UUID) : Option ContactAccess := d.accesses.find? (·.accessID == a)

section
variable {P : Type} [DecidableEq P]

abbrev St (P : Type) := Store P Db Write Lock

def St.writing {α : Type} (s : St P) (p : P) (w : Write) (row : α) :
    Option (Except PgErr α × St P) :=
  (s.put p w).map fun t => (.ok row, t)

def St.failing {α : Type} (s : St P) (e : PgErr) : Option (Except PgErr α × St P) :=
  some (.error e, s)

def stmt {Y : Type} (p : P) : (q : Stmt) → Choice Y → St P → Option (Except PgErr (Row q) × St P)
  | .recordDecision o u dec reason, x, s =>
    let row : OfferDecision := ⟨x.id, o, u, dec, reason, s.now p⟩
    if !s.free p (.decision o) then none
    else if (s.view p).decisionsOf o ≠ [] then s.failing .uniqueViolation
    else s.writing p (.recordDecision row) row
  | .grantContactAccess sl c r o u, x, s =>
    let row : ContactAccess := ⟨x.id, sl, c, r, o, .GRANTED, u, s.now p, none⟩
    if !(s.free p (.grant o c) && s.free p (.access x.id)) then none
    else if (s.view p).rowsOf x.id ≠ [] then s.failing .uniqueViolation
    else if ((s.view p).accessesOf o).any (·.customerID == c) then s.failing .uniqueViolation
    else s.writing p (.grantContactAccess row) row
  | .getContactAccess a, _, s =>
    match (s.view p).findAccess a with
    | some row => some (.ok row, s)
    | none => s.failing .noRows
  | .listGrantedForSellerRequest sl r, x, s => some (.ok ((s.view p).listGranted sl r x.now), s)
  | .countEffectiveAccess sl c r, x, s => some (.ok ((s.view p).countEffective sl c r x.now), s)
  | .revokeContactAccess a, _, s =>
    if !s.free p (.access a) then none
    else
      match (s.view p).findAccess a with
      | some row =>
        if row.status = .GRANTED then s.writing p (.revokeContactAccess a) row.revoked
        else s.failing .noRows
      | none => s.failing .noRows
  | .insertOutbox key ns, x, s =>
    if !s.free p (.event x.tag) then none
    else if (s.view p).outbox.any (·.eventID == x.tag) then s.failing .uniqueViolation
    else s.writing p (.insertOutbox (NotificationOutbox.of x.id x.tag key ns (s.now p))) ()

theorem writing_eq {α : Type} {s t : St P} {p : P} {w : Write} {row : α} {a : Except PgErr α}
    (h : s.writing p w row = some (a, t)) : a = .ok row ∧ s.put p w = some t := by
  obtain ⟨u, hu, e⟩ := Option.map_eq_some_iff.mp h
  cases e
  exact ⟨rfl, hu⟩

theorem failing_eq {α : Type} {s t : St P} {e : PgErr} {a : Except PgErr α}
    (h : s.failing e = some (a, t)) : a = .error e ∧ t = s := by
  cases h
  exact ⟨rfl, rfl⟩

/-- a failure is no answer -/
theorem failing_ok {α : Type} {s t : St P} {e : PgErr} {row : α}
    (h : s.failing e = some (.ok row, t)) : False := by
  cases h

/-- what a statement leaves in the store: nothing, or one write -/
inductive Effect (p : P) (q : Stmt) (s : St P) : Except PgErr (Row q) → St P → Prop where
  | none (a : Except PgErr (Row q)) : Effect p q s a s
  | write {w : Write} {t : St P} (a : Row q) (h : s.put p w = some t) : Effect p q s (.ok a) t

theorem stmt_effect {Y : Type} {p : P} {q : Stmt} {x : Choice Y} {s t : St P}
    {a : Except PgErr (Row q)} (h : stmt p q x s = some (a, t)) : Effect p q s a t := by
  have fails : ∀ {e : PgErr}, s.failing e = some (a, t) → Effect p q s a t := by
    intro e h
    obtain ⟨rfl, rfl⟩ := failing_eq h
    exact .none _
  have writes : ∀ {w : Write} {row : Row q}, s.writing p w row = some (a, t) →
      Effect p q s a t := by
    intro w row h
    obtain ⟨rfl, hp⟩ := writing_eq h
    exact .write _ hp
  cases q with
  | listGrantedForSellerRequest sl r => cases h; exact .none _
  | countEffectiveAccess sl c r => cases h; exact .none _
  | recordDecision o u dec reason =>
    simp only [stmt] at h
    split at h
    · cases h
    · split at h
      · exact fails h
      · exact writes h
  | grantContactAccess sl c r o u =>
    simp only [stmt] at h
    split at h
    · cases h
    · split at h
      · exact fails h
      · split at h
        · exact fails h
        · exact writes h
  | getContactAccess a =>
    simp only [stmt] at h
    split at h
    · cases h; exact .none _
    · exact fails h
  | revokeContactAccess a =>
    simp only [stmt] at h
    split at h
    · cases h
    · split at h
      · split at h
        · exact writes h
        · exact fails h
      · exact fails h
  | insertOutbox key ns =>
    simp only [stmt] at h
    split at h
    · cases h
    · split at h
      · exact fails h
      · exact writes h

theorem stmt_quiet {Y : Type} {p : P} {q : Stmt} {x : Choice Y} {s t : St P}
    {a : Except PgErr (Row q)} (h : stmt p q x s = some (a, t)) : Quiet p s t := by
  cases stmt_effect h with
  | none => exact Quiet.refl p s
  | write _ h => exact Quiet.put h

/-- a statement that fails changes nothing -/
theorem stmt_error {Y : Type} {p : P} {q : Stmt} {x : Choice Y} {s t : St P} {e : PgErr}
    (h : stmt p q x s = some (.error e, t)) : t = s := by
  cases stmt_effect h with
  | none => rfl

section
variable {Y : Type} {p : P} {x : Choice Y} {s t : St P}

theorem recordDecision_ok {o u : UUID} {dec : Decision} {reason : String} {a : OfferDecision}
    (h : stmt p (.recordDecision o u dec reason) x s = some (.ok a, t)) :
    a.offerID = o ∧ a.decision = dec ∧ (s.view p).decisionsOf o = [] ∧
      s.put p (.recordDecision a) = some t := by
  simp only [stmt] at h
  split at h
  · cases h
  · split at h
    · exact (failing_ok h).elim
    · rename_i hn
      obtain ⟨e, hp⟩ := writing_eq h
      cases e
      exact ⟨rfl, rfl, not_not.mp hn, hp⟩

theorem grantContactAccess_ok {sl c r o u : UUID} {a : ContactAccess}
    (h : stmt p (.grantContactAccess sl c r o u) x s = some (.ok a, t)) :
    a.offerID = o ∧ a.grant = ⟨sl, c, r⟩ ∧ a.status = .GRANTED ∧ a.expiresAt = none ∧
      (s.view p).rowsOf a.accessID = [] ∧ (∀ b ∈ (s.view p).accessesOf o, b.customerID ≠ c) ∧
      s.put p (.grantContactAccess a) = some t := by
  simp only [stmt] at h
  split at h
  · cases h
  · split at h
    · exact (failing_ok h).elim
    · rename_i hid
      split at h
      · exact (failing_ok h).elim
      · rename_i hn
        obtain ⟨e, hp⟩ := writing_eq h
        cases e
        refine ⟨rfl, rfl, rfl, rfl, not_not.mp hid, fun b hb e => hn ?_, hp⟩
        exact List.any_eq_true.mpr ⟨b, hb, by simpa using e⟩

theorem revokeContactAccess_ok {i : UUID} {a : ContactAccess}
    (h : stmt p (.revokeContactAccess i) x s = some (.ok a, t)) :
    ∃ row, (s.view p).findAccess i = some row ∧ row.status = .GRANTED ∧ a = row.revoked ∧
      s.put p (.revokeContactAccess i) = some t := by
  simp only [stmt] at h
  split at h
  · cases h
  · split at h
    · rename_i row hrow
      split at h
      · rename_i hst
        obtain ⟨e, hp⟩ := writing_eq h
        cases e
        exact ⟨row, hrow, hst, rfl, hp⟩
      · exact (failing_ok h).elim
    · exact (failing_ok h).elim

theorem insertOutbox_ok {key : RoutingKey} {ns : List Notification} {a : Unit}
    (h : stmt p (.insertOutbox key ns) x s = some (.ok a, t)) :
    s.put p (.insertOutbox (NotificationOutbox.of x.id x.tag key ns (s.now p))) = some t := by
  simp only [stmt] at h
  split at h
  · cases h
  · split at h
    · exact (failing_ok h).elim
    · exact (writing_eq h).2

end

end

/-! ## remote calls -/

/-- `ErrNotFound`, `ErrConflict`, `ErrUnavailable` of the clients -/
inductive ClientErr where
  | notFound
  | conflict
  | unavailable
  deriving DecidableEq, Repr

/-- the status codes of the route, as the client reads them -/
def clientErr : Offers.Err → ClientErr
  | .offerNotFound => .notFound
  | .offerAlreadyMade _ => .conflict
  | .offerNotPending => .conflict
  | .notOfferOwner => .unavailable
  | .pg _ => .unavailable

structure Customer where
  userID : UUID
  firstName : String
  lastName : String
  deriving DecidableEq, Repr

inductive Remote where
  | offersGet (offerID : UUID)
  | sendStatus (offerID : UUID) (status : Decision)
  | awaitStatus (offerID : UUID) (status : Decision)
  | participantCustomerIDs (requestID : UUID)
  | resolveSellerID (userID : UUID)
  | resolveUserID (sellerID : UUID)
  | resolveCustomer (customerID : UUID)
  | phone (userID : UUID)
  deriving DecidableEq, Repr

@[reducible]
def Reply : Remote → Type
  | .offersGet _ => Except ClientErr OfferOut
  | .sendStatus _ _ => Unit
  | .awaitStatus _ _ => Except ClientErr OfferOut
  | .participantCustomerIDs _ => Except ClientErr (List UUID)
  | .resolveSellerID _ => Except ClientErr UUID
  | .resolveUserID _ => Except ClientErr UUID
  | .resolveCustomer _ => Except ClientErr Customer
  | .phone _ => Except ClientErr String

/-- whoever answers the remote calls -/
structure Outside (P E Y : Type) where
  remote : P → (r : Remote) → Choice Y → E → Option (Reply r × E)
  env : Choice Y → E → Option E
  get_id : ∀ {p o x e info e'}, remote p (.offersGet o) x e = some (.ok info, e') →
    info.offerID = o

/-- what a call has done so far -/
inductive Event where
  | remote (r : Remote) (a : Reply r)
  | listed (d : Db) (now : Time)
  | counted (d : Db) (now : Time)

/-- the outside, with the events of every call, oldest first -/
structure Ext (P E : Type) where
  out : E
  trace : P → List Event

section
variable {P E Y : Type} [DecidableEq P]

def Ext.record (e : Ext P E) (p : P) (ev : Event) : Ext P E :=
  { e with trace := Function.update e.trace p (e.trace p ++ [ev]) }

theorem record_self (e : Ext P E) (p : P) (ev : Event) :
    (e.record p ev).trace p = e.trace p ++ [ev] := Function.update_self ..

theorem record_other (e : Ext P E) {p q : P} (h : q ≠ p) (ev : Event) :
    (e.record p ev).trace q = e.trace q := Function.update_of_ne h ..

def note (p : P) (q : Stmt) (x : Choice Y) (s : St P) (e : Ext P E) : Ext P E :=
  match q with
  | .listGrantedForSellerRequest _ _ => e.record p (.listed (s.view p) x.now)
  | .countEffectiveAccess _ _ _ => e.record p (.counted (s.view p) x.now)
  | _ => e

def spec (out : Outside P E Y) : Spec P Db Write Lock (Ext P E) Y Row Reply where
  stmt := stmt
  note := note
  remote p r x e :=
    (out.remote p r x e.out).map fun a => (a.1, { e with out := a.2 }.record p (.remote r a.1))
  env x e := (out.env x e.out).map fun o => { e with out := o }
  quiet := stmt_quiet

end

/-! ## service.go -/

inductive Err where
  | offerNotFound
  | offerNotPending (status : OfferStatus)
  | requestGone
  | requestNoBuyers
  | alreadyDecided
  | accessNotFound
  | alreadyRevoked (status : AccessStatus)
  | noContactAccess
  | client (e : ClientErr)
  | pg (e : PgErr)
  | wrap (text : String) (e : Err)
  deriving DecidableEq, Repr

abbrev Op (α : Type) : Type := Call Row Reply Err α

def inTx {α : Type} (fn : Op α) : Op α :=
  Service.inTx (fun e => .wrap "beginning transaction" (.pg e)) .pg fn

def query (q : Stmt) : Op (Except PgErr (Row q)) := Service.query q

def remote (r : Remote) : Op (Reply r) := Service.remote r

/-- a statement whose error is passed on under a text -/
def exec (text : String) (q : Stmt) : Op (Row q) := Service.sql (fun e => .wrap text (.pg e)) q

def enqueue (key : RoutingKey) (ns : List Notification) : Op Unit :=
  if ns = [] then pure ()
  else exec ("enqueuing " ++ key.text) (.insertOutbox key ns)

structure DecideInput where
  offerID : UUID
  adminUserID : UUID
  decision : Decision
  reason : String
  deriving DecidableEq, Repr

structure DecideResult where
  decision : OfferDecision
  contactsGranted : Nat
  sellerID : UUID
  requestID : UUID
  deriving DecidableEq, Repr

/-- `decisionBody.validate`; the body may be left out, and then the reason is empty -/
def validateReason (reason : String) : Except String String :=
  if 1000 < (trimSpace reason).utf8ByteSize then .error "reason must be at most 1000 characters"
  else .ok (trimSpace reason)

/-- the reason comes from a body that the handler lets pass -/
def DecideInput.Admitted (inp : DecideInput) : Prop :=
  inp.reason = "" ∨ ∃ reason, validateReason reason = .ok inp.reason

def outcomeNotification (sellerUserID : UUID) (inp : DecideInput) : Notification where
  userID := sellerUserID
  type := match inp.decision with
    | .APPROVED => "OFFER_APPROVED"
    | .REJECTED => "OFFER_REJECTED"
  channel := ""
  title := match inp.decision with
    | .APPROVED => "Your offer was approved"
    | .REJECTED => "Your offer was not approved"
  message := (match inp.decision with
    | .APPROVED => "An admin approved your offer."
    | .REJECTED => "An admin reviewed your offer and did not approve it.") ++
    if inp.reason = "" then "" else " Reason: " ++ inp.reason

def accessNotification (sellerUserID : UUID) (contactsGranted : Nat) : Notification where
  userID := sellerUserID
  type := "CONTACT_ACCESS_GRANTED"
  channel := ""
  title := "You can now contact the customers"
  message := "You have been granted contact access to " ++ toString contactsGranted ++
    " customer(s) on this request."

def outcomeKey : Decision → RoutingKey
  | .APPROVED => .offerApproved
  | .REJECTED => .offerRejected

def enqueueDecisionEvents (sellerUserID : UUID) (inp : DecideInput) (contactsGranted : Nat) :
    Op Unit := do
  enqueue (outcomeKey inp.decision) [outcomeNotification sellerUserID inp]
  if inp.decision ≠ .APPROVED ∨ contactsGranted = 0 then pure ()
  else enqueue .contactAccessGranted [accessNotification sellerUserID contactsGranted]

/-- the customers behind the request; a rejection reads none -/
def buyers (decision : Decision) (offer : OfferOut) : Op (List UUID) :=
  match decision with
  | .REJECTED => pure []
  | .APPROVED => do
    match ← remote (.participantCustomerIDs offer.requestID) with
    | .error .notFound => throw .requestGone
    | .error e => throw (.client e)
    | .ok [] => throw .requestNoBuyers
    | .ok customerIDs => pure customerIDs

/-- the unique constraint on offer_id, not a prior read, refuses a second decision -/
def recordDecision (inp : DecideInput) : Op OfferDecision := do
  match ← query (.recordDecision inp.offerID inp.adminUserID inp.decision inp.reason) with
  | .ok decision => pure decision
  | .error .uniqueViolation => throw .alreadyDecided
  | .error e => throw (.wrap "recording decision" (.pg e))

def grantAll (inp : DecideInput) (offer : OfferOut) : List UUID → Op Unit
  | [] => pure ()
  | customerID :: customerIDs => do
    let _ ← exec "granting contact access" (.grantContactAccess offer.sellerID customerID
      offer.requestID offer.offerID inp.adminUserID)
    grantAll inp offer customerIDs

/-- `Offers.SetStatus` -/
def setStatus (inp : DecideInput) : Op Unit := do
  remote (.sendStatus inp.offerID inp.decision)
  match ← remote (.awaitStatus inp.offerID inp.decision) with
  | .ok _ => pure ()
  | .error .conflict => throw .alreadyDecided
  | .error .notFound => throw .offerNotFound
  | .error e => throw (.client e)

def notifySeller (sellerUserID : UUID) (inp : DecideInput) (contactsGranted : Nat) : Op Unit :=
  if sellerUserID = UUID.nil then pure ()
  else enqueueDecisionEvents sellerUserID inp contactsGranted

/-- the transaction of `Decide`: the local rows, the remote status, the events -/
def recordOutcome (inp : DecideInput) (offer : OfferOut) (sellerUserID : UUID)
    (customerIDs : List UUID) : Op DecideResult := do
  let decision ← recordDecision inp
  grantAll inp offer customerIDs
  setStatus inp
  notifySeller sellerUserID inp customerIDs.length
  return ⟨decision, customerIDs.length, offer.sellerID, offer.requestID⟩

/-- an id that the response did not carry is an error -/
def present : Except ClientErr UUID → Except ClientErr UUID
  | .ok u => if u = UUID.nil then .error .unavailable else .ok u
  | .error e => .error e

/-- the rest of `Decide` once the offer has been read -/
def decideOffer (inp : DecideInput) (offer : OfferOut) : Op DecideResult := do
  if offer.status ≠ .PENDING then throw (.offerNotPending offer.status)
  else do
    let sellerUserID ← remote (.resolveUserID offer.sellerID)
    let customerIDs ← buyers inp.decision offer
    inTx (recordOutcome inp offer ((present sellerUserID).toOption.getD UUID.nil) customerIDs)

def decide (inp : DecideInput) : Op DecideResult := do
  match ← remote (.offersGet inp.offerID) with
  | .error .notFound => throw .offerNotFound
  | .error e => throw (.client e)
  | .ok offer => decideOffer inp offer

/-- a single statement is its own transaction -/
def autocommit (q : Stmt) : Op (Except PgErr (Row q)) := do
  match ← attempt (Service.inTx id id (Service.sql id q)) with
  | .ok a => return .ok a
  | .error e => return .error e

def revoke (accessID : UUID) : Op ContactAccess := do
  match ← autocommit (.revokeContactAccess accessID) with
  | .ok revoked => pure revoked
  | .error .noRows => do
    match ← query (.getContactAccess accessID) with
    | .ok existing => throw (.alreadyRevoked existing.status)
    | .error .noRows => throw .accessNotFound
    | .error e => throw (.pg e)
  | .error e => throw (.pg e)

structure Contact where
  customerID : UUID
  firstName : String
  lastName : String
  phoneNumber : String
  deriving DecidableEq, Repr

/-- customerId to userId to phone -/
def contactOf (grant : ContactAccess) : Op Contact := do
  match ← remote (.resolveCustomer grant.customerID) with
  | .error e => throw (.wrap ("resolving customer " ++ toString grant.customerID) (.client e))
  | .ok customer =>
    if customer.userID = UUID.nil then
      throw (.wrap ("resolving customer " ++ toString grant.customerID) (.client .unavailable))
    else do
      match ← remote (.phone customer.userID) with
      | .error e =>
        throw (.wrap ("reading phone for customer " ++ toString grant.customerID) (.client e))
      | .ok phone => return ⟨grant.customerID, customer.firstName, customer.lastName, phone⟩

def contactsOf : List ContactAccess → Op (List Contact)
  | [] => return []
  | grant :: grants => do
    let contact ← contactOf grant
    let contacts ← contactsOf grants
    return contact :: contacts

def contactsForRequest (userID requestID : UUID) : Op (List Contact) := do
  match present (← remote (.resolveSellerID userID)) with
  | .error e => throw (.client e)
  | .ok sellerID => do
    match ← query (.listGrantedForSellerRequest sellerID requestID) with
    | .error e => throw (.pg e)
    | .ok [] => throw .noContactAccess
    | .ok grants => contactsOf grants

/-- `optionalUUID`: the zero uuid is no filter -/
def optionalUUID (u : UUID) : Option UUID := if u = UUID.nil then none else some u

def hasContactAccess (sellerID customerID requestID : UUID) : Op Bool := do
  match ← query (.countEffectiveAccess sellerID customerID (optionalUUID requestID)) with
  | .error e => throw (.pg e)
  | .ok (count : Nat) => return count > 0

/-! ## the calls as processes -/

inductive Invocation where
  | decide (inp : DecideInput)
  | revoke (accessID : UUID)
  | contactsForRequest (userID requestID : UUID)
  | hasContactAccess (sellerID customerID requestID : UUID)
  deriving DecidableEq, Repr

inductive Answer where
  | decided (result : DecideResult)
  | revoked (access : ContactAccess)
  | contacts (contacts : List Contact)
  | access (granted : Bool)
  deriving DecidableEq, Repr

def answering {α : Type} (f : α → Answer) (op : Op α) : Op Answer := do
  let a ← op
  return f a

def Invocation.op : Invocation → Op Answer
  | .decide inp => answering .decided (Admin.decide inp)
  | .revoke a => answering .revoked (Admin.revoke a)
  | .contactsForRequest u r => answering .contacts (Admin.contactsForRequest u r)
  | .hasContactAccess s c r => answering .access (Admin.hasContactAccess s c r)

abbrev Config (P E : Type) : Type :=
  Conf P (Cmd Stmt Remote) (Ans Row Reply) (State P Db Write Lock (Ext P E)) (Except Err Answer)

/-- any number of calls on a database with the contents `d`, none of them begun -/
def start {P E : Type} (calls : P → Invocation) (d : Db) (e : E) : Config P E where
  state := { store := Store.fresh d, ext := { out := e, trace := fun _ => [] } }
  prog p := some (calls p).op.run

end Marketplace.Admin
