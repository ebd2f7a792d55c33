import Marketplace.Offers.Service

/-!
# admin-service: tables, row writes, locks

The tables of the migrations: one decision per offer, one grant per offer and customer.

* `Db`, `Write`      the rows, and the writes of `queries/admin.sql`;
* `Db.grantsOf`      what the grants of an offer say, their status apart: it is under the lock of the
                     offer's decision, because a decision and its grants are written together,
                     while a revoke changes only the status, under the lock of the row.
-/

namespace Marketplace.Admin

open Table Events ReadCommitted
open Offers (Decision)

/-- a row of offer_decision -/
structure OfferDecision where
  decisionID : UUID
  offerID : UUID
  adminUserID : UUID
  decision : Decision
  reason : String
  decidedAt : Time
  deriving DecidableEq, Repr

inductive AccessStatus where
  | GRANTED
  | REVOKED
  | EXPIRED
  deriving DecidableEq, Repr

/-- a row of contact_access -/
structure ContactAccess where
  accessID : UUID
  sellerID : UUID
  customerID : UUID
  requestID : UUID
  offerID : UUID
  status : AccessStatus
  grantedBy : UUID
  grantedAt : Time
  expiresAt : Option Time
  deriving DecidableEq, Repr

/-- who may reach whom about what -/
structure Grant where
  sellerID : UUID
  customerID : UUID
  requestID : UUID
  deriving DecidableEq, Repr

def ContactAccess.grant (a : ContactAccess) : Grant := ⟨a.sellerID, a.customerID, a.requestID⟩

structure Db where
  decisions : List OfferDecision
  accesses : List ContactAccess
  outbox : List NotificationOutbox
  deriving DecidableEq, Repr

def Db.empty : Db := ⟨[], [], []⟩

def Db.decisionsOf (d : Db) (o : UUID) : List OfferDecision := d.decisions.filter (·.offerID == o)
def Db.accessesOf (d : Db) (o : UUID) : List ContactAccess := d.accesses.filter (·.offerID == o)
def Db.grantsOf (d : Db) (o : UUID) : List Grant := (d.accessesOf o).map (·.grant)
def Db.rowsOf (d : Db) (a : UUID) : List ContactAccess := d.accesses.filter (·.accessID == a)

/-! ## row writes and locks -/

inductive Write where
  | recordDecision (dec : OfferDecision)
  | grantContactAccess (row : ContactAccess)
  | revokeContactAccess (accessID : UUID)
  | insertOutbox (row : NotificationOutbox)
  deriving DecidableEq, Repr

/-- `SET status = 'REVOKED'` -/
def ContactAccess.revoked (a : ContactAccess) : ContactAccess := { a with status := .REVOKED }

def Write.apply : Write → Db → Db
  | .recordDecision dec, d => { d with decisions := d.decisions ++ [dec] }
  | .grantContactAccess row, d => { d with accesses := d.accesses ++ [row] }
  | .revokeContactAccess a, d =>
    { d with
      accesses := updateWhere (fun row => row.accessID == a && row.status == .GRANTED)
        ContactAccess.revoked d.accesses }
  | .insertOutbox row, d => { d with outbox := d.outbox ++ [row] }

inductive Lock where
  | decision (o : UUID)
  | grant (o c : UUID)
  | access (a : UUID)
  | event (e : UUID)
  deriving DecidableEq, Repr

def Write.takes : Write → List Lock
  | .recordDecision dec => [.decision dec.offerID]
  | .grantContactAccess row => [.grant row.offerID row.customerID, .access row.accessID]
  | .revokeContactAccess a => [.access a]
  | .insertOutbox row => [.event row.eventID]

/-- a grant is written under the lock of the decision it follows from -/
def Write.guards : Write → List Lock
  | .grantContactAccess row => [.decision row.offerID, .access row.accessID]
  | w => w.takes

def Db.sameUnder : Lock → Db → Db → Prop
  | .decision o, d, e => d.decisionsOf o = e.decisionsOf o ∧ d.grantsOf o = e.grantsOf o
  | .access a, d, e => d.rowsOf a = e.rowsOf a
  | _, _, _ => True

theorem grantsOf_revoke (a o : UUID) (d : Db) :
    (Write.apply (.revokeContactAccess a) d).grantsOf o = d.grantsOf o := by
  show ((updateWhere _ _ d.accesses).filter _).map _ = _
  rw [filter_updateWhere _ _ _ (by intro x _; rfl), map_updateWhere _ _ _ (by intro x _; rfl)]
  rfl

theorem sameUnder_apply {l : Lock} {w : Write} (d : Db) (h : l ∉ w.guards) :
    Db.sameUnder l d (w.apply d) := by
  cases w with
  | recordDecision dec =>
    cases l with
    | decision o =>
      have ho : dec.offerID ≠ o := fun e => h (by simp [Write.guards, Write.takes, e])
      refine ⟨?_, rfl⟩
      simp [Write.apply, Db.decisionsOf, ho]
    | access a => rfl
    | grant o c => trivial
    | event e => trivial
  | grantContactAccess row =>
    simp only [Write.guards, List.mem_cons, List.not_mem_nil, or_false, not_or] at h
    cases l with
    | decision o =>
      have ho : row.offerID ≠ o := fun e => h.1 (congrArg Lock.decision e.symm)
      refine ⟨rfl, ?_⟩
      simp [Write.apply, Db.grantsOf, Db.accessesOf, ho]
    | access a =>
      have ha : row.accessID ≠ a := fun e => h.2 (congrArg Lock.access e.symm)
      show d.rowsOf a = _
      simp [Write.apply, Db.rowsOf, ha]
    | grant o c => trivial
    | event e => trivial
  | revokeContactAccess b =>
    cases l with
    | decision o => exact ⟨rfl, (grantsOf_revoke b o d).symm⟩
    | access a =>
      have ha : a ≠ b := fun e => h (by simp [Write.guards, Write.takes, e])
      show d.rowsOf a = (updateWhere _ _ d.accesses).filter _
      rw [filter_updateWhere _ _ _ (by intro x _; rfl)]
      refine (updateWhere_eq_self _ _ _ (fun x hx => ?_)).symm
      have hx' : x.accessID = a := by simpa using (List.mem_filter.mp hx).2
      simp [hx', ha]
    | grant o c => trivial
    | event e => trivial
  | insertOutbox row => cases l <;> first | exact ⟨rfl, rfl⟩ | rfl | trivial

theorem sameUnder_congr {l : Lock} {d e : Db} (w : Write) (h : Db.sameUnder l d e) :
    Db.sameUnder l (w.apply d) (w.apply e) := by
  cases w with
  | recordDecision dec =>
    cases l with
    | decision o =>
      have h1 := h.1
      refine ⟨?_, h.2⟩
      simp only [Db.decisionsOf] at h1
      simp only [Write.apply, Db.decisionsOf, List.filter_append]
      rw [h1]
    | access a => exact h
    | grant o c => trivial
    | event e => trivial
  | grantContactAccess row =>
    cases l with
    | decision o =>
      have h2 := h.2
      refine ⟨h.1, ?_⟩
      simp only [Db.grantsOf, Db.accessesOf] at h2
      simp only [Write.apply, Db.grantsOf, Db.accessesOf, List.filter_append, List.map_append]
      rw [h2]
    | access a =>
      have h' : d.rowsOf a = e.rowsOf a := h
      show (Write.apply _ d).rowsOf a = (Write.apply _ e).rowsOf a
      simp only [Db.rowsOf] at h'
      simp only [Write.apply, Db.rowsOf, List.filter_append]
      rw [h']
    | grant o c => trivial
    | event e => trivial
  | revokeContactAccess b =>
    cases l with
    | decision o =>
      refine ⟨h.1, ?_⟩
      rw [grantsOf_revoke, grantsOf_revoke]
      exact h.2
    | access a =>
      have h' : d.rowsOf a = e.rowsOf a := h
      show (Write.apply _ d).rowsOf a = (Write.apply _ e).rowsOf a
      simp only [Db.rowsOf] at h'
      simp only [Write.apply, Db.rowsOf]
      rw [filter_updateWhere _ _ _ (by intro x _; rfl), filter_updateWhere _ _ _ (by intro x _; rfl),
        h']
    | grant o c => trivial
    | event e => trivial
  | insertOutbox row => cases l <;> exact h

instance : Schema Db Write Lock where
  apply := Write.apply
  takes := Write.takes
  guards := Write.guards
  same := Db.sameUnder
  same_refl l d := by cases l <;> first | exact ⟨rfl, rfl⟩ | rfl | trivial
  same_trans {l} _ _ _ h h' := by
    cases l <;> first
      | exact ⟨h.1.trans h'.1, h.2.trans h'.2⟩
      | exact Eq.trans h h'
      | trivial
  same_apply := sameUnder_apply
  same_congr := sameUnder_congr

end Marketplace.Admin
