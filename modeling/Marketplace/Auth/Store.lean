import Marketplace.Auth.Jwt
import Marketplace.Lib.Table

/-!
# auth-service: tables, row writes, locks

The tables of the migrations, as far as sessions use them.  A user is only read.

* `User`, `RefreshToken`, `Db`   the rows;
* `Write`            an insert, and an update of a row by its id.  No code assigns a hash, so an update
                     leaves it alone;
* `Lock`             a row of refresh_tokens, and an entry of the unique index on token_hash.
-/

namespace Marketplace.Auth

open Table ReadCommitted

inductive Role where
  | CUSTOMER
  | SELLER
  | ADMIN
  deriving DecidableEq, Repr

def Role.name : Role → String
  | .CUSTOMER => "CUSTOMER"
  | .SELLER => "SELLER"
  | .ADMIN => "ADMIN"

inductive UserStatus where
  | ACTIVE
  | BLOCKED
  deriving DecidableEq, Repr

/-- a row of users -/
structure User where
  userID : UUID
  email : String
  passwordHash : String
  role : Role
  status : UserStatus
  deriving DecidableEq, Repr

def User.isActive (u : User) : Bool := u.status = .ACTIVE

/-- a row of refresh_tokens -/
structure RefreshToken where
  tokenID : UUID
  userID : UUID
  tokenHash : String
  expiresAt : Time
  revoked : Bool
  createdAt : Time
  deriving DecidableEq, Repr

def RefreshToken.isUsable (t : RefreshToken) (now : Time) : Bool := !t.revoked && now < t.expiresAt

structure Db where
  users : List User
  tokens : List RefreshToken
  deriving DecidableEq, Repr

def Db.findUser (d : Db) (u : UUID) : Option User := d.users.find? (·.userID == u)
def Db.findByEmail (d : Db) (email : String) : Option User := d.users.find? (·.email == email)
def Db.find (d : Db) (i : UUID) : Option RefreshToken := d.tokens.find? (·.tokenID == i)
def Db.findByTokenHash (d : Db) (h : String) : Option RefreshToken :=
  d.tokens.find? (·.tokenHash == h)

def Db.rowsOf (d : Db) (i : UUID) : List RefreshToken := d.tokens.filter (·.tokenID == i)
def Db.rowsWith (d : Db) (h : String) : List RefreshToken := d.tokens.filter (·.tokenHash == h)

/-! ## row writes -/

inductive Write where
  | insertToken (t : RefreshToken)
  | updateToken (i : UUID) (new : RefreshToken)
  deriving DecidableEq, Repr

/-- the columns that an update sets -/
def RefreshToken.set (new t : RefreshToken) : RefreshToken :=
  { t with userID := new.userID, expiresAt := new.expiresAt, revoked := new.revoked }

def Write.apply : Write → Db → Db
  | .insertToken t, d => { d with tokens := d.tokens ++ [t] }
  | .updateToken i new, d => { d with tokens := updateWhere (·.tokenID == i) new.set d.tokens }

/-! ## locks -/

inductive Lock where
  | token (i : UUID)
  | hash (h : String)
  deriving DecidableEq, Repr

def Write.takes : Write → List Lock
  | .insertToken t => [.token t.tokenID, .hash t.tokenHash]
  | .updateToken i _ => [.token i]

/-- the rows that the unique index gives for a hash -/
def Db.entries (d : Db) (h : String) : List UUID := (d.rowsWith h).map (·.tokenID)

def Db.sameUnder : Lock → Db → Db → Prop
  | .token i, d, e => d.rowsOf i = e.rowsOf i
  | .hash h, d, e => d.entries h = e.entries h

theorem rowsOf_updateToken (i : UUID) (new : RefreshToken) (d : Db) (k : UUID) :
    (Write.apply (.updateToken i new) d).rowsOf k =
      updateWhere (·.tokenID == i) new.set (d.rowsOf k) :=
  filter_updateWhere _ _ _ (by intro x _; rfl) _

theorem entries_updateToken (i : UUID) (new : RefreshToken) (d : Db) (h : String) :
    (Write.apply (.updateToken i new) d).entries h = d.entries h := by
  show ((updateWhere _ new.set d.tokens).filter _).map _ = _
  rw [filter_updateWhere _ _ _ (by intro x _; rfl), map_updateWhere _ _ _ (by intro x _; rfl)]
  rfl

theorem sameUnder_apply {l : Lock} {w : Write} (d : Db) (h : l ∉ w.takes) :
    Db.sameUnder l d (w.apply d) := by
  cases w with
  | insertToken t =>
    simp only [Write.takes, List.mem_cons, List.not_mem_nil, or_false, not_or] at h
    cases l with
    | token i =>
      have hi : t.tokenID ≠ i := fun e => h.1 (congrArg Lock.token e.symm)
      show d.rowsOf i = _
      simp [Write.apply, Db.rowsOf, hi]
    | hash k =>
      have hk : t.tokenHash ≠ k := fun e => h.2 (congrArg Lock.hash e.symm)
      show d.entries k = _
      simp [Write.apply, Db.entries, Db.rowsWith, hk]
  | updateToken j new =>
    cases l with
    | token i =>
      have hi : i ≠ j := fun e => h (by simp [Write.takes, e])
      show d.rowsOf i = _
      rw [rowsOf_updateToken]
      refine (updateWhere_eq_self _ _ _ fun x hx => ?_).symm
      have hx' : x.tokenID = i := by simpa using (List.mem_filter.mp hx).2
      simp [hx', hi]
    | hash k =>
      show d.entries k = _
      rw [entries_updateToken]

theorem sameUnder_congr {l : Lock} {d e : Db} (w : Write) (h : Db.sameUnder l d e) :
    Db.sameUnder l (w.apply d) (w.apply e) := by
  cases w with
  | insertToken t =>
    cases l with
    | token i =>
      have h' : d.rowsOf i = e.rowsOf i := h
      show (Write.apply _ d).rowsOf i = (Write.apply _ e).rowsOf i
      simp only [Db.rowsOf] at h'
      simp only [Write.apply, Db.rowsOf, List.filter_append]
      rw [h']
    | hash k =>
      have h' : d.entries k = e.entries k := h
      show (Write.apply _ d).entries k = (Write.apply _ e).entries k
      simp only [Db.entries, Db.rowsWith] at h'
      simp only [Write.apply, Db.entries, Db.rowsWith, List.filter_append, List.map_append]
      rw [h']
  | updateToken j new =>
    cases l with
    | token i =>
      have h' : d.rowsOf i = e.rowsOf i := h
      show (Write.apply _ d).rowsOf i = (Write.apply _ e).rowsOf i
      rw [rowsOf_updateToken, rowsOf_updateToken, h']
    | hash k =>
      have h' : d.entries k = e.entries k := h
      show (Write.apply _ d).entries k = (Write.apply _ e).entries k
      rw [entries_updateToken, entries_updateToken, h']

/-- the database itself takes every lock that is needed -/
instance : Schema Db Write Lock where
  apply := Write.apply
  takes := Write.takes
  guards := Write.takes
  same := Db.sameUnder
  same_refl l d := by cases l <;> rfl
  same_trans {l} _ _ _ h h' := by cases l <;> exact Eq.trans h h'
  same_apply := sameUnder_apply
  same_congr := sameUnder_congr

end Marketplace.Auth
