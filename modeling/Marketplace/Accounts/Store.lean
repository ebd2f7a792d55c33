import Marketplace.Auth.Store
import Marketplace.Lib.UniqueKeys
import Marketplace.Accounts.Registry

/-!
# Accounts and profiles: the rows of three databases

auth-service keeps the users, customer-service and seller-service the profiles, each in a database
of its own; a transaction writes in one of them.  Here the rows of all three are one list.

* `User`, `Customer`, `Seller`   the rows; timestamps and the rating, which is 0.0 in every row, are
                     left out;
* `Key`              the primary keys and the unique columns;
* `Row.fits`         the lengths of the columns;
* `accountOf`, `profileOf`, `onRegistry`   the registry that the rows hold.
-/

set_option linter.unusedSectionVars false

namespace Marketplace.Accounts

open Auth (Role UserStatus)
open UniqueKeys

/-- a row of users -/
structure User where
  userID : UUID
  email : String
  phoneNumber : String
  passwordHash : String
  role : Role
  status : UserStatus
  deriving DecidableEq, Repr

inductive ProfileStatus where
  | ACTIVE
  | INACTIVE
  deriving DecidableEq, Repr

/-- a row of customers -/
structure Customer where
  customerID : UUID
  userID : UUID
  firstName : String
  lastName : String
  profileStatus : ProfileStatus
  deriving DecidableEq, Repr

/-- a row of sellers -/
structure Seller where
  sellerID : UUID
  userID : UUID
  storeName : String
  description : Option String
  city : Option String
  address : Option String
  deriving DecidableEq, Repr

/-- the two services that keep profiles -/
inductive Kind where
  | customer
  | seller
  deriving DecidableEq, Repr

/-- the role that a profile needs -/
def Kind.role : Kind → Role
  | .customer => .CUSTOMER
  | .seller => .SELLER

theorem Kind.role_injective : Function.Injective Kind.role := by
  intro k l h
  cases k <;> cases l <;> first | rfl | cases h

inductive Profile where
  | customer (c : Customer)
  | seller (s : Seller)
  deriving DecidableEq, Repr

namespace Profile

def kind : Profile → Kind
  | .customer _ => .customer
  | .seller _ => .seller

def profileID : Profile → UUID
  | .customer c => c.customerID
  | .seller s => s.sellerID

def userID : Profile → UUID
  | .customer c => c.userID
  | .seller s => s.userID

/-- the new row under its generated id -/
def withID (i : UUID) : Profile → Profile
  | .customer c => .customer { c with customerID := i }
  | .seller s => .seller { s with sellerID := i }

@[simp] theorem kind_withID (i : UUID) (f : Profile) : (f.withID i).kind = f.kind := by
  cases f <;> rfl

@[simp] theorem profileID_withID (i : UUID) (f : Profile) : (f.withID i).profileID = i := by
  cases f <;> rfl

@[simp] theorem userID_withID (i : UUID) (f : Profile) : (f.withID i).userID = f.userID := by
  cases f <;> rfl

end Profile

inductive Row where
  | user (u : User)
  | profile (f : Profile)
  deriving DecidableEq, Repr

/-- the primary keys, and the columns that are unique -/
inductive Key where
  | user (i : UUID)
  | email (e : String)
  | phone (n : String)
  | profile (k : Kind) (i : UUID)
  | owner (k : Kind) (u : UUID)
  deriving DecidableEq, Repr

def Row.keys : Row → List Key
  | .user u => [.user u.userID, .email u.email, .phone u.phoneNumber]
  | .profile f => [.profile f.kind f.profileID, .owner f.kind f.userID]

instance : Keyed Row Key := ⟨Row.keys⟩

abbrev Db := Rows Row
abbrev Write := Edit Row

/-- the columns are long enough -/
def Row.fits : Row → Bool
  | .user u => u.email.length ≤ 255 && u.phoneNumber.length ≤ 50 && u.passwordHash.length ≤ 255
  | .profile (.customer c) => c.firstName.length ≤ 100 && c.lastName.length ≤ 100
  | .profile (.seller s) => s.storeName.length ≤ 255 &&
      s.city.all (·.length ≤ 255) && s.address.all (·.length ≤ 500)

def Row.user? : Row → Option User
  | .user u => some u
  | .profile _ => none

def Row.profile? : Row → Option Profile
  | .user _ => none
  | .profile f => some f

/-! ## the keys of a row -/

theorem user_key {r : Row} {i : UUID} (h : Key.user i ∈ keys r) :
    ∃ u, r = .user u ∧ u.userID = i := by
  cases r with
  | user u => exact ⟨u, rfl, by simpa [keys, Row.keys, eq_comm] using h⟩
  | profile f => simp [keys, Row.keys] at h

theorem email_key {r : Row} {e : String} (h : Key.email e ∈ keys r) :
    ∃ u, r = .user u ∧ u.email = e := by
  cases r with
  | user u => exact ⟨u, rfl, by simpa [keys, Row.keys, eq_comm] using h⟩
  | profile f => simp [keys, Row.keys] at h

theorem phone_key {r : Row} {n : String} (h : Key.phone n ∈ keys r) :
    ∃ u, r = .user u ∧ u.phoneNumber = n := by
  cases r with
  | user u => exact ⟨u, rfl, by simpa [keys, Row.keys, eq_comm] using h⟩
  | profile f => simp [keys, Row.keys] at h

theorem profile_key {r : Row} {k : Kind} {i : UUID} (h : Key.profile k i ∈ keys r) :
    ∃ f, r = .profile f ∧ f.kind = k ∧ f.profileID = i := by
  cases r with
  | user u => simp [keys, Row.keys] at h
  | profile f => exact ⟨f, rfl, by simpa [keys, Row.keys, eq_comm] using h⟩

theorem owner_key {r : Row} {k : Kind} {u : UUID} (h : Key.owner k u ∈ keys r) :
    ∃ f, r = .profile f ∧ f.kind = k ∧ f.userID = u := by
  cases r with
  | user u => simp [keys, Row.keys] at h
  | profile f => exact ⟨f, rfl, by simpa [keys, Row.keys, eq_comm] using h⟩

/-! ## the registry that the rows hold -/

abbrev Members := Registry UUID String String Role Kind

def User.account (u : User) : Account String String Role := ⟨u.email, u.phoneNumber, u.role⟩

def accountOf (d : Db) (u : UUID) : Option (Account String String Role) :=
  ((d.lookup (.user u)).bind Row.user?).map User.account

def profileOf (d : Db) (k : Kind) (i : UUID) : Option UUID :=
  ((d.lookup (.profile k i)).bind Row.profile?).map Profile.userID

def onRegistry (d : Db) : Members := ⟨accountOf d, profileOf d⟩

theorem accountOf_congr {d e : Db} {u : UUID} (h : d.under (.user u) = e.under (.user u)) :
    accountOf e u = accountOf d u := by
  unfold accountOf Rows.lookup
  rw [h]

theorem profileOf_congr {d e : Db} {k : Kind} {i : UUID}
    (h : d.under (.profile k i) = e.under (.profile k i)) : profileOf e k i = profileOf d k i := by
  unfold profileOf Rows.lookup
  rw [h]

variable {d : Db}

theorem accountOf_row {u : User} (hd : d.Unique) (h : Row.user u ∈ d.rows) :
    accountOf d u.userID = some u.account := by
  have hm : Row.user u ∈ d.under (.user u.userID) :=
    mem_under.mpr ⟨h, by simp [keys, Row.keys]⟩
  unfold accountOf
  rw [hd.lookup hm]
  rfl

theorem accountOf_some {u : UUID} {a : Account String String Role} (h : accountOf d u = some a) :
    ∃ x : User, Row.user x ∈ d.rows ∧ x.userID = u ∧ x.account = a := by
  obtain ⟨x, hx, rfl⟩ := Option.map_eq_some_iff.mp h
  obtain ⟨r, hr, hx⟩ := Option.bind_eq_some_iff.mp hx
  obtain ⟨hmem, hk⟩ := mem_under.mp (mem_of_lookup hr)
  obtain ⟨y, rfl, hy⟩ := user_key hk
  cases hx
  exact ⟨x, hmem, hy, rfl⟩

theorem profileOf_row {f : Profile} (hd : d.Unique) (h : Row.profile f ∈ d.rows) :
    profileOf d f.kind f.profileID = some f.userID := by
  have hm : Row.profile f ∈ d.under (.profile f.kind f.profileID) :=
    mem_under.mpr ⟨h, by simp [keys, Row.keys]⟩
  unfold profileOf
  rw [hd.lookup hm]
  rfl

theorem profileOf_some {k : Kind} {i u : UUID} (h : profileOf d k i = some u) :
    ∃ f : Profile, Row.profile f ∈ d.rows ∧ f.kind = k ∧ f.profileID = i ∧ f.userID = u := by
  obtain ⟨x, hx, rfl⟩ := Option.map_eq_some_iff.mp h
  obtain ⟨r, hr, hx⟩ := Option.bind_eq_some_iff.mp hx
  obtain ⟨hmem, hk⟩ := mem_under.mp (mem_of_lookup hr)
  obtain ⟨y, rfl, hkind, hy⟩ := profile_key hk
  cases hx
  exact ⟨x, hmem, hkind, hy, rfl⟩

end Marketplace.Accounts
