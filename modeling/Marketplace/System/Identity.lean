import Marketplace.Auth.Service
import Marketplace.System.Verifiers

/-!
# Who a token of auth-service stands for

auth-service writes the id of a user as a text into the subject, and the role as another claim; every
service reads the two back in its own way.

* `hex_digits`, `value_digits`   the text of an id, and the id again;
* `readerOf_toText`  no reader makes another id of it; `readerOf_toText_eq`, each of them the same one;
* `accessClaims`, `refreshClaims`   what is signed in the two tokens of a user;
* `identity_accessClaims`, `identity_refreshClaims`   what a verifier may make of them;
* `issued_alike`     **an access token stands for its user and the role everywhere, a refresh token for
                     nobody**.
-/

namespace Marketplace.System.Identity

open Text Uuid Marketplace.Auth Verifiers

/-! ## the text of an id -/

theorem hexDigit_digitChar {d : Nat} (h : d < 16) : hexDigit d.digitChar = some d := by
  have hall : ∀ d < 16, hexDigit d.digitChar = some d := by decide
  exact hall d h

theorem value_digitChar {d : Nat} (h : d < 16) : value [d.digitChar] = d := by
  show 0 * 16 + hexValue d.digitChar = d
  rw [hexValue, hexDigit_digitChar h, Nat.zero_mul, Nat.zero_add]
  rfl

theorem hex_append {ds es : List Char} (hd : Hex ds) (he : Hex es) : Hex (ds ++ es) := by
  intro c hc
  rcases List.mem_append.mp hc with hc | hc
  · exact hd c hc
  · exact he c hc

theorem hex_digitChar {d : Nat} (h : d < 16) : Hex [d.digitChar] := by
  intro c hc
  rw [List.mem_singleton.mp hc, hexDigit_digitChar h]
  rfl

theorem toDigits_hex (n : Nat) : Hex (Nat.toDigits 16 n) ∧ value (Nat.toDigits 16 n) = n := by
  induction n using Nat.strongRecOn with
  | ind n ih =>
    rcases Nat.lt_or_ge n 16 with hn | hn
    · rw [Nat.toDigits_of_lt_base hn]
      exact ⟨hex_digitChar hn, value_digitChar hn⟩
    · have hmod : n % 16 < 16 := Nat.mod_lt _ (by decide)
      obtain ⟨hhex, hval⟩ := ih (n / 16) (by omega)
      rw [Nat.toDigits_of_base_le (by decide) hn]
      refine ⟨hex_append hhex (hex_digitChar hmod), ?_⟩
      rw [value_append, hval, value_digitChar hmod]
      show n / 16 * 16 ^ 1 + n % 16 = n
      omega

theorem value_zeros (n : Nat) : value (List.replicate n '0') = 0 := by
  induction n with
  | zero => rfl
  | succ n ih =>
    rw [List.replicate_succ', value_append, ih, Nat.zero_mul, Nat.zero_add]
    rfl

theorem hex_digits (u : UUID) : Hex (UUID.digits u) := by
  refine hex_append (fun c hc => ?_) (toDigits_hex u).1
  rw [(List.mem_replicate.mp hc).2]
  rfl

theorem value_digits (u : UUID) : value (UUID.digits u) = u := by
  show value (List.replicate _ '0' ++ Nat.toDigits 16 u) = u
  rw [value_append, value_zeros, Nat.zero_mul, Nat.zero_add, (toDigits_hex u).2]

theorem length_digits (u : UUID) :
    (UUID.digits u).length = max 32 (Nat.toDigits 16 u).length := by
  show (List.replicate (32 - (Nat.toDigits 16 u).length) '0' ++ Nat.toDigits 16 u).length = _
  rw [List.length_append, List.length_replicate]
  omega

/-- an id is a number of 128 bits -/
def Fits (u : UUID) : Prop := u < 16 ^ 32

instance (u : UUID) : Decidable (Fits u) := inferInstanceAs (Decidable (u < 16 ^ 32))

theorem length_digits_iff {u : UUID} : (UUID.digits u).length = 32 ↔ Fits u := by
  rw [length_digits]
  have h := Nat.length_toDigits_le_iff (n := u) (k := 32) (b := 16) (by decide) (by decide)
  rw [Fits, ← h]
  omega

theorem isSpace_hex {c : Char} (h : (hexDigit c).isSome = true) : isSpace c = false := by
  obtain ⟨hlow, hhigh⟩ := hex_range h
  simp only [isSpace, Bool.or_eq_false_iff, Bool.and_eq_false_iff, decide_eq_false_iff_not,
    beq_eq_false_iff_ne, ne_eq, ← UInt32.toNat_inj, UInt32.le_iff_toNat_le, UInt32.reduceToNat]
  omega

theorem python_toText (decimal : Char → Option Nat) (u : UUID) :
    Python.uuid decimal isSpace (UUID.toText u) = if Fits u then some u else none := by
  have hspace : ∀ c ∈ UUID.digits u, isSpace c = false :=
    fun c hc => isSpace_hex (hex_digits u c hc)
  have h := Python.uuid_canonical decimal (hex_digits u) hspace
  rw [value_digits] at h
  refine h.trans ?_
  simp only [length_digits_iff]

theorem java_toText (decimal : Char → Option Nat) (u : UUID) :
    Java.fromString decimal (UUID.toText u) = if Fits u then some u else none := by
  have hlen : 32 ≤ (UUID.digits u).length := by
    rw [length_digits]
    omega
  have h := Java.fromString_canonical decimal (hex_digits u) hlen
  rw [value_digits] at h
  refine h.trans ?_
  simp only [length_digits_iff]

/-! ## the readers -/

variable {L : Libraries} {j : JwtUtil} {u w : UUID}

/-- what the libraries read back is what auth-service has written -/
structure Trusted (L : Libraries) (j : JwtUtil) : Prop where
  /-- the claims of a token are those that were signed -/
  honest : ∀ c c', L.verify (j.jjwt.sign c).toList = some c' → c' = c
  /-- `uuid.Parse` makes no other id of what `UUID.toString` writes -/
  parses : ∀ u w, L.uuidParse (UUID.toText u) = some w → w = u

theorem toText_ne (u : UUID) : UUID.toText u ≠ "" := by
  intro h
  have hlen : (UUID.toText u).toList.length = 0 := by
    rw [h]
    rfl
  have hcanon : (UUID.toText u).toList = canonical (UUID.digits u) := String.toList_ofList
  rw [hcanon, length_canonical _ (by rw [length_digits]; omega)] at hlen
  omega

/-- no reader makes another id of the text -/
theorem readerOf_toText (ht : Trusted L j) {v : Verifier}
    (h : L.readerOf v (UUID.toText u) = some w) : w = u := by
  cases v with
  | go =>
    have h : (if UUID.toText u = "" then none else L.uuidParse (UUID.toText u)) = some w := h
    rw [if_neg (toText_ne u)] at h
    exact ht.parses u w h
  | python =>
    have h : Python.uuid L.decimal isSpace (UUID.toText u) = some w := h
    rw [python_toText] at h
    split at h
    · exact (Option.some.inj h).symm
    · cases h
  | java =>
    have h : Java.fromString L.decimal (UUID.toText u) = some w := h
    rw [java_toText] at h
    split at h
    · exact (Option.some.inj h).symm
    · cases h

theorem readerOf_toText_eq (hu : Fits u) (hgo : L.uuidParse (UUID.toText u) = some u)
    (v : Verifier) : L.readerOf v (UUID.toText u) = some u := by
  cases v with
  | go => exact (if_neg (toText_ne u)).trans hgo
  | python => exact (python_toText L.decimal u).trans (if_pos hu)
  | java => exact (java_toText L.decimal u).trans (if_pos hu)

/-! ## the claims -/

variable {n : Nat} {user : User} {jti : UUID} {now : Time} {v : Verifier}

def accessClaims (minutes : Nat) (user : User) (now : Time) : Claims :=
  [("sub", .str (UUID.toText user.userID)), ("email", .str user.email),
    ("role", .str user.role.name), ("iat", .num now), ("exp", .num (now + minutes * 60 : Nat))]

def refreshClaims (days : Nat) (userID jti : UUID) (now : Time) : Claims :=
  [("sub", .str (UUID.toText userID)), ("jti", .str (UUID.toText jti)), ("type", .str "refresh"),
    ("iat", .num now), ("exp", .num (now + days * 86400 : Nat))]

theorem generateAccessToken_eq (j : JwtUtil) (user : User) (now : Time) :
    j.generateAccessToken user.userID user.email user.role.name now =
      j.jjwt.sign (accessClaims j.expiryMinutes user now) := rfl

theorem generateRefreshToken_eq (j : JwtUtil) (userID jti : UUID) (now : Time) :
    j.generateRefreshToken userID jti now = j.jjwt.sign (refreshClaims j.refreshExpiryDays userID jti now) := rfl

theorem accessClaims_sub : stringOf "sub" (accessClaims n user now) = some (UUID.toText user.userID) :=
  rfl

theorem accessClaims_timely : timely (accessClaims n user now) :=
  ⟨rfl, fun h => by cases h⟩

/-- a role of the platform is a role for all three -/
theorem accessClaims_role : roleOf (accessClaims n user now) v = some (.str user.role.name) := by
  have hfield : Json.field "role" (accessClaims n user now) = some (.str user.role.name) := rfl
  have hstring : stringOf "role" (accessClaims n user now) = some user.role.name := rfl
  cases v with
  | go =>
    rw [roleOf, hstring]
    cases user.role <;> rfl
  | python =>
    rw [roleOf, hfield]
    cases user.role <;> rfl
  | java =>
    have htext : hasText user.role.name.toList = true := by cases user.role <;> decide
    rw [roleOf, hstring, Option.filter_some, if_pos htext]
    rfl

theorem identity_accessClaims (ht : Trusted L j) {r : Json}
    (h : L.identity (accessClaims n user now) v = some (w, r)) :
    w = user.userID ∧ r = .str user.role.name := by
  unfold Libraries.identity at h
  rw [if_pos (.inr accessClaims_timely), accessClaims_role] at h
  obtain ⟨u, hu, hr⟩ := Option.bind_eq_some_iff.mp h
  obtain ⟨rfl, rfl⟩ := Prod.mk.inj (Option.some.inj hr)
  refine ⟨?_, rfl⟩
  unfold Libraries.userOf at hu
  split at hu
  · rw [accessClaims_sub] at hu
    exact readerOf_toText ht hu
  · cases hu

/-- a refresh token is for nobody: the Java services find no role in it -/
theorem identity_refreshClaims : L.identity (refreshClaims n u jti now) v = none := by
  cases v with
  | go => exact Libraries.identity_refresh (by decide) rfl
  | python => exact Libraries.identity_refresh (by decide) rfl
  | java =>
    have hrole : roleOf (refreshClaims n u jti now) .java = none := rfl
    unfold Libraries.identity
    rw [if_pos (.inl rfl), hrole]
    cases L.userOf (refreshClaims n u jti now) .java <;> rfl

theorem identity_accessClaims_eq (hu : Fits user.userID)
    (hgo : L.uuidParse (UUID.toText user.userID) = some user.userID)
    (hp : L.passes v (accessClaims n user now) = true) :
    L.identity (accessClaims n user now) v = some (user.userID, .str user.role.name) := by
  have huser : L.userOf (accessClaims n user now) v = some user.userID := by
    unfold Libraries.userOf
    rw [if_pos hp, accessClaims_sub]
    exact readerOf_toText_eq hu hgo v
  unfold Libraries.identity
  rw [if_pos (.inr accessClaims_timely), huser, accessClaims_role]
  rfl

/-! ## the tokens -/

/-- a token for a user of the platform: an access token or a refresh token -/
inductive IssuedFor (j : JwtUtil) (user : User) : String → Prop
  | access (now : Time) :
      IssuedFor j user (j.generateAccessToken user.userID user.email user.role.name now)
  | refresh (jti : UUID) (now : Time) :
      IssuedFor j user (j.generateRefreshToken user.userID jti now)

/-- **whoever an issued token is taken for is its user, in the role of the user** -/
theorem identity_issued (ht : Trusted L j) {token : String} (hi : IssuedFor j user token)
    {c : Claims} (hv : L.verify token.toList = some c) {r : Json}
    (h : L.identity c v = some (w, r)) : w = user.userID ∧ r = .str user.role.name := by
  cases hi with
  | access now =>
    rw [generateAccessToken_eq] at hv
    rw [ht.honest _ _ hv] at h
    exact identity_accessClaims ht h
  | refresh jti now =>
    rw [generateRefreshToken_eq] at hv
    rw [ht.honest _ _ hv, identity_refreshClaims] at h
    cases h

/-- the header of a request with a token -/
def bearer (token : String) : List Char := "Bearer ".toList ++ token.toList

/-- **An access token stands for its user everywhere, a refresh token for nobody.**  Of two tokens
that auth-service has signed and that are still good, the three verifiers take the one for its user in
the role of the user, and the other for no one. -/
theorem issued_alike (ht : Trusted L j) (user : User) (issued : Time) (jti : UUID) (now : Time)
    (hid : Fits user.userID) (hgo : L.uuidParse (UUID.toText user.userID) = some user.userID)
    (hp : ∀ v, L.passes v (accessClaims j.expiryMinutes user issued) = true) {access refresh : String}
    (ha : j.generateAccessToken user.userID user.email user.role.name issued = access)
    (hr : j.generateRefreshToken user.userID jti now = refresh)
    (hgood : (L.verify access.toList).isSome = true ∧ (L.verify refresh.toList).isSome = true) :
    (L.whoGo (bearer access) = some (user.userID, .str user.role.name) ∧
      L.whoPython (bearer access) = some (user.userID, .str user.role.name) ∧
      L.whoJava (bearer access) = some (user.userID, .str user.role.name)) ∧
    L.whoGo (bearer refresh) = none ∧ L.whoPython (bearer refresh) = none ∧
      L.whoJava (bearer refresh) = none := by
  obtain ⟨c, hc⟩ := Option.isSome_iff_exists.mp hgood.1
  obtain ⟨d, hd⟩ := Option.isSome_iff_exists.mp hgood.2
  obtain ⟨ago, apython, ajava⟩ := Libraries.who_of_verified hc
  obtain ⟨rgo, rpython, rjava⟩ := Libraries.who_of_verified hd
  have hcc : c = accessClaims j.expiryMinutes user issued := by
    rw [← ha, generateAccessToken_eq] at hc
    exact ht.honest _ _ hc
  have hdd : d = refreshClaims j.refreshExpiryDays user.userID jti now := by
    rw [← hr, generateRefreshToken_eq] at hd
    exact ht.honest _ _ hd
  have hall : ∀ v, L.identity c v = some (user.userID, .str user.role.name) := by
    intro v
    rw [hcc]
    exact identity_accessClaims_eq hid hgo (hp v)
  have hnone : ∀ v, L.identity d v = none := by
    intro v
    rw [hdd]
    exact identity_refreshClaims
  unfold bearer
  rw [ago, apython, ajava, rgo, rpython, rjava]
  exact ⟨⟨hall _, hall _, hall _⟩, hnone _, hnone _, hnone _⟩

/-! ### two tokens of one seller -/

/-- the claims are the same, text for text and number for number -/
def sameClaims : Claims → Claims → Bool
  | [], [] => true
  | (k, .str s) :: c, (k', .str s') :: c' => k == k' && s == s' && sameClaims c c'
  | (k, .num q) :: c, (k', .num q') :: c' => k == k' && q == q' && sameClaims c c'
  | _, _ => false

theorem eq_of_sameClaims {c c' : Claims} (h : sameClaims c c' = true) : c = c' := by
  fun_induction sameClaims c c' with
  | case1 => rfl
  | case2 k s c k' s' c' ih =>
    simp only [Bool.and_eq_true, beq_iff_eq] at h
    rw [h.1.1, h.1.2, ih h.2]
  | case3 k q c k' q' c' ih =>
    simp only [Bool.and_eq_true, beq_iff_eq] at h
    rw [h.1.1, h.1.2, ih h.2]
  | case4 => cases h

/-- libraries that know the two tokens `a.b.c` and `d.e.f` of a user -/
structure TwoTokens where
  access : Claims
  refresh : Claims

namespace TwoTokens
variable (k : TwoTokens)

def sign (c : Claims) : String :=
  if sameClaims c k.access then "a.b.c" else if sameClaims c k.refresh then "d.e.f" else ""

def libraries (now : Time) : Libraries where
  now := now
  verify t :=
    if t = "a.b.c".toList then some k.access
    else if t = "d.e.f".toList then some k.refresh
    else none
  verify_token := by
    intro t c h
    have ha : "a.b.c".toList.all tokenChar = true := by decide
    have hd : "d.e.f".toList.all tokenChar = true := by decide
    split at h
    · next e => exact e ▸ ⟨by decide, List.all_eq_true.mp ha⟩
    · split at h
      · next e => exact e ▸ ⟨by decide, List.all_eq_true.mp hd⟩
      · cases h
  sign := k.sign
  passes _ _ := true
  uuidParse := Java.fromString fun _ => none
  decimal _ := none

def jwtUtil : JwtUtil where
  jjwt :=
    { parse := fun token _ =>
        if token = "a.b.c" then .ok k.access
        else if token = "d.e.f" then .ok k.refresh
        else .error .invalid
      sign := k.sign
      uuid := Java.fromString fun _ => none }
  expiryMinutes := 60
  refreshExpiryDays := 7

theorem uuidParse_eq (now : Time) (u : UUID) :
    (k.libraries now).uuidParse (UUID.toText u) = if Fits u then some u else none := by
  have hread : (k.libraries now).uuidParse = Java.fromString fun _ => none := rfl
  rw [hread, java_toText]

theorem trusted (now : Time) : Trusted (k.libraries now) k.jwtUtil where
  honest c c' h := by
    have h : (if (k.sign c).toList = "a.b.c".toList then some k.access
      else if (k.sign c).toList = "d.e.f".toList then some k.refresh else none) = some c' := h
    unfold sign at h
    by_cases ha : sameClaims c k.access = true
    · rw [if_pos ha, if_pos rfl] at h
      rw [eq_of_sameClaims ha]
      exact (Option.some.inj h).symm
    · by_cases hr : sameClaims c k.refresh = true
      · rw [if_neg ha, if_pos hr, if_neg (by decide), if_pos rfl] at h
        rw [eq_of_sameClaims hr]
        exact (Option.some.inj h).symm
      · rw [if_neg ha, if_neg hr, if_neg (by decide), if_neg (by decide)] at h
        cases h
  parses u w h := by
    rw [uuidParse_eq] at h
    split at h
    · exact (Option.some.inj h).symm
    · cases h

end TwoTokens

def seller : User := ⟨1, "a@b.c", "", .SELLER, .ACTIVE⟩

def sellerTokens : TwoTokens := ⟨accessClaims 60 seller 0, refreshClaims 7 1 2 0⟩

theorem issued_alike_seller :
    ((sellerTokens.libraries 0).whoGo (bearer "a.b.c") = some (1, .str "SELLER") ∧
      (sellerTokens.libraries 0).whoPython (bearer "a.b.c") = some (1, .str "SELLER") ∧
      (sellerTokens.libraries 0).whoJava (bearer "a.b.c") = some (1, .str "SELLER")) ∧
    (sellerTokens.libraries 0).whoGo (bearer "d.e.f") = none ∧
      (sellerTokens.libraries 0).whoPython (bearer "d.e.f") = none ∧
      (sellerTokens.libraries 0).whoJava (bearer "d.e.f") = none :=
  issued_alike (sellerTokens.trusted 0) seller 0 2 0 (by decide)
    ((sellerTokens.uuidParse_eq 0 1).trans (if_pos (by decide))) (fun _ => rfl) (by decide +kernel)
    (by decide +kernel) ⟨rfl, rfl⟩

end Marketplace.System.Identity
