import Marketplace.Common

/-!
# common-security: tokens

* `Claims`           the payload of a token, as the fields of a JSON object;
* `Jjwt`             the library: it signs claims, and reads back what is signed and not expired;
* `JwtUtil`          the tokens of the platform.  What a call throws is `Jwt.Err`.

Times are in seconds.
-/

namespace Marketplace.Auth

abbrev Claims := List (String × Json)

namespace UUID

/-- the 32 hexadecimal digits of a uuid -/
def digits (u : UUID) : List Char :=
  let ds := Nat.toDigits 16 u
  List.replicate (32 - ds.length) '0' ++ ds

/-- `UUID.toString` -/
def toText (u : UUID) : String :=
  let ds := digits u
  String.ofList (ds.take 8 ++ '-' :: (ds.drop 8).take 4 ++ '-' :: (ds.drop 12).take 4 ++
    '-' :: (ds.drop 16).take 4 ++ '-' :: ds.drop 20)

end UUID

namespace Jwt

inductive Err where
  /-- `InvalidTokenException` -/
  | invalidToken (message : String)
  /-- a claim of another type than the one asked for, a subject that is no uuid -/
  | other
  deriving DecidableEq, Repr

end Jwt

/-- why the parser throws: `ExpiredJwtException` or another `JwtException` -/
inductive JwtException where
  | expired
  | invalid
  deriving DecidableEq, Repr

structure Jjwt where
  parse : String → Time → Except JwtException Claims
  sign : Claims → String
  /-- `UUID.fromString` -/
  uuid : String → Option UUID

/-- `claims.get(name, String.class)`; an absent claim and null are the same -/
def Claims.text (c : Claims) (name : String) : Except Jwt.Err (Option String) :=
  match Json.field name c with
  | none => .ok none
  | some .null => .ok none
  | some (.str s) => .ok (some s)
  | some _ => .error .other

structure JwtUtil where
  jjwt : Jjwt
  expiryMinutes : Nat
  refreshExpiryDays : Nat

namespace JwtUtil
variable (j : JwtUtil)

def accessTokenExpirySeconds : Nat := j.expiryMinutes * 60

def generateAccessToken (userID : UUID) (email role : String) (now : Time) : String :=
  j.jjwt.sign [("sub", .str (UUID.toText userID)), ("email", .str email), ("role", .str role),
    ("iat", .num now), ("exp", .num (now + j.expiryMinutes * 60 : Nat))]

/-- `jti` is random: two refresh tokens of one user are never the same text -/
def generateRefreshToken (userID jti : UUID) (now : Time) : String :=
  j.jjwt.sign [("sub", .str (UUID.toText userID)), ("jti", .str (UUID.toText jti)),
    ("type", .str "refresh"), ("iat", .num now),
    ("exp", .num (now + j.refreshExpiryDays * 86400 : Nat))]

def parseToken (token : String) (now : Time) : Except Jwt.Err Claims :=
  match j.jjwt.parse token now with
  | .ok c => .ok c
  | .error .expired => .error (.invalidToken "Token expired")
  | .error .invalid => .error (.invalidToken "Invalid token")

def isTokenValid (token : String) (now : Time) : Bool :=
  match j.parseToken token now with
  | .ok _ => true
  | .error _ => false

def extractUserId (token : String) (now : Time) : Except Jwt.Err UUID := do
  let claims ← j.parseToken token now
  match ← claims.text "sub" with
  | none => throw .other
  | some subject =>
    match j.jjwt.uuid subject with
    | none => throw .other
    | some userID => return userID

def extractRole (token : String) (now : Time) : Except Jwt.Err (Option String) := do
  let claims ← j.parseToken token now
  claims.text "role"

def isRefreshToken (token : String) (now : Time) : Except Jwt.Err Bool := do
  let claims ← j.parseToken token now
  return (← claims.text "type") == some "refresh"

end JwtUtil

end Marketplace.Auth
