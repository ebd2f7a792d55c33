import Mathlib.Data.List.Basic

/-!
# Encodings of Unicode

What is decoded is kept as the bytes of UTF-8, in which a lone surrogate has three as well.

* `utf8Valid`        a sequence of bytes is UTF-8;
* `units16`, `units32`, `joined`   the code points of UTF-16 and UTF-32;
* `Encoding`, `decode`   the encodings that JSON comes in;
* `detectEncoding`   which one it is, from the first four bytes.
-/

namespace Codec

abbrev Bytes := List UInt8

/-- so many more bytes belong to the code point, the first of them between two bounds -/
def utf8From (surrogates : Bool) : Nat → UInt8 → UInt8 → Bytes → Bool
  | 0, _, _, [] => true
  | _ + 1, _, _, [] => false
  | 0, _, _, b :: s =>
    if b < 0x80 then utf8From surrogates 0 0x80 0xbf s
    else if 0xc2 ≤ b ∧ b ≤ 0xdf then utf8From surrogates 1 0x80 0xbf s
    else if b = 0xe0 then utf8From surrogates 2 0xa0 0xbf s
    else if b = 0xed ∧ surrogates = false then utf8From surrogates 2 0x80 0x9f s
    else if 0xe1 ≤ b ∧ b ≤ 0xef then utf8From surrogates 2 0x80 0xbf s
    else if b = 0xf0 then utf8From surrogates 3 0x90 0xbf s
    else if 0xf1 ≤ b ∧ b ≤ 0xf3 then utf8From surrogates 3 0x80 0xbf s
    else if b = 0xf4 then utf8From surrogates 3 0x80 0x8f s
    else false
  | n + 1, low, high, b :: s =>
    decide (low ≤ b) && decide (b ≤ high) && utf8From surrogates n 0x80 0xbf s

/-- `surrogates`: lone surrogates are let pass -/
def utf8Valid (surrogates : Bool) (s : Bytes) : Bool := utf8From surrogates 0 0x80 0xbf s

/-- the bytes of a code point -/
def utf8Encode (n : Nat) : Bytes :=
  if n < 0x80 then [.ofNat n]
  else if n < 0x800 then [.ofNat (0xc0 + n / 64), .ofNat (0x80 + n % 64)]
  else if n < 0x10000 then
    [.ofNat (0xe0 + n / 4096), .ofNat (0x80 + n / 64 % 64), .ofNat (0x80 + n % 64)]
  else
    [.ofNat (0xf0 + n / 262144), .ofNat (0x80 + n / 4096 % 64), .ofNat (0x80 + n / 64 % 64),
      .ofNat (0x80 + n % 64)]

/-- the units of UTF-16 -/
def units16 (bigEndian : Bool) : Bytes → Option (List Nat)
  | [] => some []
  | [_] => none
  | a :: b :: s =>
    let unit := if bigEndian then a.toNat * 256 + b.toNat else b.toNat * 256 + a.toNat
    (units16 bigEndian s).map (unit :: ·)

/-- the code points of units; a lone surrogate stays -/
def joined : List Nat → List Nat
  | [] => []
  | [u] => [u]
  | u :: v :: s =>
    if 0xd800 ≤ u ∧ u ≤ 0xdbff ∧ 0xdc00 ≤ v ∧ v ≤ 0xdfff then
      (0x10000 + (u - 0xd800) * 0x400 + (v - 0xdc00)) :: joined s
    else u :: joined (v :: s)

/-- the code points of UTF-32 -/
def units32 (bigEndian : Bool) : Bytes → Option (List Nat)
  | [] => some []
  | a :: b :: c :: d :: s =>
    let (a, b, c, d) := if bigEndian then (a, b, c, d) else (d, c, b, a)
    let unit := ((a.toNat * 256 + b.toNat) * 256 + c.toNat) * 256 + d.toNat
    if 0x10ffff < unit then none else (units32 bigEndian s).map (unit :: ·)
  | _ => none

inductive Encoding where
  | utf8
  /-- after a byte order mark, as the next two -/
  | utf8Marked
  | utf16Marked (bigEndian : Bool)
  | utf32Marked (bigEndian : Bool)
  | utf16 (bigEndian : Bool)
  | utf32 (bigEndian : Bool)
  deriving DecidableEq, Repr

/-- with lone surrogates let pass -/
def decode : Encoding → Bytes → Option Bytes
  | .utf8, s => if utf8Valid true s then some s else none
  | .utf8Marked, s => if utf8Valid true (s.drop 3) then some (s.drop 3) else none
  | .utf16Marked bigEndian, s =>
    (units16 bigEndian (s.drop 2)).map fun units => (joined units).flatMap utf8Encode
  | .utf32Marked bigEndian, s => (units32 bigEndian (s.drop 4)).map (·.flatMap utf8Encode)
  | .utf16 bigEndian, s => (units16 bigEndian s).map fun units => (joined units).flatMap utf8Encode
  | .utf32 bigEndian, s => (units32 bigEndian s).map (·.flatMap utf8Encode)

/-- a byte order mark, or where the zeros are -/
def detectEncoding (s : Bytes) : Encoding :=
  if s.take 4 = [0x00, 0x00, 0xfe, 0xff] then .utf32Marked true
  else if s.take 4 = [0xff, 0xfe, 0x00, 0x00] then .utf32Marked false
  else if s.take 2 = [0xfe, 0xff] then .utf16Marked true
  else if s.take 2 = [0xff, 0xfe] then .utf16Marked false
  else if s.take 3 = [0xef, 0xbb, 0xbf] then .utf8Marked
  else
    match s with
    | a :: b :: c :: d :: _ =>
      if a = 0 then (if b = 0 then .utf32 true else .utf16 true)
      else if b = 0 then (if c = 0 ∧ d = 0 then .utf32 false else .utf16 false)
      else .utf8
    | [a, b] => if a = 0 then .utf16 true else if b = 0 then .utf16 false else .utf8
    | _ => .utf8

example : decode (detectEncoding [0x7b, 0, 0x7d, 0]) [0x7b, 0, 0x7d, 0] = some [0x7b, 0x7d] ∧
    decode .utf8 [0xed, 0xa0, 0x80] = some [0xed, 0xa0, 0x80] ∧ decode .utf8 [0xc0, 0x80] = none := by
  decide

end Codec
