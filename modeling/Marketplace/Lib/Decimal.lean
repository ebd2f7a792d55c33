import Mathlib.Data.Rat.Floor
import Mathlib.Algebra.Order.Field.Rat
import Mathlib.Tactic.FieldSimp
import Mathlib.Tactic.Linarith

/-!
# Decimal numbers, and columns of them

* `Decimal`          a number as it was written: digits, and a power of ten;
* `places`, `wholeDigits`   the digits after the point and before it, without a zero before the point
                     and without zeros at the end;
* `exists_scaled`    a number of at most `p` places is a number of units of the last place, as small as
                     its digits say;
* `numeric p`        what a column NUMERIC of `p` places keeps of a number, in units of the last place.
-/

/-- `coefficient * 10 ^ exponent` -/
structure Decimal where
  coefficient : Int
  exponent : Int
  deriving DecidableEq, Repr

namespace Decimal

def toRat (d : Decimal) : ℚ := d.coefficient * (10 : ℚ) ^ d.exponent

def digitCount (n : Nat) : Nat := (toString n).length

theorem lt_pow_digitCount (n : Nat) : n < 10 ^ digitCount n := by
  have hpos : 0 < digitCount n := Nat.length_repr_pos
  exact (Nat.length_repr_le_iff hpos).mp le_rfl

/-- the zeros at the end of the digits go into the exponent; there are at most `fuel` of them -/
def stripZeros : Nat → Nat → Int → Nat × Int
  | 0, c, e => (c, e)
  | fuel + 1, c, e => if c % 10 = 0 then stripZeros fuel (c / 10) (e + 1) else (c, e)

/-- the absolute value, without zeros at the end -/
def normalize (d : Decimal) : Nat × Int :=
  stripZeros (digitCount d.coefficient.natAbs) d.coefficient.natAbs d.exponent

/-- digits after the point -/
def places (d : Decimal) : Nat := (-d.normalize.2).toNat

/-- digits before the point -/
def wholeDigits (d : Decimal) : Nat := (digitCount d.normalize.1 + d.normalize.2).toNat

theorem value_stripZeros (fuel c : Nat) (e : Int) :
    ((stripZeros fuel c e).1 : ℚ) * 10 ^ (stripZeros fuel c e).2 = c * 10 ^ e := by
  induction fuel generalizing c e with
  | zero => rfl
  | succ fuel ih =>
    rw [stripZeros]
    split
    · rename_i h
      have hc : (c : ℚ) = ((c / 10 : Nat) : ℚ) * 10 := by
        exact_mod_cast (Nat.div_mul_cancel (Nat.dvd_of_mod_eq_zero h)).symm
      rw [ih, hc, zpow_add₀ (by norm_num), zpow_one]
      ring
    · rfl

theorem toRat_eq {d : Decimal} (h : 0 ≤ d.coefficient) :
    d.toRat = d.normalize.1 * 10 ^ d.normalize.2 := by
  rw [normalize, value_stripZeros, toRat]
  obtain ⟨n, hn⟩ := Int.eq_ofNat_of_zero_le h
  rw [hn, Int.natAbs_natCast, Int.cast_natCast]

/-- **a number of at most `p` places** -/
theorem exists_scaled {d : Decimal} (h : 0 ≤ d.coefficient) {p : Nat} (hp : d.places ≤ p) :
    ∃ n : Nat, d.toRat * 10 ^ p = n ∧ n < 10 ^ (d.wholeDigits + p) := by
  have hv := toRat_eq h
  have hw : d.wholeDigits = (digitCount d.normalize.1 + d.normalize.2).toNat := rfl
  rw [places] at hp
  generalize d.normalize.1 = c at hv hw
  generalize d.normalize.2 = e at hv hw hp
  refine ⟨c * 10 ^ (e + p).toNat, ?_, ?_⟩
  · have hexp : ((e + p).toNat : Int) = e + p := Int.toNat_of_nonneg (by omega)
    have hpow : (10 : ℚ) ^ (e + p).toNat = 10 ^ e * 10 ^ p := by
      rw [← zpow_natCast, hexp, zpow_add₀ (by norm_num), zpow_natCast]
    push_cast
    rw [hv, hpow, mul_assoc]
  · calc c * 10 ^ (e + p).toNat
        < 10 ^ digitCount c * 10 ^ (e + p).toNat :=
          Nat.mul_lt_mul_of_pos_right (lt_pow_digitCount c) (Nat.pow_pos (by norm_num))
      _ = 10 ^ (digitCount c + (e + p).toNat) := (Nat.pow_add ..).symm
      _ ≤ 10 ^ (d.wholeDigits + p) := Nat.pow_le_pow_right (by norm_num) (by omega)

/-- rounded to `p` places, half away from zero -/
def numeric (p : Nat) (q : ℚ) : Int :=
  if 0 ≤ q then ⌊q * 10 ^ p + 1 / 2⌋ else -⌊-q * 10 ^ p + 1 / 2⌋

/-- what has no more places is kept as it is -/
theorem numeric_of_scaled {p n : Nat} {q : ℚ} (h : q * 10 ^ p = n) : numeric p q = n := by
  have hpow : (0 : ℚ) < 10 ^ p := by positivity
  have hq : 0 ≤ q := by
    have hn : (0 : ℚ) ≤ q * 10 ^ p := by
      rw [h]
      exact Nat.cast_nonneg n
    exact nonneg_of_mul_nonneg_left hn hpow
  rw [numeric, if_pos hq, h, Int.floor_eq_iff]
  constructor
  · push_cast
    linarith
  · push_cast
    linarith

end Decimal
