import OrderbookAggregator.Library.Rounding
import OrderbookAggregator.Types

/-!
# Conversions to and from floating point

`src/types.rs`: the conversions of fixed-point numbers. A finite double is the rational number that
it is. What is converted to a double is zero or far from the ends of its range, so its arithmetic is
rounding to 53 bits; what is converted back may be anywhere, but past the ends the result is zero or
the greatest number in any case.
-/

namespace OrderbookAggregator

namespace F64

/-- The result of an arithmetic operation, or of `as f64`. -/
def round (x : ℚ) : ℚ := Rounding.roundTo 53 x

/-- `f64::round`: the nearest integer, away from zero if there are two. -/
def nearestInt (x : ℚ) : ℤ := if 0 ≤ x then ⌊x + 1 / 2⌋ else -⌊-x + 1 / 2⌋

/-- `as u64`, which saturates. -/
def asU64 (n : ℤ) : Nat := min n.toNat (2 ^ 64 - 1)

theorem asU64_lt (n : ℤ) : asU64 n < 2 ^ 64 :=
  (Nat.min_le_right _ _).trans_lt (Nat.sub_lt (Nat.two_pow_pos 64) Nat.one_pos)

/-! ### `Display` -/

/-- A significand and the power of ten at its last digit. -/
structure Decimal where
  significand : Nat
  power : Int
  deriving DecidableEq

def Decimal.value (d : Decimal) : ℚ := d.significand * 10 ^ d.power

/-- Of the two decimals with so many digits around a positive number, the one that is rounded to the
number; the closer one if both are. -/
def closest (x : ℚ) (digits : Nat) : Option Decimal :=
  let power := Int.log 10 x + 1 - digits
  let below : Decimal := ⟨⌊x / 10 ^ power⌋₊, power⟩
  let above : Decimal := ⟨⌊x / 10 ^ power⌋₊ + 1, power⟩
  if round above.value = x ∧ (round below.value ≠ x ∨ above.value - x ≤ x - below.value) then
    some above
  else if round below.value = x then some below
  else none

/-- As few digits as tell the number apart from every other double. Seventeen are always enough. -/
def shortest (x : ℚ) : Option Decimal := (List.range 17).findSome? fun n => closest x (n + 1)

/-- The digits with the dot in its place, without an exponent. -/
def Decimal.positional (d : Decimal) : Bytes :=
  let all := formatNat d.significand
  let digits := all.rdropWhile (· = Ascii.zero)
  let point := all.length + d.power
  if point ≤ 0 then
    [Ascii.zero, Ascii.dot] ++ List.replicate (-point).toNat Ascii.zero ++ digits
  else if point < digits.length then
    digits.take point.toNat ++ Ascii.dot :: digits.drop point.toNat
  else digits ++ List.replicate (point.toNat - digits.length) Ascii.zero

/-- `Display` of a number that is not negative. -/
def display (x : ℚ) : Bytes :=
  if x = 0 then [Ascii.zero] else (shortest x).elim [] Decimal.positional

end F64

namespace FixedPoint

def toF64 (a : FixedPoint) : ℚ := F64.round (F64.round a.raw / F64.round scale)

/-- `none` where the assertion fails. -/
def fromF64 (v : ℚ) : Option FixedPoint :=
  if 0 ≤ v then
    some ⟨F64.asU64 (F64.nearestInt (F64.round (v * F64.round scale))), F64.asU64_lt _⟩
  else none

def spreadToF64 (raw : Int) : ℚ := F64.round (F64.round raw / F64.round scale)

end FixedPoint

end OrderbookAggregator
