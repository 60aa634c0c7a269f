set_option autoImplicit false

/-!
# Finite doubles, exactly

A finite binary64 number is a sign and its place among the non-negative doubles in ascending
order, zero first. Every such number is a whole multiple of the *unit* `2 ^ (-1074)`, so its
magnitude is a natural number of units, and rounding and arithmetic are statements about natural
numbers.

## Main definitions

* `CardTable.Double` — the finite doubles, with both zeros.
* `CardTable.Double.unitsAt` — the magnitude of the double at a place, in units.
* `CardTable.Double.nearestPlace` — the place that a non-negative fraction rounds to: the nearest
  double, of two equally near ones the one at the even place.
* `CardTable.Double.mul`, `CardTable.Double.div` — the rounded product and quotient.

## Main results

* `CardTable.roundHalfEven_mul_right` — a whole quotient is not rounded.
-/

namespace CardTable

/-- The whole number nearest to `num / den`; of two equally near ones, the even one. -/
def roundHalfEven (num den : Nat) : Nat :=
  let quotient := num / den
  let remainder := num % den
  if 2 * remainder < den then quotient
  else if den < 2 * remainder then quotient + 1
  else quotient + quotient % 2

/-- A whole quotient is not rounded. -/
theorem roundHalfEven_mul_right (n den : Nat) (h : 0 < den) : roundHalfEven (n * den) den = n := by
  simp [roundHalfEven, Nat.mul_div_cancel n h, h]

/-- The number of doubles between a power of two and the next one, `2 ^ 52`. -/
abbrev Double.binade : Nat := 4503599627370496

/-- The number of places taken by finite doubles, which is that of 2047 binades. -/
abbrev Double.placeLimit : Nat := 9218868437227405312

/-- A finite double: its sign, and its place among the non-negative doubles in ascending order. -/
structure Double where
  /-- Whether the sign bit is set; it is meaningful for zero too. -/
  negative : Bool
  /-- The place of the magnitude among the non-negative doubles. -/
  place : Nat
  /-- The places from the limit on belong to no finite double. -/
  place_lt : place < Double.placeLimit
deriving DecidableEq

namespace Double

/-! ## Magnitudes -/

/-- The magnitude at `place` in units of `2 ^ (-1074)`: below `2 ^ 53` the place itself, and from
there on `52` bits of the place behind a leading one, doubled with every `2 ^ 52` places. -/
def unitsAt (place : Nat) : Nat :=
  if place < binade then place
  else (binade + place % binade) * Nat.pow 2 (place / binade - 1)

/-- The number of units in one. -/
abbrev one : Nat := Nat.pow 2 1074

/-- The magnitude of `x` in units. -/
def units (x : Double) : Nat :=
  unitsAt x.place

/-- The double zero with a positive sign. -/
def zero : Double := ⟨false, 0, by decide⟩

/-- Whether `x` is one of the two zeros. -/
def isZero (x : Double) : Bool :=
  x.place == 0

/-- The double with the opposite sign. -/
def neg (x : Double) : Double :=
  { x with negative := !x.negative }

/-! ## Rounding -/

/-- The place of the double nearest to `num / den`; of two equally near ones, the even place. The
places from `placeLimit` on stand for magnitudes beyond the finite doubles. -/
def nearestPlace (num den : Nat) : Nat :=
  let units := num * one
  let shift := Nat.log2 (units / den) - 52
  shift * binade + roundHalfEven units (den * Nat.pow 2 shift)

/-- The double nearest to the fraction `num / den` with the given sign, unless the fraction lies
beyond the finite doubles. -/
def ofRatio? (negative : Bool) (num den : Nat) : Option Double :=
  let place := nearestPlace num den
  if h : place < placeLimit then some ⟨negative, place, h⟩ else none

/-- The double nearest to the whole number `n`, unless it lies beyond the finite doubles. -/
def ofInt? (n : Int) : Option Double :=
  ofRatio? (decide (n < 0)) n.natAbs 1

/-- The rounded product of `x` and `y`, unless it lies beyond the finite doubles. -/
def mul? (x y : Double) : Option Double :=
  ofRatio? (x.negative != y.negative) (x.units * y.units) (one * one)

/-- The rounded quotient of `x` and a non-zero `y`, unless it lies beyond the finite doubles. -/
def div? (x y : Double) : Option Double :=
  ofRatio? (x.negative != y.negative) x.units y.units

/-- The double nearest to `± digits * 10 ^ exponent`, unless it lies beyond the finite doubles.
Exponents that leave no doubt about the answer are cut off before a power of ten is formed: from
`10 ^ 310` on nothing is finite, and below `10 ^ (-325)` everything rounds to zero. -/
def ofDecimal? (negative : Bool) (digits : Nat) (exponent : Int) : Option Double :=
  let length : Int := (Nat.toDigits 10 digits).length
  if digits = 0 ∨ exponent + length < -325 then
    some ⟨negative, 0, by decide⟩
  else if 310 < exponent + length then
    none
  else if 0 ≤ exponent then
    ofRatio? negative (digits * Nat.pow 10 exponent.toNat) 1
  else
    ofRatio? negative digits (Nat.pow 10 (-exponent).toNat)

/-! ## Whole doubles -/

/-- The whole number that `x` is, if it is one. -/
def toInt? (x : Double) : Option Int :=
  if x.units % one = 0 then
    let n : Int := (x.units / one : Nat)
    some (if x.negative then -n else n)
  else
    none

/-- Numeric equality: the two zeros are equal, and otherwise sign and place decide. -/
def numEq (x y : Double) : Bool :=
  (x.isZero && y.isZero) || (x.negative == y.negative && x.place == y.place)

end Double

end CardTable
