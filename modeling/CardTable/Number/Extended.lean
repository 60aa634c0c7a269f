import CardTable.Number.Double

set_option autoImplicit false

/-!
# Magnitudes in extended precision

A store that turns doubles into texts and texts into doubles does so in a precision of 64 binary
digits. A magnitude in this precision is a whole number of *fine units* `2 ^ (-1200)`, so that its
rounding is a statement about natural numbers, as it is for doubles.

Powers of ten are rounded as well, and so is each product on the way to a high power. The result may
differ from the number that is meant in its last digits, and a double from the one nearest to it.

## Main definitions

* `CardTable.Extended.nearest` — rounding to 64 binary digits.
* `CardTable.Extended.times` — the rounded product.
* `CardTable.Extended.scaled` — a magnitude with 18 or 19 digits in front of the point.
* `CardTable.Extended.scaleBy` — a magnitude times a power of ten.
* `CardTable.Double.ofExtended?` — the double nearest to a magnitude.
* `CardTable.Double.ofNumeral?` — the double for decimal digits and an exponent.
-/

namespace CardTable

namespace Extended

/-! ## Rounding -/

/-- The number of fine units in one. -/
abbrev one : Nat := Nat.pow 2 1200

/-- The number of fine units in a unit of the doubles. -/
abbrev perUnit : Nat := Nat.pow 2 126

/-- The magnitude of 64 binary digits that is nearest to `num / den` fine units; of two equally near
ones, the one with the even last digit. -/
def nearest (num den : Nat) : Nat :=
  let shift := Nat.log2 (num / den) - 63
  roundHalfEven num (den * Nat.pow 2 shift) * Nat.pow 2 shift

/-- The rounded product. -/
def times (x y : Nat) : Nat :=
  nearest (x * y) one

/-- The power of ten with an exponent. -/
def powerOfTen (exponent : Int) : Nat :=
  nearest (one * Nat.pow 10 exponent.toNat) (Nat.pow 10 (-exponent).toNat)

/-! ## Powers of ten -/

/-- Multiplies a magnitude by `10 ^ step` while it is too `far` off, `count` times at most. The
exponent beside it is that of the power of ten which leads back. -/
def scaleWhile (far : Nat → Bool) (step : Int) : Nat → Nat × Int → Nat × Int
  | 0, scaled => scaled
  | count + 1, (x, exponent) =>
    if far x then scaleWhile far step count (times x (powerOfTen step), exponent - step)
    else (x, exponent)

/-- A magnitude times a power of ten that gives it 18 or 19 digits in front of the point, and the
exponent of the power of ten which leads back. High powers are made of those with the exponents 100,
10 and 1, and none of these is taken more than eleven times in a row. -/
def scaled (x : Nat) : Nat × Int :=
  if powerOfTen 19 ≤ x then
    [(-100, 119), (-10, 29), (-1, 19)].foldl
      (fun y (step, limit) => scaleWhile (fun z => powerOfTen limit ≤ z) step 12 y) (x, 0)
  else
    [(100, -97), (10, 7), (1, 17)].foldl
      (fun y (step, limit) => scaleWhile (fun z => z < powerOfTen limit) step 12 y) (x, 0)

/-- A magnitude times the power of ten with an exponent. -/
def scaleBy (exponent : Int) (x : Nat) : Nat :=
  let size := exponent.natAbs
  let sizes := List.replicate (size / 100) 100 ++ List.replicate (size % 100 / 10) 10 ++
    List.replicate (size % 10) 1
  sizes.foldl (fun y (step : Int) => times y (powerOfTen (if exponent < 0 then -step else step))) x

/-- Moves factors of ten between some digits and their exponent, to bring the exponent nearer to
zero while the digits still fit 64 binary ones. This is done `count` times at most. -/
def absorb : Nat → Nat → Int → Nat × Int
  | 0, digits, exponent => (digits, exponent)
  | count + 1, digits, exponent =>
    if 0 < exponent ∧ digits < 1844674407370955161 then
      absorb count (digits * 10) (exponent - 1)
    else if exponent < 0 ∧ digits % 10 = 0 then
      absorb count (digits / 10) (exponent + 1)
    else
      (digits, exponent)

end Extended

namespace Double

/-- The double nearest to a magnitude of so many fine units, unless it lies beyond the finite
doubles. -/
def ofExtended? (negative : Bool) (x : Nat) : Option Double :=
  if unitsAt (placeLimit - 1) * Extended.perUnit < x then none
  else ofRatio? negative x Extended.one

/-- The double for `± digits * 10 ^ exponent` in extended precision, unless it lies beyond the
finite doubles. The digits fit 64 binary ones; twenty factors of ten are more than they have room
for. Exponents that leave no doubt about the answer are cut off before powers of ten are formed. -/
def ofNumeral? (negative : Bool) (digits : Nat) (exponent : Int) : Option Double :=
  let (digits, exponent) := Extended.absorb 20 digits exponent
  if digits = 0 ∨ exponent = 0 then ofRatio? negative digits 1
  else if 310 < exponent then none
  else if exponent < -350 then some { zero with negative }
  else ofExtended? negative (Extended.scaleBy exponent (digits * Extended.one))

end Double

end CardTable
