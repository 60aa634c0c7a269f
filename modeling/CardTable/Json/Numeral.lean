import CardTable.Text.Digits
import CardTable.Value.Basic

set_option autoImplicit false

/-!
# Numbers in JSON texts

A JSON numeral without fraction and exponent is a whole number if it fits 64 bits, signed or
unsigned; every other numeral, and `-0`, is a double.

A double is read in a fixed way that rounds more than once: as many leading digits as fit an
unsigned 64-bit word are rounded to a double, which is then multiplied or divided by a power of
ten that is rounded itself. A numeral whose product lies beyond the finite doubles is refused.

## Main definitions

* `CardTable.Json.Numeral` — the parts of a numeral.
* `CardTable.Json.Numeral.value?` — the number that a numeral stands for.
-/

namespace CardTable.Json

open CardTable.Text (digitValue digitsValue)

/-- The parts of a numeral. -/
structure Numeral where
  /-- Whether a minus sign stands in front. -/
  negative : Bool
  /-- The digits before the decimal point. -/
  whole : List Char
  /-- The digits behind the decimal point, if there is one. -/
  fraction : Option (List Char)
  /-- The exponent, if there is one. -/
  exponent : Option Int

namespace Numeral

/-- Reads digits behind `significand` as long as the result fits an unsigned 64-bit word; gives
the result and the digits that are left. -/
def takeDigits (significand : Nat) : List Char → Nat × List Char
  | [] => (significand, [])
  | c :: rest =>
    let next := significand * 10 + digitValue c
    if next < 18446744073709551616 then takeDigits next rest else (significand, c :: rest)

/-- The double nearest to `10 ^ n`, for `n` up to 308. -/
def tenPower (n : Nat) : Double :=
  (Double.ofDecimal? false 1 n).getD .zero

/-- `x * 10 ^ exponent`, a negative exponent taken in steps of 308 as long as something is left;
`none` beyond the finite doubles. -/
def scale? (x : Double) (exponent : Int) : Option Double :=
  if h : exponent < -308 then
    if x.isZero then some x
    else (x.div? (tenPower 308)).bind (scale? · (exponent + 308))
  else if exponent < 0 then x.div? (tenPower (-exponent).toNat)
  else if exponent ≤ 308 then x.mul? (tenPower exponent.toNat)
  else if x.isZero then some x
  else none
termination_by (-exponent).toNat
decreasing_by omega

/-- The double that the numeral stands for, unless it is refused. -/
def double? (numeral : Numeral) : Option Double :=
  let (significand, wholeLeft) := takeDigits 0 numeral.whole
  let fraction := numeral.fraction.getD []
  let (significand, fractionLeft) := takeDigits significand fraction
  let shift : Int := wholeLeft.length - (fraction.length - fractionLeft.length : Nat)
  let exponent := shift + numeral.exponent.getD 0
  ((Double.ofInt? significand).bind (scale? · exponent)).map fun x =>
    if numeral.negative then x.neg else x

/-- The number that the numeral stands for, unless it is refused. -/
def value? (numeral : Numeral) : Option Number :=
  let magnitude : Int := digitsValue numeral.whole
  let n := if numeral.negative then -magnitude else magnitude
  if h : Wide n then
    if numeral.fraction.isNone && numeral.exponent.isNone && !(numeral.negative && n == 0) then
      some (.whole n h)
    else numeral.double?.map .double
  else numeral.double?.map .double

end Numeral

end CardTable.Json
