import CardTable.Number.Extended
import CardTable.Number.Style
import CardTable.Text.Digits

set_option autoImplicit false

/-!
# Doubles with a given number of digits

Where a store of texts takes in a double, it does not write the shortest digits that lead back to
it. It works out 18 or 19 digits in extended precision, rounds these to fifteen significant ones and
leaves out zeros at the end, so that two doubles may have one text. The text always shows that it is
that of a double, by a decimal point.

## Main definitions

* `CardTable.roundHalfUp` — a fraction rounded to a whole number.
* `CardTable.Double.roundedTo` — a double rounded to some significant digits.
* `CardTable.Double.roundedText` — the text of a double with at most fifteen digits.
-/

namespace CardTable

/-- The whole number nearest to `num / den`; of two equally near ones, the greater one. -/
def roundHalfUp (num den : Nat) : Nat :=
  (2 * num + den) / (2 * den)

/-- The magnitude of `x` with `count` significant digits; zero has the digit zero in front of the
point. -/
def Double.roundedTo (count : Nat) (x : Double) : Decimal :=
  if x.isZero then ⟨0, 1⟩
  else
    let (scaled, exponent) := Extended.scaled (x.units * Extended.perUnit)
    let whole := scaled / Extended.one
    let point := digitCount whole + exponent
    let digits := roundHalfUp whole (Nat.pow 10 (digitCount whole - count))
    -- A carry out of the first digit moves the point.
    if digits = Nat.pow 10 count then ⟨1, point + 1⟩ else ⟨digits, point⟩

namespace Decimal

/-- The same decimal number without zeros at the end of its digits. -/
def withoutZeros (d : Decimal) : Decimal :=
  let ds := Nat.toDigits 10 d.digits
  { d with digits := Text.digitsValue (ds.reverse.dropWhile (· == '0')).reverse }

/-- The decimal number `d` written with one digit before the point, at least one behind it, and an
exponent with a sign and at least two digits. -/
def paddedExponentForm (d : Decimal) : List Char :=
  let ds := Nat.toDigits 10 d.digits
  let exponent := d.point - 1
  let fraction := if ds.length ≤ 1 then ['0'] else ds.drop 1
  let sign := if exponent < 0 then '-' else '+'
  let padding := if exponent.natAbs < 10 then ['0'] else []
  ds.take 1 ++ ['.'] ++ fraction ++ ['e', sign] ++ padding ++ Nat.toDigits 10 exponent.natAbs

end Decimal

/-- The text of `x` with at most fifteen significant digits. Positions `-3` to `15` of the point
need no exponent, and a zero has no sign. -/
def Double.roundedText (x : Double) : List Char :=
  let d := (x.roundedTo 15).withoutZeros
  let sign := if x.negative && !x.isZero then ['-'] else []
  sign ++ if -4 < d.point ∧ d.point ≤ 15 then d.positionalForm ['.', '0'] else d.paddedExponentForm

end CardTable
