import CardTable.Number.Shortest

set_option autoImplicit false

/-!
# Written forms of a double

Two written forms of a double share their digits, the shortest ones, and differ in where they stop
writing positionally and in the mark of a whole number. In a stored JSON text a double always
shows that it is one, by a decimal point or an exponent; in running text it is written plainly.

## Main definitions

* `CardTable.DecimalStyle` — the choices that a written form makes.
* `CardTable.DecimalStyle.json`, `CardTable.DecimalStyle.plain` — the two forms in use.
* `CardTable.Double.render` — the text of a double in a given style.
-/

namespace CardTable

/-- The choices of a written form. -/
structure DecimalStyle where
  /-- Which of two equally near decimal neighbours is written. -/
  tie : Tie
  /-- Whether a decimal point at this position is written without an exponent. -/
  positional : Int → Bool
  /-- What follows a whole number. -/
  wholeMark : List Char

namespace DecimalStyle

/-- The form inside JSON texts: positions `-4` to `16` need no exponent, a whole number ends in
`.0`, and a tie goes to the even digit. -/
def json : DecimalStyle where
  tie := .even
  positional point := decide (-5 < point) && decide (point ≤ 16)
  wholeMark := ['.', '0']

/-- The form in running text: never an exponent, no mark after a whole number, and a tie goes away
from zero. -/
def plain : DecimalStyle where
  tie := .away
  positional _ := true
  wholeMark := []

end DecimalStyle

namespace Decimal

/-- The decimal number `d` written positionally. -/
def positionalForm (wholeMark : List Char) (d : Decimal) : List Char :=
  let ds := Nat.toDigits 10 d.digits
  if d.point ≤ 0 then
    ['0', '.'] ++ List.replicate (-d.point).toNat '0' ++ ds
  else if d.point < ds.length then
    ds.take d.point.toNat ++ ['.'] ++ ds.drop d.point.toNat
  else
    ds ++ List.replicate (d.point.toNat - ds.length) '0' ++ wholeMark

/-- The decimal number `d` written with one digit before the point and an exponent with a sign. -/
def exponentForm (d : Decimal) : List Char :=
  let ds := Nat.toDigits 10 d.digits
  let exponent := d.point - 1
  let fraction := if ds.length ≤ 1 then [] else ['.'] ++ ds.drop 1
  let sign := if exponent < 0 then '-' else '+'
  ds.take 1 ++ fraction ++ ['e', sign] ++ Nat.toDigits 10 exponent.natAbs

end Decimal

/-- The text of `x` in a given style. -/
def Double.render (style : DecimalStyle) (x : Double) : List Char :=
  let d := x.shortest style.tie
  let sign := if x.negative then ['-'] else []
  sign ++ if style.positional d.point then d.positionalForm style.wholeMark else d.exponentForm

end CardTable
