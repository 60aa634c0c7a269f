import CardTable.Number.Double

set_option autoImplicit false

/-!
# The shortest decimal digits of a double

The decimal numbers that round to a double form an interval around it. The shortest text of the
double has the fewest significant digits with which some decimal number lies in that interval, and
of the decimal numbers with so many digits it takes the one nearest to the double.

A positive decimal number is written `0.d₁d₂…dₙ × 10 ^ point`.

## Main definitions

* `CardTable.Decimal` — significant digits and the position of the decimal point.
* `CardTable.Tie` — which neighbour wins when two are equally near.
* `CardTable.Double.shortest` — the shortest digits of a non-zero double.
-/

namespace CardTable

/-- A decimal number `0.d₁d₂…dₙ × 10 ^ point`, its digits given as a whole number. -/
structure Decimal where
  /-- The whole number with the digits `d₁d₂…dₙ`. -/
  digits : Nat
  /-- The position of the decimal point, counted from before the first digit. -/
  point : Int
deriving DecidableEq

/-- Which of two equally near decimal neighbours is taken. -/
inductive Tie where
  /-- The neighbour with an even last digit. -/
  | even
  /-- The neighbour farther from zero. -/
  | away
deriving DecidableEq

/-- The number of decimal digits of `n`. -/
def digitCount (n : Nat) : Nat :=
  (Nat.toDigits 10 n).length

namespace Double

/-- Twice the units of the smallest magnitude that rounds to `place`, for a place above zero. -/
def lowerEdge (place : Nat) : Nat :=
  unitsAt (place - 1) + unitsAt place

/-- Twice the units of the largest magnitude that rounds to `place`. -/
def upperEdge (place : Nat) : Nat :=
  unitsAt place + unitsAt (place + 1)

/-- Whether `n / den` of half a unit rounds to `place`: the edges belong to the even place. -/
def roundsTo (place n den : Nat) : Bool :=
  if place % 2 = 0 then lowerEdge place * den ≤ n && n ≤ upperEdge place * den
  else lowerEdge place * den < n && n < upperEdge place * den

/-- The position of the decimal point of the magnitude `halves / (2 * one)`, for `0 < halves`. -/
def pointOf (halves : Nat) : Int :=
  if 2 * one ≤ halves then digitCount (halves / (2 * one))
  else 1 - digitCount ((2 * one - 1) / halves)

/-- The nearest decimal number with `count` digits that rounds to `place`, if there is one: one of
the two neighbours of the magnitude on the grid of such numbers. -/
def withDigits? (tie : Tie) (place : Nat) (point : Int) (count : Nat) : Option Nat :=
  let halves := 2 * unitsAt place
  -- A grid number `n` stands for `n * 10 ^ (point - count)`, that is `n * step / scale` halves.
  let scale := Nat.pow 10 (count - point).toNat
  let step := 2 * one * Nat.pow 10 (point - count).toNat
  let low := halves * scale / step
  let lowHits := roundsTo place (low * step) scale
  let highHits := roundsTo place ((low + 1) * step) scale
  if lowHits && highHits then
    let below := halves * scale - low * step
    let above := (low + 1) * step - halves * scale
    if below < above then some low
    else if above < below then some (low + 1)
    else match tie with
      | .even => some (low + low % 2)
      | .away => some (low + 1)
  else if lowHits then some low
  else if highHits then some (low + 1)
  else none

/-- The first of the digit counts `count, count + 1, …` (`more` of them) that reaches `place`. -/
def firstHit (tie : Tie) (place : Nat) (point : Int) (count : Nat) : Nat → Option (Nat × Nat)
  | 0 => none
  | more + 1 =>
    match withDigits? tie place point count with
    | some digits => some (digits, count)
    | none => firstHit tie place point (count + 1) more

/-- The shortest decimal number that rounds to the magnitude of `x`. Seventeen digits suffice for
every double; zero has the digit zero in front of the point. -/
def shortest (tie : Tie) (x : Double) : Decimal :=
  if x.isZero then ⟨0, 1⟩
  else
    let point := pointOf (2 * x.units)
    match firstHit tie x.place point 1 17 with
    | some (digits, count) =>
      -- A carry out of the first digit moves the point.
      if digits = Nat.pow 10 count then ⟨1, point + 1⟩ else ⟨digits, point⟩
    | none => ⟨0, 1⟩

end Double

end CardTable
