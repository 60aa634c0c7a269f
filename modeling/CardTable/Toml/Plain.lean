import CardTable.Corpus.Date
import CardTable.Number.Double
import CardTable.Text.Hex

set_option autoImplicit false

/-!
# TOML numbers, truth values and times

No setting is a number or a truth value, and a time has no content either, so that only their form
matters. All readers give the text behind what they read.

## Main definitions

* `CardTable.Toml.Plain` — numbers and truth values, and times.
* `CardTable.Toml.time?` — a date, a time of day, or both.
* `CardTable.Toml.float?`, `CardTable.Toml.integer?` — numbers.
* `CardTable.Toml.plain?` — a value of any of these forms.
-/

namespace CardTable.Toml

/-- What a value without content is. -/
inductive Plain where
  /-- A number or a truth value. -/
  | scalar
  /-- A date or a time of day. -/
  | time
deriving DecidableEq

/-- The text behind the word `word`, if that comes first. -/
def behindWord? (word : String) (cs : List Char) : Option (List Char) :=
  if word.toList.isPrefixOf cs then some (cs.drop word.length) else none

/-! ## Digits -/

/-- The digits behind a digit, each of which may have an underscore in front, and the text behind
them. -/
def moreDigits (isDigit : Char → Bool) : List Char → List Char × List Char
  | '_' :: c :: rest =>
    if isDigit c then
      let (digits, behind) := moreDigits isDigit rest
      (c :: digits, behind)
    else ([], '_' :: c :: rest)
  | c :: rest =>
    if isDigit c then
      let (digits, behind) := moreDigits isDigit rest
      (c :: digits, behind)
    else ([], c :: rest)
  | [] => ([], [])

/-- Digits with single underscores between them, and the text behind them. -/
def digits? (isDigit : Char → Bool) : List Char → Option (List Char × List Char)
  | [] => none
  | c :: rest =>
    if isDigit c then
      let (digits, behind) := moreDigits isDigit rest
      some (c :: digits, behind)
    else none

/-- A number of exactly `count` decimal digits, and the text behind it. -/
def fixed? (count : Nat) (cs : List Char) : Option (Nat × List Char) :=
  let digits := cs.take count
  if digits.length = count ∧ digits.all Char.isDigit then
    some (Text.digitsValue digits, cs.drop count)
  else none

/-- A number of two digits that is not above `limit`, and the text behind it. -/
def twoUpTo? (limit : Nat) (cs : List Char) : Option (List Char) :=
  match fixed? 2 cs with
  | some (n, rest) => if n ≤ limit then some rest else none
  | none => none

/-! ## Times -/

/-- A time of day. -/
def clock? (cs : List Char) : Option (List Char) := do
  let cs ← twoUpTo? 23 cs
  let cs ← behindWord? ":" cs
  let cs ← twoUpTo? 59 cs
  let cs ← behindWord? ":" cs
  let cs ← twoUpTo? 60 cs
  match cs with
  | '.' :: d :: rest => some (if d.isDigit then rest.dropWhile Char.isDigit else cs)
  | _ => some cs

/-- The distance of a time of day from the one at Greenwich, which may be missing. -/
def offset? : List Char → Option (List Char)
  | 'Z' :: rest | 'z' :: rest => some rest
  | '+' :: rest | '-' :: rest => do
    let cs ← twoUpTo? 23 rest
    let cs ← behindWord? ":" cs
    twoUpTo? 59 cs
  | cs => some cs

/-- A date. -/
def day? (cs : List Char) : Option (List Char) := do
  let (year, cs) ← fixed? 4 cs
  let cs ← behindWord? "-" cs
  let (month, cs) ← fixed? 2 cs
  let cs ← behindWord? "-" cs
  let (day, cs) ← fixed? 2 cs
  let _ ← Date.of? year month day
  some cs

/-- A date with the time of day that may follow it. -/
def dayAndClock? (cs : List Char) : Option (List Char) := do
  let rest ← day? cs
  match rest with
  | c :: more =>
    if c = 'T' ∨ c = 't' ∨ c = ' ' then
      match clock? more with
      | some behind => offset? behind
      | none => some rest
    else some rest
  | [] => some []

/-- A date, a time of day, or both. -/
def time? (cs : List Char) : Option (List Char) :=
  match dayAndClock? cs with
  | some rest => some rest
  | none => clock? cs

/-! ## Numbers -/

/-- A sign and the text behind it; without a sign the text is positive. -/
def sign : List Char → Bool × List Char
  | '-' :: rest => (true, rest)
  | '+' :: rest => (false, rest)
  | cs => (false, cs)

/-- The digits of a whole number, of which a zero stands alone, and the text behind them. -/
def whole? (cs : List Char) : Option (List Char × List Char) :=
  match cs with
  | '0' :: rest => some (['0'], rest)
  | _ => digits? Char.isDigit cs

/-- The text behind the exponent of a number, with the exponent. -/
def exponent? : List Char → Option (Int × List Char)
  | 'e' :: rest | 'E' :: rest => do
    let (negative, cs) := sign rest
    let (digits, behind) ← digits? Char.isDigit cs
    let n : Int := Text.digitsValue digits
    some (if negative then -n else n, behind)
  | _ => none

/-- A number with a fraction or an exponent. One beyond the doubles is refused if it is positive. -/
def float? (cs : List Char) : Option (List Char) := do
  let (negative, cs) := sign cs
  match behindWord? "inf" cs, behindWord? "nan" cs with
  | some rest, _ => some rest
  | _, some rest => some rest
  | none, none =>
    let (whole, cs) ← whole? cs
    let (fraction, behind) ← match cs with
      | '.' :: rest => digits? Char.isDigit rest
      | _ => some ([], cs)
    let (exponent, behind) ← match exponent? behind with
      | some found => some found
      | none => if fraction = [] then none else some (0, behind)
    if negative then some behind
    else
      let _ ← Double.ofDecimal? false (Text.digitsValue (whole ++ fraction))
        (exponent - fraction.length)
      some behind

/-- The number that digits of a given base write. -/
def valueIn (base : Nat) (digits : List Char) : Nat :=
  digits.foldl (fun acc c => acc * base + (Text.hexValue? c).getD 0) 0

/-- A whole number with a base in front, which has to fit a signed 64-bit word. -/
def based? (base : Nat) (isDigit : Char → Bool) (cs : List Char) : Option (List Char) := do
  let (digits, rest) ← digits? isDigit cs
  if valueIn base digits < 9223372036854775808 then some rest else none

/-- A whole number, which has to fit a signed 64-bit word. -/
def integer? (cs : List Char) : Option (List Char) :=
  match cs with
  | '0' :: 'x' :: rest => based? 16 Text.isHexDigit rest
  | '0' :: 'o' :: rest => based? 8 (fun c => decide ('0' ≤ c ∧ c ≤ '7')) rest
  | '0' :: 'b' :: rest => based? 2 (fun c => c == '0' || c == '1') rest
  | _ => do
    let (negative, cs) := sign cs
    let (digits, rest) ← whole? cs
    let n := Text.digitsValue digits
    if n < 9223372036854775808 ∨ (negative ∧ n = 9223372036854775808) then some rest else none

/-! ## All forms -/

/-- A number, a truth value or a time. -/
def plain? (cs : List Char) : Option (Plain × List Char) :=
  match time? cs with
  | some rest => some (.time, rest)
  | none =>
    let scalar := [float?, integer?, behindWord? "true", behindWord? "false"].findSome? (· cs)
    scalar.map fun rest => (.scalar, rest)

end CardTable.Toml
