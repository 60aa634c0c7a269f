import CardTable.Text.Digits
import CardTable.Text.White

set_option autoImplicit false

/-!
# Release dates

A release date is a day of the Gregorian calendar, counted backwards without end before its
introduction. It is written year first, with or without separators, or day first; the separator is
a hyphen or a slash. The numbers may be short and may have white space in front.

## Main definitions

* `CardTable.Date` — the days in range.
* `CardTable.Date.iso` — the ISO form of a day.
* `CardTable.Date.Layout` — the accepted layouts.
* `CardTable.Date.read?` — the day that a text spells.
-/

namespace CardTable

/-- Whether a year has a 29th of February. -/
def isLeapYear (year : Int) : Bool :=
  year % 4 = 0 ∧ (year % 100 ≠ 0 ∨ year % 400 = 0)

/-- The number of days of a month. -/
def daysInMonth (year : Int) (month : Nat) : Nat :=
  if month = 2 then (if isLeapYear year then 29 else 28)
  else if month = 4 ∨ month = 6 ∨ month = 9 ∨ month = 11 then 30
  else 31

/-- Whether year, month and day make a day in range. -/
abbrev IsDay (year : Int) (month day : Nat) : Prop :=
  (-262143 ≤ year ∧ year ≤ 262142) ∧ (1 ≤ month ∧ month ≤ 12) ∧
    (1 ≤ day ∧ day ≤ daysInMonth year month)

/-- A day. -/
structure Date where
  /-- The year; year zero is in front of year one. -/
  year : Int
  /-- The month, counted from one. -/
  month : Nat
  /-- The day of the month, counted from one. -/
  day : Nat
  /-- The three make a day in range. -/
  isDay : IsDay year month day
deriving DecidableEq

namespace Date

/-- The day of the given year, month and day, if they make one. -/
def of? (year : Int) (month day : Nat) : Option Date :=
  if h : IsDay year month day then some ⟨year, month, day, h⟩ else none

/-! ## Writing -/

/-- The decimal digits of `n`, with zeros in front up to the given width. -/
def padded (width n : Nat) : List Char :=
  let digits := Nat.toDigits 10 n
  List.replicate (width - digits.length) '0' ++ digits

/-- The year in the ISO form: four digits at least, behind a sign if it is not a number of four
digits. -/
def yearText (year : Int) : List Char :=
  if year < 0 then '-' :: padded 4 year.natAbs
  else if 9999 < year then '+' :: padded 4 year.natAbs
  else padded 4 year.natAbs

/-- The ISO form. -/
def isoText (d : Date) : List Char :=
  yearText d.year ++ '-' :: (padded 2 d.month ++ '-' :: padded 2 d.day)

/-- The ISO form as a string. -/
def iso (d : Date) : String :=
  String.ofList d.isoText

/-! ## Reading -/

/-- The number that the first digits write, of which there is one at least and not more than
`limit`, and the text behind them. -/
def readDigits? (limit : Nat) (cs : List Char) : Option (Nat × List Char) :=
  let digits := (cs.take limit).takeWhile Char.isDigit
  if digits = [] then none else some (Text.digitsValue digits, cs.drop digits.length)

/-- The year at the beginning, and the text behind it: up to four digits, or a sign and any number
of digits. -/
def readYear? (cs : List Char) : Option (Int × List Char) :=
  match cs.dropWhile Text.isWhite with
  | '-' :: rest => (readDigits? rest.length rest).map fun (n, behind) => (-n, behind)
  | '+' :: rest => (readDigits? rest.length rest).map fun (n, behind) => (n, behind)
  | rest => (readDigits? 4 rest).map fun (n, behind) => (n, behind)

/-- The month or day at the beginning, and the text behind it. -/
def readTwo? (cs : List Char) : Option (Nat × List Char) :=
  readDigits? 2 (cs.dropWhile Text.isWhite)

/-- The text behind a hyphen. -/
def behindHyphen? : List Char → Option (List Char)
  | '-' :: rest => some rest
  | _ => none

/-- The accepted layouts. -/
inductive Layout where
  /-- Year, month and day with hyphens between them. -/
  | yearFirst
  /-- Year, month and day with nothing between them. -/
  | compact
  /-- Day, month and year with hyphens between them. -/
  | dayFirst
deriving DecidableEq

/-- The day that a text spells in the given layout. -/
def Layout.read? (layout : Layout) (cs : List Char) : Option Date :=
  match layout with
  | .yearFirst => do
    let (year, cs) ← readYear? cs
    let cs ← behindHyphen? cs
    let (month, cs) ← readTwo? cs
    let cs ← behindHyphen? cs
    let (day, cs) ← readTwo? cs
    if cs = [] then of? year month day else none
  | .compact => do
    let (year, cs) ← readYear? cs
    let (month, cs) ← readTwo? cs
    let (day, cs) ← readTwo? cs
    if cs = [] then of? year month day else none
  | .dayFirst => do
    let (day, cs) ← readTwo? cs
    let cs ← behindHyphen? cs
    let (month, cs) ← readTwo? cs
    let cs ← behindHyphen? cs
    let (year, cs) ← readYear? cs
    if cs = [] then of? year month day else none

/-- The day that a text spells: white space around it does not count, slashes are hyphens, and of
the layouts the first one that fits decides. -/
def readList? (cs : List Char) : Option Date :=
  let text := (Text.trimList cs).map fun c => if c = '/' then '-' else c
  [Layout.yearFirst, Layout.compact, Layout.dayFirst].findSome? fun layout => layout.read? text

/-- The day that a string spells. -/
def read? (s : String) : Option Date :=
  readList? s.toList

end Date

end CardTable
