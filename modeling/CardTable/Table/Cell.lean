import CardTable.Json.Printer

set_option autoImplicit false

/-!
# Cells

A cell of the card table holds nothing, a whole number, a double or a text. Which of these it holds
belongs to the cell and not to its column. The store makes an infinite number of a text that spells
one beyond the doubles; no value of a card is infinite.

## Main definitions

* `CardTable.Cell` — cells.
* `CardTable.Cell.display` — a cell in running text.
-/

namespace CardTable

/-- A cell. -/
inductive Cell where
  /-- No value. -/
  | null
  /-- A whole number. -/
  | integer (n : Int)
  /-- A double. -/
  | real (x : Double)
  /-- An infinite number. -/
  | infinite (negative : Bool)
  /-- A text. -/
  | text (s : String)
deriving DecidableEq

namespace Cell

/-- Whether the cell holds no value. -/
def isNull : Cell → Bool
  | .null => true
  | _ => false

/-- The cell in running text. -/
def display : Cell → String
  | .null => "NULL"
  | .integer n => String.ofList (Json.intText n)
  | .real x => String.ofList (x.render .plain)
  | .infinite negative => if negative then "-inf" else "inf"
  | .text s => s

end Cell

end CardTable
