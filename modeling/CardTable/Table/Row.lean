import CardTable.Table.Cell
import CardTable.Table.Schema

set_option autoImplicit false

/-!
# Rows

A card becomes a row of cells, one for each column. Lists and mappings are stored as their compact
JSON text; in a column that drifts every other value is stored as text too.

## Main definitions

* `CardTable.Column.encode` — the cell of a value.
* `CardTable.encodeRow` — the row of a card.
-/

namespace CardTable

/-- The cell of a number: a whole number if a signed 64-bit word holds it, otherwise the double
nearest to it. -/
def Number.cell (n : Number) : Cell :=
  match n.signed? with
  | some i => .integer i
  | none => .real n.toDouble

/-- The cell of a value in the column `c`; an absent field has no value. -/
def Column.encode (c : Column) : Option Value → Cell
  | none => .null
  | some .null => .null
  | some (.bool b) =>
    if c.drift then .text (if b then "1" else "0") else .integer (if b then 1 else 0)
  | some (.num n) => if c.drift then .text (String.ofList (Json.numberText n)) else n.cell
  | some (.str s) => .text s
  | some (.list items) => .text (Json.text (.list items))
  | some (.mapping fields) => .text (Json.text (.mapping fields))

/-- The cell of a card in the column `c`. -/
def Column.cellOf (c : Column) (card : Card) (pack : Pack) : Cell :=
  match c.source with
  | .field => c.encode (card.get? c.name)
  | .derived d =>
    match pack.get? d with
    | some s => .text s
    | none => .null

/-- The row of a card, in the order of the columns. -/
def encodeRow (columns : List Column) (card : Card) (pack : Pack) : List Cell :=
  columns.map fun c => c.cellOf card pack

end CardTable
