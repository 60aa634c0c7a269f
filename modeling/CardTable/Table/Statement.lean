import CardTable.Table.Schema
import CardTable.Text.Size

set_option autoImplicit false

/-!
# Statements

The two SQL statements that build the card table. A name stands between double quotes, and a
double quote inside it is written twice, so that no name can end early.

## Main definitions

* `CardTable.Statement.quoteName` — a quoted name.
* `CardTable.Statement.create` — the statement that makes the table.
* `CardTable.Statement.insert` — the statement that adds a row.
* `CardTable.Statement.offsetOfName` — where the name of a column starts in the first statement.
-/

namespace CardTable.Statement

/-- The name of the table. -/
def tableName : String := "cards"

/-- The inside of a quoted name. -/
def doubleQuotes (name : List Char) : List Char :=
  name.flatMap fun c => if c = '"' then ['"', '"'] else [c]

/-- A name between quotes. -/
def quoteName (name : String) : List Char :=
  '"' :: (doubleQuotes name.toList ++ ['"'])

/-- What follows the type of a key. -/
def keyMark : List Char :=
  " NOT NULL PRIMARY KEY".toList

/-- The definition of a column. -/
def definition (c : ColumnDefinition) : List Char :=
  quoteName c.name ++ ' ' :: (c.kind.declared.toList ++ if c.isKey then keyMark else [])

/-- Texts with a comma and a blank between them. -/
def joinComma : List (List Char) → List Char
  | [] => []
  | [text] => text
  | text :: more => text ++ ',' :: ' ' :: joinComma more

/-- The text in front of the column definitions. -/
def opening : List Char :=
  "CREATE TABLE ".toList ++ quoteName tableName ++ [' ', '(']

/-- The statement that makes the table. -/
def create (columns : List ColumnDefinition) : List Char :=
  opening ++ joinComma (columns.map definition) ++ [')']

/-- The statement that adds a row. -/
def insert (columns : List ColumnDefinition) : List Char :=
  "INSERT INTO ".toList ++ quoteName tableName ++ [' ', '('] ++
    joinComma (columns.map fun c => quoteName c.name) ++
    ") VALUES (".toList ++ joinComma (columns.map fun _ => ['?']) ++ [')']

/-- The definitions of columns, each with a comma and a blank behind it. -/
def definitions (columns : List ColumnDefinition) : List Char :=
  columns.flatMap fun c => definition c ++ [',', ' ']

/-- Where the name of a column starts in the statement that makes the table, counted in bytes,
if the columns `before` stand in front of it. -/
def offsetOfName (before : List ColumnDefinition) : Nat :=
  Text.byteCount (opening ++ definitions before)

end CardTable.Statement
