import CardTable.Table.Stored

set_option autoImplicit false

/-!
# Dumps

A dump of a stored table is the text of statements that build it again: one that makes the table,
and one for each row.

## Main definitions

* `CardTable.Cell.literal` — a cell inside a statement.
* `CardTable.StoredTable.dump` — the dump of a table.
-/

namespace CardTable

/-- A cell inside a statement; a quote inside a text is written twice. -/
def Cell.literal : Cell → List Char
  | .null => "NULL".toList
  | .integer n => Json.intText n
  | .real x => x.render .json
  | .infinite negative => if negative then "-1e999".toList else "1e999".toList
  | .text s => '\'' :: (s.toList.flatMap fun c => if c = '\'' then ['\'', '\''] else [c]) ++ ['\'']

namespace StoredTable

/-- The statement that adds a row. -/
def rowStatement (row : List Cell) : List Char :=
  "INSERT INTO ".toList ++ Statement.quoteName Statement.tableName ++ " VALUES (".toList ++
    Statement.joinComma (row.map Cell.literal) ++ ");\n".toList

/-- The dump of a table. -/
def dump (t : StoredTable) : String :=
  String.ofList (Statement.create t.columns ++ ";\n".toList ++ t.rows.flatMap rowStatement)

end StoredTable

end CardTable
