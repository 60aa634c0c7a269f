import CardTable.Number.Rounded
import CardTable.Table.Row
import CardTable.Table.Statement

set_option autoImplicit false

/-!
# Stored tables

The table as the store keeps it. The store has rules of its own. Names of columns differ in more
than the case of ASCII letters, and there are at most 2000 of them. A cell is converted to fit the
declared type of its column: a text that spells a number becomes that number, a double that is whole
a whole number, and a number a text. Where texts and doubles are converted, this is done in extended
precision. A key is never empty and never used twice, and a key that is declared as a whole number
is also the order of the rows.

## Main definitions

* `CardTable.Affinity` — the conversions that declared types ask for.
* `CardTable.StoredTable` — columns and rows.
* `CardTable.StoredTable.ofColumns` — the empty table with the given columns.
* `CardTable.StoredTable.insert` — a table with one more row.
-/

namespace CardTable

/-! ## Numbers in texts -/

/-- Whether the store skips `c` around a number. -/
def isStoreBlank (c : Char) : Bool :=
  c == ' ' || (decide (0x09 ≤ c.toNat) && decide (c.toNat ≤ 0x0d))

/-- A text without the blanks at both ends. -/
def trimStoreBlanks (cs : List Char) : List Char :=
  ((cs.dropWhile isStoreBlank).reverse.dropWhile isStoreBlank).reverse

/-- A sign and the text behind it; without a sign the text is positive. -/
def splitSign : List Char → Bool × List Char
  | '-' :: rest => (true, rest)
  | '+' :: rest => (false, rest)
  | cs => (false, cs)

/-- The exponent that a text spells, where an empty text spells zero. Beyond five digits it is not
read on. -/
def exponentOf? : List Char → Option Int
  | [] => some 0
  | e :: rest =>
    let (negative, digits) := splitSign rest
    if (e = 'e' ∨ e = 'E') ∧ digits ≠ [] ∧ digits.all Char.isDigit then
      let n : Nat := digits.foldl
        (fun n c => if n < 10000 then n * 10 + Text.digitValue c else 10000) 0
      some (if negative then -n else n)
    else
      none

/-- The digits of a number that count, and their exponent: further digits are left out once there is
no room for one more in 64 binary digits. -/
def significand (whole fraction : List Char) : Nat × Int :=
  let read (taken left : Int) (s : Nat × Int) (c : Char) : Nat × Int :=
    if s.1 < 1844674407370955160 then (s.1 * 10 + Text.digitValue c, s.2 + taken)
    else (s.1, s.2 + left)
  fraction.foldl (read (-1) 0) (whole.foldl (read 0 1) (0, 0))

/-- The cell of a double, as a whole number if it is one that a signed 64-bit word holds. The least
such number is left out. -/
def wholeCell (x : Double) : Cell :=
  match x.toInt? with
  | some n => if -9223372036854775808 < n ∧ n < 9223372036854775808 then .integer n else .real x
  | none => .real x

/-- The number that a text spells, if it spells one: a whole number where it is one. -/
def numberCell? (s : String) : Option Cell :=
  let (negative, cs) := splitSign (trimStoreBlanks s.toList)
  let whole := cs.takeWhile Char.isDigit
  let rest := cs.dropWhile Char.isDigit
  let n : Int := Text.digitsValue whole
  let signed := if negative then -n else n
  if rest = [] ∧ whole ≠ [] ∧ Signed signed then
    some (.integer signed)
  else
    let behindPoint := if rest.head? = some '.' then rest.drop 1 else []
    let fraction := behindPoint.takeWhile Char.isDigit
    let tail := if rest.head? = some '.' then behindPoint.dropWhile Char.isDigit else rest
    if whole = [] ∧ fraction = [] then none
    else do
      let exponent ← exponentOf? tail
      let (digits, shift) := significand whole fraction
      match Double.ofNumeral? negative digits (exponent + shift) with
      | some x => some (wholeCell x)
      | none => some (.infinite negative)

/-! ## Conversions -/

/-- What a declared type asks of the cells of its column. -/
inductive Affinity where
  /-- Numbers, whole ones where that is possible. -/
  | numeric
  /-- Doubles. -/
  | real
  /-- Texts. -/
  | text
deriving DecidableEq

/-- What a column of the given kind asks of its cells. -/
def ColumnKind.affinity : ColumnKind → Affinity
  | .integer | .date => .numeric
  | .real => .real
  | .text => .text

namespace Affinity

/-- The cell `c` as a number if it spells one, and as a whole number if it is one. -/
def toNumeric (c : Cell) : Cell :=
  match c with
  | .real x => wholeCell x
  | .text s => (numberCell? s).getD c
  | _ => c

/-- The cell that is stored for `c`. -/
def apply : Affinity → Cell → Cell
  | .numeric, c => toNumeric c
  | .real, c =>
    match toNumeric c with
    | .integer n => .real ((Double.ofInt? n).getD .zero)
    | other => other
  | .text, c =>
    match c with
    | .integer n => .text (String.ofList (Json.intText n))
    | .real x => .text (String.ofList x.roundedText)
    | .infinite negative => .text (if negative then "-Inf" else "Inf")
    | _ => c

end Affinity

/-! ## Tables -/

/-- A stored table. -/
structure StoredTable where
  /-- The columns; the key is the first one. -/
  columns : List ColumnDefinition
  /-- The rows. -/
  rows : List (List Cell)
deriving DecidableEq

/-- Why the store refuses a table. -/
inductive StoreError where
  /-- The name of a column was there before. -/
  | duplicateColumn (name : String)
  /-- There are too many columns. -/
  | tooManyColumns
  /-- The name of a column ends early: the statement has no text behind a NUL character. -/
  | unterminatedName (token : String) (statement : String) (offset : Nat)
  /-- The key is declared as a whole number and is none. -/
  | keyMismatch
  /-- The file of the table cannot be opened. -/
  | cannotOpen (file : String)
  /-- What is left of an earlier use of the file cannot be deleted. -/
  | cannotDelete
deriving DecidableEq

/-- The wording of a store error. -/
def StoreError.message : StoreError → String
  | .duplicateColumn name => "duplicate column name: " ++ name
  | .tooManyColumns => "too many columns on " ++ Statement.tableName
  | .unterminatedName token statement offset =>
    "unrecognized token: \"" ++ token ++ "\" in " ++ statement ++ " at offset " ++
      String.ofList (Nat.toDigits 10 offset)
  | .keyMismatch => "datatype mismatch"
  | .cannotOpen file => "unable to open database file: " ++ file
  | .cannotDelete => "disk I/O error"

/-- The number of columns that a table may have. -/
def columnLimit : Nat := 2000

/-- Whether two names differ at most in the case of ASCII letters. -/
def sameName (a b : String) : Bool :=
  a.toList.map Char.toLower == b.toList.map Char.toLower

/-- The error at the first column that is refused behind the columns `before`, if there is one. -/
def columnError? (all before : List ColumnDefinition) :
    List ColumnDefinition → Option StoreError
  | [] => none
  | c :: rest =>
    if '\x00' ∈ c.name.toList then
      let token := (Statement.quoteName c.name).takeWhile (· != '\x00')
      some (.unterminatedName (String.ofList token) (String.ofList (Statement.create all))
        (Statement.offsetOfName before))
    else if columnLimit ≤ before.length then some .tooManyColumns
    else if before.any fun d => sameName d.name c.name then some (.duplicateColumn c.name)
    else columnError? all (before ++ [c]) rest

namespace StoredTable

/-- The empty table with the given columns. -/
def ofColumns (columns : List ColumnDefinition) : Except StoreError StoredTable :=
  match columnError? columns [] columns with
  | some e => .error e
  | none => .ok ⟨columns, []⟩

/-- The row that is stored for `row`. -/
def storedRow (t : StoredTable) (row : List Cell) : List Cell :=
  List.zipWith (fun c cell => c.kind.affinity.apply cell) t.columns row

/-- The key of a row. -/
def keyOf (row : List Cell) : Cell :=
  row.headD .null

/-- Whether two cells are the same key: numbers if they are the same number, all else exactly. -/
def sameKey : Cell → Cell → Bool
  | .real x, .real y => x.numEq y
  | .real x, .integer n => x.toInt? == some n
  | .integer n, .real x => x.toInt? == some n
  | a, b => a == b

/-- The kind of the key. -/
def keyKind (t : StoredTable) : ColumnKind :=
  match t.columns with
  | c :: _ => c.kind
  | [] => .text

/-- Whether the row `a` stands in front of `b` in a table that is ordered by its key. -/
def rowBefore (a b : List Cell) : Bool :=
  match keyOf a, keyOf b with
  | .integer m, .integer n => decide (m < n)
  | _, _ => false

/-- The rows with `row` put in front of the first one that comes after it. -/
def insertOrdered (row : List Cell) : List (List Cell) → List (List Cell)
  | [] => [row]
  | other :: rest =>
    if rowBefore row other then row :: other :: rest else other :: insertOrdered row rest

/-- Why a row is refused. -/
inductive RowError where
  /-- It has no key. -/
  | missingKey
  /-- The key is that of an earlier row. -/
  | duplicateKey
  /-- The store refuses the cells. -/
  | refused (e : StoreError)
deriving DecidableEq

/-- The table with one more row. A key that is declared as a whole number orders the rows;
otherwise the new row is the last one. -/
def insert (t : StoredTable) (row : List Cell) : Except RowError StoredTable :=
  if (keyOf row).isNull then .error .missingKey
  else
    let stored := t.storedRow row
    match t.keyKind, keyOf stored with
    | .integer, .integer n =>
      if t.rows.any fun other => sameKey (keyOf other) (.integer n) then .error .duplicateKey
      else .ok { t with rows := insertOrdered stored t.rows }
    | .integer, _ => .error (.refused .keyMismatch)
    | _, key =>
      if t.rows.any fun other => sameKey (keyOf other) key then .error .duplicateKey
      else .ok { t with rows := t.rows ++ [stored] }

end StoredTable

end CardTable
