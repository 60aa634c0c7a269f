import CardTable.Toml.Document
import CardTable.Toml.Text

set_option autoImplicit false

/-!
# Reading TOML

A document consists of lines. A line sets a key, or is the header of a table or of an item of an
array of tables; it may be empty or end in a comment.

## Main definitions

* `CardTable.Toml.keys?` — a key with its path.
* `CardTable.Toml.value?` — a value.
* `CardTable.Toml.read?` — the table that a document stands for.
-/

namespace CardTable.Toml

/-- A text without blanks at its beginning. -/
def dropBlanks (cs : List Char) : List Char :=
  cs.dropWhile isBlank

/-- A text without the comment at its beginning. -/
def dropComment : List Char → List Char
  | '#' :: rest => rest.dropWhile isPlainChar
  | cs => cs

/-- A comment is dropped from a text. -/
theorem length_dropComment_le (cs : List Char) : (dropComment cs).length ≤ cs.length := by
  unfold dropComment
  split
  · next rest =>
    have hle : (rest.dropWhile isPlainChar).length ≤ rest.length :=
      (List.dropWhile_suffix isPlainChar).length_le
    simp only [List.length_cons]
    omega
  · exact Nat.le_refl _

/-- The text behind the end of a line, in front of which blanks and a comment may stand. -/
def lineEnd? (cs : List Char) : Option (List Char) :=
  match dropComment (dropBlanks cs) with
  | [] => some []
  | rest => newline? rest

/-- How deep arrays and tables may be nested, and how many keys may stand between dots. -/
def nesting : Nat := 79

/-! ## Keys -/

/-- Whether `c` may stand in a key without quotes. -/
def isKeyChar (c : Char) : Bool :=
  c.isAlphanum || c == '-' || c == '_'

/-- A single key. -/
def key? : List Char → Option (String × List Char)
  | '"' :: rest => (basic? rest).map fun (body, behind) => (String.ofList body, behind)
  | '\'' :: rest => (literal? rest).map fun (body, behind) => (String.ofList body, behind)
  | cs =>
    let word := cs.takeWhile isKeyChar
    if word = [] then none else some (String.ofList word, cs.dropWhile isKeyChar)

/-- A key with the keys in front of it, with dots between them, all of which may have blanks around
them. There are at most `count` keys. -/
def keysUpTo? : Nat → List Char → Option (List String × String × List Char)
  | 0, _ => none
  | count + 1, cs => do
    let (key, cs) ← key? (dropBlanks cs)
    match dropBlanks cs with
    | '.' :: rest =>
      let (path, last, behind) ← keysUpTo? count rest
      some (key :: path, last, behind)
    | rest => some ([], key, rest)

/-- A key with its path. -/
def keys? (cs : List Char) : Option (List String × String × List Char) :=
  keysUpTo? nesting cs

/-! ## Values -/

/-- A text without the blanks, comments and line ends at its beginning. -/
def dropGaps (cs : List Char) : List Char :=
  match _h : newline? (dropComment (dropBlanks cs)) with
  | some line => dropGaps line
  | none => dropComment (dropBlanks cs)
termination_by cs.length
decreasing_by
  have hline := length_of_newline? _h
  have hcomment := length_dropComment_le (dropBlanks cs)
  have hblanks : (dropBlanks cs).length ≤ cs.length :=
    (List.dropWhile_suffix isBlank).length_le
  omega

/-- The items of an array behind its opening bracket, each read by `item?`. -/
def items? (item? : List Char → Option (Toml × List Char)) (cs : List Char) :
    Option (List Toml × List Char) :=
  match dropGaps cs with
  | ']' :: rest => some ([], rest)
  | start =>
    match item? start with
    | none => none
    | some (v, behind) =>
      match dropGaps behind with
      | ']' :: rest => some ([v], rest)
      | ',' :: rest =>
        if rest.length < cs.length then
          (items? item? rest).map fun (items, behind) => (v :: items, behind)
        else none
      | _ => none
termination_by cs.length

/-- The fields of an inline table up to its closing brace, added to `fields`; each value is read by
`item?`. -/
def inlineFields? (item? : List Char → Option (Toml × List Char)) (fields : Fields Node)
    (cs : List Char) : Option (Fields Node × List Char) :=
  match keys? cs with
  | some (path, key, '=' :: behind) =>
    match item? (dropBlanks behind) with
    | none => none
    | some (v, behind) =>
      match Node.setKey [] path key v fields, dropBlanks behind with
      | some fields, '\x7d' :: rest => some (fields, rest)
      | some fields, ',' :: rest =>
        if rest.length < cs.length then inlineFields? item? fields rest else none
      | _, _ => none
  | _ => none
termination_by cs.length

/-- An inline table behind its opening brace. -/
def inlineTable? (item? : List Char → Option (Toml × List Char)) (cs : List Char) :
    Option (Toml × List Char) :=
  match dropBlanks cs with
  | '\x7d' :: rest => some (.table [], rest)
  | start =>
    (inlineFields? item? [] start).map fun (fields, behind) =>
      (.table (Node.tomlFields fields), behind)

/-- A value without items or fields. -/
def leaf? (cs : List Char) : Option (Toml × List Char) :=
  match text? cs with
  | some (body, behind) => some (.text (String.ofList body), behind)
  | none => (plain? cs).map fun (p, behind) => (.plain p, behind)

/-- A value in which arrays and tables are nested at most `depth` deep. -/
def valueUpTo? : Nat → List Char → Option (Toml × List Char)
  | 0, cs => leaf? cs
  | depth + 1, cs =>
    match cs with
    | '[' :: rest => (items? (valueUpTo? depth) rest).map fun (items, behind) =>
      (.list items, behind)
    | '\x7b' :: rest => inlineTable? (valueUpTo? depth) rest
    | _ => leaf? cs

/-- A value. -/
def value? (cs : List Char) : Option (Toml × List Char) :=
  valueUpTo? nesting cs

/-! ## Documents -/

/-- A document that is being read: the header of the lines that follow, and what there is. -/
structure Draft where
  /-- The header. -/
  header : List String
  /-- The tables and values that the lines have made. -/
  fields : Fields Node

/-- Reads one line into a draft. -/
def line? (d : Draft) (cs : List Char) : Option (Draft × List Char) :=
  match cs with
  | '[' :: '[' :: rest => do
    let (path, key, cs) ← keys? rest
    let cs ← behindWord? "]]" cs
    let fields ← d.fields |> Node.openItem path key
    let behind ← lineEnd? cs
    some (⟨path ++ [key], fields⟩, behind)
  | '[' :: rest => do
    let (path, key, cs) ← keys? rest
    let cs ← behindWord? "]" cs
    let fields ← d.fields |> Node.openTable path key
    let behind ← lineEnd? cs
    some (⟨path ++ [key], fields⟩, behind)
  | _ =>
    match lineEnd? cs with
    | some behind => some (d, behind)
    | none => do
      let (path, key, cs) ← keys? cs
      let cs ← behindWord? "=" cs
      let (v, cs) ← value? (dropBlanks cs)
      let fields ← d.fields |> Node.setKey d.header path key v
      let behind ← lineEnd? cs
      some ({ d with fields }, behind)

/-- Reads all lines into a draft. -/
def lines? (d : Draft) (cs : List Char) : Option Draft :=
  match dropBlanks cs with
  | [] => some d
  | start =>
    match line? d start with
    | some (d, behind) => if behind.length < cs.length then lines? d behind else none
    | none => none
termination_by cs.length

/-- The table that a document stands for. A byte order mark in front does not count. -/
def read? (s : String) : Option Toml :=
  let cs := match s.toList with
    | '\ufeff' :: rest => rest
    | cs => cs
  (lines? ⟨[], []⟩ cs).map fun d => .table (Node.tomlFields d.fields)

end CardTable.Toml
