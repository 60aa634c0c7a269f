import CardTable.Toml.Plain
import CardTable.Value.Fields

set_option autoImplicit false

/-!
# TOML documents

A document is a table that grows line by line. A header names the table that the lines below it
belong to, and a key with dots in it makes tables on its way. A table is defined at one place only:
what was defined by a header or by a value is not extended by keys with dots, and what was made by
keys with dots is not named by a header.

## Main definitions

* `CardTable.Toml` — values.
* `CardTable.Toml.Node` — parts of a growing document.
* `CardTable.Toml.Node.setKey`, `CardTable.Toml.Node.openTable`, `CardTable.Toml.Node.openItem` —
  what the lines of a document do.
* `CardTable.Toml.Node.toml` — the value of a finished part.
-/

namespace CardTable

/-- A TOML value. Only the form of numbers, truth values and times is known. -/
inductive Toml where
  /-- A text. -/
  | text (s : String)
  /-- A number, a truth value or a time. -/
  | plain (p : Toml.Plain)
  /-- An array. -/
  | list (items : List Toml)
  /-- A table. -/
  | table (fields : List (String × Toml))

namespace Toml

/-- A part of a growing document. -/
inductive Node where
  /-- A value that a key was set to. -/
  | value (v : Toml)
  /-- A table: whether a header for it may still come, and whether keys with dots have made it. -/
  | table (isOpen dotted : Bool) (fields : List (String × Node))
  /-- The tables of an array of tables, the last one first. -/
  | tables (items : List (List (String × Node)))

namespace Node

/-! ## Growing -/

/-- Changes the table that a path leads to, by a change that knows whether keys with dots have made
that table. Tables that are missing on the way are made; an array of tables leads to its last
table. With `dotted` the path is that of a key, otherwise that of a header. -/
def change (dotted : Bool)
    (f : Bool → Fields Node → Option (Fields Node)) (reached : Bool) (fields : Fields Node) :
    List String → Option (Fields Node)
  | [] => f reached fields
  | key :: path =>
    match Fields.get? fields key with
    | none => do
      let sub ← change dotted f dotted [] path
      some (Fields.insert fields key (.table true dotted sub))
    | some (.table isOpen wasDotted sub) =>
      if dotted ∧ ¬ isOpen then none
      else do
        let sub ← change dotted f wasDotted sub path
        some (Fields.insert fields key (.table isOpen wasDotted sub))
    | some (.tables (last :: before)) => do
      let last ← change dotted f false last path
      some (Fields.insert fields key (.tables (last :: before)))
    | some _ => none

/-- Sets the last key of a path to a value, in a table that keys with dots have made exactly if
there are further keys in the path. -/
def setLast (key : String) (v : Toml) (hasPath : Bool) (dotted : Bool) (fields : Fields Node) :
    Option (Fields Node) :=
  if dotted = hasPath ∧ (Fields.get? fields key).isNone then
    some (Fields.insert fields key (.value v))
  else none

/-- Sets a key, with its path in front of it, in the table with the given header. -/
def setKey (header : List String) (path : List String) (key : String) (v : Toml)
    (doc : Fields Node) : Option (Fields Node) :=
  change false
    (fun _ fields => change true (setLast key v (!path.isEmpty)) false fields path) false doc header

/-- Defines the table with the given header. -/
def openTable (path : List String) (key : String) (doc : Fields Node) : Option (Fields Node) :=
  change false
    (fun _ fields =>
      match Fields.get? fields key with
      | none => some (Fields.insert fields key (.table false false []))
      | some (.table true false sub) => some (Fields.insert fields key (.table false false sub))
      | some _ => none)
    false doc path

/-- Adds a table to the array of tables with the given header. -/
def openItem (path : List String) (key : String) (doc : Fields Node) : Option (Fields Node) :=
  change false
    (fun _ fields =>
      match Fields.get? fields key with
      | none => some (Fields.insert fields key (.tables [[]]))
      | some (.tables items) => some (Fields.insert fields key (.tables ([] :: items)))
      | some _ => none)
    false doc path

/-! ## Finished parts -/

mutual

/-- The value of a finished part. -/
def toml : Node → Toml
  | .value v => v
  | .table _ _ fields => .table (tomlFields fields)
  | .tables items => .list (tomlItems items).reverse

/-- The values of finished fields. -/
def tomlFields : List (String × Node) → List (String × Toml)
  | [] => []
  | (key, node) :: rest => (key, toml node) :: tomlFields rest

/-- The values of finished tables. -/
def tomlItems : List (List (String × Node)) → List Toml
  | [] => []
  | fields :: rest => .table (tomlFields fields) :: tomlItems rest

end

end Node

end Toml

end CardTable
