import CardTable.Corpus.Error
import CardTable.Corpus.Pack
import CardTable.Json.Reader

set_option autoImplicit false

/-!
# The catalog of sets

The catalog says what is known about the sets that flat card files belong to. It is a list of
mappings with an id each; lists inside the list count as their entries. Of several entries with
one id the last one counts.

## Main definitions

* `CardTable.SetInfo`, `CardTable.Catalog` — what is known about sets.
* `CardTable.leaves` — the entries of nested lists.
* `CardTable.Catalog.ofValue` — the catalog that a value gives.
* `CardTable.Catalog.read` — the catalog in a file.

## Main results

* `CardTable.leavesOf_append` — the entries of lists one after the other.
-/

namespace CardTable

/-- What is known about a set. -/
structure SetInfo where
  /-- The name. -/
  name : Option String
  /-- The series that it belongs to. -/
  series : Option String
  /-- The release date. -/
  releaseDate : Option Date
deriving DecidableEq

/-- What is known about each set, under its id. -/
abbrev Catalog : Type := Fields SetInfo

mutual

/-- The entries of a value: those of its items if it is a list, and the value itself otherwise. -/
def leaves : Value → List Value
  | .list items => leavesOf items
  | .null => [.null]
  | .bool b => [.bool b]
  | .num n => [.num n]
  | .str s => [.str s]
  | .mapping fields => [.mapping fields]

/-- The entries of values, one after the other. -/
def leavesOf : List Value → List Value
  | [] => []
  | v :: rest => leaves v ++ leavesOf rest

end

/-- The entries of lists one after the other. -/
theorem leavesOf_append (vs ws : List Value) :
    leavesOf (vs ++ ws) = leavesOf vs ++ leavesOf ws := by
  induction vs with
  | nil => simp [leavesOf]
  | cons v vs ih => simp [leavesOf, ih]

namespace Catalog

/-- What the fields of a catalog entry say about a set. -/
def info (fields : Fields Value) : SetInfo where
  name := (fields.get? "name").bind Value.text?
  series := (fields.get? "series").bind Value.text?
  releaseDate := (fields.get? "releaseDate").bind Value.releaseDate?

/-- The catalog with the given entries added, the first of which has the position `index`. -/
def addEntries (catalog : Catalog) (index : Nat) : List Value → Except InputProblem Catalog
  | [] => .ok catalog
  | .mapping fields :: rest =>
    match Fields.get? fields "id" with
    | some (.str id) => addEntries (Fields.insert catalog id (info fields)) (index + 1) rest
    | _ => .error (.entryWithoutId index)
  | _ :: _ => .error (.entryNotMapping index)

/-- The catalog that a value gives: a list, or a single entry. -/
def ofValue (v : Value) : Except InputProblem Catalog :=
  match v with
  | .list _ | .mapping _ => addEntries [] 0 (leaves v)
  | _ => .error .catalogNotList

/-- The catalog in a file. -/
def read (t : FileTree) (file : Path) : Except CorpusError Catalog := do
  if t.isFile file then
    let text ← (t.readText file).mapError (.io file)
    if Text.trim text = "" then .error (.missing (.catalogText file))
    else
      match Json.read? text with
      | none => .error (.json file)
      | some v => (ofValue v).mapError (.invalid file)
  else .error (.missing (.catalog file))

end Catalog

end CardTable
