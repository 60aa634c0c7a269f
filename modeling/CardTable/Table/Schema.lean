import CardTable.Value.Basic

set_option autoImplicit false

/-!
# Columns and schemas

The card table has one column for each field of the cards, the `id` first and the others in the
order of their names, and behind them columns that are derived from the pack that a card belongs
to. A field keeps a storage kind of its own only if all its values are of one sort; a field whose
values are of several sorts *drifts* and is stored as text.

## Main definitions

* `CardTable.ColumnKind`, `CardTable.Derived`, `CardTable.Column` — the columns of a table.
* `CardTable.ColumnDefinition` — what the store has to know of a column.
* `CardTable.Pack`, `CardTable.CorpusCard` — what a card takes over from its pack, and the two
  together.
* `CardTable.Profile` — which fields are left out, and which columns are derived.
* `CardTable.Observations` — the sorts of values seen in each field.
* `CardTable.Observations.observe` — takes one card into account.
* `CardTable.Observations.schema` — the columns for the cards seen.
* `CardTable.inferSchema` — the columns for a list of cards.
-/

namespace CardTable

/-- A card: the fields of a mapping. -/
abbrev Card : Type := Fields Value

/-- The field that names a card. -/
def idField : String := "id"

/-! ## Columns -/

/-- The storage kind of a column. -/
inductive ColumnKind where
  | integer | real | text | date
deriving DecidableEq

namespace ColumnKind

/-- The type that a column of this kind is declared with. -/
def declared : ColumnKind → String
  | .integer => "INTEGER"
  | .real => "REAL"
  | .text => "TEXT"
  | .date => "DATE"

/-- The storage kind of a field whose values are all of the given sort. -/
def ofKind : Value.Kind → ColumnKind
  | .integer | .boolean => .integer
  | .float => .real
  | .string | .list | .mapping | .null => .text

end ColumnKind

/-- A column that is derived from the pack of a card. -/
inductive Derived where
  | packName | packSeries | packCode | releaseDate | imageUrl
deriving DecidableEq

namespace Derived

/-- The name of the column. -/
def columnName : Derived → String
  | .packName => "packName"
  | .packSeries => "packSeries"
  | .packCode => "packCode"
  | .releaseDate => "releaseDate"
  | .imageUrl => "imageUrl"

/-- The storage kind of the column. -/
def columnKind : Derived → ColumnKind
  | .releaseDate => .date
  | _ => .text

end Derived

/-- Where the cells of a column come from. -/
inductive ColumnSource where
  /-- The field of the card that has the name of the column. -/
  | field
  /-- The pack of the card. -/
  | derived (d : Derived)
deriving DecidableEq

/-- A column. -/
structure Column where
  /-- The name. -/
  name : String
  /-- The storage kind. -/
  kind : ColumnKind
  /-- The place in the table, counted from zero. -/
  ordinal : Nat
  /-- Where the cells come from. -/
  source : ColumnSource
  /-- Whether the values of the field are of several sorts. -/
  drift : Bool
deriving DecidableEq

/-- Whether the column holds the ids of the cards. -/
def Column.isKey (c : Column) : Bool :=
  c.source = .field ∧ c.name = idField

/-- What the store has to know of a column. -/
structure ColumnDefinition where
  /-- The name. -/
  name : String
  /-- The storage kind. -/
  kind : ColumnKind
  /-- Whether it is the key. -/
  isKey : Bool
deriving DecidableEq

/-- What the store has to know of the column `c`. -/
def Column.definition (c : Column) : ColumnDefinition :=
  ⟨c.name, c.kind, c.isKey⟩

/-- What a card takes over from its pack. -/
structure Pack where
  /-- The name of the pack. -/
  name : Option String := none
  /-- The series that the pack belongs to. -/
  series : Option String := none
  /-- The short code of the pack. -/
  code : Option String := none
  /-- The release date in its ISO form. -/
  releaseDate : Option String := none
  /-- The address of the picture of the card. -/
  imageUrl : Option String := none
deriving DecidableEq

/-- The entry of a derived column. -/
def Pack.get? (pack : Pack) : Derived → Option String
  | .packName => pack.name
  | .packSeries => pack.series
  | .packCode => pack.code
  | .releaseDate => pack.releaseDate
  | .imageUrl => pack.imageUrl

/-- A card with what it takes over from its pack. -/
structure CorpusCard where
  /-- The card. -/
  card : Card
  /-- Its pack. -/
  pack : Pack

/-! ## Profiles -/

/-- Which fields make no column, and which columns are derived, in order. -/
structure Profile where
  /-- The fields that make no column. -/
  excluded : List String
  /-- The derived columns. -/
  derived : List Derived
deriving DecidableEq

namespace Profile

/-- The fields that never make a column. -/
def alwaysExcluded : List String :=
  ["retreatCost", "flavorText", "legalities", "images", "nationalPokedexNumbers"]

/-- The profile of cards listed in one file for each pack. -/
def flat : Profile where
  excluded := alwaysExcluded
  derived := [.packName, .packSeries, .releaseDate, .imageUrl]

/-- The profile of cards that are modules and carry their pack in the field `set`. -/
def modules : Profile where
  excluded := "set" :: alwaysExcluded
  derived := [.packName, .packSeries, .packCode, .releaseDate, .imageUrl]

/-- Whether a derived column has the name `field`. -/
def isReserved (p : Profile) (field : String) : Bool :=
  p.derived.any fun d => d.columnName == field

end Profile

/-! ## Inference -/

/-- Why cards have no schema. -/
inductive SchemaError where
  /-- A field has the name of a derived column. -/
  | reservedColumn (name : String)
  /-- No card has an id. -/
  | missingId
deriving DecidableEq

/-- The wording of a schema error. -/
def SchemaError.message : SchemaError → String
  | .reservedColumn name =>
    "Record field '" ++ name ++ "' collides with a derived column of the same name"
  | .missingId => "No record in the corpus has an 'id' field"

/-- The order of column names: by code points, which is also the order of their UTF-8 bytes. -/
def namesBefore (a b : String) : Bool :=
  decide (a < b)

/-- The sorts of values seen in each field; the fields stand in the order of their names. -/
abbrev Observations : Type := List (String × List Value.Kind)

namespace Observations

/-- Sees a value of the sort `kind` in the field `name`. -/
def add : Observations → String → Value.Kind → Observations
  | [], name, kind => [(name, [kind])]
  | (other, kinds) :: rest, name, kind =>
    if name = other then (other, if kind ∈ kinds then kinds else kinds ++ [kind]) :: rest
    else if namesBefore name other then (name, [kind]) :: (other, kinds) :: rest
    else (other, kinds) :: add rest name kind

/-- Takes the fields of a card into account, one after the other. At a field with the name of a
derived column it stops; what was seen before stays. -/
def observe (p : Profile) (seen : Observations) : Card → Observations × Except SchemaError Unit
  | [] => (seen, .ok ())
  | (name, value) :: rest =>
    if name ∈ p.excluded then observe p seen rest
    else if p.isReserved name then (seen, .error (.reservedColumn name))
    else observe p (seen.add name value.kind) rest

/-- The column of a field with values of the given sorts. -/
def fieldColumn (name : String) (kinds : List Value.Kind) (ordinal : Nat) : Column :=
  match kinds with
  | [only] => ⟨name, .ofKind only, ordinal, .field, false⟩
  | _ => ⟨name, .text, ordinal, .field, true⟩

/-- A derived column. -/
def derivedColumn (d : Derived) (ordinal : Nat) : Column :=
  ⟨d.columnName, d.columnKind, ordinal, .derived d, false⟩

/-- The columns for the cards seen: the id, the other fields in the order of their names, and the
derived columns. -/
def schema (p : Profile) (seen : Observations) : Except SchemaError (List Column) :=
  match seen.lookup idField with
  | none => .error .missingId
  | some idKinds =>
    let fields := (idField, idKinds) :: seen.filter fun field => field.1 ≠ idField
    let fieldColumns := fields.mapIdx fun i field => fieldColumn field.1 field.2 i
    let derivedColumns := p.derived.mapIdx fun i d => derivedColumn d (fields.length + i)
    .ok (fieldColumns ++ derivedColumns)

/-- Takes several cards into account, up to the first that is refused. -/
def observeAll (p : Profile) (seen : Observations) : List Card → Except SchemaError Observations
  | [] => .ok seen
  | card :: rest =>
    match observe p seen card with
    | (seen, .ok ()) => observeAll p seen rest
    | (_, .error e) => .error e

end Observations

/-- The columns for a list of cards. -/
def inferSchema (p : Profile) (cards : List Card) : Except SchemaError (List Column) := do
  let seen ← Observations.observeAll p [] cards
  Observations.schema p seen

end CardTable
