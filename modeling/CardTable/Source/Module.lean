import CardTable.Source.Declaration

set_option autoImplicit false

/-!
# Module sources

A module source becomes a list of imports and a body. The import lines are cut out, declarations
lose their types, and the first `export default` becomes `return`. A module without a default
export is refused, as is one with an import specifier that spells no text; the specifiers are
looked at first.

## Main definitions

* `CardTable.Source.exportDefault?` — a text with its first `export default` replaced.
* `CardTable.Source.Module` — imports and body.
* `CardTable.Source.Module.ofSource` — the module of a source text.
-/

namespace CardTable.Source

/-- The text behind `export default` and the white space behind it. -/
def behindExport? (cs : List Char) : Option (List Char) := do
  let cs ← dropWord? "export".toList cs
  let cs ← dropWhite? cs
  let cs ← dropWord? "default".toList cs
  dropWhite? cs

/-- The text with its first `export default` replaced by `return`, if there is one. -/
def exportDefault? : List Char → Option (List Char)
  | [] => none
  | c :: rest =>
    match behindExport? (c :: rest) with
    | some behind => some ("return ".toList ++ behind)
    | none => (exportDefault? rest).map (c :: ·)

/-- Why a source text is refused. -/
inductive SourceError where
  /-- A specifier spells no text. -/
  | specifier (e : SpecifierError)
  /-- There is no default export. -/
  | missingExport
deriving DecidableEq

/-- A module source taken apart. -/
structure Module where
  /-- The imports, in the order of the text. -/
  imports : List Import
  /-- The statements, ending in the default export as a `return`. -/
  body : String
deriving DecidableEq

/-- The module of a source text. -/
def Module.ofSource (source : String) : Except SourceError Module := do
  let (lines, text) := cutImports true source.toList
  let imports ← (lines.mapM Import.ofLine).mapError .specifier
  match exportDefault? (dropTypesFrom none text) with
  | some body => .ok ⟨imports, String.ofList body⟩
  | none => .error .missingExport

end CardTable.Source
