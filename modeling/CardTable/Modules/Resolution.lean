import CardTable.Files.Tree

set_option autoImplicit false

/-!
# Resolving specifiers

An import names a module by a specifier, which is read from the directory of the importing module.
The files it may stand for are tried in a fixed order, and the first regular file is the one.
Specifiers of places that hold interfaces only carry types and bind nothing.

## Main definitions

* `CardTable.Resolution` — what a specifier stands for.
* `CardTable.candidates` — the files that a specifier may stand for, in order.
* `CardTable.resolve` — the file that a specifier stands for.
-/

namespace CardTable

/-- What a specifier stands for. -/
inductive Resolution where
  /-- A module. -/
  | resolved (file : Path)
  /-- Types only. -/
  | noBinding
  /-- No file at all. -/
  | unresolved
deriving DecidableEq

/-- Whether `part` occurs in the text. -/
def occursIn (part : List Char) : List Char → Bool
  | [] => part.isEmpty
  | c :: rest => part.isPrefixOf (c :: rest) || occursIn part rest

/-- Whether a specifier names a place that holds interfaces only. -/
def namesInterfaces (specifier : String) : Bool :=
  occursIn "/interfaces".toList specifier.toList

/-- The files that a specifier may stand for: with the extension of a module, as it is, and as a
directory with an index. -/
def candidates (importer : Path) (specifier : String) : List Path :=
  let directory := importer.parent?.getD ⟨""⟩
  let base := (directory.join ⟨specifier⟩).normalize
  [base.withSuffix ".ts", base, base.join ⟨"index.ts"⟩]

/-- What a specifier in the module `importer` stands for. -/
def resolve (t : FileTree) (importer : Path) (specifier : String) : Resolution :=
  if namesInterfaces specifier then .noBinding
  else
    match (candidates importer specifier).find? t.isFile with
    | some file => .resolved file
    | none => .unresolved

end CardTable
