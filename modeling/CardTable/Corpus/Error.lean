import CardTable.Modules.Evaluation

set_option autoImplicit false

/-!
# Corpus errors

Why the cards of a corpus cannot be had: the inputs are missing or empty, a file cannot be read or
does not hold what it should, or the modules cannot be evaluated.

## Main definitions

* `CardTable.CorpusError` and `CardTable.CorpusError.message` — errors and their wording.
-/

namespace CardTable

/-- Inputs that are missing or empty. -/
inductive MissingInput where
  /-- There is no directory of modules. -/
  | moduleTree (root : Path)
  /-- The directory of modules has no card in it. -/
  | cardModules (root : Path)
  /-- There is no directory of card files. -/
  | cardDirectory (directory : Path)
  /-- The directory of card files has none. -/
  | cardFiles (directory : Path)
  /-- A card file is empty. -/
  | cardText (file : Path)
  /-- There is no catalog. -/
  | catalog (file : Path)
  /-- The catalog is empty. -/
  | catalogText (file : Path)
  /-- There are no cards at all. -/
  | cards
deriving DecidableEq

/-- The wording of a missing input. -/
def MissingInput.message : MissingInput → String
  | .moduleTree root => "module tree not found: " ++ root.text
  | .cardModules root => "no card modules found under " ++ root.text
  | .cardDirectory directory => "cards directory not found: " ++ directory.text
  | .cardFiles directory => "no JSON files found in " ++ directory.text
  | .cardText file => "card file is empty: " ++ file.text
  | .catalog file => "set catalog not found: " ++ file.text
  | .catalogText file => "set catalog is empty: " ++ file.text
  | .cards => "empty corpus: no cards to compile"

/-- What a file holds instead of what it should. -/
inductive InputProblem where
  /-- The cards are no list. -/
  | cardsNotList
  /-- A card is no mapping. -/
  | cardNotMapping (index : Nat)
  /-- The catalog is no list. -/
  | catalogNotList
  /-- An entry of the catalog is no mapping. -/
  | entryNotMapping (index : Nat)
  /-- An entry of the catalog has no id. -/
  | entryWithoutId (index : Nat)
deriving DecidableEq

/-- The wording of an input problem. -/
def InputProblem.message : InputProblem → String
  | .cardsNotList => "expected a list of cards"
  | .cardNotMapping i => "element " ++ String.ofList (Nat.toDigits 10 i) ++ " is not an object"
  | .catalogNotList => "set catalog is not a list"
  | .entryNotMapping i =>
    "set entry " ++ String.ofList (Nat.toDigits 10 i) ++ " is not an object"
  | .entryWithoutId i =>
    "set entry " ++ String.ofList (Nat.toDigits 10 i) ++ " has no string id"

/-- Why the cards of a corpus cannot be had. -/
inductive CorpusError where
  /-- An input is missing or empty. -/
  | missing (input : MissingInput)
  /-- A file does not hold what it should. -/
  | invalid (file : Path) (problem : InputProblem)
  /-- A file cannot be read. -/
  | io (file : Path) (cause : IoError)
  /-- A file is not a JSON text. -/
  | json (file : Path)
  /-- The modules cannot be evaluated. -/
  | engine (e : EngineError)

/-- The wording of a corpus error. -/
def CorpusError.message : CorpusError → String
  | .missing input => "Configuration error: " ++ input.message
  | .invalid file problem => "Invalid input in " ++ file.text ++ ": " ++ problem.message
  | .io file cause => "I/O error on " ++ file.text ++ ": " ++ cause.message
  | .json file => "Malformed JSON in " ++ file.text
  | .engine e => e.message

end CardTable
