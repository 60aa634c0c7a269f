import CardTable.Files.Path

set_option autoImplicit false

/-!
# Settings

The settings of the two compilations. Each of them has a default.

## Main definitions

* `CardTable.FlatConfig`, `CardTable.ModulesConfig` — the settings of the two compilations.
* `CardTable.Config` — all settings.
-/

namespace CardTable

/-- Where modules are evaluated. -/
inductive RuntimeKind where
  /-- By a process. -/
  | node
  /-- Inside the program. -/
  | builtin
deriving DecidableEq

namespace RuntimeKind

/-- The name of the choice. -/
def name : RuntimeKind → String
  | .node => "node"
  | .builtin => "builtin"

/-- The choice with the given name. -/
def ofName? (s : String) : Option RuntimeKind :=
  [node, builtin].find? fun kind => kind.name = s

end RuntimeKind

/-- The settings for flat card files. -/
structure FlatConfig where
  /-- The directory of the card files. -/
  cardsDir : Path := ⟨"pokemon-tcg-data/cards/en"⟩
  /-- The catalog of sets. -/
  setsPath : Path := ⟨"pokemon-tcg-data/sets/en.json"⟩
  /-- The artifact. -/
  dbPath : Path := ⟨"data/cards.sqlite"⟩
deriving DecidableEq

/-- The settings for modules. -/
structure ModulesConfig where
  /-- The directory of the modules. -/
  cardsDir : Path := ⟨"cards-database/data"⟩
  /-- The artifact. -/
  dbPath : Path := ⟨"data/cards2.sqlite"⟩
  /-- Where modules are evaluated. -/
  runtime : RuntimeKind := .node
  /-- The program that evaluates modules; without it one is looked for. -/
  nodePath : Option Path := none
deriving DecidableEq

/-- All settings. -/
structure Config where
  /-- The settings for flat card files. -/
  flat : FlatConfig := {}
  /-- The settings for modules. -/
  modules : ModulesConfig := {}
  /-- The log file, if there is one. -/
  logFile : Option Path := none
deriving DecidableEq

end CardTable
