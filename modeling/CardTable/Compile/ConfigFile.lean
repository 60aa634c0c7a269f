import CardTable.Compile.Config
import CardTable.Files.Tree
import CardTable.Toml.Reader

set_option autoImplicit false

/-!
# Configuration files

A configuration file sets some of the settings and leaves the others at their defaults. The
settings of a compilation are a table, or an array in a fixed order; what is not a setting is
ignored.

## Main definitions

* `CardTable.Config.ofToml?` — the settings that a value gives.
* `CardTable.Config.read` — the settings in a file.
-/

namespace CardTable

/-- Why there are no settings. -/
inductive ConfigError where
  /-- The file cannot be read. -/
  | io (file : Path) (cause : IoError)
  /-- The file does not hold settings. -/
  | invalid (file : Path)
deriving DecidableEq

/-- The wording of a configuration error. -/
def ConfigError.message : ConfigError → String
  | .io file cause => "I/O error on " ++ file.text ++ ": " ++ cause.message
  | .invalid file => "Invalid config file " ++ file.text

namespace Config

/-- The values given for the settings `names`, which are those of a table, or of an array in the
order of the names. A time gives no values. -/
def given? (names : List String) : Toml → Option (Fields Toml)
  | .table fields => some fields
  | .list items => some (names.zip items)
  | .plain .time => some []
  | _ => none

/-- A setting: its default, unless a value is given, which has to be readable. -/
def setting {α : Type} (given : Fields Toml) (name : String) (standard : α)
    (read : Toml → Option α) : Option α :=
  match given.get? name with
  | none => some standard
  | some v => read v

/-- A path. -/
def pathOf? : Toml → Option Path
  | .text s => some ⟨s⟩
  | _ => none

/-- Whether a value is an array or a table without content. -/
def isHollow : Toml → Bool
  | .table fields => fields.isEmpty
  | .list items => items.isEmpty
  | _ => false

/-- Where modules are evaluated: the name of the choice, or a table with this name and nothing
else. -/
def runtimeOf? : Toml → Option RuntimeKind
  | .text s => RuntimeKind.ofName? s
  | .table [(name, v)] => if isHollow v then RuntimeKind.ofName? name else none
  | _ => none

/-- The settings for flat card files. -/
def flatOf? (v : Toml) : Option FlatConfig := do
  let given ← given? ["cards_dir", "sets_path", "db_path"] v
  let standard : FlatConfig := {}
  let cardsDir ← setting given "cards_dir" standard.cardsDir pathOf?
  let setsPath ← setting given "sets_path" standard.setsPath pathOf?
  let dbPath ← setting given "db_path" standard.dbPath pathOf?
  some { cardsDir, setsPath, dbPath }

/-- The settings for modules. -/
def modulesOf? (v : Toml) : Option ModulesConfig := do
  let given ← given? ["cards_dir", "db_path", "runtime", "node_path"] v
  let standard : ModulesConfig := {}
  let cardsDir ← setting given "cards_dir" standard.cardsDir pathOf?
  let dbPath ← setting given "db_path" standard.dbPath pathOf?
  let runtime ← setting given "runtime" standard.runtime runtimeOf?
  let nodePath ← setting given "node_path" standard.nodePath fun v => (pathOf? v).map some
  some { cardsDir, dbPath, runtime, nodePath }

/-- The settings that a value gives. -/
def ofToml? (v : Toml) : Option Config := do
  let given ← given? ["flat", "modules", "log_file"] v
  let flat ← setting given "flat" {} flatOf?
  let modules ← setting given "modules" {} modulesOf?
  let logFile ← setting given "log_file" none fun v => (pathOf? v).map some
  some { flat, modules, logFile }

/-- The settings in a file. -/
def read (t : FileTree) (file : Path) : Except ConfigError Config := do
  let text ← (t.readText file).mapError (.io file)
  match (Toml.read? text).bind ofToml? with
  | some config => .ok config
  | none => .error (.invalid file)

/-- The settings in a file, if there is one, and the defaults otherwise. -/
def readOrDefault (t : FileTree) : Option Path → Except ConfigError Config
  | some file => read t file
  | none => .ok {}

end Config

end CardTable
