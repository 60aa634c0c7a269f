import CardTable.CommandLine.Log
import CardTable.CommandLine.Options
import CardTable.CommandLine.Report

set_option autoImplicit false

/-!
# The commands

There is a command for each of the two compilations. It reads its options, the configuration and
the environment, opens the log file, and compiles. It prints a single line if it succeeds and
reports a single line if it fails.

## Main definitions

* `CardTable.Command` and `CardTable.Command.specs` — the commands and their options.
* `CardTable.Command.Outcome` — what a run leaves behind besides files.
* `CardTable.Command.run` — runs a command.
-/

namespace CardTable

/-- The commands. -/
inductive Command where
  /-- Compiles flat card files. -/
  | flat
  /-- Compiles modules. -/
  | modules
deriving DecidableEq

namespace Command

/-- The name of the command. -/
def name : Command → String
  | .flat => "cardpress-flat"
  | .modules => "cardpress-modules"

/-- The version of the commands. -/
def version : String := "0.1.0"

/-! ## Options -/

/-- The options of both commands. -/
def commonSpecs : List OptionSpec :=
  [ { name := "config", role := .path, setBy := "CARDPRESS_CONFIG" }
  , { name := "verbose", role := .flag, letter := 'v' }
  , { name := "log-file", role := .path, setBy := "CARDPRESS_LOG_FILE" }
  , { name := "help", role := .help, letter := 'h' }
  , { name := "version", role := .version, letter := 'V' } ]

/-- The options of a command. -/
def specs : Command → List OptionSpec
  | .flat => commonSpecs ++
    [ { name := "cards-dir", role := .path, setBy := "CARDPRESS_FLAT_CARDS_DIR" }
    , { name := "sets-path", role := .path, setBy := "CARDPRESS_SETS_PATH" }
    , { name := "db-path", role := .path, setBy := "CARDPRESS_FLAT_DB_PATH" } ]
  | .modules => commonSpecs ++
    [ { name := "cards-dir", role := .path, setBy := "CARDPRESS_MODULES_CARDS_DIR" }
    , { name := "db-path", role := .path, setBy := "CARDPRESS_MODULES_DB_PATH" }
    , { name := "runtime"
        role := .choice [RuntimeKind.name .node, RuntimeKind.name .builtin]
        setBy := "CARDPRESS_RUNTIME" }
    , { name := "node", role := .path, setBy := "CARDPRESS_NODE" } ]

/-- The path that an option gives. -/
def pathOf (given : Given) (name : String) : Option Path :=
  (given.get? name).map Path.mk

/-- The settings for flat card files, with those that the options give. -/
def flatConfig (given : Given) (config : FlatConfig) : FlatConfig where
  cardsDir := (pathOf given "cards-dir").getD config.cardsDir
  setsPath := (pathOf given "sets-path").getD config.setsPath
  dbPath := (pathOf given "db-path").getD config.dbPath

/-- The settings for modules, with those that the options give. -/
def modulesConfig (given : Given) (config : ModulesConfig) : ModulesConfig where
  cardsDir := (pathOf given "cards-dir").getD config.cardsDir
  dbPath := (pathOf given "db-path").getD config.dbPath
  runtime := ((given.get? "runtime").bind RuntimeKind.ofName?).getD config.runtime
  nodePath := pathOf given "node" <|> config.nodePath

/-! ## Runs -/

/-- What a run leaves behind besides files. -/
structure Outcome where
  /-- The exit code. -/
  exitCode : Nat
  /-- What is printed. -/
  output : String := ""
  /-- What is reported. -/
  report : Option String := none
deriving DecidableEq

/-- What a failed run leaves behind. -/
def failure (report : String) : Outcome where
  exitCode := 1
  report := some ("Error: " ++ report)

/-- The log lines about reading the corpus. -/
def corpusLines (c : Command) (s : Summary) : List LogLine :=
  match c with
  | .flat =>
    [⟨"cardpress::sets", .debug, "catalog read"⟩, ⟨"cardpress::flat", .debug, "cards read"⟩] ++
      s.unlisted.map fun set => ⟨"cardpress::flat", .warning, "set missing from catalog: " ++ set⟩
  | .modules =>
    [ ⟨"cardpress_modules::graph", .debug, "modules loaded"⟩
    , ⟨"cardpress_modules::evaluator", .info, "modules evaluated"⟩
    , ⟨"cardpress::collect", .info, "cards collected"⟩ ]

/-- The log lines about the table. -/
def tableLines (s : Summary) : List LogLine :=
  s.drifted.map (fun column =>
    ⟨"cardpress_schema::infer", .warning, "mixed values, stored as text: " ++ column⟩) ++
    [ ⟨"cardpress_schema::infer", .debug, "columns inferred"⟩
    , ⟨"cardpress_sinks::sqlite", .debug, "table made"⟩
    , ⟨"cardpress_sinks::sqlite", .info, "table written"⟩
    , ⟨"cardpress::compile", .info, s.message⟩ ]

/-- The part of the program that logs failures, which is the command itself. -/
def origin : Command → String
  | .flat => "cardpress_flat"
  | .modules => "cardpress_modules"

/-- The log lines of a compilation. -/
def logLines (c : Command) (result : Except CompileError Summary) : List LogLine :=
  ⟨"cardpress_logging", .debug, "logging initialized"⟩ ::
    match result with
    | .error e => [⟨c.origin, .error, e.report⟩]
    | .ok s => c.corpusLines s ++ tableLines s

/-- Compiles with the given settings. -/
def compile (c : Command) (t : FileTree) (host : Host) (given : Given) (config : Config) :
    FileTree × Except CompileError Summary :=
  match c with
  | .flat => Compile.flat t (flatConfig given config.flat)
  | .modules => Compile.modules t host (modulesConfig given config.modules)

/-- What a compilation leaves behind besides files. -/
def outcomeOf : Except CompileError Summary → Outcome
  | .ok s => { exitCode := 0, output := s.message ++ "\n" }
  | .error e => failure e.report

/-- Compiles with the given options. -/
def runGiven (c : Command) (t : FileTree) (host : Host) (environment : Fields String)
    (given : Given) : FileTree × Outcome :=
  match Config.readOrDefault t (pathOf given "config") with
  | .error e => (t, failure e.report)
  | .ok config =>
    match pathOf given "log-file" <|> config.logFile with
    | none =>
      let (t, result) := c.compile t host given config
      (t, outcomeOf result)
    | some file =>
      match LogFile.start t file with
      | (t, .error e) => (t, failure e.message)
      | (t, .ok ()) =>
        let (t, result) := c.compile t host given config
        let verbose := (given.get? "verbose").isSome
        let filter := LogFilter.ofEnvironment environment verbose
        let kept := (c.logLines result).filter (LogFilter.keeps filter)
        (LogFile.append t file kept, outcomeOf result)

/-- The help text of a command. -/
def helpText (c : Command) : String :=
  "Usage: " ++ c.name ++ " [OPTIONS]\n" ++
    String.join (c.specs.map fun spec => "  --" ++ spec.name ++ "\n")

/-- Runs a command with the given arguments and environment. -/
def run (c : Command) (t : FileTree) (host : Host) (environment : Fields String)
    (args : List String) : FileTree × Outcome :=
  match Request.ofArguments c.specs environment args with
  | .misuse => (t, { exitCode := 2 })
  | .version => (t, { exitCode := 0, output := c.name ++ " " ++ version ++ "\n" })
  | .help => (t, { exitCode := 0, output := c.helpText })
  | .run given => c.runGiven t host environment given

end Command

end CardTable
