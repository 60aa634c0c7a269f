import CardTable.Files.Tree
import CardTable.Value.Fields

set_option autoImplicit false

/-!
# Logging

A run of a command leaves log lines of several levels. A filter, which the environment may give,
decides which of them are kept. They may be kept in a file, which is made as soon as logging starts.

## Main definitions

* `CardTable.Level`, `CardTable.LogLine` — log lines.
* `CardTable.LogFilter` and `CardTable.LogFilter.keeps` — filters, and the log lines they keep.
* `CardTable.LogFilter.ofEnvironment` — the filter that the environment gives.
* `CardTable.LogFile.start`, `CardTable.LogFile.append` — the log file.
-/

namespace CardTable

/-! ## Levels -/

/-- The level of a log line. -/
inductive Level where
  | error | warning | info | debug | trace
deriving DecidableEq

namespace Level

/-- The place among the levels, the most urgent one first. -/
def rank : Level → Nat
  | .error => 1
  | .warning => 2
  | .info => 3
  | .debug => 4
  | .trace => 5

/-- The name. -/
def name : Level → String
  | .error => "ERROR"
  | .warning => "WARN"
  | .info => "INFO"
  | .debug => "DEBUG"
  | .trace => "TRACE"

end Level

/-- A log line. -/
structure LogLine where
  /-- The part of the program that leaves it. -/
  origin : String
  /-- The level. -/
  level : Level
  /-- The text. -/
  text : String
deriving DecidableEq

/-! ## Filters -/

/-- A rule about the log lines of some parts of the program. -/
structure FilterRule where
  /-- What the names of the parts begin with. -/
  origin : String
  /-- How many levels are kept. -/
  rank : Nat
deriving DecidableEq

/-- A filter. -/
abbrev LogFilter : Type := List FilterRule

namespace LogFilter

/-- The names of the filters, the strictest one first. -/
def names : List String :=
  ["off", "error", "warn", "info", "debug", "trace"]

/-- How many levels a name or number keeps. -/
def rank? (s : String) : Option Nat :=
  let word := String.ofList (s.toList.map Char.toLower)
  if word = "" then some 1
  else
    match names.findIdx? (· = word) with
    | some rank => some rank
    | none => ["0", "1", "2", "3", "4", "5"].findIdx? (· = word)

/-- One rule of a filter. -/
def rule? (s : String) : Option FilterRule :=
  match s.splitOn "=" with
  | [word] =>
    match rank? word with
    | some rank => some ⟨"", rank⟩
    | none => some ⟨word, Level.trace.rank⟩
  | [origin, level] => (rank? level).map fun rank => ⟨origin, rank⟩
  | _ => none

/-- The filter that a text spells, if it spells one; without a rule only errors are kept. -/
def read? (s : String) : Option LogFilter := do
  let rules ← ((s.splitOn ",").filter (· ≠ "")).mapM rule?
  some (if rules = [] then [⟨"", Level.error.rank⟩] else rules)

/-- The filter without a word from the environment: everything down to information, or with
`verbose` down to debugging. -/
def standard (verbose : Bool) : LogFilter :=
  [⟨"cardpress", if verbose then Level.debug.rank else Level.info.rank⟩]

/-- The filter that the environment gives, if it gives one, and the standard one otherwise. -/
def ofEnvironment (environment : Fields String) (verbose : Bool) : LogFilter :=
  ((environment.get? "RUST_LOG").bind read?).getD (standard verbose)

/-- The more precise of two rules, of equally precise ones the second. -/
def morePrecise (r s : FilterRule) : FilterRule :=
  if r.origin.length ≤ s.origin.length then s else r

/-- Whether a log line is kept: the rule that names its origin most precisely decides. -/
def keeps (filter : LogFilter) (line : LogLine) : Bool :=
  let fitting := filter.filter fun rule => rule.origin.toList.isPrefixOf line.origin.toList
  line.level.rank ≤ (fitting.foldl morePrecise ⟨"", 0⟩).rank

end LogFilter

/-! ## Log files -/

/-- Why there is no log file. -/
inductive LogError where
  /-- Its directory cannot be made. -/
  | directory (path : Path) (cause : IoError)
  /-- It cannot be opened. -/
  | file (path : Path) (cause : IoError)
deriving DecidableEq

/-- The wording of a log error, with its cause. -/
def LogError.message : LogError → String
  | .directory path cause =>
    "Failed to create log directory: " ++ path.text ++ ": " ++ cause.message
  | .file path cause => "Failed to open log file: " ++ path.text ++ ": " ++ cause.message

namespace LogFile

/-- The tree with a file at a path, which is empty if it is new. -/
def touch (t : FileTree) (file : Path) : Except LogError FileTree :=
  match t.find file with
  | .ok (.file _) => .ok t
  | _ => (t.writeFile file (.bytes .empty)).mapError (.file file)

/-- The tree with the directory of a log file. -/
def startDirectory (t : FileTree) (file : Path) : FileTree × Except LogError Unit :=
  match file.parent? with
  | none => (t, .ok ())
  | some parent =>
    if parent.text = "" then (t, .ok ())
    else
      let (t, made) := t.createDirectories parent
      (t, made.mapError (.directory parent))

/-- The tree with a log file, and with the directory that it is in. A directory that has been made
stays even if the file cannot be opened. -/
def start (t : FileTree) (file : Path) : FileTree × Except LogError Unit :=
  match startDirectory t file with
  | (t, .error e) => (t, .error e)
  | (t, .ok ()) =>
    match touch t file with
    | .ok t => (t, .ok ())
    | .error e => (t, .error e)

/-- A log line as it is written. -/
def lineText (line : LogLine) : String :=
  line.level.name ++ " " ++ line.origin ++ ": " ++ line.text ++ "\n"

/-- The tree with lines added to a log file. -/
def append (t : FileTree) (file : Path) (lines : List LogLine) : FileTree :=
  match t.find file with
  | .ok (.file (.bytes data)) =>
    let added := String.join (lines.map lineText)
    match t.writeFile file (.bytes (data ++ added.toUTF8)) with
    | .ok t => t
    | .error _ => t
  | _ => t

end LogFile

end CardTable
