import CardTable.Compile.Basic
import CardTable.Compile.ConfigFile

set_option autoImplicit false

/-!
# Reports of failures

A failure is reported on one line: its wording, and then the wording of each cause below it. A
wording that contains that of its cause is followed by it nevertheless.

## Main definitions

* `CardTable.StoreError.code` — the store's own name for an error.
* `CardTable.CompileError.report`, `CardTable.ConfigError.report` — reports.
-/

namespace CardTable

/-- The wording of a failure and those of its causes, outermost first. -/
def reportLine (wordings : List String) : String :=
  ": ".intercalate wordings

/-- The store's own name for an error. -/
def StoreError.code : StoreError → String
  | .keyMismatch => "Error code 20: Data type mismatch"
  | .cannotOpen _ => "Error code 14: Unable to open the database file"
  | .cannotDelete => "Error code 2570: I/O error within xDelete of a VFS object"
  | _ => "Error code 1: SQL error or missing database"

/-- The wordings of the causes of a corpus error. -/
def CorpusError.causes : CorpusError → List String
  | .io _ cause => [cause.message]
  | .engine (.load (.unreadable _ cause)) => [cause.message]
  | _ => []

/-- The wordings of the causes of an artifact error. -/
def ArtifactError.causes : ArtifactError → List String
  | .io _ cause => [cause.message]
  | .store e => [e.message, e.code]
  | _ => []

/-- The wordings of the causes of a compile error. -/
def CompileError.causes : CompileError → List String
  | .corpus e => e.causes
  | .schema _ => []
  | .artifact e => e.causes

/-- The report of a compile error. -/
def CompileError.report (e : CompileError) : String :=
  reportLine (e.message :: e.causes)

/-- The wordings of the causes of a configuration error. -/
def ConfigError.causes : ConfigError → List String
  | .io _ cause => [cause.message]
  | .invalid _ => []

/-- The report of a configuration error. -/
def ConfigError.report (e : ConfigError) : String :=
  reportLine ("Failed to load configuration" :: e.message :: e.causes)

end CardTable
