import CardTable.Compile.Config
import CardTable.Corpus.Collection
import CardTable.Table.Artifact

set_option autoImplicit false

/-!
# Compiling a corpus

A compilation reads the cards of a corpus, infers the columns of their table, and writes the table
to the artifact. An artifact of an earlier compilation is removed before anything is read.

## Main definitions

* `CardTable.Host` — how evaluation processes are found and started.
* `CardTable.Compile.flat` — compiles flat card files.
* `CardTable.Compile.modules`, `CardTable.Compile.modulesWith` — compile modules.
-/

namespace CardTable

/-- How evaluation processes are found and started. -/
structure Host where
  /-- Whether a path leads to a program that can be started. -/
  isProgram : Path → Bool
  /-- What such a program does with a manifest. -/
  reply : Path → String → Handoff.Reply
  /-- The directories to search for programs, with colons between them. -/
  searchPath : Option String

namespace Host

/-- The places of a program with the given name in the directories that are searched. -/
def searched (h : Host) (name : String) : List Path :=
  ((h.searchPath.getD "").splitOn ":").map fun directory => Path.join ⟨directory⟩ ⟨name⟩

/-- The program that evaluates modules if the settings name none. -/
def located (h : Host) : Except Unavailable Path :=
  match (h.searched "node").find? h.isProgram with
  | some program => .ok program
  | none => .error (.notLocated h.searchPath.isSome)

/-- The places of the program that a path stands for. A path without a slash is the name of a
program that is searched. -/
def programPlaces (h : Host) (program : Path) : List Path :=
  if '/' ∈ program.text.toList then [program] else h.searched program.text

/-- Why none of the files at the given paths can be started: one of them is no program, or else
they cannot be reached, for the reason met last. -/
def startProblem (t : FileTree) (places : List Path) : IoError :=
  places.foldl (fun problem place =>
    match problem, t.find place with
    | .permissionDenied, _ | _, .ok _ => .permissionDenied
    | _, .error e => e) .notFound

/-- What a program does with a manifest, or why it cannot be started. -/
def start (h : Host) (t : FileTree) (program : Path) (manifest : String) :
    Except Unavailable Handoff.Reply :=
  let places := h.programPlaces program
  match places.find? h.isProgram with
  | some found => .ok (h.reply found manifest)
  | none => .error (.notStarted program (startProblem t places))

end Host

/-- Why a compilation fails. -/
inductive CompileError where
  /-- The cards cannot be had. -/
  | corpus (e : CorpusError)
  /-- The cards have no schema. -/
  | schema (e : SchemaError)
  /-- The artifact is not written. -/
  | artifact (e : ArtifactError)

/-- The wording of a compile error. -/
def CompileError.message : CompileError → String
  | .corpus e => e.message
  | .schema e => e.message
  | .artifact e => e.message

/-- What a compilation has done. -/
structure Summary where
  /-- The number of rows of the table. -/
  cards : Nat
  /-- The number of modules that are no cards. -/
  skipped : Nat
  /-- The artifact. -/
  path : Path
  /-- The columns that drift. -/
  drifted : List String := []
  /-- The sets that the catalog does not have. -/
  unlisted : List String := []
deriving DecidableEq

/-- The wording of a summary. -/
def Summary.message (s : Summary) : String :=
  "Compiled " ++ String.ofList (Nat.toDigits 10 s.cards) ++ " cards into " ++ s.path.text

namespace Compile

/-- Writes the table of some cards to the artifact. -/
def materialize (t : FileTree) (p : Profile) (artifact : Path) (cards : List CorpusCard) :
    FileTree × Except CompileError Summary :=
  if cards.isEmpty then (t, .error (.corpus (.missing .cards)))
  else
    match inferSchema p (cards.map CorpusCard.card) with
    | .error e => (t, .error (.schema e))
    | .ok columns =>
      match Artifact.write t artifact columns cards with
      | (t, .error e) => (t, .error (.artifact e))
      | (t, .ok rows) =>
        let drifted := (columns.filter Column.drift).map Column.name
        (t, .ok { cards := rows, skipped := 0, path := artifact, drifted })

/-- The cards of flat card files, and the sets among them that the catalog does not have. -/
def flatCards (t : FileTree) (config : FlatConfig) :
    Except CorpusError (List CorpusCard × List String) := do
  let catalog ← Catalog.read t config.setsPath
  let cards ← Flat.load t catalog config.cardsDir
  let files ← Flat.cardFiles t config.cardsDir
  let sets := files.map Flat.setOf
  .ok (cards, sets.filter fun set => (catalog.get? set).isNone)

/-- Compiles flat card files. -/
def flat (t : FileTree) (config : FlatConfig) : FileTree × Except CompileError Summary :=
  match Artifact.discard t config.dbPath with
  | (t, .error e) => (t, .error (.artifact e))
  | (t, .ok ()) =>
    match flatCards t config with
    | .error e => (t, .error (.corpus e))
    | .ok (cards, unlisted) =>
      match materialize t .flat config.dbPath cards with
      | (t, .error e) => (t, .error e)
      | (t, .ok summary) => (t, .ok { summary with unlisted })

/-- Compiles modules with a given runtime. -/
def modulesWith (t : FileTree) (runtime : Runtime) (config : ModulesConfig) :
    FileTree × Except CompileError Summary :=
  match Artifact.discard t config.dbPath with
  | (t, .error e) => (t, .error (.artifact e))
  | (t, .ok ()) =>
    match Collection.collect t runtime config.cardsDir with
    | .error e => (t, .error (.corpus e))
    | .ok collection =>
      match materialize t .modules config.dbPath collection.cards with
      | (t, .error e) => (t, .error e)
      | (t, .ok summary) => (t, .ok { summary with skipped := collection.skipped })

/-- The runtime that the settings ask for. -/
def runtimeOf (t : FileTree) (host : Host) (config : ModulesConfig) :
    Except Unavailable Runtime :=
  match config.runtime with
  | .builtin => .ok Runtime.literal
  | .node => do
    let program ← match config.nodePath with
      | some program => .ok program
      | none => host.located
    .ok (Runtime.handoff (host.start t program))

/-- Compiles modules with the runtime that the settings ask for. -/
def modules (t : FileTree) (host : Host) (config : ModulesConfig) :
    FileTree × Except CompileError Summary :=
  match runtimeOf t host config with
  | .error reason => (t, .error (.corpus (.engine (.evaluation (.unavailable reason)))))
  | .ok runtime => modulesWith t runtime config

end Compile

end CardTable
