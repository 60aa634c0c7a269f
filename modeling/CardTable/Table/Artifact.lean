import CardTable.Files.Tree
import CardTable.Text.Size

set_option autoImplicit false

/-!
# The artifact

The artifact is the file that holds the card table. It is built anew each time: what was there is
removed, the table goes to a staging file next to it, and the staging file takes the place of the
artifact once the table is complete. A failure leaves neither of the two.

The store that makes the table opens the staging file by its name. It takes a name that begins with
`file:` for an address, and the table is then where the address leads. It refuses a long path, and a
directory in the place of its log.

## Main definitions

* `CardTable.Artifact.stagingPath` — the staging file of an artifact.
* `CardTable.Artifact.Companion` — the files that the store keeps beside the staging file.
* `CardTable.Artifact.openError?` — why the store does not open the staging file.
* `CardTable.Artifact.discard` — removes an artifact and its staging file.
* `CardTable.Artifact.tableOf` — the table of cards.
* `CardTable.Artifact.write` — writes an artifact.
-/

namespace CardTable

/-- Why an artifact is not written. -/
inductive ArtifactError where
  /-- An id is used twice. -/
  | duplicateId (id : String)
  /-- A card has no id. -/
  | missingId (row : Nat)
  /-- The store refuses the table or a row. -/
  | store (e : StoreError)
  /-- The file tree refuses an operation. -/
  | io (file : Path) (cause : IoError)
deriving DecidableEq

/-- The wording of an artifact error. -/
def ArtifactError.message : ArtifactError → String
  | .duplicateId id => "Duplicate card id '" ++ id ++ "'"
  | .missingId row => "Record " ++ String.ofList (Nat.toDigits 10 row) ++ " has no id"
  | .store e => "SQLite error: " ++ e.message
  | .io file cause => "I/O error on " ++ file.text ++ ": " ++ cause.message

namespace Artifact

/-! ## Files next to the artifact -/

/-- The path next to an artifact that is named like it, with an ending. -/
def siblingPath (artifact : Path) (ending : String) : Path :=
  artifact.withFileName (artifact.fileName?.getD "" ++ ending)

/-- The staging file of an artifact, next to it. -/
def stagingPath (artifact : Path) : Path :=
  siblingPath artifact ".partial"

/-- The files that the store keeps beside the staging file. -/
inductive Companion where
  /-- What is needed to take back changes. -/
  | journal
  /-- Changes that are not in the file yet. -/
  | log
deriving DecidableEq

/-- What the name of a companion ends in. -/
def Companion.ending : Companion → String
  | .journal => ".partial-journal"
  | .log => ".partial-wal"

/-- The path of a companion. -/
def Companion.path (artifact : Path) (c : Companion) : Path :=
  siblingPath artifact c.ending

/-! ## Opening the staging file -/

/-- Whether the store takes the name of a file for an address. -/
def isAddress (file : Path) : Bool :=
  "file:".toList.isPrefixOf file.text.toList

/-- The number of bytes that the absolute path of the staging file may have. -/
def pathLimit : Nat := 504

/-- The number of bytes that the absolute path of a place on the way to it may have. -/
def wayLimit : Nat := 511

/-- The places that a path passes, its start and its end among them. -/
def passed (t : FileTree) (file : Path) : List Location :=
  file.steps.scanl Location.next (t.startOf file)

/-- The number of bytes of the absolute path of a place. -/
def pathLength (place : Location) : Nat :=
  Text.byteCount place.path.text.toList

/-- Whether a file can be opened: it can be written to, and neither its absolute path nor that of a
place on the way to it is too long. -/
def canOpen (t : FileTree) (file : Path) : Bool :=
  match t.locate file, t.writeFile file (.bytes .empty) with
  | .ok place, .ok _ =>
    decide (pathLength place ≤ pathLimit) &&
      (passed t file).all fun place => decide (pathLength place ≤ wayLimit)
  | _, _ => false

/-- Why the store does not open the staging file, if it does not. Where an address leads is not
followed. -/
def openError? (t : FileTree) (artifact : Path) : Option StoreError :=
  let staging := stagingPath artifact
  if isAddress staging then none
  else if canOpen t staging = false then some (.cannotOpen staging.text)
  else if t.isDirectory (Companion.log.path artifact) then some .cannotDelete
  else none

/-! ## Files -/

/-- The tree without the file at a path, which need not be there. -/
def removeStale (t : FileTree) (file : Path) : FileTree × Except ArtifactError Unit :=
  match t.removeFile file with
  | .ok t => (t, .ok ())
  | .error .notFound => (t, .ok ())
  | .error e => (t, .error (.io file e))

/-- Removes the artifact and its staging file. -/
def discard (t : FileTree) (artifact : Path) : FileTree × Except ArtifactError Unit :=
  match removeStale t artifact with
  | (t, .ok ()) => removeStale t (stagingPath artifact)
  | (t, .error e) => (t, .error e)

/-- Makes the directory of the artifact, and removes the artifact and its staging file. -/
def prepare (t : FileTree) (artifact : Path) : FileTree × Except ArtifactError Unit :=
  match artifact.parent? with
  | none => discard t artifact
  | some parent =>
    if parent.text = "" then discard t artifact
    else
      match t.createDirectories parent with
      | (t, .ok ()) => discard t artifact
      | (t, .error e) => (t, .error (.io parent e))

/-- Puts a table at the artifact by way of the staging file, which is removed on failure. If the
name of the staging file is an address, the table is elsewhere, and there is no file to be moved. -/
def commit (t : FileTree) (artifact : Path) (table : StoredTable) :
    FileTree × Except ArtifactError Unit :=
  let staging := stagingPath artifact
  if isAddress staging then (t, .error (.io artifact .notFound))
  else
    match t.writeFile staging (.table table) with
    | .error e => (t, .error (.io staging e))
    | .ok staged =>
      match staged.rename staging artifact with
      | .ok t => (t, .ok ())
      | .error e => (t, .error (.io artifact e))

/-! ## Rows -/

/-- The table with the rows of further cards, the first of which is the card number `row`. -/
def addRows (columns : List Column) (row : Nat) (table : StoredTable) :
    List CorpusCard → Except ArtifactError StoredTable
  | [] => .ok table
  | c :: rest =>
    let cells := encodeRow columns c.card c.pack
    match table.insert cells with
    | .ok table => addRows columns (row + 1) table rest
    | .error .missingKey => .error (.missingId row)
    | .error .duplicateKey => .error (.duplicateId (StoredTable.keyOf cells).display)
    | .error (.refused e) => .error (.store e)

/-- The table of cards with the given columns. -/
def tableOf (columns : List Column) (cards : List CorpusCard) :
    Except ArtifactError StoredTable := do
  let table ← (StoredTable.ofColumns (columns.map Column.definition)).mapError .store
  addRows columns 0 table cards

/-! ## Writing -/

/-- Writes the table of cards to the artifact, and gives the number of its rows. -/
def write (t : FileTree) (artifact : Path) (columns : List Column) (cards : List CorpusCard) :
    FileTree × Except ArtifactError Nat :=
  match prepare t artifact with
  | (t, .error e) => (t, .error e)
  | (t, .ok ()) =>
    match openError? t artifact with
    | some e => (t, .error (.store e))
    | none =>
      match tableOf columns cards with
      | .error e => (t, .error e)
      | .ok table =>
        match commit t artifact table with
        | (t, .error e) => (t, .error e)
        | (t, .ok ()) => (t, .ok cards.length)

end Artifact

end CardTable
