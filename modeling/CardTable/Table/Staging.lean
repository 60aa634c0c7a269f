import CardTable.Table.Artifact

set_option autoImplicit false

/-!
# Writing in stages

The store writes a table in stages, and any of them can fail for reasons that lie in its
surroundings: the store cannot be opened, a disk is full, a file cannot be moved. Meanwhile it may
write to the staging file whatever it likes; what it needs besides is kept in memory. From the
moment at which the staging file is opened it is guarded: it is removed whenever the writing ends,
unless the table has taken the place of the artifact.

Before the store sets anything up, it looks for the companions that an earlier use of the staging
file may have left beside it. Those that hold something are of no use to a new file, and they are
deleted, whoever has put them there.

A name that the store takes for an address leads it to another file. What it does there is left
open.

Where nothing happens from outside and there are no companions, writing in stages is writing the
artifact at one go.

## Main definitions

* `CardTable.Artifact.Action` — steps on files that can fail.
* `CardTable.Artifact.Stage`, `CardTable.Artifact.Surroundings` — the stages, and what happens at
  them.
* `CardTable.Artifact.sweep` — removes a companion of an earlier use.
* `CardTable.Artifact.openStore` — opens the staging file.
* `CardTable.Artifact.build` — puts the table to the staging file and moves it to the artifact.
* `CardTable.Artifact.writeGuarded` — writes an artifact in stages.
-/

namespace CardTable

/-- Whether a file holds nothing. -/
def Content.isEmpty : Content → Bool
  | .bytes data => data.size == 0
  | .table _ => false

namespace Artifact

/-- Steps on files. Where they fail, the files are left as they are then. -/
abbrev Action : Type → Type := ExceptT ArtifactError (StateM FileTree)

/-- What comes of steps, and what they leave. -/
def Action.on {α : Type} (x : Action α) (t : FileTree) : Except ArtifactError α × FileTree :=
  x.run.run t

/-- The stages of a writing. -/
inductive Stage where
  /-- The staging file is opened. -/
  | opening
  /-- A companion of an earlier use is looked for. -/
  | recovery (c : Companion)
  /-- The store is set up. -/
  | settings
  /-- The table is created. -/
  | creation
  /-- The transaction is begun. -/
  | beginning
  /-- A row is added. -/
  | row (n : Nat)
  /-- The transaction is completed. -/
  | completion
  /-- The file is compacted. -/
  | compaction
  /-- The store is closed. -/
  | closing
  /-- The staging file is moved. -/
  | moving

/-- What happens to a writing from outside. -/
structure Surroundings where
  /-- What the staging file holds in a stage, if something is written to it. -/
  draft : Stage → Option Content
  /-- The failure of a stage, if it fails. -/
  failure : Stage → Option ArtifactError
  /-- What is done to the files in a stage where an address leads. -/
  elsewhere : Stage → FileTree → FileTree

/-- Surroundings in which nothing happens. -/
def Surroundings.quiet : Surroundings where
  draft _ := none
  failure _ := none
  elsewhere _ t := t

/-! ## Companions -/

/-- The tree without a file that holds something; an empty one is left alone. -/
def swept (t : FileTree) (file : Path) : FileTree :=
  match t.find file with
  | .ok (.file content) => if content.isEmpty then t else (removeStale t file).1
  | _ => t

/-! ## Steps -/

/-- Puts content into a file. -/
def put (file : Path) (content : Content) : Action Unit := do
  match (← get).writeFile file content with
  | .ok t => set t
  | .error e => throw (.io file e)

/-- Moves a file. -/
def move (source target : Path) : Action Unit := do
  match (← get).rename source target with
  | .ok t => set t
  | .error e => throw (.io target e)

section Stages

variable (s : Surroundings) (artifact : Path)

/-- Fails if the stage fails. -/
def check (stage : Stage) : Action Unit :=
  match s.failure stage with
  | none => pure ()
  | some e => throw e

/-- Has the store put content into its file, which is the staging file, unless the name of that is
an address. -/
def deposit (stage : Stage) (content : Content) : Action Unit :=
  if isAddress (stagingPath artifact) then modify (s.elsewhere stage)
  else put (stagingPath artifact) content

/-- Puts to the file of the store what is written to it in a stage. -/
def putDraft (stage : Stage) : Action Unit :=
  match s.draft stage with
  | none => pure ()
  | some content => deposit s artifact stage content

/-- Goes through a stage. -/
def pass (stage : Stage) : Action Unit := do
  putDraft s artifact stage
  check s stage

/-- Has the store make its file, unless it cannot be opened. -/
def makeFile : Action Unit := do
  if isAddress (stagingPath artifact) then modify (s.elsewhere .opening)
  else if canOpen (← get) (stagingPath artifact) then put (stagingPath artifact) (.bytes .empty)
  else throw (.store (.cannotOpen (stagingPath artifact).text))

/-- Removes a companion of an earlier use. A directory in the place of the log is in the way. -/
def sweep (c : Companion) : Action Unit := do
  check s (.recovery c)
  if c = .log ∧ (← get).isDirectory (c.path artifact) then throw (.store .cannotDelete)
  else modify (swept · (c.path artifact))

/-- Removes the companions of an earlier use. -/
def recover : Action Unit :=
  if isAddress (stagingPath artifact) then modify (s.elsewhere (.recovery .log))
  else [.journal, .log].forM (sweep s artifact)

/-- Opens the staging file, and removes what an earlier use of it has left beside it. -/
def openStore : Action Unit := do
  pass s artifact .opening
  makeFile s artifact
  recover s artifact

/-- The table with the row of one more card, which is the card number `row`. A card without an id
does not come to the store. -/
def putRow (columns : List Column) (row : Nat) (table : StoredTable) (c : CorpusCard) :
    Action StoredTable := do
  if (StoredTable.keyOf (encodeRow columns c.card c.pack)).isNull then
    throw (.missingId row)
  else
    pass s artifact (.row row)
    MonadExcept.ofExcept (addRows columns row table [c])

/-- The table with the rows of further cards, and the number of the cards so far. -/
def putRows (columns : List Column) (row : Nat) (table : StoredTable) :
    List CorpusCard → Action (StoredTable × Nat)
  | [] => pure (table, row)
  | c :: rest => do
    let table ← putRow s artifact columns row table c
    putRows columns (row + 1) table rest

/-- Has the store make the table of cards in its file, and gives the table and the number of its
rows. -/
def fill (columns : List Column) (cards : List CorpusCard) : Action (StoredTable × Nat) := do
  [.settings, .creation].forM (pass s artifact)
  let table ← MonadExcept.ofExcept
    ((StoredTable.ofColumns (columns.map Column.definition)).mapError .store)
  pass s artifact .beginning
  let filled ← putRows s artifact columns 0 table cards
  [.completion, .compaction, .closing].forM (pass s artifact)
  pure filled

/-- Makes the table of cards in the staging file, moves it to the artifact, and gives the number of
its rows. -/
def build (columns : List Column) (cards : List CorpusCard) : Action Nat := do
  openStore s artifact
  let filled ← fill s artifact columns cards
  -- a store that is closed has left the table in the file, whatever was there in the meantime
  deposit s artifact .closing (.table filled.1)
  check s .moving
  move (stagingPath artifact) artifact
  pure filled.2

end Stages

/-- Writes the table of cards to the artifact in stages, and gives the number of its rows. -/
def writeGuarded (s : Surroundings) (t : FileTree) (artifact : Path) (columns : List Column)
    (cards : List CorpusCard) : FileTree × Except ArtifactError Nat :=
  match prepare t artifact with
  | (t, .error e) => (t, .error e)
  | (t, .ok ()) =>
    match (build s artifact columns cards).on t with
    | (.ok rows, t) => (t, .ok rows)
    -- the guard removes the staging file, and does not mind if this fails
    | (.error e, t) => ((removeStale t (stagingPath artifact)).1, .error e)

end Artifact

end CardTable
