import CardTable.CommandLine.Run
import CardTable.Table.Dump

set_option autoImplicit false

/-!
# The program

The first argument of the program names a command, `flat` or `modules`, and the others are those of
the command. The command runs on the files below the working directory, and its changes are carried
out when it is done; a stored table is written as its dump. The program starts no processes, so
that modules are evaluated inside it or not at all.
-/

namespace CardTable.Program

/-- The entries at a directory entry and below it. -/
partial def readEntry (parent : Location) (e : IO.FS.DirEntry) : IO (List (Location × Entry)) := do
  let loc := parent ++ [e.fileName]
  match (← e.path.metadata).type with
  | .dir =>
    let mut below := [(loc, Entry.directory)]
    for child in ← e.path.readDir do
      below := below ++ (← readEntry loc child)
    return below
  | .file => return [(loc, .file (.bytes (← IO.FS.readBinFile e.path)))]
  | _ => return []

/-- The files below the working directory. -/
def readTree : IO FileTree := do
  let directory ← IO.currentDir
  let place := Path.location [] ⟨directory.toString⟩
  let mut entries := (List.range place.length).map fun n => (place.take (n + 1), Entry.directory)
  for e in ← directory.readDir do
    entries := entries ++ (← readEntry place e)
  return { entries, workingDirectory := place }

/-- The bytes that are written for a content. -/
def bytesOf : Content → ByteArray
  | .bytes data => data
  | .table t => t.dump.toUTF8

/-- Whether a file holds the given bytes. -/
def holds (t : FileTree) (loc : Location) (data : ByteArray) : Bool :=
  match t.at? loc with
  | some (.file (.bytes old)) => old == data
  | _ => false

/-- Carries out the changes from one tree to another. -/
def writeChanges (before after : FileTree) : IO Unit := do
  for (loc, entry) in before.entries do
    match entry, after.at? loc with
    | .file _, none => IO.FS.removeFile loc.path.text
    | _, _ => pure ()
  for (loc, entry) in after.entries.reverse do
    match entry with
    | .directory => if (before.at? loc).isNone then IO.FS.createDirAll loc.path.text
    | .file content =>
      let data := bytesOf content
      unless holds before loc data do IO.FS.writeBinFile loc.path.text data

/-- The variables that a command looks at. -/
def variableNames (c : Command) : List String :=
  ["RUST_LOG", "PATH"] ++ c.specs.filterMap OptionSpec.setBy

/-- The environment of a command. -/
def readEnvironment (c : Command) : IO (Fields String) :=
  (variableNames c).filterMapM fun name => return (← IO.getEnv name).map (name, ·)

/-- Runs a command. -/
def runCommand (c : Command) (args : List String) : IO UInt32 := do
  let before ← readTree
  let environment ← readEnvironment c
  let host : Host :=
    { isProgram := fun _ => false
      reply := fun _ _ => {}
      searchPath := environment.get? "PATH" }
  let (after, outcome) := c.run before host environment args
  writeChanges before after
  IO.print outcome.output
  if let some report := outcome.report then IO.eprintln report
  return UInt32.ofNat outcome.exitCode

end CardTable.Program

open CardTable in
/-- Runs the command that the first argument names. -/
def main : List String → IO UInt32
  | "flat" :: args => Program.runCommand .flat args
  | "modules" :: args => Program.runCommand .modules args
  | _ => do
    IO.eprintln "error: the first argument is flat or modules"
    return 2
