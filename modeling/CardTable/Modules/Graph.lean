import CardTable.Modules.Resolution
import CardTable.Source.Module

set_option autoImplicit false

/-!
# Module graphs

A module graph holds each module once, under the place it was read from. A module is loaded behind
everything that it imports, so the ids of its dependencies are smaller than its own. Loading fails
at the first module that cannot be read or taken apart, and at an import that leads back to a
module that is still being loaded; the modules loaded before stay.

## Main definitions

* `CardTable.Binding`, `CardTable.LoadedModule`, `CardTable.ModuleGraph` — loaded modules.
* `CardTable.LoadError` — why loading fails.
* `CardTable.ModuleGraph.loadAt`, `CardTable.ModuleGraph.load` — loads a module and all it imports.

## Main results

* `CardTable.ModuleGraph.waiting_lt` — each module that is being loaded leaves fewer places.
-/

namespace CardTable

/-- A name that an import binds, and the module that it is bound to. -/
structure Binding where
  /-- The name. -/
  name : String
  /-- The id of the module. -/
  module : Nat
deriving DecidableEq

/-- A loaded module. -/
structure LoadedModule where
  /-- The place it was read from. -/
  location : Location
  /-- What its imports bind, in the order of the source. -/
  bindings : List Binding
  /-- Its statements. -/
  body : String
deriving DecidableEq

namespace LoadedModule

/-- The path it was read from. -/
def path (m : LoadedModule) : Path :=
  m.location.path

/-- The names that its imports bind. -/
def params (m : LoadedModule) : List String :=
  m.bindings.map Binding.name

/-- The ids of the modules that its names are bound to. -/
def deps (m : LoadedModule) : List Nat :=
  m.bindings.map Binding.module

end LoadedModule

/-- The loaded modules; the id of a module is its place in the list. -/
structure ModuleGraph where
  /-- The modules. -/
  modules : List LoadedModule := []
deriving DecidableEq

/-- Why loading fails. -/
inductive LoadError where
  /-- A module cannot be read. -/
  | unreadable (path : Path) (cause : IoError)
  /-- A module cannot be taken apart. -/
  | source (path : Path) (cause : Source.SourceError)
  /-- Modules import each other; the chain ends with the module that it begins with. -/
  | importCycle (chain : List Path)
deriving DecidableEq

/-- The wording of a load error. -/
def LoadError.message : LoadError → String
  | .unreadable path cause => "Failed to read module " ++ path.text ++ ": " ++ cause.message
  | .source path .missingExport => "Missing export default in " ++ path.text
  | .source path (.specifier e) =>
    "Invalid specifier literal '" ++ e.raw ++ "' in " ++ path.text ++ ": " ++ e.reason.message
  | .importCycle chain => "Import cycle detected: " ++ " -> ".intercalate (chain.map Path.text)

namespace ModuleGraph

/-- The id of the module that was read from a place. -/
def id? (g : ModuleGraph) (loc : Location) : Option Nat :=
  g.modules.findIdx? fun m => m.location = loc

/-- The graph with one more module. -/
def push (g : ModuleGraph) (m : LoadedModule) : ModuleGraph :=
  ⟨g.modules ++ [m]⟩

/-- The number of modules. -/
def size (g : ModuleGraph) : Nat :=
  g.modules.length

/-! ## Loading -/

/-- The places in use that are not being loaded. -/
def waiting (t : FileTree) (loading : List Location) : List Location :=
  t.places.filter fun loc => loc ∉ loading

/-- Each module that is being loaded leaves fewer places. -/
theorem waiting_lt {t : FileTree} {loading : List Location} {loc : Location}
    (hfile : loc ∈ t.places) (hfresh : loc ∉ loading) :
    (waiting t (loading ++ [loc])).length < (waiting t loading).length := by
  have hsub : waiting t (loading ++ [loc]) = (waiting t loading).filter (· ≠ loc) := by
    simp only [waiting, List.filter_filter]
    congr 1
    funext other
    by_cases hother : other = loc <;> simp [hother, hfresh]
  rw [hsub]
  have hmem : loc ∈ waiting t loading := by simp [waiting, hfile, hfresh]
  exact List.length_filter_lt_length_iff_exists.2 ⟨loc, hmem, by simp⟩

mutual

/-- Loads the module at a place, and before it all that it imports. The modules on the way to it,
outermost first, are `loading`. -/
def loadAt (t : FileTree) (loading : List Location) (g : ModuleGraph) (loc : Location) :
    ModuleGraph × Except LoadError Nat :=
  match g.id? loc with
  | some id => (g, .ok id)
  | none =>
    if hfresh : loc ∈ loading then
      (g, .error (.importCycle
        ((loading.dropWhile (· ≠ loc) ++ [loc]).map Location.path)))
    else
      match hread : t.readTextAt loc with
      | .error e => (g, .error (.unreadable loc.path e))
      | .ok text =>
        match Source.Module.ofSource text with
        | .error e => (g, .error (.source loc.path e))
        | .ok m =>
          have := waiting_lt (FileTree.mem_places_of_readTextAt hread) hfresh
          match loadImports t (loading ++ [loc]) g loc m.imports with
          | (g, .error e) => (g, .error e)
          | (g, .ok bindings) => (g.push ⟨loc, bindings, m.body⟩, .ok g.size)
  termination_by ((waiting t loading).length, 0)

/-- Loads the modules that the imports of the module at `importer` bind names to. An import that
binds no name, or whose specifier stands for no module, is dropped. -/
def loadImports (t : FileTree) (loading : List Location) (g : ModuleGraph) (importer : Location) :
    List Source.Import → ModuleGraph × Except LoadError (List Binding)
  | [] => (g, .ok [])
  | i :: rest =>
    match i.binding?, resolve t importer.path i.specifier with
    | some name, .resolved file =>
      match loadAt t loading g (file.location t.workingDirectory) with
      | (g, .error e) => (g, .error e)
      | (g, .ok id) =>
        match loadImports t loading g importer rest with
        | (g, .error e) => (g, .error e)
        | (g, .ok bindings) => (g, .ok (⟨name, id⟩ :: bindings))
    | _, _ => loadImports t loading g importer rest
  termination_by imports => ((waiting t loading).length, imports.length + 1)

end

/-- Loads the module at a path, and before it all that it imports. -/
def load (t : FileTree) (g : ModuleGraph) (p : Path) : ModuleGraph × Except LoadError Nat :=
  loadAt t [] g (p.location t.workingDirectory)

end ModuleGraph

end CardTable
