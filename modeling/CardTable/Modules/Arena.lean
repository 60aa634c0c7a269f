import CardTable.Modules.Graph

set_option autoImplicit false

/-!
# Arenas

An arena is where modules are put when they are loaded. It has the modules in a row, an index of the
places that they were read from, and the places of the modules that are being loaded, outermost
first. A place is marked as loading before the imports of its module are loaded, and the mark is
taken off behind them, whether they could be loaded or not.

An arena answers in the same way as the module graph that it holds.

## Main definitions

* `CardTable.StoredModule`, `CardTable.Arena` — modules in an arena.
* `CardTable.Arena.loadAt`, `CardTable.Arena.load` — loads a module and all it imports.
-/

namespace CardTable

/-- A module in an arena. -/
structure StoredModule where
  /-- The place it was read from. -/
  location : Location
  /-- The names that its imports bind, in the order of the source. -/
  params : List String
  /-- The ids of the modules that the names are bound to. -/
  deps : List Nat
  /-- Its statements. -/
  body : String
deriving DecidableEq

/-- The path that a module was read from. -/
def StoredModule.path (m : StoredModule) : Path :=
  m.location.path

/-- An arena; the id of a module is its position in the row. -/
structure Arena where
  /-- The modules. -/
  modules : List StoredModule := []
  /-- The ids of the modules by place, the newest one first. -/
  index : List (Location × Nat) := []
  /-- The places of the modules that are being loaded, outermost first. -/
  loading : List Location := []

namespace Arena

/-! ## Changes -/

/-- The id of the module that was read from a place. -/
def id? (a : Arena) (loc : Location) : Option Nat :=
  a.index.lookup loc

/-- The arena with a place marked as loading. -/
def enter (a : Arena) (loc : Location) : Arena :=
  { a with loading := a.loading ++ [loc] }

/-- The arena without the innermost mark. -/
def leave (a : Arena) : Arena :=
  { a with loading := a.loading.dropLast }

/-- The arena with one more module. -/
def store (a : Arena) (m : StoredModule) : Arena :=
  { a with
    modules := a.modules ++ [m]
    index := (m.location, a.modules.length) :: a.index }

/-- What a load leaves: the arena and the answer. The same places are marked as before. -/
abbrev Outcome (a : Arena) (α : Type) : Type :=
  { r : Arena × Except LoadError α // r.1.loading = a.loading }

/-- When a place is left, the marks are those from before it was entered. -/
theorem loading_leave {a b : Arena} {loc : Location} (h : b.loading = (a.enter loc).loading) :
    b.leave.loading = a.loading := by
  simp [leave, enter, h]

/-! ## Loading -/

mutual

/-- Loads the module at a place, and before it all that it imports. -/
def loadAt (t : FileTree) (a : Arena) (loc : Location) : Outcome a Nat :=
  match a.id? loc with
  | some id => ⟨(a, .ok id), rfl⟩
  | none =>
    if hfresh : loc ∈ a.loading then
      ⟨(a, .error (.importCycle
        ((a.loading.dropWhile (· ≠ loc) ++ [loc]).map Location.path))), rfl⟩
    else
      match hread : t.readTextAt loc with
      | .error e => ⟨(a, .error (.unreadable loc.path e)), rfl⟩
      | .ok text =>
        match Source.Module.ofSource text with
        | .error e => ⟨(a, .error (.source loc.path e)), rfl⟩
        | .ok m =>
          have := ModuleGraph.waiting_lt (FileTree.mem_places_of_readTextAt hread) hfresh
          match loadImports t (a.enter loc) loc m.imports with
          | ⟨(b, .error e), h⟩ => ⟨(b.leave, .error e), loading_leave h⟩
          | ⟨(b, .ok (params, deps)), h⟩ =>
            ⟨(b.leave.store ⟨loc, params, deps, m.body⟩, .ok b.modules.length), loading_leave h⟩
  termination_by ((ModuleGraph.waiting t a.loading).length, 0)

/-- Loads the modules that the imports of the module at `importer` bind names to: the names, and the
ids of the modules. -/
def loadImports (t : FileTree) (a : Arena) (importer : Location) :
    List Source.Import → Outcome a (List String × List Nat)
  | [] => ⟨(a, .ok ([], [])), rfl⟩
  | i :: rest =>
    match i.binding?, resolve t importer.path i.specifier with
    | some name, .resolved file =>
      match loadAt t a (file.location t.workingDirectory) with
      | ⟨(b, .error e), h⟩ => ⟨(b, .error e), h⟩
      | ⟨(b, .ok id), h⟩ =>
        match loadImports t b importer rest with
        | ⟨(c, .error e), h'⟩ => ⟨(c, .error e), h'.trans h⟩
        | ⟨(c, .ok (params, deps)), h'⟩ => ⟨(c, .ok (name :: params, id :: deps)), h'.trans h⟩
    | _, _ => loadImports t a importer rest
  termination_by imports => ((ModuleGraph.waiting t a.loading).length, imports.length + 1)
  decreasing_by
    · exact .right _ (Nat.succ_pos _)
    · have hsame : b.loading = a.loading := h
      rw [hsame]
      exact .right _ (Nat.lt_succ_self _)
    · exact .right _ (Nat.lt_succ_self _)

end

/-- Loads the module at a path, and before it all that it imports. -/
def load (t : FileTree) (a : Arena) (p : Path) : Arena × Except LoadError Nat :=
  (loadAt t a (p.location t.workingDirectory)).1

end Arena

end CardTable
