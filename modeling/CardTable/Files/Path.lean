set_option autoImplicit false

/-!
# Paths

A path is the text that names a place in a file tree. Its components are what the slashes separate,
without the empty ones and without `.` behind the first one. Normalizing a path folds `.` and `..`
by the text alone, and gives each place that is reached without crossing links one spelling.

## Main definitions

* `CardTable.Path` and `CardTable.Path.components` — paths and their components.
* `CardTable.Path.normalize` — the canonical spelling.
* `CardTable.Path.join`, `CardTable.Path.parent?`, `CardTable.Path.withFileName` — paths made of
  others.
* `CardTable.Path.fileName?`, `CardTable.Path.stem?`, `CardTable.Path.extension?` — the parts of
  the last component.

## Main results

* `CardTable.Path.fold_append` — folding goes on where it stopped.
-/

namespace CardTable

/-- A path, by its text. -/
structure Path where
  /-- The text. -/
  text : String
deriving DecidableEq

namespace Path

/-! ## Components -/

/-- A component of a path. -/
inductive Component where
  /-- The root of the file tree, in front of an absolute path. -/
  | root
  /-- The directory itself, in front of a relative path. -/
  | current
  /-- The directory above. -/
  | parent
  /-- An entry of a directory. -/
  | name (s : String)
deriving DecidableEq

/-- The stretches between slashes, of which there is always one. -/
def splitSlash : List Char → List (List Char)
  | [] => [[]]
  | c :: rest =>
    if c = '/' then [] :: splitSlash rest
    else
      match splitSlash rest with
      | [] => [[c]]
      | piece :: pieces => (c :: piece) :: pieces

/-- The component that a stretch between slashes stands for; an empty one stands for none. -/
def componentOf? (piece : List Char) : Option Component :=
  if piece = [] then none
  else if piece = ['.'] then some .current
  else if piece = ['.', '.'] then some .parent
  else some (.name (String.ofList piece))

/-- Whether the path begins at the root. -/
def isAbsolute (p : Path) : Bool :=
  p.text.toList.head? == some '/'

/-- Whether the path ends in a slash. -/
def endsInSlash (p : Path) : Bool :=
  p.text.toList.getLast? == some '/'

/-- The steps that a path asks for, `.` included, from the root or from the working directory. -/
def steps (p : Path) : List Component :=
  (splitSlash p.text.toList).filterMap componentOf?

/-- The components of a path. -/
def components (p : Path) : List Component :=
  if p.isAbsolute then .root :: p.steps.filter (· ≠ .current)
  else
    match p.steps with
    | [] => []
    | first :: rest => first :: rest.filter (· ≠ .current)

/-- The text of a component inside a path. -/
def Component.text : Component → List Char
  | .root => []
  | .current => ['.']
  | .parent => ['.', '.']
  | .name s => s.toList

/-- Texts with slashes between them. -/
def joinSlash : List (List Char) → List Char
  | [] => []
  | [piece] => piece
  | piece :: pieces => piece ++ '/' :: joinSlash pieces

/-- The path with the given components. -/
def ofComponents (cs : List Component) : Path :=
  if cs = [.root] then ⟨"/"⟩ else ⟨String.ofList (joinSlash (cs.map Component.text))⟩

/-! ## Normalizing -/

/-- Takes one component to a folded path, whose components stand last one first: `..` takes a name
away, stays at the root, and is kept otherwise. -/
def foldStep (folded : List Component) (c : Component) : List Component :=
  match c with
  | .current => folded
  | .root => [.root]
  | .name s => .name s :: folded
  | .parent =>
    match folded with
    | .name _ :: rest => rest
    | .root :: _ => folded
    | _ => .parent :: folded

/-- The components of a folded path, last one first, with further components taken to it. -/
def fold (folded cs : List Component) : List Component :=
  cs.foldl foldStep folded

/-- Folding goes on where it stopped. -/
theorem fold_append (folded cs ds : List Component) :
    fold folded (cs ++ ds) = fold (fold folded cs) ds := by
  simp [fold]

/-- The path without `.`, and with `..` only in front of a relative path. -/
def normalize (p : Path) : Path :=
  ofComponents (fold [] p.components).reverse

/-! ## Making paths -/

/-- The path `q` seen from the directory `p`; an absolute path stays as it is. -/
def join (p q : Path) : Path :=
  if q.isAbsolute then q
  else if p.text = "" ∨ p.endsInSlash then ⟨p.text ++ q.text⟩
  else ⟨p.text ++ "/" ++ q.text⟩

/-- The text `suffix` behind the text of the path. -/
def withSuffix (p : Path) (suffix : String) : Path :=
  ⟨p.text ++ suffix⟩

/-- Whether a stretch between slashes says nothing: it is empty, or a `.` that is not in front. -/
def isIdle (piece : List Char) : Bool :=
  piece == [] || piece == ['.']

/-- Drops the idle stretches at the end, all but the first stretch of all; the stretches stand last
one first. -/
def dropIdle : List (List Char) → List (List Char)
  | [] => []
  | [first] => [first]
  | piece :: next :: rest => if isIdle piece then dropIdle (next :: rest) else piece :: next :: rest

/-- The path without its last component, unless it has none or only the root. -/
def parent? (p : Path) : Option Path :=
  if p.components = [] ∨ p.components = [.root] then none
  else
    match dropIdle (splitSlash p.text.toList).reverse with
    | _ :: next :: rest =>
      let kept := joinSlash (dropIdle (next :: rest)).reverse
      some (if kept = [] ∧ p.isAbsolute then ⟨"/"⟩ else ⟨String.ofList kept⟩)
    | _ => some ⟨""⟩

/-- The last component, if it is a name. -/
def fileName? (p : Path) : Option String :=
  match p.components.getLast? with
  | some (.name s) => some s
  | _ => none

/-- The path with its last component replaced by `name`, or with `name` behind it if that is no
name. -/
def withFileName (p : Path) (name : String) : Path :=
  if p.fileName?.isSome then (p.parent?.getD ⟨""⟩).join ⟨name⟩ else p.join ⟨name⟩

/-! ## The last component -/

/-- A file name cut at its last dot, which does not stand in front. -/
def splitName (name : List Char) : List Char × Option (List Char) :=
  let extension := (name.reverse.takeWhile (· != '.')).reverse
  let stem := name.take (name.length - extension.length - 1)
  if stem = [] ∨ extension.length = name.length then (name, none) else (stem, some extension)

/-- The file name without its extension. -/
def stem? (p : Path) : Option String :=
  p.fileName?.map fun name => String.ofList (splitName name.toList).1

/-- What stands behind the last dot of the file name. -/
def extension? (p : Path) : Option String :=
  p.fileName?.bind fun name => (splitName name.toList).2.map String.ofList

/-! ## Order -/

/-- The order of paths by code points, which is also the order of their UTF-8 bytes. -/
def notAfter (p q : Path) : Bool :=
  decide (p.text ≤ q.text)

end Path

end CardTable
