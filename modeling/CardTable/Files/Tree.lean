import CardTable.Files.Path
import CardTable.Table.Stored

set_option autoImplicit false

/-!
# File trees

A file tree maps places to directories and files, without links, and has a working directory. A
path is walked step by step, and every place on the way has to be a directory. A file holds bytes,
or a stored table in place of the bytes that would encode it.

## Main definitions

* `CardTable.Location` — places, as the names on the way from the root.
* `CardTable.FileTree` — file trees.
* `CardTable.IoError` — why the file tree refuses an operation.
* `CardTable.FileTree.locate`, `CardTable.FileTree.find` — where a path leads, and what is there.
* `CardTable.FileTree.readText`, `CardTable.FileTree.writeFile`, `CardTable.FileTree.removeFile`,
  `CardTable.FileTree.createDirectories`, `CardTable.FileTree.rename` — operations on files.

## Main results

* `CardTable.FileTree.eq_append_of_descend` — names lead to the place they name.
* `CardTable.FileTree.mem_places_of_readTextAt` — a place with a text is one of finitely many.
* `CardTable.FileTree.at?_set`, `CardTable.FileTree.at?_remove` — what a change leaves.
-/

namespace CardTable

/-- A place in a file tree: the names on the way to it from the root. -/
abbrev Location : Type := List String

/-- The absolute path of a place. -/
def Location.path (loc : Location) : Path :=
  ⟨String.ofList ('/' :: Path.joinSlash (loc.map String.toList))⟩

/-- Where a step leads from a directory. -/
def Location.next (here : Location) : Path.Component → Location
  | .root => []
  | .current => here
  | .parent => here.dropLast
  | .name s => here ++ [s]

/-- The place that an absolute path names, with `..` and `.` folded by the text alone. -/
def Path.location (workingDirectory : Location) (p : Path) : Location :=
  let steps := if p.isAbsolute then p.steps else workingDirectory.map .name ++ p.steps
  (Path.fold [.root] steps).reverse.filterMap fun
    | .name s => some s
    | _ => none

/-- What a file holds. -/
inductive Content where
  /-- Bytes. -/
  | bytes (data : ByteArray)
  /-- A stored table. -/
  | table (t : StoredTable)

/-- What is at a place. -/
inductive Entry where
  /-- A directory. -/
  | directory
  /-- A regular file. -/
  | file (content : Content)

/-- Why the file tree refuses an operation. -/
inductive IoError where
  /-- There is nothing at a place. -/
  | notFound
  /-- There is a file in the way. -/
  | exists
  /-- A place on the way is a file. -/
  | notDirectory
  /-- The place is a directory. -/
  | isDirectory
  /-- The file is not one that can be started. -/
  | permissionDenied
  /-- The bytes are not those of a text. -/
  | invalidUtf8
deriving DecidableEq

/-- The wording of a file tree error. -/
def IoError.message : IoError → String
  | .notFound => "No such file or directory (os error 2)"
  | .exists => "File exists (os error 17)"
  | .notDirectory => "Not a directory (os error 20)"
  | .isDirectory => "Is a directory (os error 21)"
  | .permissionDenied => "Permission denied (os error 13)"
  | .invalidUtf8 => "stream did not contain valid UTF-8"

/-- The text that a file holds. -/
def Content.text : Content → Except IoError String
  | .bytes data =>
    match String.fromUTF8? data with
    | some s => .ok s
    | none => .error .invalidUtf8
  | .table _ => .error .invalidUtf8

/-- The text of the file that an entry is. -/
def Entry.text : Entry → Except IoError String
  | .directory => .error .isDirectory
  | .file content => content.text

/-- A file tree. -/
structure FileTree where
  /-- What is at each place, the root left out. -/
  entries : List (Location × Entry)
  /-- Where a relative path starts. -/
  workingDirectory : Location

namespace FileTree

/-! ## Places -/

/-- What is at a place. -/
def at? (t : FileTree) (loc : Location) : Option Entry :=
  if loc = [] then some .directory else t.entries.lookup loc

/-- The tree with `entry` at a place, instead of what was there. -/
def set (t : FileTree) (loc : Location) (entry : Entry) : FileTree :=
  { t with entries := (loc, entry) :: t.entries.filter (·.1 != loc) }

/-- The tree without what is at a place. -/
def remove (t : FileTree) (loc : Location) : FileTree :=
  { t with entries := t.entries.filter (·.1 != loc) }

/-- The places in use. -/
def places (t : FileTree) : List Location :=
  t.entries.map Prod.fst

/-- What is found when one place is left out. -/
theorem lookup_filter_ne (entries : List (Location × Entry)) (loc other : Location) :
    (entries.filter (·.1 != loc)).lookup other =
      if other = loc then none else entries.lookup other := by
  induction entries with
  | nil => simp
  | cons e rest ih =>
    rw [List.filter_cons, List.lookup_cons]
    by_cases hplace : e.1 = loc
    · rw [if_neg (by simpa using hplace), ih]
      by_cases hother : other = loc
      · simp [hother]
      · have hne : (other == e.1) = false := by simpa [hplace] using hother
        simp [hother, hne]
    · rw [if_pos (by simpa using hplace), List.lookup_cons, ih]
      by_cases hother : other = e.1
      · simp [hother, hplace]
      · have hne : (other == e.1) = false := by simpa using hother
        simp [hne]

/-- After a change at one place the other places are as before. -/
theorem at?_set (t : FileTree) (loc other : Location) (entry : Entry) (h : loc ≠ []) :
    (t.set loc entry).at? other = if other = loc then some entry else t.at? other := by
  unfold at? set
  by_cases hroot : other = []
  · subst hroot
    simp [Ne.symm h]
  · by_cases hother : other = loc
    · simp [hother, h]
    · have hne : (other == loc) = false := by simpa using hother
      simp only [if_neg hroot, List.lookup_cons, hne, if_neg hother, lookup_filter_ne]

/-- After a removal there is nothing at the place, and the other places are as before. -/
theorem at?_remove (t : FileTree) (loc other : Location) (h : loc ≠ []) :
    (t.remove loc).at? other = if other = loc then none else t.at? other := by
  unfold at? remove
  by_cases hroot : other = []
  · subst hroot
    simp [Ne.symm h]
  · simp only [if_neg hroot, lookup_filter_ne]

/-! ## Walking -/

/-- The place that steps lead to from the place `here`. Each step starts in a directory; the place
it leads to need not be in use. -/
def descend (t : FileTree) (here : Location) : List Path.Component → Except IoError Location
  | [] => .ok here
  | step :: steps =>
    match t.at? here with
    | none => .error .notFound
    | some (.file _) => .error .notDirectory
    | some .directory =>
      match step with
      | .root => descend t [] steps
      | .current => descend t here steps
      | .parent => descend t here.dropLast steps
      | .name s => descend t (here ++ [s]) steps

/-- Names lead to the place they name. -/
theorem eq_append_of_descend {t : FileTree} {here place names : Location}
    (h : t.descend here (names.map .name) = .ok place) : place = here ++ names := by
  induction names generalizing here with
  | nil => simpa [descend] using h.symm
  | cons s names ih =>
    simp only [List.map_cons, descend] at h
    split at h
    · exact absurd h nofun
    · exact absurd h nofun
    · simpa using ih h

/-- Where the path starts. -/
def startOf (t : FileTree) (p : Path) : Location :=
  if p.isAbsolute then [] else t.workingDirectory

/-- The place that a path leads to. -/
def locate (t : FileTree) (p : Path) : Except IoError Location :=
  if p.text = "" then .error .notFound else t.descend (t.startOf p) p.steps

/-- What is at the place that steps lead to from the root. -/
def entryAt (t : FileTree) (loc : Location) : Except IoError Entry := do
  let place ← t.descend [] (loc.map .name)
  match t.at? place with
  | some entry => .ok entry
  | none => .error .notFound

/-- What is found by walking is what the tree has at the place. -/
theorem at?_of_entryAt {t : FileTree} {loc : Location} {entry : Entry}
    (h : t.entryAt loc = .ok entry) : t.at? loc = some entry := by
  unfold entryAt at h
  cases hplace : t.descend [] (loc.map .name) with
  | error e => simp [hplace, bind, Except.bind] at h
  | ok place =>
    have heq : place = loc := by simpa using eq_append_of_descend hplace
    subst heq
    cases hentry : t.at? place with
    | none => simp [hplace, hentry, bind, Except.bind] at h
    | some found => simpa [hplace, hentry, bind, Except.bind] using h

/-- What is at the place that a path leads to; a slash at the end asks for a directory. -/
def find (t : FileTree) (p : Path) : Except IoError Entry := do
  let place ← t.locate p
  match t.at? place with
  | none => .error .notFound
  | some .directory => .ok .directory
  | some (.file content) => if p.endsInSlash then .error .notDirectory else .ok (.file content)

/-- Whether the path leads to a regular file. -/
def isFile (t : FileTree) (p : Path) : Bool :=
  match t.find p with
  | .ok (.file _) => true
  | _ => false

/-- Whether the path leads to a directory. -/
def isDirectory (t : FileTree) (p : Path) : Bool :=
  match t.find p with
  | .ok .directory => true
  | _ => false

/-! ## Reading -/

/-- The text of the file that a path leads to. -/
def readText (t : FileTree) (p : Path) : Except IoError String := do
  (← t.find p).text

/-- The text of the file at a place. -/
def readTextAt (t : FileTree) (loc : Location) : Except IoError String := do
  (← t.entryAt loc).text

/-- What an entry list gives for a key has the key in the list. -/
theorem mem_places_of_lookup {entries : List (Location × Entry)} {loc : Location} {entry : Entry}
    (h : entries.lookup loc = some entry) : loc ∈ entries.map Prod.fst := by
  induction entries with
  | nil => simp at h
  | cons e rest ih =>
    by_cases hloc : loc = e.1
    · simp [hloc]
    · have hne : (loc == e.1) = false := by simpa using hloc
      rw [List.lookup_cons, hne] at h
      exact List.mem_cons_of_mem _ (ih h)

/-- A place with a text is one of the places in use. -/
theorem mem_places_of_readTextAt {t : FileTree} {loc : Location} {s : String}
    (h : t.readTextAt loc = .ok s) : loc ∈ t.places := by
  unfold readTextAt at h
  cases hentry : t.entryAt loc with
  | error e => simp [hentry, bind, Except.bind] at h
  | ok entry =>
    cases entry with
    | directory => simp [hentry, bind, Except.bind, Entry.text] at h
    | file content =>
      have hfound : t.at? loc = some (.file content) := at?_of_entryAt hentry
      unfold at? at hfound
      split at hfound
      · exact absurd hfound nofun
      · exact mem_places_of_lookup hfound

/-- The names in the directory at a place, each with what is there. -/
def childrenAt (t : FileTree) (loc : Location) : List (String × Entry) :=
  t.entries.filterMap fun e =>
    match e.1.getLast? with
    | some name => if e.1.dropLast = loc then some (name, e.2) else none
    | none => none

/-- The names in the directory that a path leads to, each with what is there. -/
def children (t : FileTree) (p : Path) : List (String × Entry) :=
  match t.locate p with
  | .ok place => t.childrenAt place
  | .error _ => []

/-! ## Writing -/

/-- The tree with `content` in the file that a path leads to. -/
def writeFile (t : FileTree) (p : Path) (content : Content) : Except IoError FileTree := do
  let place ← t.locate p
  match t.at? place with
  | some .directory => .error .isDirectory
  | some (.file _) =>
    if p.endsInSlash then .error .notDirectory else .ok (t.set place (.file content))
  | none => if p.endsInSlash then .error .isDirectory else .ok (t.set place (.file content))

/-- The tree without the file that a path leads to. -/
def removeFile (t : FileTree) (p : Path) : Except IoError FileTree := do
  let place ← t.locate p
  match ← t.find p with
  | .directory => .error .isDirectory
  | .file _ => .ok (t.remove place)

/-- The tree with a directory at the place that steps lead to, where nothing may be yet. -/
def makeDirectory (t : FileTree) (start : Location) (steps : List Path.Component) :
    Except IoError FileTree := do
  let place ← t.descend start steps
  match t.at? place with
  | some _ => .error .exists
  | none => .ok (t.set place .directory)

/-- Whether steps lead to a directory. -/
def leadsToDirectory (t : FileTree) (start : Location) (steps : List Path.Component) : Bool :=
  match t.descend start steps with
  | .ok place =>
    match t.at? place with
    | some .directory => true
    | _ => false
  | .error _ => false

/-- The tree with a directory where the steps lead that stand in `reversed`, the last one first. If
the way to it is missing, that is made before; what has been made stays in the tree. -/
def makeDirectories (t : FileTree) (start : Location) (reversed : List Path.Component) :
    FileTree × Except IoError Unit :=
  match reversed with
  | [] => (t, .ok ())
  | last :: before =>
    let finish (t : FileTree) : FileTree × Except IoError Unit :=
      let steps := (last :: before).reverse
      match t.makeDirectory start steps with
      | .ok t => (t, .ok ())
      | .error e => (t, if t.leadsToDirectory start steps then .ok () else .error e)
    match t.makeDirectory start (last :: before).reverse with
    | .error .notFound =>
      match makeDirectories t start before with
      | (t, .ok ()) => finish t
      | (t, .error e) => (t, .error e)
    | _ => finish t

/-- The tree with a directory where the path leads, and on the way there. -/
def createDirectories (t : FileTree) (p : Path) : FileTree × Except IoError Unit :=
  t.makeDirectories (t.startOf p) p.steps.reverse

/-- The tree with the file at `source` moved to `target`. -/
def rename (t : FileTree) (source target : Path) : Except IoError FileTree := do
  let origin ← t.locate source
  match ← t.find source with
  | .directory => .error .isDirectory
  | .file content =>
    let place ← t.locate target
    match t.at? place with
    | some .directory => .error .isDirectory
    | _ =>
      if target.endsInSlash then .error .notDirectory
      else .ok ((t.remove origin).set place (.file content))

end FileTree

end CardTable
