import CardTable.Corpus.Flat
import CardTable.Modules.Handoff

set_option autoImplicit false

/-!
# Collected modules

A corpus of modules is a directory of series, with a directory for each of their sets, with a
module for each card. The modules above stand for series and sets and are reached by imports. A
module is a card if its value is a mapping with a set that has an id; the id of the card is made of
the id of the set and the name of the file, which is also the number of the card.

## Main definitions

* `CardTable.Collection.cardFiles` — the modules of cards, in the order of their paths.
* `CardTable.Collection.classify` — the card that a value is.
* `CardTable.Collection` and `CardTable.Collection.collect` — the cards below a directory.
-/

namespace CardTable

/-- The cards of a directory of modules. -/
structure Collection where
  /-- The cards with their packs, in the order of their paths. -/
  cards : List CorpusCard
  /-- The number of modules that were looked at. -/
  files : Nat
  /-- The number of modules that are no cards. -/
  skipped : Nat

namespace Collection

/-! ## Files -/

/-- The regular files at the given depth below a place, with the paths that lead there. -/
def filesBelow (t : FileTree) : Nat → Path → Location → List Path
  | 0, _, _ => []
  | 1, p, loc => (t.childrenAt loc).filterMap fun (name, entry) =>
    match entry with
    | .file _ => some (p.join ⟨name⟩)
    | .directory => none
  | depth + 2, p, loc => (t.childrenAt loc).flatMap fun (name, entry) =>
    match entry with
    | .file _ => []
    | .directory => filesBelow t (depth + 1) (p.join ⟨name⟩) (loc ++ [name])

/-- How deep the modules of cards lie. -/
def cardDepth : Nat := 3

/-- The modules of cards below a directory, in the order of their paths. -/
def cardFiles (t : FileTree) (root : Path) : Except CorpusError (List Path) :=
  match t.isDirectory root, t.locate root with
  | true, .ok place =>
    let files := filesBelow t cardDepth root place
    .ok ((files.filter fun file => file.extension? = some "ts").mergeSort Path.notAfter)
  | _, _ => .error (.missing (.moduleTree root))

/-! ## Cards -/

/-- Why a value is no card. -/
inductive SkipReason where
  /-- It is not a mapping. -/
  | notMapping
  /-- It has no set. -/
  | missingSet
  /-- Its set has no id. -/
  | invalidSetId
deriving DecidableEq

/-- The id of the card `localId` of a set. -/
def composedId (setId localId : String) : String :=
  setId ++ "-" ++ localId

/-- The card that a value is, if it is one, in the file named `localId`. -/
def classify (localId : String) : Value → Except SkipReason Card
  | .mapping fields =>
    match Fields.get? fields "set" with
    | some (.mapping set) =>
      match Fields.get? set "id" with
      | some (.str setId) =>
        let named := Fields.insert fields idField (.str (composedId setId localId))
        .ok (Fields.insert named "number" (.str localId))
      | _ => .error .invalidSetId
    | _ => .error .missingSet
  | _ => .error .notMapping

/-- The card that the value of a module is, with its pack. -/
def cardOf? (file : Path) (v : Value) : Option CorpusCard :=
  match classify (file.stem?.getD "") v with
  | .ok card => some ⟨card, card.modulePack⟩
  | .error _ => none

/-- The cards among the values of modules. -/
def ofValues (files : List Path) (values : List Value) : Collection :=
  let outcomes := List.zipWith cardOf? files values
  { cards := outcomes.filterMap id
    files := files.length
    skipped := outcomes.countP Option.isNone }

/-- The cards below a directory of modules. -/
def collect (t : FileTree) (runtime : Runtime) (root : Path) : Except CorpusError Collection := do
  let files ← cardFiles t root
  if files = [] then .error (.missing (.cardModules root))
  else
    let values ← (Evaluator.evaluateAll t runtime {} files).answer.mapError .engine
    .ok (ofValues files values)

end Collection

end CardTable
