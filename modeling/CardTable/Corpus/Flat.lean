import CardTable.Corpus.Catalog

set_option autoImplicit false

/-!
# Flat card files

A flat corpus is a directory with one JSON file for each set. The name of the file in front of its
extension is the id of the set, and the file lists the cards of the set.

## Main definitions

* `CardTable.Flat.cardFiles` — the card files of a directory, in the order of their names.
* `CardTable.Flat.readCards` — the cards in a file.
* `CardTable.Flat.load` — the cards in a directory, with their packs.
-/

namespace CardTable

namespace Flat

/-- The card files directly inside a directory, in the order of their names. -/
def cardFiles (t : FileTree) (directory : Path) : Except CorpusError (List Path) :=
  if t.isDirectory directory then
    let files := (t.children directory).filterMap fun (name, entry) =>
      match entry with
      | .file _ => some (directory.join ⟨name⟩)
      | .directory => none
    .ok ((files.filter fun file => file.extension? = some "json").mergeSort Path.notAfter)
  else .error (.missing (.cardDirectory directory))

/-- The cards among values, the first of which has the position `index`. -/
def cardsOf (index : Nat) : List Value → Except InputProblem (List Card)
  | [] => .ok []
  | .mapping fields :: rest => do
    let cards ← cardsOf (index + 1) rest
    .ok (fields :: cards)
  | _ :: _ => .error (.cardNotMapping index)

/-- The cards in a file. -/
def readCards (t : FileTree) (file : Path) : Except CorpusError (List Card) := do
  let text ← (t.readText file).mapError (.io file)
  if Text.trim text = "" then .error (.missing (.cardText file))
  else
    match Json.read? text with
    | none => .error (.json file)
    | some (.list items) => (cardsOf 0 items).mapError (.invalid file)
    | some _ => .error (.invalid file .cardsNotList)

/-- What a card takes over from its set, if the catalog has it. -/
def packOf (info : Option SetInfo) (card : Card) : Pack where
  name := info.bind SetInfo.name
  series := info.bind SetInfo.series
  code := none
  releaseDate := (info.bind SetInfo.releaseDate).map Date.iso
  imageUrl := Card.imageUrl false card

/-- The id of the set that a card file belongs to. -/
def setOf (file : Path) : String :=
  file.stem?.getD ""

/-- The cards in several files, with their packs. -/
def loadFiles (t : FileTree) (catalog : Catalog) : List Path → Except CorpusError (List CorpusCard)
  | [] => .ok []
  | file :: rest => do
    let cards ← readCards t file
    let info := catalog.get? (setOf file)
    let more ← loadFiles t catalog rest
    .ok (cards.map (fun card => ⟨card, packOf info card⟩) ++ more)

/-- The cards in a directory, with their packs. -/
def load (t : FileTree) (catalog : Catalog) (directory : Path) :
    Except CorpusError (List CorpusCard) := do
  let files ← cardFiles t directory
  if files = [] then .error (.missing (.cardFiles directory)) else loadFiles t catalog files

end Flat

end CardTable
