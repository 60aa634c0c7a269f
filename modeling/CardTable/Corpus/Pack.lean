import CardTable.Corpus.Date
import CardTable.Table.Schema

set_option autoImplicit false

/-!
# Packs of cards

What a card takes over from its pack is read from the card itself if the card is a module, which
carries its pack in the field `set`. Texts of a module may be given in several languages; English
is preferred.

## Main definitions

* `CardTable.Value.pickText` — the text among texts in several languages.
* `CardTable.Card.imageUrl` — the address of the picture of a card.
* `CardTable.Value.releaseDate?` — the release date that a value gives.
* `CardTable.Card.modulePack` — what a module card takes over from its pack.
-/

namespace CardTable

/-- The text among texts in several languages: the English one, or else the first one. A plain text
stands for itself. -/
def Value.pickText : Value → Option String
  | .str s => some s
  | .mapping fields =>
    match Fields.get? fields "en" with
    | some (.str s) => some s
    | _ => fields.findSome? fun field => field.2.text?
  | _ => none

/-- The release date that a value gives, if it is a text that spells one. -/
def Value.releaseDate? (v : Value) : Option Date :=
  v.text?.bind Date.read?

namespace Card

/-- The text in the field `key` of a card. -/
def textOf (card : Card) (key : String) : Option String :=
  (Fields.get? card key).bind Value.text?

/-- The mapping in the field `key` of a card. -/
def fieldsOf (card : Card) (key : String) : Option (Fields Value) :=
  (Fields.get? card key).bind Value.fields?

/-- The address of the picture of a card: that of the small one, or if there is none and `fallback`
is set, that of the only one. -/
def imageUrl (fallback : Bool) (card : Card) : Option String :=
  match (fieldsOf card "images").bind fun images => textOf images "small" with
  | some url => some url
  | none => if fallback then textOf card "image" else none

/-- What a module card takes over from its pack. -/
def modulePack (card : Card) : Pack :=
  let set := (fieldsOf card "set").getD []
  let series := (fieldsOf set "serie").bind fun serie => Fields.get? serie "name"
  let released :=
    match Fields.get? set "releaseDate" with
    | some (.mapping fields) => (Value.pickText (.mapping fields)).map Value.str
    | other => other
  { name := (Fields.get? set "name").bind Value.pickText
    series := series.bind Value.pickText
    code := textOf set "tcgOnline"
    releaseDate := (released.bind Value.releaseDate?).map Date.iso
    imageUrl := imageUrl true card }

end Card

end CardTable
