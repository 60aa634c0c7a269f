import CardTable.Proofs.Artifact.Artifacts
import CardTable.Proofs.Corpus.Corpora
import CardTable.Proofs.Compile.ListingOrder

set_option autoImplicit false

/-!
# What a compilation makes of a corpus

A compilation that succeeds leaves a table at the artifact with one row for each card of its corpus.
The corpus is read once the artifact and its staging file are gone, so that these two are no part of
it even where they are in its directory. Neither the table nor anything else that the compilation
does depends on the order in which directories list their entries.

## Main definitions

* `CardTable.Artifact.IsCleared` — a tree without the artifact and its staging file.
* `CardTable.FlatTable`, `CardTable.ModuleTable` — what a compilation makes of a corpus.

## Main results

* `CardTable.Artifact.isCleared_discard` — what is left once the artifact is removed.
* `CardTable.Compile.exists_flatTable`, `CardTable.Compile.exists_moduleTable` — what the two
  compilations make of the corpora that are left then.
* `CardTable.Compile.rows_correspond` — the two together, in whichever order entries are listed.
-/

namespace CardTable

namespace Artifact

/-! ## Removing the artifact -/

/-- The tree `left` is the tree `t` without the artifact and its staging file. -/
structure IsCleared (t : FileTree) (artifact : Path) (left : FileTree) : Prop where
  /-- Relative paths start where they did. -/
  workingDirectory : left.workingDirectory = t.workingDirectory
  /-- There is nothing where the two paths lead. -/
  gone : ∀ loc, t.locate artifact = .ok loc ∨ t.locate (stagingPath artifact) = .ok loc →
    left.at? loc = none
  /-- Everywhere else is what there was. -/
  kept : ∀ loc, t.locate artifact ≠ .ok loc → t.locate (stagingPath artifact) ≠ .ok loc →
    left.at? loc = t.at? loc

/-- What the removal of one file leaves: all paths lead where they did, there is nothing where the
path of the file leads, and everywhere else is what there was. -/
lemma removeStale_spec {t left : FileTree} {file : Path}
    (h : removeStale t file = (left, .ok ())) :
    left.workingDirectory = t.workingDirectory ∧
      (∀ p loc, left.locate p = .ok loc ↔ t.locate p = .ok loc) ∧
      (∀ loc, t.locate file = .ok loc → left.at? loc = none) ∧
      (∀ loc, t.locate file ≠ .ok loc → left.at? loc = t.at? loc) ∧
      (t.IsWellFormed → left.IsWellFormed) := by
  have hsame := sameDirectories_removeStale t file
  rw [h] at hsame
  have hlocate : ∀ p loc, left.locate p = .ok loc ↔ t.locate p = .ok loc :=
    fun _ _ => hsame.locate_iff
  unfold removeStale at h
  split at h
  · next u hremove =>
    obtain rfl : u = left := congrArg Prod.fst h
    obtain ⟨place, -, hplace, -, hroot, rfl, -⟩ := FileTree.exists_of_removeFile hremove
    refine ⟨rfl, hlocate, fun loc hloc => ?_, fun loc hloc => ?_, fun hwell => hwell.remove place⟩
    · obtain rfl := Except.ok.inj (hplace.symm.trans hloc)
      rw [FileTree.at?_remove t _ _ hroot, if_pos rfl]
    · rw [FileTree.at?_remove t _ _ hroot, if_neg fun heq : loc = place => hloc (heq ▸ hplace)]
  · next hnone =>
    obtain rfl : t = left := congrArg Prod.fst h
    refine ⟨rfl, hlocate, fun loc hloc => ?_, fun _ _ => rfl, id⟩
    -- a removal that finds nothing has come to an empty place
    simp only [FileTree.removeFile, FileTree.find, hloc, bind, Except.bind] at hnone
    split at hnone
    · next herror =>
      split at herror
      · next hempty => exact hempty
      · cases herror
      · split at herror <;> cases herror; cases hnone
    · next hfound => split at hnone <;> cases hnone
  · cases congrArg Prod.snd h

/-- **What is left once the artifact is removed**: everything but the artifact and its staging
file.

**Proof sketch.** The removal is made twice, of the artifact and of its staging file. Each one
leaves all other files alone and keeps the places of both paths (`removeStale_spec`), so the second
one finds its file where it was. -/
theorem isCleared_discard {t left : FileTree} {artifact : Path}
    (h : discard t artifact = (left, .ok ())) :
    IsCleared t artifact left ∧ (t.IsWellFormed → left.IsWellFormed) := by
  unfold discard at h
  split at h
  · next u hfirst =>
    obtain ⟨hstart, hlocate, hgone, hkept, hwell⟩ := removeStale_spec hfirst
    obtain ⟨hstart', -, hgone', hkept', hwell'⟩ := removeStale_spec h
    refine ⟨⟨hstart'.trans hstart, fun loc hloc => ?_, fun loc hne hne' => ?_⟩, hwell' ∘ hwell⟩
    · by_cases hstaging : t.locate (stagingPath artifact) = .ok loc
      · exact hgone' loc ((hlocate _ loc).2 hstaging)
      · have hartifact := hgone loc (hloc.resolve_right hstaging)
        rw [hkept' loc fun heq => hstaging ((hlocate _ loc).1 heq), hartifact]
    · rw [hkept' loc fun heq => hne' ((hlocate _ loc).1 heq), hkept loc hne]
  · cases congrArg Prod.snd h

end Artifact

/-! ## What is made of a corpus -/

/-- A row that stands for a flat card: its cells are those of the fields of the card, and the name,
the series and the date of the catalog entry for the file of the card. -/
structure IsFlatRow (table : StoredTable) (columns : List Column) (sets : Value)
    (element : Path × Card) (row : List Cell) : Prop where
  /-- The cells of the fields. -/
  fields : ∀ column ∈ columns, column.source = .field → table.cellNamed? row column.name =
    some (column.kind.affinity.apply (column.encode (element.2.get? column.name)))
  /-- The name of the set. -/
  name : table.cellNamed? row "packName" = some (Cell.ofText?
    ((Catalog.entryFor? sets (element.1.stem?.getD "")).bind fun entry =>
      (entry.get? "name").bind Value.text?))
  /-- The series of the set. -/
  series : table.cellNamed? row "packSeries" = some (Cell.ofText?
    ((Catalog.entryFor? sets (element.1.stem?.getD "")).bind fun entry =>
      (entry.get? "series").bind Value.text?))
  /-- The release date of the set. -/
  date : table.cellNamed? row "releaseDate" = some (Cell.ofText?
    ((Catalog.entryFor? sets (element.1.stem?.getD "")).bind fun entry =>
      ((entry.get? "releaseDate").bind Value.releaseDate?).map Date.iso))
  /-- The address of the picture. -/
  picture : table.cellNamed? row "imageUrl" = some (Cell.ofText? (Card.imageUrl false element.2))

/-- A row that stands for a card that is a module: its cells are those of the fields of the card,
and those of the pack that the card carries. -/
structure IsModuleRow (table : StoredTable) (columns : List Column) (element : Path × Card)
    (row : List Cell) : Prop where
  /-- The cells of the fields. -/
  fields : ∀ column ∈ columns, column.source = .field → table.cellNamed? row column.name =
    some (column.kind.affinity.apply (column.encode (element.2.get? column.name)))
  /-- The cells of the pack. -/
  pack : ∀ d ∈ Profile.modules.derived, table.cellNamed? row d.columnName =
    some (Cell.ofText? (element.2.modulePack.get? d))

/-- What a compilation makes of the flat corpus in the tree `t`: in the tree `t'` there is a table
at the artifact, with one row for each card of the corpus. -/
structure FlatTable (t : FileTree) (config : FlatConfig) (t' : FileTree) (summary : Summary) where
  /-- The corpus. -/
  corpus : FlatCorpus t config
  /-- The table. -/
  table : StoredTable
  /-- Its columns. -/
  columns : List Column
  /-- The table is at the artifact. -/
  found : t'.find config.dbPath = .ok (.file (.table table))
  /-- The columns are those of the cards. -/
  inferred : inferSchema .flat (corpus.elements.map Prod.snd) = .ok columns
  /-- The table has these columns. -/
  defined : table.columns = columns.map Column.definition
  /-- The rows stand for the cards. -/
  rows : table.Represents (IsFlatRow table columns corpus.sets) corpus.elements
  /-- The rows are counted. -/
  counted : summary.cards = table.rows.length

/-- What a compilation makes of the corpus of modules in the tree `t`: in the tree `t'` there is a
table at the artifact, with one row for each card of the corpus. -/
structure ModuleTable (t : FileTree) (config : ModulesConfig) (t' : FileTree) (summary : Summary)
    where
  /-- The corpus. -/
  corpus : ModuleCorpus t config.cardsDir
  /-- The table. -/
  table : StoredTable
  /-- Its columns. -/
  columns : List Column
  /-- The table is at the artifact. -/
  found : t'.find config.dbPath = .ok (.file (.table table))
  /-- The columns are those of the cards. -/
  inferred : inferSchema .modules (corpus.elements.map Prod.snd) = .ok columns
  /-- The table has these columns. -/
  defined : table.columns = columns.map Column.definition
  /-- The rows stand for the cards. -/
  rows : table.Represents (IsModuleRow table columns) corpus.elements
  /-- The rows are counted. -/
  counted : summary.cards = table.rows.length
  /-- The modules that are no cards are counted. -/
  skipped : summary.cards + summary.skipped = corpus.files.length

namespace Compile

variable {t t' : FileTree} {summary : Summary}

/-- Cards that are materialized make a table at the artifact. -/
lemma exists_table_of_materialize {p : Profile} {artifact : Path} {cards : List CorpusCard}
    (h : materialize t p artifact cards = (t', .ok summary)) :
    summary.cards = cards.length ∧ ∃ columns table,
      inferSchema p (cards.map CorpusCard.card) = .ok columns ∧
        Artifact.tableOf columns cards = .ok table ∧
        t'.find artifact = .ok (.file (.table table)) := by
  unfold materialize at h
  split at h
  · cases congrArg Prod.snd h
  split at h
  · cases congrArg Prod.snd h
  next columns hinfer =>
  split at h
  · cases congrArg Prod.snd h
  · next rows hwrite =>
    obtain ⟨rfl, hsummary⟩ := Prod.mk.inj h
    obtain ⟨rfl, table, htable, hfound⟩ := Artifact.exists_table_of_write hwrite
    obtain rfl := Except.ok.inj hsummary
    exact ⟨rfl, columns, table, hinfer, htable, hfound⟩

/-- The row of a loaded card stands for it. -/
lemma isFlatRow_rowOf {table : StoredTable} {columns : List Column} {sets : Value}
    {catalog : Catalog} {cards : List Card} {element : Path × Card}
    (hcatalog : ∀ id, Fields.get? catalog id = (Catalog.entryFor? sets id).map Catalog.info)
    (hinfer : inferSchema .flat cards = .ok columns)
    (hcolumns : table.columns = columns.map Column.definition)
    (hnames : (columns.map Column.name).Nodup) :
    IsFlatRow table columns sets element
      (Artifact.rowOf table columns (Flat.loadedCard catalog element)) := by
  have hdated : (Flat.loadedCard catalog element).pack.IsDated := by
    intro s hs
    obtain ⟨d, -, hd⟩ := Option.map_eq_some_iff.1 hs
    exact ⟨d, hd.symm⟩
  have hderived : ∀ d ∈ Profile.flat.derived, _ := fun d hd =>
    StoredTable.cellNamed?_of_derived hcolumns hnames (Flat.loadedCard catalog element) hinfer
      hdated (d := d) hd
  have hentry := hcatalog (element.1.stem?.getD "")
  have hpack : (Flat.loadedCard catalog element).pack =
      Flat.packOf ((Catalog.entryFor? sets (element.1.stem?.getD "")).map Catalog.info) element.2 :=
    congrArg (fun info => Flat.packOf info element.2) hentry
  rw [hpack] at hderived
  constructor
  · intro column hcolumn hfield
    exact StoredTable.cellNamed?_of_field hcolumns hnames _ hcolumn hfield
  · refine (hderived .packName (by decide)).trans ?_
    cases Catalog.entryFor? sets (element.1.stem?.getD "") <;> rfl
  · refine (hderived .packSeries (by decide)).trans ?_
    cases Catalog.entryFor? sets (element.1.stem?.getD "") <;> rfl
  · refine (hderived .releaseDate (by decide)).trans ?_
    cases Catalog.entryFor? sets (element.1.stem?.getD "") <;> rfl
  · exact hderived .imageUrl (by decide)

/-- The row of a collected card stands for it. -/
lemma isModuleRow_rowOf {table : StoredTable} {columns : List Column} {cards : List Card}
    {element : Path × Card} (hinfer : inferSchema .modules cards = .ok columns)
    (hcolumns : table.columns = columns.map Column.definition)
    (hnames : (columns.map Column.name).Nodup) :
    IsModuleRow table columns element
      (Artifact.rowOf table columns (Collection.collectedCard element)) where
  fields _ hcolumn hfield := StoredTable.cellNamed?_of_field hcolumns hnames _ hcolumn hfield
  pack _ hd := by
    refine StoredTable.cellNamed?_of_derived hcolumns hnames _ hinfer ?_ hd
    intro s hs
    obtain ⟨d, -, hd⟩ := Option.map_eq_some_iff.1 hs
    exact ⟨d, hd.symm⟩

/-- **What a compilation makes of flat card files**: the table of the corpus that is left without
the artifact.

**Proof sketch.** A compilation that succeeds has gone through all its stages (`exists_of_flat`), so
that there is a tree that was read, a corpus in it (`exists_flatCorpus`), a table of its cards
(`represents_of_tableOf`) and an artifact that holds the table. The stages are put together: each
row is the one of its card by the cells that the columns of the schema give. -/
theorem exists_flatTable {config : FlatConfig} (hwell : t.IsWellFormed)
    (h : flat t config = (t', .ok summary)) :
    ∃ left, Artifact.IsCleared t config.dbPath left ∧
      Nonempty (FlatTable left config t' summary) := by
  obtain ⟨left, cards, unlisted, made, hdiscard, hread, hmade, rfl⟩ := exists_of_flat h
  obtain ⟨hcleared, hkept⟩ := Artifact.isCleared_discard hdiscard
  obtain ⟨hcount, columns, table, hinfer, htable, hfound⟩ := exists_table_of_materialize hmade
  obtain ⟨corpus, catalog, hcatalog, rfl⟩ := exists_flatCorpus (hkept hwell) hread
  obtain ⟨hcolumns, hnames, hrows⟩ := Artifact.represents_of_tableOf htable
  have hinferred : inferSchema .flat (corpus.elements.map Prod.snd) = .ok columns := by
    rw [List.map_map] at hinfer
    exact hinfer
  refine ⟨left, hcleared, ⟨⟨corpus, table, columns, hfound, hinferred, hcolumns, ?_, ?_⟩⟩⟩
  · refine hrows.of_map.imp fun element _ row hrow => ?_
    exact hrow ▸ isFlatRow_rowOf hcatalog hinferred hcolumns hnames
  · exact hcount.trans hrows.length_eq.symm

/-- **What a compilation makes of modules**: the table of the corpus that is left without the
artifact. -/
theorem exists_moduleTable {config : ModulesConfig} (hwell : t.IsWellFormed)
    (h : modulesWith t .literal config = (t', .ok summary)) :
    ∃ left, Artifact.IsCleared t config.dbPath left ∧
      Nonempty (ModuleTable left config t' summary) := by
  obtain ⟨left, collection, made, hdiscard, hread, hmade, rfl⟩ := exists_of_modulesWith h
  obtain ⟨hcleared, hkept⟩ := Artifact.isCleared_discard hdiscard
  obtain ⟨hcount, columns, table, hinfer, htable, hfound⟩ := exists_table_of_materialize hmade
  obtain ⟨corpus, hcards, hskipped⟩ := exists_moduleCorpus (hkept hwell) hread
  rw [← hcount] at hskipped
  rw [hcards] at hinfer htable hcount
  obtain ⟨hcolumns, hnames, hrows⟩ := Artifact.represents_of_tableOf htable
  have hinferred : inferSchema .modules (corpus.elements.map Prod.snd) = .ok columns := by
    rw [List.map_map] at hinfer
    exact hinfer
  refine ⟨left, hcleared, ⟨⟨corpus, table, columns, hfound, hinferred, hcolumns, ?_, ?_, hskipped⟩⟩⟩
  · refine hrows.of_map.imp fun element _ row hrow => ?_
    exact hrow ▸ isModuleRow_rowOf hinferred hcolumns hnames
  · exact hcount.trans hrows.length_eq.symm

/-- **The rows of a compiled table** correspond one to one to the cards of the corpus that is left
without the artifact, be it one of flat card files or one of modules, and the order in which
directories list their entries does not matter.

**Proof sketch.** The correspondence is the one that the stages of a compilation leave
(`exists_flatTable`, `exists_moduleTable`). The order of listings drops out because all that is
listed is sorted before it is used, so that trees with the same entries are read alike. -/
theorem rows_correspond {t : FileTree} (hwell : t.IsWellFormed) :
    (∀ config t' summary, flat t config = (t', .ok summary) →
        ∃ left, Artifact.IsCleared t config.dbPath left ∧
          Nonempty (FlatTable left config t' summary)) ∧
      (∀ config t' summary, modulesWith t .literal config = (t', .ok summary) →
        ∃ left, Artifact.IsCleared t config.dbPath left ∧
          Nonempty (ModuleTable left config t' summary)) ∧
      ∀ u, t.Relists u →
        (∀ config, FileTree.SameEnd (flat t config) (flat u config)) ∧
          ∀ config, FileTree.SameEnd (modulesWith t .literal config)
            (modulesWith u .literal config) :=
  ⟨fun _ _ _ => exists_flatTable hwell, fun _ _ _ => exists_moduleTable hwell,
    fun _ hu => ⟨hu.flat, hu.modulesWith .literal⟩⟩

end Compile

/-! ## An artifact among the card files -/

namespace Json

/-- A character that stands for itself in a string literal. -/
def IsPlain (c : Char) : Prop :=
  c ≠ '"' ∧ c ≠ '\\' ∧ ¬ c.toNat < 0x20

/-- A string literal of characters that stand for themselves ends at the next quote. -/
lemma stringBody?_plain {body rest : List Char} (h : ∀ c ∈ body, IsPlain c) :
    stringBody? (body ++ '"' :: rest) = some (body, rest) := by
  induction body with
  | nil => simp [stringBody?]
  | cons c body ih =>
    obtain ⟨⟨hquote, hescape, hcontrol⟩, hbody⟩ := List.forall_mem_cons.1 h
    rw [List.cons_append, stringBody?, if_neg hquote, if_neg hescape, if_neg hcontrol, ih hbody]
    rfl

/-- A string literal of characters that stand for themselves is a token. -/
lemma tokens?_text {body rest : List Char} (h : ∀ c ∈ body, IsPlain c) :
    tokens? ('"' :: (body ++ '"' :: rest)) =
      (tokens? rest).map (.text (String.ofList body) :: ·) := by
  refine tokens?_cons rfl ?_
  show (stringBody? (body ++ '"' :: rest)).map _ = _
  rw [stringBody?_plain h]
  rfl

end Json

/-- The text of a card file with one card that has nothing but an id. -/
def deckText (id : String) : String :=
  "[\x7b\"id\":\"" ++ id ++ "\"\x7d]"

/-- The list that such a card file holds. -/
lemma read?_deckText {id : String} (h : ∀ c ∈ id.toList, Json.IsPlain c) :
    Json.read? (deckText id) = some (.list [.mapping [("id", .str id)]]) := by
  have htext : (deckText id).toList = '[' :: '\x7b' :: '"' ::
      (['i', 'd'] ++ '"' :: ':' :: '"' :: (id.toList ++ '"' :: ['\x7d', ']'])) := by
    simp [deckText, String.toList_append]
  have hname : ∀ c ∈ ['i', 'd'], Json.IsPlain c := by
    unfold Json.IsPlain
    decide
  have hend : Json.tokens? ['\x7d', ']'] = some [.closeMapping, .closeList] := by
    rw [Json.tokens?_cons rfl rfl, Json.tokens?_cons rfl rfl, Json.tokens?]
    rfl
  rw [Json.read?, htext, Json.tokens?_cons rfl rfl, Json.tokens?_cons rfl rfl,
    Json.tokens?_text hname, Json.tokens?_cons rfl rfl, Json.tokens?_text h, hend,
    String.ofList_toList]
  rfl

section Deck

variable {t : FileTree} {file : Path} {id : String} (hid : ∀ c ∈ id.toList, Json.IsPlain c)
  (htext : t.readText file = .ok (deckText id)) (htrim : Text.trim (deckText id) ≠ "")
include hid htext htrim

/-- The card in such a card file. -/
lemma Flat.readCards_deckText : readCards t file = .ok [[("id", .str id)]] := by
  simp only [readCards, htext, Except.mapError, bind, Except.bind, if_neg htrim, read?_deckText hid]
  rfl

/-- Such a file as a catalog: a set without name, series and date. -/
lemma Catalog.read_deckText (hfile : t.isFile file = true) :
    read t file = .ok [(id, ⟨none, none, none⟩)] := by
  simp only [read, htext, Except.mapError, bind, Except.bind, if_neg htrim, read?_deckText hid,
    hfile, if_true]
  rfl

omit htrim in
/-- The card in such a card file is an element of the corpus. -/
lemma FlatCorpus.mem_elements_deckText {config : FlatConfig} (corpus : FlatCorpus t config)
    (hfile : t.IsFileBelow 1 config.cardsDir file) (hending : file.extension? = some "json") :
    (file, [("id", .str id)]) ∈ corpus.elements := by
  have hcards : Json.read? (deckText id) = some (.list ([[("id", .str id)]].map .mapping)) :=
    read?_deckText hid
  exact corpus.mem_elements hfile hending htext hcards (List.mem_singleton_self _)

end Deck

namespace Compile

/-- Flat cards are read if their catalog, their files and what these hold are. -/
lemma flatCards_eq {t : FileTree} (config : FlatConfig) {catalog : Catalog} {files : List Path}
    {cards : List CorpusCard} (hcatalog : Catalog.read t config.setsPath = .ok catalog)
    (hfiles : Flat.cardFiles t config.cardsDir = .ok files) (hne : files ≠ [])
    (hload : Flat.loadFiles t catalog files = .ok cards) :
    flatCards t config = .ok (cards,
      (files.map Flat.setOf).filter fun set => (Fields.get? catalog set).isNone) := by
  simp only [flatCards, Flat.load, hcatalog, hfiles, if_neg hne, hload, bind, Except.bind]

/-- Flat cards are compiled if the artifact can be removed and the cards be read and
materialized. -/
lemma flat_eq {t left t' : FileTree} {config : FlatConfig} {cards : List CorpusCard}
    {unlisted : List String} {summary : Summary}
    (hdiscard : Artifact.discard t config.dbPath = (left, .ok ()))
    (hcards : flatCards left config = .ok (cards, unlisted))
    (hmade : materialize left .flat config.dbPath cards = (t', .ok summary)) :
    flat t config = (t', .ok { summary with unlisted }) := by
  simp only [flat, hdiscard, hcards, hmade]

end Compile

/-- A tree with two card files of one card each; the first of them is the catalog as well. -/
def twoDecks : FileTree :=
  { entries :=
      [(["cards"], .directory),
        (["cards", "a.json"], .file (.bytes (deckText "a").toUTF8)),
        (["cards", "b.json"], .file (.bytes (deckText "b").toUTF8))],
    workingDirectory := [] }

/-- The settings for this tree, with a given artifact. -/
def twoDecksConfig (artifact : Path) : FlatConfig :=
  { cardsDir := ⟨"cards"⟩, setsPath := ⟨"cards/a.json"⟩, dbPath := artifact }

/-- The entries of this tree are those of directories. -/
lemma isWellFormed_twoDecks : twoDecks.IsWellFormed := by
  refine ⟨by decide, ?_⟩
  unfold Location.IsSpelled Path.IsName
  decide

/-- A name of one letter stands for itself. -/
lemma isPlain_letters :
    (∀ c ∈ "a".toList, Json.IsPlain c) ∧ ∀ c ∈ "b".toList, Json.IsPlain c := by
  unfold Json.IsPlain
  decide

namespace Compile

/-- Wherever the artifact is, the two card files hold two cards. -/
lemma flatCards_twoDecks (artifact : Path) :
    ∃ unlisted, flatCards twoDecks (twoDecksConfig artifact) =
      .ok ([⟨[("id", .str "a")], {}⟩, ⟨[("id", .str "b")], {}⟩], unlisted) := by
  have htext : twoDecks.readText ⟨"cards/a.json"⟩ = .ok (deckText "a") := rfl
  have htext' : twoDecks.readText ⟨"cards/b.json"⟩ = .ok (deckText "b") := rfl
  have hcatalog := Catalog.read_deckText isPlain_letters.1 htext (by decide) rfl
  have hfirst := Flat.readCards_deckText isPlain_letters.1 htext (by decide)
  have hsecond := Flat.readCards_deckText isPlain_letters.2 htext' (by decide)
  have hsorted : [(⟨"cards/a.json"⟩ : Path), ⟨"cards/b.json"⟩].mergeSort Path.notAfter =
      [⟨"cards/a.json"⟩, ⟨"cards/b.json"⟩] := List.mergeSort_of_pairwise (by decide)
  have hfiles : Flat.cardFiles twoDecks ⟨"cards"⟩ = .ok [⟨"cards/a.json"⟩, ⟨"cards/b.json"⟩] :=
    congrArg Except.ok hsorted
  have hload : Flat.loadFiles twoDecks [("a", ⟨none, none, none⟩)]
      [⟨"cards/a.json"⟩, ⟨"cards/b.json"⟩] =
        .ok [⟨[("id", .str "a")], {}⟩, ⟨[("id", .str "b")], {}⟩] := by
    simp only [Flat.loadFiles, hfirst, hsecond, bind, Except.bind]
    rfl
  exact ⟨_, flatCards_eq (twoDecksConfig artifact) hcatalog hfiles (List.cons_ne_nil _ _) hload⟩

/-- With its artifact elsewhere, the compilation of the two card files gives both cards. -/
theorem flat_twoDecks : ∃ t' summary,
    flat twoDecks (twoDecksConfig ⟨"cards.sqlite"⟩) = (t', .ok summary) ∧ summary.cards = 2 ∧
      ∃ left, Artifact.IsCleared twoDecks ⟨"cards.sqlite"⟩ left ∧
        Nonempty (FlatTable left (twoDecksConfig ⟨"cards.sqlite"⟩) t' summary) := by
  obtain ⟨unlisted, hcards⟩ := flatCards_twoDecks ⟨"cards.sqlite"⟩
  have hmade : ∃ t' summary, materialize twoDecks .flat ⟨"cards.sqlite"⟩
      [⟨[("id", .str "a")], {}⟩, ⟨[("id", .str "b")], {}⟩] = (t', .ok summary) ∧
        summary.cards = 2 := ⟨_, _, rfl, rfl⟩
  obtain ⟨t', summary, hmade, hcount⟩ := hmade
  have hdiscard : Artifact.discard twoDecks (twoDecksConfig ⟨"cards.sqlite"⟩).dbPath =
      (twoDecks, .ok ()) := rfl
  have hflat := flat_eq hdiscard hcards hmade
  exact ⟨t', _, hflat, hcount, (rows_correspond isWellFormed_twoDecks).1 _ _ _ hflat⟩

/-- **An artifact among the card files** is no part of the corpus: it is gone before the files are
listed, and the card that it held makes no row.

**Proof sketch.** The compilation is followed by hand up to its end, where its table has one row. A
table of the tree as it was before would have a row for the card of the artifact and one for the
other card. -/
theorem flat_artifact_among_decks : twoDecks.IsWellFormed ∧ ∃ t' summary,
    flat twoDecks (twoDecksConfig ⟨"cards/b.json"⟩) = (t', .ok summary) ∧
      ¬ Nonempty (FlatTable twoDecks (twoDecksConfig ⟨"cards/b.json"⟩) t' summary) := by
  have hdiscard : Artifact.discard twoDecks (twoDecksConfig ⟨"cards/b.json"⟩).dbPath =
      (twoDecks.remove ["cards", "b.json"], .ok ()) := rfl
  generalize hleft : twoDecks.remove ["cards", "b.json"] = left at hdiscard
  have htext : left.readText ⟨"cards/a.json"⟩ = .ok (deckText "a") := hleft ▸ rfl
  have hcatalog := Catalog.read_deckText isPlain_letters.1 htext (by decide) (hleft ▸ rfl)
  have hfirst := Flat.readCards_deckText isPlain_letters.1 htext (by decide)
  have hsorted : [(⟨"cards/a.json"⟩ : Path)].mergeSort Path.notAfter = [⟨"cards/a.json"⟩] :=
    List.mergeSort_singleton _
  have hfiles : Flat.cardFiles left ⟨"cards"⟩ = .ok [⟨"cards/a.json"⟩] := by
    rw [← hleft]
    exact congrArg Except.ok hsorted
  have hload : Flat.loadFiles left [("a", ⟨none, none, none⟩)] [⟨"cards/a.json"⟩] =
      .ok [⟨[("id", .str "a")], {}⟩] := by
    simp only [Flat.loadFiles, hfirst, bind, Except.bind]
    rfl
  have hcards :=
    flatCards_eq (twoDecksConfig ⟨"cards/b.json"⟩) hcatalog hfiles (List.cons_ne_nil _ _)
    hload
  have hmade : ∃ t' summary, materialize left .flat ⟨"cards/b.json"⟩ [⟨[("id", .str "a")], {}⟩] =
      (t', .ok summary) ∧ summary.cards = 1 := hleft ▸ ⟨_, _, rfl, rfl⟩
  obtain ⟨t', summary, hmade, hcount⟩ := hmade
  refine ⟨isWellFormed_twoDecks, t', _, flat_eq hdiscard hcards hmade, ?_⟩
  rintro ⟨made⟩
  have hname : ∀ s ∈ ["a.json", "b.json"], Path.IsName s := by
    unfold Path.IsName
    decide
  have ha := made.corpus.mem_elements_deckText isPlain_letters.1
    (show twoDecks.readText ⟨"cards/a.json"⟩ = _ from rfl)
    ⟨["a.json"], rfl, by simpa using hname "a.json", rfl, rfl⟩ rfl
  have hb := made.corpus.mem_elements_deckText isPlain_letters.2
    (show twoDecks.readText ⟨"cards/b.json"⟩ = _ from rfl)
    ⟨["b.json"], rfl, by simpa using hname "b.json", rfl, rfl⟩ rfl
  have hone : made.corpus.elements.length = 1 :=
    made.rows.length_eq.symm.trans (made.counted.symm.trans hcount)
  obtain ⟨element, honly⟩ := List.length_eq_one_iff.1 hone
  rw [honly, List.mem_singleton] at ha hb
  have hsame : (⟨"cards/a.json"⟩ : Path) = ⟨"cards/b.json"⟩ :=
    congrArg Prod.fst (ha.trans hb.symm)
  exact absurd hsame (by decide)

end Compile

end CardTable
