import CardTable.Compile.Basic
import CardTable.Proofs.Corpus.CardFiles
import CardTable.Proofs.Table.CardRows
import CardTable.Proofs.Corpus.CatalogEntries
import CardTable.Proofs.Modules.Evaluators

set_option autoImplicit false

/-!
# What a corpus holds

A flat corpus holds the cards that its files list, file after file, and a corpus of modules those of
its modules whose values are cards. Nothing is left out on the way, and each card keeps the file
that it comes from: for a flat card this file names the entry of the catalog that makes its pack.

## Main definitions

* `CardTable.FlatCorpus`, `CardTable.ModuleCorpus` — the two kinds of corpora.

## Main results

* `CardTable.exists_flatCorpus` — the cards of flat card files.
* `CardTable.exists_moduleCorpus` — the cards of modules.
-/

namespace CardTable

/-! ## Flat corpora -/

/-- A flat corpus as it stands in a file tree: its files with the cards that each of them lists, and
the catalog of sets. -/
structure FlatCorpus (t : FileTree) (config : FlatConfig) where
  /-- The card files. -/
  files : List Path
  /-- The cards in each of the files. -/
  decks : List (List Card)
  /-- The catalog. -/
  sets : Value
  /-- The files are the regular files with the ending `json` directly in the directory. -/
  listed : t.Lists 1 config.cardsDir "json" files
  /-- Each file holds the list of its cards. -/
  held : List.Forall₂ (fun file cards => ∃ text, t.readText file = .ok text ∧
    Json.read? text = some (.list (cards.map .mapping))) files decks
  /-- The file of the catalog holds the catalog. -/
  catalog : ∃ text, t.readText config.setsPath = .ok text ∧ Json.read? text = some sets

/-- Things with the file that each of them comes from. -/
def withFiles {α : Type} (files : List Path) (groups : List (List α)) : List (Path × α) :=
  (files.zip groups).flatMap fun group => group.2.map fun x => (group.1, x)

namespace FlatCorpus

variable {t : FileTree} {config : FlatConfig}

/-- The cards of a flat corpus, each with its file: the files in order, and the cards of a file as
they are listed. -/
def elements (corpus : FlatCorpus t config) : List (Path × Card) :=
  withFiles corpus.files corpus.decks

/-- Each card that a file holds is an element of the corpus. -/
lemma mem_elements (corpus : FlatCorpus t config) {file : Path} {text : String}
    {cards : List Card}
    {card : Card} (hfile : t.IsFileBelow 1 config.cardsDir file)
    (hending : file.extension? = some "json") (htext : t.readText file = .ok text)
    (hcards : Json.read? text = some (.list (cards.map .mapping))) (hcard : card ∈ cards) :
    (file, card) ∈ corpus.elements := by
  have hmem := (corpus.listed.mem_iff file).2 ⟨hfile, hending⟩
  obtain ⟨i, hi, hfound⟩ := List.mem_iff_getElem.1 hmem
  obtain ⟨hlength, hheld⟩ := List.forall₂_iff_get.1 corpus.held
  have hi' : i < corpus.decks.length := hlength ▸ hi
  obtain ⟨text', htext', hdeck⟩ := hheld i hi hi'
  rw [List.get_eq_getElem, hfound, htext] at htext'
  obtain rfl := Except.ok.inj htext'
  -- the file spells one list only
  have hsame := Value.list.inj (Option.some.inj (hcards.symm.trans hdeck))
  have hdeck := (List.map_inj_right fun _ _ heq => Value.mapping.inj heq).1 hsame
  have hgroup : (file, cards) ∈ corpus.files.zip corpus.decks := by
    refine List.mem_iff_getElem.2 ⟨i, by simp [hi, hi'], ?_⟩
    rw [List.getElem_zip, hfound, hdeck, List.get_eq_getElem]
  exact List.mem_flatMap.2 ⟨_, hgroup, List.mem_map_of_mem hcard⟩

end FlatCorpus

namespace Flat

/-- Cards among values are all of the values. -/
lemma eq_map_of_cardsOf {index : Nat} {items : List Value} {cards : List Card}
    (h : cardsOf index items = .ok cards) : items = cards.map .mapping := by
  induction items generalizing index cards with
  | nil =>
    obtain rfl := Except.ok.inj h
    rfl
  | cons v rest ih =>
    cases v with
    | mapping fields =>
      unfold cardsOf at h
      cases hrest : cardsOf (index + 1) rest with
      | error e => simp [hrest, bind, Except.bind] at h
      | ok more =>
        simp only [hrest, bind, Except.bind] at h
        obtain rfl := Except.ok.inj h
        rw [List.map_cons, ih hrest]
    | _ => cases h

/-- The cards in a file are what the list is made of that the file spells. -/
lemma exists_text_of_readCards {t : FileTree} {file : Path} {cards : List Card}
    (h : readCards t file = .ok cards) :
    ∃ text, t.readText file = .ok text ∧ Json.read? text = some (.list (cards.map .mapping)) := by
  unfold readCards at h
  cases htext : t.readText file with
  | error e => simp [htext, Except.mapError, bind, Except.bind] at h
  | ok text =>
    simp only [htext, Except.mapError, bind, Except.bind] at h
    split at h
    · cases h
    · split at h
      · cases h
      · next items hitems =>
        refine ⟨text, rfl, ?_⟩
        cases hcards : cardsOf 0 items with
        | error e => simp [hcards] at h
        | ok found =>
          rw [hcards] at h
          obtain rfl := Except.ok.inj h
          rw [hitems, ← eq_map_of_cardsOf hcards]
      · cases h

/-- The card that is loaded for an element of a file. -/
def loadedCard (catalog : Catalog) (element : Path × Card) : CorpusCard :=
  ⟨element.2, packOf (catalog.get? (setOf element.1)) element.2⟩

/-- The cards in several files are the elements of all of them. -/
lemma exists_decks_of_loadFiles {t : FileTree} {catalog : Catalog} {files : List Path}
    {cards : List CorpusCard} (h : loadFiles t catalog files = .ok cards) :
    ∃ decks, List.Forall₂ (fun file deck => readCards t file = .ok deck) files decks ∧
      cards = (withFiles files decks).map (loadedCard catalog) := by
  induction files generalizing cards with
  | nil =>
    obtain rfl := Except.ok.inj h
    exact ⟨[], .nil, rfl⟩
  | cons file rest ih =>
    unfold loadFiles at h
    cases hdeck : readCards t file with
    | error e => simp [hdeck, bind, Except.bind] at h
    | ok deck =>
      cases hmore : loadFiles t catalog rest with
      | error e => simp [hdeck, hmore, bind, Except.bind] at h
      | ok more =>
        simp only [hdeck, hmore, bind, Except.bind] at h
        obtain rfl := Except.ok.inj h
        obtain ⟨decks, hdecks, rfl⟩ := ih hmore
        refine ⟨deck :: decks, .cons hdeck hdecks, ?_⟩
        simp only [withFiles, List.zip_cons_cons, List.flatMap_cons, List.map_append, List.map_map]
        rfl

end Flat

/-- **The cards of flat card files** are the elements of a corpus, with the packs that the catalog
has for their files.

**Proof sketch.** The stages of the load are taken apart: the catalog was read, the files were
listed, and each of them was read as a deck of cards. What the catalog says about a file is what its
entry says (`Catalog.get?_of_ofValue`). -/
theorem exists_flatCorpus {t : FileTree} {config : FlatConfig} {cards : List CorpusCard}
    {unlisted : List String} (hwell : t.IsWellFormed)
    (h : Compile.flatCards t config = .ok (cards, unlisted)) :
    ∃ (corpus : FlatCorpus t config) (catalog : Catalog),
      (∀ id, Fields.get? catalog id = (Catalog.entryFor? corpus.sets id).map Catalog.info) ∧
        cards = corpus.elements.map (Flat.loadedCard catalog) := by
  unfold Compile.flatCards Flat.load at h
  cases hcatalog : Catalog.read t config.setsPath with
  | error e => simp [hcatalog, bind, Except.bind] at h
  | ok catalog =>
    cases hfiles : Flat.cardFiles t config.cardsDir with
    | error e => simp [hcatalog, hfiles, bind, Except.bind] at h
    | ok files =>
      simp only [hcatalog, hfiles, bind, Except.bind] at h
      by_cases hnone : files = []
      · simp [hnone] at h
      · cases hload : Flat.loadFiles t catalog files with
        | error e => simp [hnone, hload] at h
        | ok loaded =>
          simp only [if_neg hnone, hload, Except.ok.injEq, Prod.mk.injEq] at h
          obtain ⟨rfl, -⟩ := h
          obtain ⟨decks, hdecks, rfl⟩ := Flat.exists_decks_of_loadFiles hload
          obtain ⟨text, sets, htext, hsets, hvalue⟩ := Catalog.exists_value_of_read hcatalog
          refine ⟨⟨files, decks, sets, FileTree.lists_flat hwell hfiles, ?_, text, htext, hsets⟩,
            catalog, Catalog.get?_of_ofValue hvalue, rfl⟩
          exact hdecks.imp fun _ _ => Flat.exists_text_of_readCards

/-! ## Corpora of modules -/

/-- A corpus of modules as it stands in a file tree: its files with the values of the modules. -/
structure ModuleCorpus (t : FileTree) (root : Path) where
  /-- The modules of cards. -/
  files : List Path
  /-- The values of the modules. -/
  values : List Value
  /-- The files are the regular files with the ending `ts` three levels below the directory. -/
  listed : t.Lists 3 root "ts" files
  /-- Each module has its value. -/
  held : List.Forall₂ (fun file v => (Evaluator.evaluate t .literal {} file).2 = .ok v) files values

/-- The card that the value of a module is, with the file of the module. -/
def classified? (file : Path) (v : Value) : Option (Path × Card) :=
  match Collection.classify (file.stem?.getD "") v with
  | .ok card => some (file, card)
  | .error _ => none

/-- The cards of a corpus of modules, each with its file, in the order of the files. -/
def ModuleCorpus.elements {t : FileTree} {root : Path} (corpus : ModuleCorpus t root) :
    List (Path × Card) :=
  (List.zipWith classified? corpus.files corpus.values).filterMap id

namespace Collection

/-- The card that is collected for an element. -/
def collectedCard (element : Path × Card) : CorpusCard :=
  ⟨element.2, element.2.modulePack⟩

/-- Cards are collected where values are classified as cards. -/
lemma zipWith_cardOf? (files : List Path) (values : List Value) :
    List.zipWith cardOf? files values =
      (List.zipWith classified? files values).map (Option.map collectedCard) := by
  have hcard : cardOf? = fun file v => (classified? file v).map collectedCard := by
    funext file v
    unfold cardOf? classified?
    cases classify (file.stem?.getD "") v <;> rfl
  rw [List.map_zipWith, hcard]

/-- Each module is a card or is skipped. -/
lemma length_filterMap_add_countP {α : Type} (outcomes : List (Option α)) :
    (outcomes.filterMap id).length + outcomes.countP Option.isNone = outcomes.length := by
  induction outcomes with
  | nil => rfl
  | cons outcome rest ih =>
    cases outcome with
    | none =>
      rw [List.countP_cons_of_pos rfl]
      exact congrArg Nat.succ ih
    | some card =>
      have hcard : ((some card :: rest).filterMap id).length = (rest.filterMap id).length + 1 := rfl
      rw [List.countP_cons_of_neg (by simp), hcard, List.length_cons]
      omega

end Collection

/-- **The cards of modules** are the elements of a corpus, and the modules that are no cards are
counted.

**Proof sketch.** The values are those of a fresh evaluator, which answers what holds
(`Evaluator.evaluateAll_spec`), so that each file has the value that its module has. Values that are
no cards are counted instead. -/
theorem exists_moduleCorpus {t : FileTree} {root : Path} {collection : Collection}
    (hwell : t.IsWellFormed) (h : Collection.collect t .literal root = .ok collection) :
    ∃ corpus : ModuleCorpus t root,
      collection.cards = corpus.elements.map Collection.collectedCard ∧
        collection.cards.length + collection.skipped = corpus.files.length := by
  unfold Collection.collect at h
  cases hfiles : Collection.cardFiles t root with
  | error e => simp [hfiles, bind, Except.bind] at h
  | ok files =>
    simp only [hfiles, bind, Except.bind] at h
    by_cases hnone : files = []
    · simp [hnone] at h
    · obtain ⟨-, -, hanswer⟩ := Evaluator.evaluateAll_spec (.empty t) files
      generalize (Evaluator.evaluateAll t .literal {} files) = round at h hanswer
      cases hvalues : round.answer with
      | error e => simp [hnone, hvalues, Except.mapError] at h
      | ok values =>
        rw [hvalues] at hanswer
        simp only [if_neg hnone, hvalues, Except.mapError, Except.ok.injEq] at h
        cases hanswer with
        | values hgiven hall =>
          obtain rfl := h
          have hheld := hgiven.imp fun _ _ => Evaluator.evaluate_empty_iff.2
          refine ⟨⟨files, values, FileTree.lists_collection hwell hfiles, hheld⟩, ?_, ?_⟩
          · simp only [Collection.ofValues, ModuleCorpus.elements, Collection.zipWith_cardOf?,
              List.filterMap_map, List.map_filterMap]
            rfl
          · have hlength :
                (List.zipWith Collection.cardOf? files values).length = files.length := by
              rw [List.length_zipWith, hgiven.length_eq, Nat.min_self]
            exact (Collection.length_filterMap_add_countP _).trans hlength

end CardTable
