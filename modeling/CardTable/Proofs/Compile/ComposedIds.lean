import Mathlib.Data.List.Nodup
import Mathlib.Data.Nat.Find
import CardTable.Proofs.Table.BadIds
import CardTable.Proofs.Corpus.Corpora
import CardTable.Proofs.Modules.Evaluators
import CardTable.Proofs.Script.Expressions.JsonTexts
import CardTable.Proofs.Table.SchemaShape

set_option autoImplicit false

/-!
# Composed ids

The card of a module gets the id of its set and the name of its file with a hyphen between them.
Both parts may have hyphens of their own, so that the two parts of an id cannot always be told: a
stretch that ends the id of one set may begin the name of a file of another. Cards that differ in
their parts get different ids apart from that, and where two of them get one id the compilation
fails.

## Main definitions

* `CardTable.Collection.Entangled` — two cards share a stretch at the hyphen.
* `CardTable.Collection.partsOf` — the sets and names of the modules that are cards.
* `CardTable.Compile.Evaluates` — the modules that a compilation looks at, with their values.

## Main results

* `CardTable.Collection.composedId_eq_iff` — when two cards get one id.
* `CardTable.Artifact.tableOf_of_textIds` — the table of cards whose ids are texts.
* `CardTable.Compile.modulesWith_of_distinctParts` — when a compilation of modules fails for an id
  that is used twice.
-/

namespace CardTable

/-! ## The parts of an id -/

namespace Collection

/-- The parts `p` and `q` of two ids share a stretch: it ends the id of the set in `q` and begins
the name of the file in `p`, behind a hyphen and in front of one. -/
def Entangled (p q : String × String) : Prop :=
  ∃ shared, q.1 = p.1 ++ "-" ++ shared ∧ p.2 = shared ++ "-" ++ q.2

/-- Entangled parts make one id. -/
lemma Entangled.composedId_eq {p q : String × String} (h : Entangled p q) :
    composedId p.1 p.2 = composedId q.1 q.2 := by
  obtain ⟨shared, hset, hname⟩ := h
  simp only [composedId, hset, hname, String.append_assoc]

/-- No parts are entangled with themselves. -/
lemma Entangled.ne {p q : String × String} (h : Entangled p q) : p ≠ q := by
  rintro rfl
  obtain ⟨shared, hset, -⟩ := h
  have hlength := congrArg String.length hset
  simp only [String.length_append] at hlength
  have hhyphen : "-".length = 1 := rfl
  omega

/-- **When two cards get one id**: if they have the same parts, or if these are entangled.

**Proof sketch.** Two texts that are joined by a hyphen are one text if the first parts are equal,
or if one of them goes on beyond the hyphen of the other (`List.append_eq_append_iff`). In the
second case the stretch between the two hyphens is shared by the one name and the other set. -/
theorem composedId_eq_iff {p q : String × String} :
    composedId p.1 p.2 = composedId q.1 q.2 ↔ p = q ∨ Entangled p q ∨ Entangled q p := by
  refine ⟨fun h => ?_, ?_⟩
  · -- the hyphens stand at one place, or the stretch between them is shared
    have hentangled : ∀ {s l s' l' : String} {between : List Char},
        s'.toList = s.toList ++ between → '-' :: l.toList = between ++ '-' :: l'.toList →
          (s, l) = (s', l') ∨ Entangled (s, l) (s', l') := by
      intro s l s' l' between hset hname
      cases between with
      | nil =>
        rw [List.append_nil, String.toList_inj] at hset
        rw [List.nil_append, List.cons.injEq, String.toList_inj] at hname
        exact .inl (Prod.ext hset.symm hname.2)
      | cons c shared =>
        obtain ⟨rfl, hname⟩ := List.cons.inj hname
        refine .inr ⟨String.ofList shared, ?_, ?_⟩ <;> rw [← String.toList_inj]
        · simp [hset]
        · simpa using hname
    obtain ⟨s, l⟩ := p
    obtain ⟨s', l'⟩ := q
    have hchars : s.toList ++ '-' :: l.toList = s'.toList ++ '-' :: l'.toList := by
      have htext := congrArg String.toList h
      simpa [composedId, String.toList_append] using htext
    rcases List.append_eq_append_iff.1 hchars with ⟨between, hset, hname⟩ | ⟨between, hset, hname⟩
    · exact (hentangled hset hname).imp_right .inl
    · exact (hentangled hset hname).imp Eq.symm .inr
  · rintro (rfl | h | h)
    · rfl
    · exact h.composedId_eq
    · exact h.composedId_eq.symm

/-- The id of the set of a value, if it is a card. -/
def setId? (v : Value) : Option String :=
  (v.field? "set").bind fun set => (set.field? "id").bind Value.text?

/-- The id of the set and the name of the file of a module, if the module is a card. -/
def parts? (file : Path) (v : Value) : Option (String × String) :=
  (setId? v).map fun setId => (setId, file.stem?.getD "")

/-- The sets and names of the modules that are cards. -/
def partsOf (files : List Path) (values : List Value) : List (String × String) :=
  (List.zipWith parts? files values).filterMap id

/-- A module is a card if its set has an id, and the id of the card is composed of its parts. -/
lemma cardOf?_cases (file : Path) (v : Value) :
    (cardOf? file v = none ∧ parts? file v = none) ∨
      ∃ card parts, cardOf? file v = some card ∧ parts? file v = some parts ∧
        card.card.get? idField = some (.str (composedId parts.1 parts.2)) := by
  unfold cardOf? classify parts? setId? Value.field?
  cases v with
  | mapping fields =>
    dsimp only [Value.fields?, Option.bind_some]
    cases hset : Fields.get? fields "set" with
    | none => exact .inl ⟨rfl, rfl⟩
    | some set =>
      cases set with
      | mapping entries =>
        dsimp only [Value.fields?, Option.bind_some]
        cases hid : Fields.get? entries "id" with
        | none => exact .inl ⟨rfl, rfl⟩
        | some id =>
          cases id with
          | str setId =>
            refine .inr ⟨_, _, rfl, rfl, ?_⟩
            rw [Fields.get?_insert, if_neg (by decide), Fields.get?_insert, if_pos rfl]
          | _ => exact .inl ⟨rfl, rfl⟩
      | _ => exact .inl ⟨rfl, rfl⟩
  | _ => exact .inl ⟨rfl, rfl⟩

end Collection

/-! ## Ids that are texts -/

/-- The ids of the cards are the texts `ids`. -/
def HasTextIds (cards : List CorpusCard) (ids : List String) : Prop :=
  (cards.map fun c => c.card.get? idField) = ids.map fun id => some (.str id)

/-- The text `id` stands twice in a list. -/
def IsRepeated (id : String) (ids : List String) : Prop :=
  ∃ i : Nat, ids[i]? = some id ∧ ∃ j < i, ids[j]? = some id

/-- The cards that are collected have composed ids. -/
lemma Collection.hasTextIds_ofValues (files : List Path) (values : List Value) :
    HasTextIds (ofValues files values).cards
      ((partsOf files values).map fun parts => composedId parts.1 parts.2) := by
  unfold HasTextIds partsOf ofValues
  dsimp only
  induction files generalizing values with
  | nil => rfl
  | cons file files ih =>
    cases values with
    | nil => rfl
    | cons v values =>
      rw [List.zipWith_cons_cons, List.zipWith_cons_cons]
      rcases cardOf?_cases file v with ⟨hcard, hparts⟩ | ⟨card, parts, hcard, hparts, hid⟩
      · rw [hcard, hparts]
        exact ih values
      · rw [hcard, hparts]
        exact congrArg₂ List.cons hid (ih values)

/-- An id that is a text is encoded as it is. -/
lemma idCell_of_text {p : Profile} {records : List Card} {columns : List Column}
    (hinfer : inferSchema p records = .ok columns) {c : CorpusCard} {id : String}
    (hid : c.card.get? idField = some (.str id)) :
    idCell columns c = .text id ∧ ∀ column ∈ columns.head?, column.overflows c.card = false := by
  obtain ⟨seen, hobserve, hschema⟩ := inferSchema_eq_ok_iff.1 hinfer
  obtain ⟨rest, rfl⟩ :=
    Observations.head_schema (Observations.Lawful.nil.observeAll hobserve) hschema
  generalize hcolumn : Observations.fieldColumn idField (seen.kindsOf idField) 0 = column
  have hsource : column.source = .field := hcolumn ▸ Observations.fieldColumn_source ..
  have hname : column.name = idField := hcolumn ▸ Observations.fieldColumn_name ..
  constructor
  · show column.cellOf c.card c.pack = _
    simp only [Column.cellOf, hsource, hname, hid]
    rfl
  · rintro _ ⟨⟩
    simp [Column.overflows, hname, hid, Value.isOversized]

section TextIds

variable {p : Profile} {cards : List CorpusCard} {columns : List Column} {ids : List String}
  (hinfer : inferSchema p (cards.map CorpusCard.card) = .ok columns) (hids : HasTextIds cards ids)
include hinfer hids

omit hinfer in
/-- The ids stand in the order of the cards. -/
lemma HasTextIds.getElem? (i : Nat) :
    (cards[i]?.map fun c => c.card.get? idField) = ids[i]?.map fun id => some (.str id) := by
  rw [← List.getElem?_map, ← List.getElem?_map]
  exact congrArg (fun l => l[i]?) hids

/-- The cells of the ids. -/
lemma HasTextIds.idCells (i : Nat) :
    cards[i]?.map (idCell columns) = ids[i]?.map Cell.text := by
  have hget := hids.getElem? i
  cases hcard : cards[i]? with
  | none =>
    cases hid : ids[i]? with
    | none => rfl
    | some id => simp [hcard, hid] at hget
  | some card =>
    cases hid : ids[i]? with
    | none => simp [hcard, hid] at hget
    | some id =>
      rw [hcard, hid] at hget
      exact congrArg some (idCell_of_text hinfer (Option.some.inj hget)).1

/-- A text is a bad id where it stands for another time. -/
lemma isBadId_iff_of_textIds {i : Nat} :
    IsBadId columns cards i ↔ ∃ id, ids[i]? = some id ∧ ∃ j < i, ids[j]? = some id := by
  have hcells := hids.idCells hinfer
  constructor
  · rintro ⟨card, hcard, hbad⟩
    have hcell := hcells i
    rw [hcard] at hcell
    obtain ⟨id, hid, hcard⟩ := Option.map_eq_some_iff.1 hcell.symm
    rcases hbad with hnull | ⟨j, hj, other, hother, hsame⟩
    · rw [← hcard] at hnull
      cases hnull
    · have hcell' := hcells j
      rw [hother] at hcell'
      obtain ⟨id', hid', hother⟩ := Option.map_eq_some_iff.1 hcell'.symm
      rw [← hcard, ← hother] at hsame
      obtain rfl : id' = id := by simpa [StoredTable.sameKey] using hsame
      exact ⟨id', hid, j, hj, hid'⟩
  · rintro ⟨id, hid, j, hj, hid'⟩
    have hcell := hcells i
    rw [hid] at hcell
    obtain ⟨card, hcard, hcard'⟩ := Option.map_eq_some_iff.1 hcell
    have hcell' := hcells j
    rw [hid'] at hcell'
    obtain ⟨other, hother, hother'⟩ := Option.map_eq_some_iff.1 hcell'
    refine ⟨card, hcard, .inr ⟨j, hj, other, hother, ?_⟩⟩
    rw [hcard', hother']
    exact beq_self_eq_true _

/-- **The rows of cards whose ids are texts** are refused for an id that is repeated if there is
one, and are added otherwise.

**Proof sketch.** With ids that are texts a card is bad exactly if its id stands in front of it
already. If no card is bad all rows are added (`exists_addRows_of_good`); otherwise the first bad
card is reported (`addRows_of_first`), and it is bad for its repeated id. -/
theorem Artifact.addRows_of_textIds :
    (∃ u, ids.Nodup ∧
        addRows columns 0 ⟨columns.map Column.definition, []⟩ cards = .ok u) ∨
      ∃ id, IsRepeated id ids ∧
        addRows columns 0 ⟨columns.map Column.definition, []⟩ cards = .error (.duplicateId id) := by
  have hbad := fun i => isBadId_iff_of_textIds hinfer hids (i := i)
  have hcells := hids.idCells hinfer
  have hoverflow : ∀ c ∈ columns.head?, ∀ card ∈ cards, c.overflows card.card = false := by
    intro c hc card hcard
    obtain ⟨i, hi⟩ := List.mem_iff_getElem?.1 hcard
    have hget := hids.getElem? i
    rw [hi] at hget
    obtain ⟨id, -, hid⟩ := Option.map_eq_some_iff.1 hget.symm
    exact (idCell_of_text hinfer hid.symm).2 c hc
  obtain ⟨c, rest, rfl, hfield, hkind⟩ := exists_cons_of_inferSchema hinfer
  replace hoverflow : ∀ card ∈ cards, c.overflows card.card = false := hoverflow c rfl
  by_cases hgood : ∀ i, ¬ IsBadId (c :: rest) cards i
  · obtain ⟨u, hu⟩ :=
      exists_addRows_of_good hinfer hfield hkind hoverflow (fun _ => id) hgood
    refine .inl ⟨u, List.nodup_iff_getElem?_ne_getElem?.2 fun j i hji hi heq => ?_, hu⟩
    have hid := List.getElem?_eq_getElem hi
    exact hgood i ((hbad i).2 ⟨ids[i], hid, j, hji, heq.trans hid⟩)
  · have hsome : ∃ i, IsBadId (c :: rest) cards i := by simpa using hgood
    classical
    have hfirst : IsFirstBadId (c :: rest) cards (Nat.find hsome) :=
      ⟨Nat.find_spec hsome, fun j hj => Nat.find_min hsome hj⟩
    obtain ⟨id, hid, hearlier⟩ := (hbad _).1 hfirst.bad
    have hcell := hcells (Nat.find hsome)
    rw [hid] at hcell
    obtain ⟨card, hcard, hcell⟩ := Option.map_eq_some_iff.1 hcell
    have herror := addRows_of_first hinfer hfield hkind hoverflow hfirst hcard
    rw [hcell] at herror
    exact .inr ⟨id, ⟨_, hid, hearlier⟩, herror⟩

end TextIds

/-! ## What is refused for an id -/

namespace Artifact

variable {t : FileTree} {artifact : Path} {id : String}

/-- The removal of a file is not refused for an id. -/
lemma removeStale_ne_duplicateId (t : FileTree) (file : Path) (id : String) :
    (removeStale t file).2 ≠ .error (.duplicateId id) := by
  unfold removeStale
  split <;> simp

/-- The removal of an artifact is not refused for an id. -/
lemma discard_ne_duplicateId (t : FileTree) (artifact : Path) (id : String) :
    (discard t artifact).2 ≠ .error (.duplicateId id) := by
  have hfirst := removeStale_ne_duplicateId t artifact id
  unfold discard
  split
  · exact removeStale_ne_duplicateId _ _ id
  · next heq =>
    rw [heq] at hfirst
    exact hfirst

/-- The preparations are not refused for an id. -/
lemma prepare_ne_duplicateId (t : FileTree) (artifact : Path) (id : String) :
    (prepare t artifact).2 ≠ .error (.duplicateId id) := by
  unfold prepare
  split
  · exact discard_ne_duplicateId _ _ id
  split
  · exact discard_ne_duplicateId _ _ id
  split
  · exact discard_ne_duplicateId _ _ id
  · simp

/-- A table is not refused for an id once it is complete. -/
lemma commit_ne_duplicateId (t : FileTree) (artifact : Path) (table : StoredTable) (id : String) :
    (commit t artifact table).2 ≠ .error (.duplicateId id) := by
  unfold commit
  dsimp only
  split
  · simp
  split
  · simp
  split <;> simp

/-- **Where writing is refused for an id**, or succeeds, the rows are. -/
theorem rows_of_write {t : FileTree} {artifact : Path} {columns : List Column}
    {cards : List CorpusCard} :
    (∀ id, (write t artifact columns cards).2 = .error (.duplicateId id) →
        addRows columns 0 ⟨columns.map Column.definition, []⟩ cards = .error (.duplicateId id)) ∧
      ∀ n, (write t artifact columns cards).2 = .ok n →
        ∃ u, addRows columns 0 ⟨columns.map Column.definition, []⟩ cards = .ok u := by
  have htable : (∃ e, tableOf columns cards = .error (.store e)) ∨ tableOf columns cards =
      addRows columns 0 ⟨columns.map Column.definition, []⟩ cards := by
    unfold tableOf StoredTable.ofColumns
    cases columnError? (columns.map Column.definition) [] (columns.map Column.definition) with
    | some e => exact .inl ⟨_, rfl⟩
    | none => exact .inr rfl
  have hprepare := prepare_ne_duplicateId t artifact
  unfold write
  split
  · next hfailed =>
    rw [hfailed] at hprepare
    refine ⟨fun id h => absurd ?_ (hprepare id), fun n h => nomatch h⟩
    exact congrArg Except.error (Except.error.inj h)
  · next u _ =>
    split
    · exact ⟨fun id h => (nomatch h), fun n h => nomatch h⟩
    rcases htable with ⟨e, herror⟩ | hrows
    · rw [herror]
      exact ⟨fun id h => (nomatch h), fun n h => nomatch h⟩
    · rw [← hrows]
      cases tableOf columns cards with
      | error e => exact ⟨fun id h => congrArg Except.error (Except.error.inj h), fun n h => nomatch h⟩
      | ok table =>
        refine ⟨fun id h => ?_, fun _ _ => ⟨table, rfl⟩⟩
        have hcommit := commit_ne_duplicateId u artifact table id
        dsimp only at h
        split at h
        · next hfailed =>
          rw [hfailed] at hcommit
          exact absurd (congrArg Except.error (Except.error.inj h)) hcommit
        · cases h

end Artifact

/-! ## Compiling modules -/

namespace Compile

/-- The modules `files` that a compilation looks at have the values `values`. They are read once the
artifact and its staging file are removed. -/
structure Evaluates (t : FileTree) (config : ModulesConfig) (files : List Path)
    (values : List Value) : Prop where
  /-- These are the modules of cards. -/
  files_eq : Collection.cardFiles (Artifact.discard t config.dbPath).1 config.cardsDir = .ok files
  /-- Their evaluation succeeds. -/
  values_eq :
    (Evaluator.evaluateAll (Artifact.discard t config.dbPath).1 .literal {} files).answer =
    .ok values

/-- What becomes of cards whose ids are texts: nothing if an id is repeated, and they are refused
for an id only if this one is repeated. -/
lemma materialize_of_textIds (t : FileTree) (p : Profile) (artifact : Path)
    {cards : List CorpusCard} {ids : List String} (hids : HasTextIds cards ids) :
    (∀ id, (materialize t p artifact cards).2 = .error (.artifact (.duplicateId id)) →
        IsRepeated id ids) ∧
      ∀ summary, (materialize t p artifact cards).2 = .ok summary → ids.Nodup := by
  unfold materialize
  split
  · exact ⟨fun id h => (nomatch h), fun _ h => nomatch h⟩
  split
  · exact ⟨fun id h => (nomatch h), fun _ h => nomatch h⟩
  · next columns hinfer =>
    have hwrite := @Artifact.rows_of_write t artifact columns cards
    have hrows := Artifact.addRows_of_textIds hinfer hids
    split
    · next e hfailed =>
      rw [hfailed] at hwrite
      refine ⟨fun id h => ?_, fun _ h => nomatch h⟩
      obtain rfl : e = .duplicateId id := by simpa using h
      obtain ⟨u, -, hu⟩ | ⟨id', hrepeated, herror⟩ := hrows
      · cases hu.symm.trans (hwrite.1 id rfl)
      · cases herror.symm.trans (hwrite.1 id rfl)
        exact hrepeated
    · next n hdone =>
      rw [hdone] at hwrite
      refine ⟨fun id h => (nomatch h), fun _ _ => ?_⟩
      obtain ⟨u, hu⟩ := hwrite.2 n rfl
      obtain ⟨-, hnodup, -⟩ | ⟨id', -, herror⟩ := hrows
      · exact hnodup
      · cases herror.symm.trans hu

/-- The cards that are collected. -/
lemma Evaluates.collect_eq {t : FileTree} {config : ModulesConfig} {files : List Path}
    {values : List Value} (h : Evaluates t config files values) :
    Collection.collect (Artifact.discard t config.dbPath).1 .literal config.cardsDir =
      if files = [] then .error (.missing (.cardModules config.cardsDir))
      else .ok (Collection.ofValues files values) := by
  simp only [Collection.collect, h.files_eq, bind, Except.bind, h.values_eq, Except.mapError]

/-- A compilation of modules that can be evaluated is refused for something else than an id, or it
materializes their cards. -/
lemma modulesWith_of_evaluates {t : FileTree} {config : ModulesConfig} {files : List Path}
    {values : List Value} (hvalues : Evaluates t config files values) :
    (∃ e, (∀ id, e ≠ .artifact (.duplicateId id)) ∧ (modulesWith t .literal config).2 = .error e) ∨
      (modulesWith t .literal config).2 =
        (materialize (Artifact.discard t config.dbPath).1 .modules config.dbPath
          (Collection.ofValues files values).cards).2.map fun summary =>
            { summary with skipped := (Collection.ofValues files values).skipped } := by
  have hcollect := hvalues.collect_eq
  have hdiscard := Artifact.discard_ne_duplicateId t config.dbPath
  unfold modulesWith
  generalize Artifact.discard t config.dbPath = discarded at hcollect hdiscard
  obtain ⟨left, e | _⟩ := discarded
  · refine .inl ⟨_, fun id h => hdiscard id ?_, rfl⟩
    exact congrArg Except.error (CompileError.artifact.inj h)
  · dsimp only at hcollect ⊢
    rw [hcollect]
    by_cases hnone : files = []
    · rw [if_pos hnone]
      exact .inl ⟨_, fun _ => CompileError.noConfusion, rfl⟩
    · rw [if_neg hnone]
      refine .inr ?_
      dsimp only
      split
      · next hfailed => rw [hfailed]; rfl
      · next hdone => rw [hdone]; rfl

/-- **When a compilation of modules fails for an id that is used twice**, if its modules can be
evaluated and no two cards have the same set and name: only if the parts of two cards are entangled,
and where they are it does not succeed.

**Proof sketch.** Once its modules are evaluated, a compilation fails for an id just where the rows
do, and these do for an id that is repeated in the list of composed ids (`materialize_of_textIds`).
Two places of that list with one id have distinct parts, which are entangled (`composedId_eq_iff`);
and entangled parts have one id, so that the ids are not distinct and the rows are not all added. -/
theorem modulesWith_of_distinctParts {t : FileTree} {config : ModulesConfig} {files : List Path}
    {values : List Value} (hvalues : Evaluates t config files values)
    (hdistinct : (Collection.partsOf files values).Nodup) :
    (∀ id, (modulesWith t .literal config).2 = .error (.artifact (.duplicateId id)) →
      ∃ p ∈ Collection.partsOf files values, ∃ q ∈ Collection.partsOf files values,
        Collection.Entangled p q ∧ id = Collection.composedId p.1 p.2) ∧
    ((∃ p ∈ Collection.partsOf files values, ∃ q ∈ Collection.partsOf files values,
        Collection.Entangled p q) →
      ∀ summary, (modulesWith t .literal config).2 ≠ .ok summary) := by
  have hids := Collection.hasTextIds_ofValues files values
  obtain ⟨hrefused, hmade⟩ :=
    materialize_of_textIds (Artifact.discard t config.dbPath).1 .modules config.dbPath hids
  obtain ⟨e, hother, herror⟩ | hsame := modulesWith_of_evaluates hvalues
  · rw [herror]
    exact ⟨fun id h => absurd (Except.error.inj h) (hother id), fun _ summary h => nomatch h⟩
  rw [hsame]
  generalize (materialize (Artifact.discard t config.dbPath).1 .modules config.dbPath
    (Collection.ofValues files values).cards).2 = outcome at hrefused hmade
  cases outcome with
  | error e =>
    refine ⟨fun id h => ?_, fun _ summary h => nomatch h⟩
    -- the parts of the two cards with the id differ, so that they are entangled one way or the other
    obtain ⟨i, hi, j, hji, hj⟩ := hrefused id (congrArg Except.error (Except.error.inj h))
    rw [List.getElem?_map] at hi hj
    obtain ⟨p, hp, rfl⟩ := Option.map_eq_some_iff.1 hi
    obtain ⟨q, hq, heq⟩ := Option.map_eq_some_iff.1 hj
    have hne : p ≠ q := by
      rintro rfl
      have hlt := (List.getElem?_eq_some_iff.1 hp).1
      exact List.nodup_iff_getElem?_ne_getElem?.1 hdistinct j i hji hlt (hq.trans hp.symm)
    have hpmem := List.mem_of_getElem? hp
    have hqmem := List.mem_of_getElem? hq
    obtain hpq | hpq | hqp := Collection.composedId_eq_iff.1 heq.symm
    · exact absurd hpq hne
    · exact ⟨p, hpmem, q, hqmem, hpq, rfl⟩
    · exact ⟨q, hqmem, p, hpmem, hqp, heq.symm⟩
  | ok made =>
    refine ⟨fun id h => (nomatch h), ?_⟩
    rintro ⟨p, hp, q, hq, hentangled⟩ summary -
    exact hentangled.ne
      (List.inj_on_of_nodup_map (hmade made rfl) hp hq hentangled.composedId_eq)

end Compile

/-! ## Two cards with one id -/

namespace Script

/-- A mapping with one field has it in every order. -/
lemma Listing.exists_of_single {name : String} {v w : Value}
    (h : Listing (.mapping [(name, v)]) w) : ∃ v', w = .mapping [(name, v')] ∧ Listing v v' := by
  cases h with
  | mapping hnames hvalues hlisted =>
    rename_i fields listed
    obtain ⟨indexed, named, rfl, hperm, -⟩ := hlisted
    match fields, hnames, hvalues with
    | [(other, v')], hnames, .cons hv .nil =>
      obtain rfl : other = name := (List.cons.inj hnames).1
      exact ⟨v', congrArg Value.mapping (List.perm_singleton.1 hperm), hv⟩

end Script

/-- A card of the set `setId` that has nothing but its set. -/
def bareCard (setId : String) : Value :=
  .mapping [("set", .mapping [("id", .str setId)])]

/-- A body that returns such a card. -/
lemma evaluate_bareCard (setId : String) :
    Script.evaluate [] ("return " ++ Json.text (bareCard setId)) = .ok (bareCard setId) := by
  have hexact : (bareCard setId).IsExact :=
    .mapping (by simp) (List.forall_mem_singleton.2
      (.mapping (by simp) (List.forall_mem_singleton.2 (.str setId))))
  obtain ⟨w, hw, hlisting⟩ := (Script.spells_render hexact).evaluate []
  obtain ⟨set, rfl, hset⟩ := hlisting.exists_of_single
  obtain ⟨id, rfl, hid⟩ := hset.exists_of_single
  cases hid
  exact hw

/-- The module of such a card. -/
def bareModule (setId : String) : String :=
  "export default " ++ Json.text (bareCard setId)

/-- A tree with a card of the set `a` and one of the set `a-b`. -/
def hyphenTree : FileTree :=
  { entries :=
      [(["cards"], .directory), (["cards", "x"], .directory), (["cards", "x", "a-b"], .directory),
        (["cards", "x", "a-b", "c.ts"], .file (.bytes (bareModule "a-b").toUTF8)),
        (["cards", "x", "a"], .directory),
        (["cards", "x", "a", "b-c.ts"], .file (.bytes (bareModule "a").toUTF8))],
    workingDirectory := [] }

/-- The settings for this tree. -/
def hyphenConfig : ModulesConfig :=
  { cardsDir := ⟨"cards"⟩, dbPath := ⟨"cards.sqlite"⟩ }

/-- The modules of this tree, in the order of their paths. -/
def hyphenFiles : List Path :=
  [⟨"cards/x/a-b/c.ts"⟩, ⟨"cards/x/a/b-c.ts"⟩]

namespace Compile

/-- The two modules have their cards as values. -/
lemma evaluates_hyphenTree :
    Evaluates hyphenTree hyphenConfig hyphenFiles [bareCard "a-b", bareCard "a"] := by
  have hdiscard : Artifact.discard hyphenTree hyphenConfig.dbPath = (hyphenTree, .ok ()) := rfl
  have hsorted : hyphenFiles.mergeSort Path.notAfter = hyphenFiles :=
    List.mergeSort_of_pairwise (by decide)
  have hvalue : ∀ {p : Path} {setId : String},
      hyphenTree.readTextAt (p.location []) = .ok (bareModule setId) →
      ((bareModule setId).toList.tails.all fun s => (Source.importLine? s).isNone) = true →
      ((bareModule setId).toList.tails.all fun s => (Source.typedDeclaration? none s).isNone) = true →
      Source.exportDefault? (bareModule setId).toList =
        some ("return " ++ Json.text (bareCard setId)).toList →
      HasValue hyphenTree (p.location []) (bareCard setId) := by
    intro p setId hread himports htypes hexport
    rw [(hasValue_iff_of_plain hread himports htypes hexport).2, String.ofList_toList]
    exact evaluate_bareCard setId
  refine ⟨?_, ?_⟩
  · rw [hdiscard]
    exact congrArg Except.ok hsorted
  · rw [hdiscard]
    refine ((Evaluator.Faithful.empty hyphenTree).evaluateAll_eq_ok_iff fun _ hm =>
      absurd hm List.not_mem_nil).2 ?_
    exact .cons (hvalue rfl rfl rfl rfl) (.cons (hvalue rfl rfl rfl rfl) .nil)

/-- The parts of the two cards differ, and they share a stretch. -/
theorem modulesWith_hyphenTree_ne_ok :
    Evaluates hyphenTree hyphenConfig hyphenFiles [bareCard "a-b", bareCard "a"] ∧
      (Collection.partsOf hyphenFiles [bareCard "a-b", bareCard "a"]).Nodup ∧
      ∀ summary, (modulesWith hyphenTree .literal hyphenConfig).2 ≠ .ok summary := by
  have hparts : Collection.partsOf hyphenFiles [bareCard "a-b", bareCard "a"] =
      [("a-b", "c"), ("a", "b-c")] := rfl
  have hdistinct : (Collection.partsOf hyphenFiles [bareCard "a-b", bareCard "a"]).Nodup :=
    hparts ▸ by decide
  refine ⟨evaluates_hyphenTree, hdistinct, ?_⟩
  refine (modulesWith_of_distinctParts evaluates_hyphenTree hdistinct).2 ?_
  rw [hparts]
  exact ⟨("a", "b-c"), by simp, ("a-b", "c"), by simp, "b", rfl, rfl⟩

/-- **Two cards of different sets with one id**: the modules of the tree are evaluated, and no two
cards have the same set and name, but the compilation fails for an id that is used twice. -/
theorem duplicateId_hyphenTree :
    Evaluates hyphenTree hyphenConfig hyphenFiles [bareCard "a-b", bareCard "a"] ∧
      Collection.partsOf hyphenFiles [bareCard "a-b", bareCard "a"] = [("a-b", "c"), ("a", "b-c")] ∧
      [("a-b", "c"), ("a", "b-c")].Nodup ∧
      (modulesWith hyphenTree .literal hyphenConfig).2 =
        .error (.artifact (.duplicateId "a-b-c")) := by
  have hdiscard : Artifact.discard hyphenTree hyphenConfig.dbPath = (hyphenTree, .ok ()) := rfl
  have hcollect := evaluates_hyphenTree.collect_eq
  have hne : hyphenFiles ≠ [] := List.cons_ne_nil _ _
  rw [hdiscard, if_neg hne] at hcollect
  refine ⟨evaluates_hyphenTree, rfl, by decide, ?_⟩
  simp only [modulesWith, hdiscard, hcollect]
  rfl

end Compile

end CardTable
