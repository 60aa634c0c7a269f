import CardTable.Proofs.Artifact.Artifacts
import CardTable.Proofs.Table.Store

set_option autoImplicit false

/-!
# When the store takes an inferred table

Inference and the store do not agree on what a table may look like. Inference tells names apart by
their text, and the store ignores the case of ASCII letters and reads a name up to a NUL character;
inference takes each number of 64 bits for a whole number, and a key that orders the rows has to fit
a signed word. Apart from this a corpus whose ids are there and distinct is always written.

## Main definitions

* `CardTable.idCell` — the encoded id of a card.

## Main results

* `CardTable.Artifact.exists_addRows_iff` — which cards make the rows of a table.
* `CardTable.accepts_encodeRow_iff` — an id is accepted exactly if it does not overflow.
* `CardTable.Artifact.write_eq_ok_iff` — which inferred tables are written.
-/

namespace CardTable

/-- The id of a card as it is encoded. -/
def idCell (columns : List Column) (c : CorpusCard) : Cell :=
  StoredTable.keyOf (encodeRow columns c.card c.pack)

namespace Artifact

/-- At a path where a table can be put, only the table decides about the outcome. -/
lemma write_of_isWritable {t : FileTree} {artifact : Path} (h : IsWritable t artifact)
    (columns : List Column) (cards : List CorpusCard) :
    (write t artifact columns cards).2 =
      match tableOf columns cards with
      | .ok _ => .ok cards.length
      | .error e => .error e := by
  obtain ⟨-, prepared, hprepare, hopen, hcommit⟩ := h
  unfold write
  rw [hprepare]
  dsimp only
  rw [hopen]
  dsimp only
  cases tableOf columns cards with
  | error e => rfl
  | ok table =>
    dsimp only
    have hdone := hcommit table
    split
    · next hfailed =>
      rw [hfailed] at hdone
      cases hdone
    · rfl

/-! ## Rows -/

/-- The rows of cards are added if the table accepts each of them and their keys are distinct. -/
theorem exists_addRows_iff {columns : List Column} {row : Nat} {t : StoredTable}
    {cards : List CorpusCard} :
    (∃ t', addRows columns row t cards = .ok t') ↔
      (∀ c ∈ cards, t.Accepts (encodeRow columns c.card c.pack)) ∧
        cards.Pairwise fun a b =>
          StoredTable.sameKey
            (StoredTable.keyOf (t.storedRow (encodeRow columns a.card a.pack)))
            (StoredTable.keyOf (t.storedRow (encodeRow columns b.card b.pack))) = false := by
  induction cards generalizing row t with
  | nil => simp [addRows]
  | cons c rest ih =>
    rcases t.insert_cases (encodeRow columns c.card c.pack) with
      ⟨haccepts, t', hinsert, hcolumns, -⟩ | ⟨hrefuses, e, hinsert⟩
    · have hstored : ∀ r, t'.storedRow r = t.storedRow r := by
        intro r
        simp only [StoredTable.storedRow, hcolumns]
      have hstep : addRows columns row t (c :: rest) = addRows columns (row + 1) t' rest := by
        simp only [addRows, hinsert]
      rw [hstep, ih]
      simp only [StoredTable.accepts_insert_iff hinsert, hstored, List.mem_cons,
        forall_eq_or_imp, List.pairwise_cons, haccepts, true_and]
      constructor
      · rintro ⟨hrest, hpairs⟩
        exact ⟨fun d hd => (hrest d hd).1, fun d hd => (hrest d hd).2, hpairs⟩
      · rintro ⟨hrest, hfirst, hpairs⟩
        exact ⟨fun d hd => ⟨hrest d hd, hfirst d hd⟩, hpairs⟩
    · refine iff_of_false ?_ fun h => hrefuses (h.1 c (List.mem_cons_self ..))
      rintro ⟨t', ht'⟩
      simp only [addRows, hinsert] at ht'
      split at ht'
      · next heq => cases heq
      · cases ht'
      · cases ht'
      · cases ht'

/-- The table of a corpus exists if the columns make a table and the rows are taken. -/
lemma exists_tableOf_iff {columns : List Column} {cards : List CorpusCard}
    (hcount : columns.length ≤ columnLimit) :
    (∃ table, tableOf columns cards = .ok table) ↔
      ((∀ c ∈ columns, '\x00' ∉ c.name.toList) ∧
        columns.Pairwise fun c d => sameName c.name d.name = false) ∧
      ∃ table, addRows columns 0 ⟨columns.map Column.definition, []⟩ cards = .ok table := by
  have hnames : columnError? (columns.map Column.definition) []
      (columns.map Column.definition) = none ↔ _ :=
    columnError?_eq_none_iff (by simpa using hcount)
  simp only [List.not_mem_nil, false_implies, implies_true, true_and, List.forall_mem_map,
    List.pairwise_map, Column.definition] at hnames
  unfold tableOf StoredTable.ofColumns
  cases herror : columnError? (columns.map Column.definition) []
    (columns.map Column.definition) with
  | none =>
    rw [← hnames]
    simp [herror, Except.mapError, bind, Except.bind]
  | some e =>
    rw [← hnames]
    simp [herror, Except.mapError, bind, Except.bind]

end Artifact

/-! ## Keys -/

section Keys

variable {p : Profile} {cards : List CorpusCard} {columns : List Column}

/-- The first column of an inferred table is that of the ids. -/
lemma exists_cons_of_inferSchema {records : List Card} (h : inferSchema p records = .ok columns) :
    ∃ c rest, columns = c :: rest ∧ c.source = .field ∧ c.kind ≠ .date := by
  obtain ⟨seen, hobserve, hschema⟩ := inferSchema_eq_ok_iff.1 h
  obtain ⟨rest, hcolumns⟩ :=
    Observations.head_schema (Observations.Lawful.nil.observeAll hobserve) hschema
  refine ⟨_, rest, hcolumns, Observations.fieldColumn_source .., ?_⟩
  unfold Observations.fieldColumn
  split
  · next only _ => cases only <;> intro h <;> cases h
  · intro h
    cases h

variable {c : Column} {rest : List Column} {card : CorpusCard}

/-- The key that is stored is the id, converted as its column asks for. -/
lemma keyOf_storedRow_encodeRow (c : Column) (rest : List Column) (card : CorpusCard) :
    StoredTable.keyOf (StoredTable.storedRow ⟨(c :: rest).map Column.definition, []⟩
        (encodeRow (c :: rest) card.card card.pack)) =
      c.kind.affinity.apply (idCell (c :: rest) card) :=
  StoredTable.keyOf_storedRow (t := ⟨(c :: rest).map Column.definition, []⟩) rfl _ _

/-- An id that does not overflow fits its column. -/
lemma fits_idCell (hinfer : inferSchema p (cards.map CorpusCard.card) = .ok (c :: rest))
    (hfield : c.source = .field) (hcard : card ∈ cards) (hfits : c.overflows card.card = false) :
    (idCell (c :: rest) card).fits c.kind = true :=
  (cellOf_fits_iff hinfer (List.mem_map_of_mem hcard) card.pack (List.mem_cons_self ..) hfield).1.2
    hfits

/-- A column that does not drift has the kind of whole numbers if it has one, and such a number is
the double nearest to it where no signed word holds it. This is stored as it is. -/
lemma apply_cellOf_of_overflows {records : List Card} {record : Card}
    (hinfer : inferSchema p records = .ok columns) (hc : c ∈ columns) (hfield : c.source = .field)
    (hrecord : record ∈ records) (pack : Pack) (hlarge : c.overflows record = true) :
    c.kind = .integer ∧ ∃ x, c.cellOf record pack = .real x ∧ x.isZero = false ∧
      c.kind.affinity.apply (c.cellOf record pack) = .real x := by
  obtain ⟨hdrift, n, wide, hv, hsigned⟩ := Column.overflows_iff.1 hlarge
  obtain ⟨-, -, hwhole⟩ := cellOf_fits_iff hinfer hrecord pack hc hfield
  have hkind : c.kind = .integer := (hwhole n wide hdrift hv).1
  refine ⟨hkind, ?_⟩
  obtain ⟨x, hx⟩ := Double.exists_ofInt?_of_lt (n := n) (by omega)
  have hbound : ∀ m, x.toInt? = some m → 2 ^ 63 ≤ m := fun m hm =>
    Double.two_pow_le_of_toInt? (k := 63) (by omega) hx hm
  have hcell : c.cellOf record pack = .real x := by
    have hencode : c.cellOf record pack = .real (Number.whole n wide).toDouble := by
      simp only [Column.cellOf, hfield, hv]
      rw [Column.encode_whole hdrift, if_neg hsigned]
    have hdouble : (Number.whole n wide).toDouble = x := by
      rw [Number.toDouble, hx, Option.getD_some]
    rw [hencode, hdouble]
  refine ⟨x, hcell, ?_, ?_⟩
  · refine Bool.eq_false_iff.2 fun hzero => ?_
    have hle := hbound 0 (Double.toInt?_of_isZero hzero)
    omega
  · rw [hcell, hkind]
    show wholeCell x = .real x
    unfold wholeCell
    split
    · next m hm =>
      have hle := hbound m hm
      rw [if_neg (by omega)]
    · rfl

/-- **An id is accepted** as the first key of a table exactly if it is there and does not
overflow. -/
theorem accepts_encodeRow_iff
    (hinfer : inferSchema p (cards.map CorpusCard.card) = .ok (c :: rest))
    (hfield : c.source = .field) (hcard : card ∈ cards)
    (hid : (idCell (c :: rest) card).isNull = false) :
    StoredTable.Accepts ⟨(c :: rest).map Column.definition, []⟩
        (encodeRow (c :: rest) card.card card.pack) ↔
      c.overflows card.card = false := by
  have hkey := keyOf_storedRow_encodeRow c rest card
  constructor
  · intro haccepts
    cases hlarge : c.overflows card.card with
    | false => rfl
    | true =>
      obtain ⟨hkind, x, -, -, hx⟩ := apply_cellOf_of_overflows hinfer (List.mem_cons_self ..) hfield
        (List.mem_map_of_mem hcard) card.pack hlarge
      obtain ⟨n, hn⟩ := haccepts.whole hkind
      cases (hkey.trans hx).symm.trans hn
  · intro hsmall
    refine ⟨hid, fun hkind => ?_, fun other hother => absurd hother List.not_mem_nil⟩
    have hkind : c.kind = .integer := hkind
    have hfits := fits_idCell hinfer hfield hcard hsmall
    rw [hkey]
    rw [hkind] at hfits ⊢
    cases hcell : idCell (c :: rest) card with
    | integer n => exact ⟨n, rfl⟩
    | null => simp [hcell, Cell.isNull] at hid
    | real x => simp [hcell, Cell.fits] at hfits
    | infinite negative => simp [hcell, Cell.fits] at hfits
    | text s => simp [hcell, Cell.fits] at hfits

end Keys

/-! ## Writing -/

/-- **Which inferred tables are written.** Where a table can be put, and for a corpus whose ids are
there and distinct, the table is written exactly if the names of its columns have no NUL character
and differ in more than case, and no id is a whole number beyond the signed words.

**Proof sketch.** Where a table can be put it is written exactly if it can be made
(`write_of_isWritable`). It can be made exactly if its columns can be (`exists_tableOf_iff`) and
each row is accepted behind those in front of it (`exists_addRows_iff`). A row is accepted exactly
if its id does not overflow (`accepts_encodeRow_iff`), and ids that do not are told apart when they
are stored just as before (`sameKey_apply`). -/
theorem Artifact.write_eq_ok_iff {t : FileTree} {artifact : Path} {p : Profile}
    {cards : List CorpusCard} {columns : List Column} (hwritable : IsWritable t artifact)
    (hinfer : inferSchema p (cards.map CorpusCard.card) = .ok columns)
    (hcount : columns.length ≤ columnLimit)
    (hids : ∀ c ∈ cards, (idCell columns c).isNull = false)
    (hdistinct : cards.Pairwise fun a b =>
      StoredTable.sameKey (idCell columns a) (idCell columns b) = false) :
    (write t artifact columns cards).2 = .ok cards.length ↔
      (∀ c ∈ columns, '\x00' ∉ c.name.toList) ∧
        (columns.Pairwise fun c d => sameName c.name d.name = false) ∧
        ∀ c ∈ columns.head?, ∀ card ∈ cards, c.overflows card.card = false := by
  obtain ⟨c, rest, rfl, hfield, hkind⟩ := exists_cons_of_inferSchema hinfer
  have haccepts : ∀ card ∈ cards, _ := fun card hcard =>
    accepts_encodeRow_iff hinfer hfield hcard (hids card hcard)
  have hwrite : (write t artifact (c :: rest) cards).2 = .ok cards.length ↔
      ∃ table, tableOf (c :: rest) cards = .ok table := by
    rw [write_of_isWritable hwritable]
    cases tableOf (c :: rest) cards <;> simp
  rw [hwrite, exists_tableOf_iff hcount, exists_addRows_iff, and_assoc]
  refine and_congr_right fun _ => and_congr_right fun _ => ?_
  simp only [List.head?_cons, Option.mem_some_iff, forall_eq']
  constructor
  · exact fun h card hcard => (haccepts card hcard).1 (h.1 card hcard)
  · intro hsmall
    refine ⟨fun card hcard => (haccepts card hcard).2 (hsmall card hcard), ?_⟩
    refine hdistinct.imp_of_mem ?_
    intro a b ha hb hdiffer
    rw [keyOf_storedRow_encodeRow, keyOf_storedRow_encodeRow]
    refine (sameKey_apply hkind ?_ (hids a ha) ?_ (hids b hb)).trans hdiffer
    · exact fits_idCell hinfer hfield ha (hsmall a ha)
    · exact fits_idCell hinfer hfield hb (hsmall b hb)

/-- A table can be put in the working directory of an empty tree. -/
lemma isWritable_emptyTree : Artifact.IsWritable ⟨[], []⟩ ⟨"cards.sqlite"⟩ := by
  have hnameable : Artifact.IsNameable (Artifact.stagingPath ⟨"cards.sqlite"⟩) := by
    refine ⟨by decide, ?_⟩
    decide
  refine Artifact.isWritable_of_hasRoom hnameable (by decide) ?_ ?_ ?_ rfl
  · intro directory hparent hnamed
    have hbare : (⟨"cards.sqlite"⟩ : Path).parent? = some ⟨""⟩ := rfl
    obtain rfl := Option.some.inj (hbare.symm.trans hparent)
    exact absurd rfl hnamed
  · exact ⟨rfl, ["cards.sqlite"], rfl, nofun⟩
  · exact ⟨rfl, ["cards.sqlite.partial"], rfl, nofun⟩

/-- A card with two fields whose names differ in case only. -/
def twoCasesCard : CorpusCard :=
  { card :=
      [("id", .str "base1-1"), ("B", .num (.whole 1 (by decide))),
        ("b", .num (.whole 2 (by decide)))],
    pack := {} }

/-- A schema is inferred from this card alone, and its table is not written to an empty tree. -/
theorem write_twoCasesCard_ne_ok :
    ∃ columns, inferSchema .flat [twoCasesCard.card] = .ok columns ∧
      Artifact.IsWritable ⟨[], []⟩ ⟨"cards.sqlite"⟩ ∧
      (idCell columns twoCasesCard).isNull = false ∧
      (Artifact.write ⟨[], []⟩ ⟨"cards.sqlite"⟩ columns [twoCasesCard]).2 ≠ .ok 1 := by
  refine ⟨_, rfl, isWritable_emptyTree, rfl, ?_⟩
  intro hwritten
  have hinfer : inferSchema .flat ([twoCasesCard].map CorpusCard.card) = .ok _ := rfl
  have hnames := ((Artifact.write_eq_ok_iff isWritable_emptyTree hinfer (by decide)
    (List.forall_mem_singleton.2 rfl) (List.pairwise_singleton ..)).1 hwritten).2.1
  revert hnames
  decide

end CardTable
