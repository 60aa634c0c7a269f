import CardTable.Proofs.Table.Acceptance
import CardTable.Proofs.Table.CardRows

set_option autoImplicit false

/-!
# What is read back

The store converts the cells of a row to fit the types of their columns. A column that was inferred
from the cards that are stored is made for them: numbers in columns that drift are texts already,
whole numbers that no signed word holds are doubles in a column that does not make them whole again,
and dates are no numbers. There, what is read back is what was encoded, up to the sign of a zero. A
column that was inferred from other cards may convert a cell to one of another sort.

## Main definitions

* `CardTable.Cell.withoutNegativeZero` — a cell without the sign of a zero.

## Main results

* `CardTable.apply_real` — what a column of doubles makes of a double.
* `CardTable.apply_cellOf` — what an inferred column makes of the cells that it is made for.
* `CardTable.Artifact.table_of_write` — the table that is read back.
* `CardTable.negativeZero_not_readBack` — the sign of a zero, and a cell in the column of another
  card, are not read back.
-/

namespace CardTable

/-! ## Zeros -/

/-- A cell without the sign of a zero. -/
def Cell.withoutNegativeZero : Cell → Cell
  | .real x => if x.isZero then .real .zero else .real x
  | c => c

/-- The whole number zero is the double zero. -/
lemma Double.ofInt?_zero : Double.ofInt? 0 = some .zero := by
  have hplace : nearestPlace 0 1 = 0 := nearestPlace_eq (by decide) (by rw [Nat.zero_mul]; rfl)
  have hlt : nearestPlace (Int.natAbs 0) 1 < placeLimit := by
    rw [Int.natAbs_zero, hplace]
    decide
  simp only [ofInt?, ofRatio?, dif_pos hlt]
  simp only [Int.natAbs_zero, hplace]
  rfl

/-- **A double in a column of doubles** is stored without the sign of a zero. -/
theorem apply_real (x : Double) :
    Affinity.real.apply (.real x) = (Cell.real x).withoutNegativeZero := by
  cases hzero : x.isZero with
  | true =>
    have hwhole : Affinity.toNumeric (.real x) = .integer 0 := by
      simp only [Affinity.toNumeric, wholeCell, Double.toInt?_of_isZero hzero]
      rfl
    simp only [Affinity.apply, hwhole, Double.ofInt?_zero, Option.getD_some,
      Cell.withoutNegativeZero, hzero, if_true]
  | false =>
    obtain ⟨y, hy, hplace, hsign⟩ := exists_apply_real x
    have hne : x.place ≠ 0 := by
      intro hplace
      rw [Double.isZero, hplace] at hzero
      cases hzero
    obtain rfl : y = x := by
      obtain ⟨negative, place, hlt⟩ := x
      obtain ⟨negative', place', hlt'⟩ := y
      obtain rfl : place' = place := hplace
      obtain rfl : negative' = negative := hsign.resolve_right hne
      rfl
    rw [hy]
    simp only [Cell.withoutNegativeZero, hzero]
    rfl

/-! ## Cells in the columns that are made for them -/

/-- No field has a column of dates. -/
lemma Observations.fieldColumn_kind_ne_date (name : String) (kinds : List Value.Kind)
    (ordinal : Nat) : (fieldColumn name kinds ordinal).kind ≠ .date := by
  unfold fieldColumn
  split
  · next only =>
    cases only <;> exact ColumnKind.noConfusion
  · exact ColumnKind.noConfusion

/-- A derived column has the kind of what it is derived from. -/
lemma kind_of_derived {p : Profile} {records : List Card} {columns : List Column} {c : Column}
    (hinfer : inferSchema p records = .ok columns) (hc : c ∈ columns) {d : Derived}
    (hderived : c.source = .derived d) : c.kind = d.columnKind := by
  obtain ⟨seen, -, hschema⟩ := inferSchema_eq_ok_iff.1 hinfer
  unfold Observations.schema at hschema
  split at hschema
  · cases hschema
  · obtain rfl := Except.ok.inj hschema
    rcases List.mem_append.1 hc with hfield | hc
    · obtain ⟨i, hi, rfl⟩ := List.mem_mapIdx.1 hfield
      rw [Observations.fieldColumn_source] at hderived
      cases hderived
    · obtain ⟨i, hi, rfl⟩ := List.mem_mapIdx.1 hc
      obtain rfl := ColumnSource.derived.inj hderived
      rfl

/-- **What an inferred column makes of the cells that it is made for**: it leaves them alone, up to
the sign of a zero.

**Proof sketch.** A derived cell is a text that is no number, which no affinity changes. A field
that overflows is stored as a double that is too large for the whole numbers of the store. Any
other field is of the kind that its column declares (`cellOf_fits_iff`), and the affinity of a
kind leaves the cells of this kind alone, except for the sign of a zero in a column of doubles
(`apply_real`). -/
theorem apply_cellOf {p : Profile} {records : List Card} {columns : List Column} {c : Column}
    (hinfer : inferSchema p records = .ok columns) (hc : c ∈ columns) {record : Card}
    (hrecord : record ∈ records) {pack : Pack} (hdated : pack.IsDated) :
    c.kind.affinity.apply (c.cellOf record pack) = (c.cellOf record pack).withoutNegativeZero := by
  cases hsource : c.source with
  | derived d =>
    have hcell : c.cellOf record pack = Cell.ofText? (pack.get? d) := by
      simp only [Column.cellOf, hsource]
      cases pack.get? d <;> rfl
    rw [hcell, kind_of_derived hinfer hc hsource, apply_ofText? hdated]
    cases pack.get? d <;> rfl
  | field =>
    cases hlarge : c.overflows record with
    | true =>
      obtain ⟨-, x, hcell, hzero, happly⟩ :=
        apply_cellOf_of_overflows hinfer hc hsource hrecord pack hlarge
      rw [happly, hcell]
      simp only [Cell.withoutNegativeZero, hzero]
      rfl
    | false =>
      have hfits := (cellOf_fits_iff hinfer hrecord pack hc hsource).1.2 hlarge
      have hkind : c.kind ≠ .date := by
        obtain ⟨kinds, ordinal, hcolumn, -⟩ := exists_kinds_of_inferSchema hinfer hc hsource
        rw [hcolumn]
        exact Observations.fieldColumn_kind_ne_date _ _ _
      generalize c.cellOf record pack = cell at hfits
      cases hcolumn : c.kind with
      | date => exact absurd hcolumn hkind
      | integer =>
        rw [hcolumn] at hfits
        cases cell <;> simp [Cell.fits] at hfits <;> rfl
      | text =>
        rw [hcolumn] at hfits
        cases cell <;> simp [Cell.fits] at hfits <;> rfl
      | real =>
        rw [hcolumn] at hfits
        cases cell with
        | null => rfl
        | real x => exact apply_real x
        | _ => simp [Cell.fits] at hfits

/-! ## Tables -/

namespace Artifact

/-- **The table that is read back** has the columns that it was written with, and one row for each
card, each cell as its column converts it. If the columns were inferred from the cards, among others
perhaps, the rows are those that were encoded, up to the sign of a zero.

**Proof sketch.** What is found at the artifact is the table of the cards (`exists_table_of_write`,
`represents_of_tableOf`), each row as its columns convert it. In columns that were inferred from the
cards the conversion does nothing but drop the sign of a zero (`apply_cellOf`). -/
theorem table_of_write {t t' : FileTree} {artifact : Path} {columns : List Column}
    {cards : List CorpusCard} {n : Nat} (h : write t artifact columns cards = (t', .ok n))
    (hdated : ∀ c ∈ cards, c.pack.IsDated) :
    ∃ table, t'.find artifact = .ok (.file (.table table)) ∧
      table.columns = columns.map Column.definition ∧
      table.rows.Perm (cards.map fun c =>
        columns.map fun column => column.kind.affinity.apply (column.cellOf c.card c.pack)) ∧
      ∀ p records, inferSchema p records = .ok columns → (∀ c ∈ cards, c.card ∈ records) →
        table.rows.Perm (cards.map fun c =>
          (encodeRow columns c.card c.pack).map Cell.withoutNegativeZero) := by
  obtain ⟨-, table, htable, hfind⟩ := exists_table_of_write h
  obtain ⟨hcolumns, -, hrepresents⟩ := represents_of_tableOf htable
  obtain ⟨rows, hrows, hperm, -⟩ := hrepresents.rows
  have heq : List.Forall₂ (· = ·) rows (cards.map (rowOf table columns)) :=
    List.forall₂_map_right_iff.2 hrows.flip
  rw [List.forall₂_eq_eq_eq, funext (rowOf_eq_map hcolumns)] at heq
  refine ⟨table, hfind, hcolumns, heq ▸ hperm, fun p records hinfer hrecords => ?_⟩
  refine hperm.trans (List.Perm.of_eq (heq.trans ?_))
  refine List.map_congr_left fun c hc => ?_
  rw [encodeRow, List.map_map]
  exact List.map_congr_left fun column hcolumn =>
    apply_cellOf hinfer hcolumn (hrecords c hc) (hdated c hc)

end Artifact

/-! ## Cells that are not read back -/

/-- The double zero with a negative sign. -/
def negativeZero : Double := ⟨true, 0, Double.zero.place_lt⟩

/-- A card with a name and a level. -/
def leveledCard (level : Value) : CorpusCard :=
  ⟨[("id", .str "base1-1"), ("level", level)], {}⟩

/-- The columns of cards with a name and a level of the given kind. -/
def leveledColumns (kind : ColumnKind) : List Column :=
  [⟨"id", .text, 0, .field, false⟩, ⟨"level", kind, 1, .field, false⟩,
    ⟨"packName", .text, 2, .derived .packName, false⟩,
    ⟨"packSeries", .text, 3, .derived .packSeries, false⟩,
    ⟨"releaseDate", .date, 4, .derived .releaseDate, false⟩,
    ⟨"imageUrl", .text, 5, .derived .imageUrl, false⟩]

/-- A day. -/
def releaseDay : Date := ⟨1999, 1, 9, by decide⟩

/-- A pack that was released on this day. -/
def datedPack : Pack :=
  { releaseDate := some releaseDay.iso }

/-- A text that spells a number and a date are read back from columns that were inferred for
them. -/
theorem table_of_write_datedCard :
    ∃ t' table,
      Artifact.write ⟨[], []⟩ ⟨"cards.sqlite"⟩ (leveledColumns .text)
          [⟨(leveledCard (.str "60")).card, datedPack⟩] = (t', .ok 1) ∧
        datedPack.IsDated ∧ t'.find ⟨"cards.sqlite"⟩ = .ok (.file (.table table)) ∧
        table.rows.Perm [(encodeRow (leveledColumns .text) (leveledCard (.str "60")).card
          datedPack).map Cell.withoutNegativeZero] := by
  have hdated : datedPack.IsDated := fun s hs => ⟨releaseDay, (Option.some.inj hs).symm⟩
  have hwrite : Artifact.write ⟨[], []⟩ ⟨"cards.sqlite"⟩ (leveledColumns .text)
      [⟨(leveledCard (.str "60")).card, datedPack⟩] = (_, .ok 1) := rfl
  obtain ⟨table, hfind, -, -, hrows⟩ :=
    Artifact.table_of_write hwrite (List.forall_mem_singleton.2 hdated)
  exact ⟨_, table, hwrite, hdated, hfind, hrows .flat [(leveledCard (.str "60")).card] rfl
    (List.forall_mem_singleton.2 (List.mem_singleton_self _))⟩

/-- **The sign of a zero is not read back**, and neither is the text of a level in columns that were
inferred from a card whose level is a number. -/
theorem negativeZero_not_readBack :
    (inferSchema .flat [(leveledCard (.num (.double negativeZero))).card] =
        .ok (leveledColumns .real) ∧
      ∃ t' table,
        Artifact.write ⟨[], []⟩ ⟨"cards.sqlite"⟩ (leveledColumns .real)
            [leveledCard (.num (.double negativeZero))] = (t', .ok 1) ∧
          t'.find ⟨"cards.sqlite"⟩ = .ok (.file (.table table)) ∧
          ¬ table.rows.Perm [encodeRow (leveledColumns .real)
            (leveledCard (.num (.double negativeZero))).card {}]) ∧
    (inferSchema .flat [(leveledCard (.num (.whole 1 (by decide)))).card] =
        .ok (leveledColumns .integer) ∧
      ∃ t' table,
        Artifact.write ⟨[], []⟩ ⟨"cards.sqlite"⟩ (leveledColumns .integer)
            [leveledCard (.str "60")] = (t', .ok 1) ∧
          t'.find ⟨"cards.sqlite"⟩ = .ok (.file (.table table)) ∧
          ¬ table.rows.Perm [encodeRow (leveledColumns .integer) (leveledCard (.str "60")).card {}]) := by
  refine ⟨⟨rfl, _, _, rfl, rfl, fun hperm => ?_⟩, ⟨rfl, _, _, rfl, rfl, by decide⟩⟩
  have hrow := List.singleton_perm_singleton.1 hperm
  have hlevel : Affinity.real.apply (.real negativeZero) = .real negativeZero :=
    (List.cons.inj (List.cons.inj hrow).2).1
  rw [apply_real] at hlevel
  exact absurd (Cell.real.inj hlevel) (by decide)

end CardTable
