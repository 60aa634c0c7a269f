import CardTable.Proofs.Table.Conformance
import CardTable.Proofs.Text.Utf8Order
import Mathlib.Data.List.Nodup

set_option autoImplicit false

/-!
# The shape of a schema

A schema that was inferred from cards has the column of the ids in front, then one column for each
other field that counts, in the order of the names, and then the derived columns. No two columns
have one name, so that a row has exactly one cell for each field of its card that counts, and no
value gets lost or into the column of another field.

## Main definitions

* `CardTable.IsSchemaOf` — the shape of a schema for given cards.
* `CardTable.IsRowOf` — which cells a row has for the fields of its card.

## Main results

* `CardTable.Observations.isSchemaOf_columns` — the columns for what was seen have this shape.
* `CardTable.IsSchemaOf.isRowOf_encodeRow` — in such columns each of the cards has such a row.
* `CardTable.isSchemaOf_of_inferSchema` — an inferred schema and the rows of its cards.
-/

namespace CardTable

/-! ## Schemas and rows -/

/-- What a schema for the cards `cards` looks like. -/
structure IsSchemaOf (p : Profile) (cards : List Card) (columns : List Column) : Prop where
  /-- The column of the ids is followed by those of the other fields, in the order of the UTF-8
  bytes of their names, and these by the derived columns, in the order of the profile. -/
  order : ∃ id others derived, columns = id :: (others ++ derived) ∧
    id.source = .field ∧ id.name = idField ∧
    (∀ c ∈ others, c.source = .field) ∧ (others.map fun c => utf8Bytes c.name).Pairwise (· < ·) ∧
    derived.map Column.source = p.derived.map ColumnSource.derived ∧
    derived.map Column.name = p.derived.map Derived.columnName
  /-- The first column is the only key. -/
  key : ∀ {i : Nat} {c : Column}, columns[i]? = some c → (c.isKey = true ↔ i = 0)
  /-- The columns are counted from zero. -/
  ordinals : columns.map Column.ordinal = List.range columns.length
  /-- No two columns have one name. -/
  distinct : (columns.map Column.name).Nodup
  /-- The fields with a column are those that count and occur in some card. -/
  fields : ∀ name, (∃ c ∈ columns, c.source = .field ∧ c.name = name) ↔ p.Occurs cards name

/-- Which cells the row of a card has for its fields. -/
structure IsRowOf (p : Profile) (columns : List Column) (card : Card) (row : List Cell) : Prop where
  /-- There is one cell for each column. -/
  length_eq : row.length = columns.length
  /-- A field that counts has exactly one cell. The cell stands in its column, is made of its value,
  and is empty only if the value is null. -/
  present : ∀ {name : String} {value : Value}, name ∉ p.excluded → card.get? name = some value →
    ∃ (i : Nat) (c : Column) (cell : Cell), columns[i]? = some c ∧
      c.source = .field ∧ c.name = name ∧
      (∀ (j : Nat) (c' : Column), columns[j]? = some c' → c'.name = name → j = i) ∧
      row[i]? = some cell ∧ cell = c.encode (some value) ∧ (cell = .null ↔ value = .null)
  /-- In the column of a field that the card does not have, the cell is empty. -/
  absent : ∀ {i : Nat} {c : Column}, columns[i]? = some c → c.source = .field →
    c.name ∉ Fields.keys card → row[i]? = some .null

/-! ## The columns for what was seen -/

/-- The derived columns have names of their own. -/
lemma Derived.columnName_injective : Function.Injective Derived.columnName := by
  intro d d'
  cases d <;> cases d' <;> decide

/-- What a column has whatever its place is can be read off the list that the columns are made
of. -/
lemma map_mapIdx_of_forall {α β γ : Type} {f : β → γ} {g : Nat → α → β} {k : α → γ}
    (h : ∀ i a, f (g i a) = k a) (as : List α) : (as.mapIdx g).map f = as.map k := by
  apply List.ext_getElem
  · simp
  · simp [h]

/-- If no two columns have one name, a name tells where a column stands. -/
lemma index_eq_of_nodup_names {columns : List Column} {i j : Nat} {c c' : Column}
    (h : (columns.map Column.name).Nodup) (hi : columns[i]? = some c) (hj : columns[j]? = some c')
    (hname : c.name = c'.name) : i = j := by
  have hlt : i < (columns.map Column.name).length := by
    rw [List.length_map]
    exact (List.getElem?_eq_some_iff.1 hi).1
  refine (List.getElem?_inj hlt h).1 ?_
  rw [List.getElem?_map, List.getElem?_map, hi, hj, Option.map_some, Option.map_some, hname]

namespace Observations

/-- The column of a field is named like it. -/
@[simp] lemma fieldColumn_name (name : String) (kinds : List Value.Kind) (ordinal : Nat) :
    (fieldColumn name kinds ordinal).name = name := by
  unfold fieldColumn
  split <;> rfl

/-- The column of a field has the number it is given. -/
@[simp] lemma fieldColumn_ordinal (name : String) (kinds : List Value.Kind) (ordinal : Nat) :
    (fieldColumn name kinds ordinal).ordinal = ordinal := by
  unfold fieldColumn
  split <;> rfl

variable {p : Profile} {seen : Observations}

/-- The columns of the other fields than the id. -/
def otherColumns (seen : Observations) : List Column :=
  (seen.names.filter fun name => name ≠ idField).mapIdx fun i name =>
    fieldColumn name (seen.kindsOf name) (i + 1)

/-- The derived columns, with `before` columns in front of them. -/
def derivedColumns (p : Profile) (before : Nat) : List Column :=
  p.derived.mapIdx fun i d => derivedColumn d (before + i)

/-- The column of the id is the first one. -/
lemma columns_eq_cons : seen.columns p = fieldColumn idField (seen.kindsOf idField) 0 ::
    (seen.otherColumns ++ derivedColumns p seen.fieldNames.length) := by
  rw [columns, fieldNames, List.mapIdx_cons, List.cons_append]
  rfl

/-- The other columns are named like the fields that have been seen. -/
lemma names_otherColumns :
    seen.otherColumns.map Column.name = seen.names.filter fun name => name ≠ idField := by
  have hname : ∀ i name, (fieldColumn name (seen.kindsOf name) (i + 1)).name = id name :=
    fun _ _ => fieldColumn_name ..
  exact (map_mapIdx_of_forall hname _).trans (List.map_id _)

/-- The derived columns have the names of the profile. -/
lemma names_derivedColumns (before : Nat) :
    (derivedColumns p before).map Column.name = p.derived.map Derived.columnName :=
  have hname : ∀ i d, (derivedColumn d (before + i)).name = d.columnName := fun _ _ => rfl
  map_mapIdx_of_forall hname _

/-- The derived columns have the sources of the profile. -/
lemma sources_derivedColumns (before : Nat) :
    (derivedColumns p before).map Column.source = p.derived.map ColumnSource.derived :=
  have hsource : ∀ i d, (derivedColumn d (before + i)).source = .derived d := fun _ _ => rfl
  map_mapIdx_of_forall hsource _

/-- The other columns are those of fields. -/
lemma source_of_mem_otherColumns {c : Column} (h : c ∈ seen.otherColumns) :
    c.source = .field := by
  obtain ⟨i, hi, rfl⟩ := List.mem_mapIdx.1 h
  exact fieldColumn_source ..

/-- The columns are named like the fields and the derived ones behind them. -/
lemma names_columns :
    (seen.columns p).map Column.name = seen.fieldNames ++ p.derived.map Derived.columnName := by
  rw [columns_eq_cons, List.map_cons, List.map_append, fieldColumn_name, names_otherColumns,
    names_derivedColumns, fieldNames, List.cons_append]

/-- The fields with a column are the id and the fields seen. -/
lemma exists_field_mem_columns_iff (name : String) :
    (∃ c ∈ seen.columns p, c.source = .field ∧ c.name = name) ↔ name ∈ seen.fieldNames := by
  rw [columns_eq_cons, fieldNames, ← names_otherColumns, List.mem_cons, List.mem_map]
  constructor
  · rintro ⟨c, hc, hfield, rfl⟩
    rcases List.mem_cons.1 hc with rfl | hc
    · exact .inl (fieldColumn_name ..)
    · refine .inr ⟨c, (List.mem_append.1 hc).resolve_right fun hderived => ?_, rfl⟩
      obtain ⟨i, hi, rfl⟩ := List.mem_mapIdx.1 hderived
      cases hfield
  · rintro (rfl | ⟨c, hc, rfl⟩)
    · exact ⟨_, List.mem_cons_self .., fieldColumn_source .., fieldColumn_name ..⟩
    · exact ⟨c, List.mem_cons_of_mem _ (List.mem_append_left _ hc),
        source_of_mem_otherColumns hc, rfl⟩

/-- Each column knows its place. -/
lemma ordinal_of_getElem? {c : Column} {i : Nat} (h : (seen.columns p)[i]? = some c) :
    c.ordinal = i := by
  rw [columns, List.getElem?_append] at h
  split at h
  · rw [List.getElem?_mapIdx] at h
    obtain ⟨name, -, rfl⟩ := Option.map_eq_some_iff.1 h
    exact fieldColumn_ordinal ..
  · next hi =>
    rw [List.getElem?_mapIdx] at h
    obtain ⟨d, -, rfl⟩ := Option.map_eq_some_iff.1 h
    rw [List.length_mapIdx] at hi ⊢
    exact Nat.add_sub_cancel' (Nat.le_of_not_lt hi)

/-- No field is named twice. -/
lemma Lawful.nodup_fieldNames (h : seen.Lawful) : seen.fieldNames.Nodup := by
  have hnodup : seen.names.Nodup := by
    refine h.ordered.imp fun {a b} hlt heq => ?_
    exact String.lt_irrefl b (heq ▸ hlt)
  exact List.nodup_cons.2 ⟨by simp, hnodup.filter _⟩

/-- No two columns have one name, if no field has the name of a derived column. -/
lemma Lawful.nodup_names_columns (h : seen.Lawful) (hderived : p.derived.Nodup)
    (hfree : ∀ name ∈ seen.fieldNames, p.isReserved name = false) :
    ((seen.columns p).map Column.name).Nodup := by
  rw [names_columns]
  refine List.nodup_append.2 ⟨h.nodup_fieldNames, ?_, ?_⟩
  · exact List.Nodup.map Derived.columnName_injective hderived
  · intro name hname other hother heq
    obtain ⟨d, hd, rfl⟩ := List.mem_map.1 hother
    have hreserved : p.isReserved name = true :=
      List.any_eq_true.2 ⟨d, hd, by rw [heq]; exact beq_self_eq_true _⟩
    rw [hfree name hname] at hreserved
    cases hreserved

/-- **The columns for what was seen** of cards without a field that has the name of a derived
column.

**Proof sketch.** The columns are the one of the ids, those of the other fields that occur, sorted
by the bytes of their names as the record is, and the derived ones. No two have one name: the names
of fields are distinct, and none is that of a derived column, since no field clashes. So the first
one is the only key, and positions and fields are read off. -/
theorem isSchemaOf_columns {cards : List Card} (h : seen.Lawful)
    (hnames : ∀ name, name ∈ seen.names ↔ p.Occurs cards name) (hid : p.Occurs cards idField)
    (hclash : ¬ p.Clashes cards) (hderived : p.derived.Nodup) :
    IsSchemaOf p cards (seen.columns p) := by
  have hfields : ∀ name, name ∈ seen.fieldNames ↔ p.Occurs cards name := by
    intro name
    rw [fieldNames, List.mem_cons, List.mem_filter, hnames, decide_eq_true_iff]
    by_cases hname : name = idField
    · simp [hname, hid]
    · simp [hname]
  have hdistinct : ((seen.columns p).map Column.name).Nodup := by
    refine h.nodup_names_columns hderived fun name hname => ?_
    exact Bool.eq_false_iff.2 fun hreserved => hclash ⟨name, (hfields name).1 hname, hreserved⟩
  refine ⟨⟨_, _, _, columns_eq_cons, fieldColumn_source .., fieldColumn_name .., ?_, ?_,
    sources_derivedColumns _, names_derivedColumns _⟩, ?_, ?_, hdistinct, ?_⟩
  · exact fun c => source_of_mem_otherColumns
  · have hbytes : (seen.otherColumns.map fun c => utf8Bytes c.name) =
        (seen.names.filter fun name => name ≠ idField).map utf8Bytes := by
      rw [← names_otherColumns, List.map_map]
      rfl
    rw [hbytes, List.pairwise_map]
    exact (h.ordered.filter _).imp utf8Bytes_lt_iff.2
  · intro i c hc
    have hfirst : (seen.columns p)[0]? = some (fieldColumn idField (seen.kindsOf idField) 0) := by
      rw [columns_eq_cons, List.getElem?_cons_zero]
    rw [Column.isKey, decide_eq_true_iff]
    constructor
    · rintro ⟨-, hname⟩
      exact index_eq_of_nodup_names hdistinct hc hfirst (hname.trans (fieldColumn_name ..).symm)
    · rintro rfl
      obtain rfl := Option.some.inj (hfirst.symm.trans hc)
      exact ⟨fieldColumn_source .., fieldColumn_name ..⟩
  · refine List.ext_getElem (by simp) fun i hi _ => ?_
    rw [List.getElem_map, List.getElem_range]
    exact ordinal_of_getElem? (List.getElem?_eq_getElem _)
  · intro name
    rw [exists_field_mem_columns_iff, hfields]

end Observations

/-! ## Rows -/

/-- A name that a card does not have reads as nothing. -/
lemma Fields.get?_eq_none {α : Type} {fields : Fields α} {key : String}
    (h : key ∉ Fields.keys fields) : fields.get? key = none := by
  cases hget : fields.get? key with
  | none => rfl
  | some entry => exact absurd (List.mem_map_of_mem (Fields.mem_of_get? hget)) h

/-- Only null has the empty cell. -/
lemma Column.encode_some_eq_null_iff (c : Column) (value : Value) :
    c.encode (some value) = .null ↔ value = .null := by
  cases value with
  | null => exact iff_of_true rfl rfl
  | bool b =>
    refine iff_of_false ?_ Value.noConfusion
    simp only [encode]
    split <;> exact Cell.noConfusion
  | num n =>
    refine iff_of_false ?_ Value.noConfusion
    simp only [encode, Number.cell]
    split
    · exact Cell.noConfusion
    · split <;> exact Cell.noConfusion
  | str | list | mapping => exact iff_of_false Cell.noConfusion Value.noConfusion

/-- **In the columns for a corpus each of its cards has a row** with exactly one cell for each of
its fields that counts. -/
theorem IsSchemaOf.isRowOf_encodeRow {p : Profile} {cards : List Card} {columns : List Column}
    (h : IsSchemaOf p cards columns) {card : Card} (hcard : card ∈ cards) (pack : Pack) :
    IsRowOf p columns card (encodeRow columns card pack) := by
  have hcell : ∀ {i : Nat} {c : Column}, columns[i]? = some c → c.source = .field →
      (encodeRow columns card pack)[i]? = some (c.encode (card.get? c.name)) := by
    intro i c hc hfield
    rw [encodeRow, List.getElem?_map, hc, Option.map_some, Column.cellOf, hfield]
  refine ⟨List.length_map _, ?_, ?_⟩
  · intro name value hname hvalue
    have hoccurs : p.Occurs cards name :=
      ⟨hname, card, hcard, List.mem_map_of_mem (Fields.mem_of_get? hvalue)⟩
    obtain ⟨c, hc, hfield, rfl⟩ := (h.fields name).2 hoccurs
    obtain ⟨i, hi⟩ := List.getElem?_of_mem hc
    refine ⟨i, c, _, hi, hfield, rfl, ?_, hcell hi hfield, by rw [hvalue], ?_⟩
    · exact fun j c' hj hsame => index_eq_of_nodup_names h.distinct hj hi hsame
    · rw [hvalue, Column.encode_some_eq_null_iff]
  · intro i c hc hfield habsent
    rw [hcell hc hfield, Fields.get?_eq_none habsent]
    rfl

/-- **An inferred schema and the rows of its cards.** If the profile names no derived column twice,
every schema that is inferred from cards has the shape of a schema, and each of the cards has
exactly one cell for each of its fields that counts. -/
theorem isSchemaOf_of_inferSchema {p : Profile} {cards : List Card} {columns : List Column}
    (hderived : p.derived.Nodup) (hinfer : inferSchema p cards = .ok columns) :
    IsSchemaOf p cards columns ∧
      ∀ card ∈ cards, ∀ pack, IsRowOf p columns card (encodeRow columns card pack) := by
  obtain ⟨hclash, seen, hlawful, hnames, hid, rfl⟩ := exists_seen_of_inferSchema hinfer
  have hschema := Observations.isSchemaOf_columns hlawful hnames hid hclash hderived
  exact ⟨hschema, fun card hcard pack => hschema.isRowOf_encodeRow hcard pack⟩

/-- Two cards, each with a field that the other one does not have. -/
def unevenCards : List Card :=
  [[("level", .null), ("id", .str "base1-1")], [("id", .str "base1-2"), ("name", .str "Abra")]]

/-- Their schema has the shape of a schema. -/
theorem isSchemaOf_unevenCards :
    Profile.flat.derived.Nodup ∧ ∃ columns, inferSchema .flat unevenCards = .ok columns ∧
      IsSchemaOf .flat unevenCards columns ∧
      ∀ card ∈ unevenCards, ∀ pack, IsRowOf .flat columns card (encodeRow columns card pack) := by
  have hderived : Profile.flat.derived.Nodup := by decide
  have hinfer : inferSchema .flat unevenCards = .ok _ := rfl
  exact ⟨hderived, _, hinfer, isSchemaOf_of_inferSchema hderived hinfer⟩

end CardTable
