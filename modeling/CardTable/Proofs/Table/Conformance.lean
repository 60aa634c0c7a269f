import CardTable.Proofs.Table.Inference
import CardTable.Table.Row
import Mathlib.Tactic.Lemma

set_option autoImplicit false

/-!
# Cells and the kinds of their columns

A column declares a kind, and its cells are meant to be of that kind. They are, with one exception:
the whole numbers from `2 ^ 63` on count as whole numbers when the kind of a column is inferred, but
a cell holds whole numbers of a signed word only, so that such a number becomes a double in a column
of whole numbers.

## Main definitions

* `CardTable.Cell.fits` — whether a cell is of the kind that its column declares.
* `CardTable.Column.overflows` — whether a card has a whole number too large for a cell there.

## Main results

* `CardTable.Column.fits_encode_iff` — one value in the column of its field.
* `CardTable.fits_encodeRow_iff` — a cell of a row is of the declared kind exactly if it does not
  overflow.
-/

namespace CardTable

/-! ## Kinds of cells -/

/-- Whether a cell is one that a column of the given kind is meant to hold: no value, or a value of
this kind. A date is kept as its text. -/
def Cell.fits : ColumnKind → Cell → Bool
  | _, .null => true
  | .integer, .integer _ => true
  | .real, .real _ => true
  | .text, .text _ => true
  | .date, .text _ => true
  | _, _ => false

/-- Whether a value is a whole number beyond the signed 64-bit words. -/
def Value.isOversized : Value → Bool
  | .num (.whole n _) => !decide (Signed n)
  | _ => false

/-- Whether the value of a card in the column `c` is too large for a cell: in a column that drifts
a number is kept as its text, and nothing is too large. -/
def Column.overflows (c : Column) (card : Card) : Bool :=
  !c.drift && (card.get? c.name).any Value.isOversized

/-- What is too large is a whole number in a column that does not drift. -/
lemma Column.overflows_iff {c : Column} {card : Card} :
    c.overflows card = true ↔ c.drift = false ∧
      ∃ n wide, card.get? c.name = some (.num (.whole n wide)) ∧ ¬ Signed n := by
  unfold overflows
  rw [Bool.and_eq_true, Bool.not_eq_true']
  refine and_congr_right fun _ => ?_
  cases card.get? c.name with
  | none =>
    constructor
    · intro h
      cases h
    · rintro ⟨n, wide, h, -⟩
      cases h
  | some v =>
    rw [Option.any_some]
    unfold Value.isOversized
    split
    · next n wide =>
      rw [Bool.not_eq_true', decide_eq_false_iff_not]
      constructor
      · exact fun h => ⟨n, wide, rfl, h⟩
      · rintro ⟨m, _, heq, h⟩
        obtain ⟨rfl⟩ : n = m := by simpa using heq
        exact h
    · next hother =>
      constructor
      · intro h
        cases h
      · rintro ⟨n, wide, heq, -⟩
        exact absurd (Option.some.inj heq) (hother n wide)

/-! ## One value -/

namespace Observations

/-- The column of a field reads the field. -/
@[simp] lemma fieldColumn_source (name : String) (kinds : List Value.Kind) (ordinal : Nat) :
    (fieldColumn name kinds ordinal).source = .field := by
  unfold fieldColumn
  split <;> rfl

/-- A field whose values are of several sorts is kept as text. -/
lemma fieldColumn_kind_of_drift {name : String} {kinds : List Value.Kind} {ordinal : Nat}
    (h : (fieldColumn name kinds ordinal).drift = true) :
    (fieldColumn name kinds ordinal).kind = .text := by
  unfold fieldColumn at h ⊢
  split at h
  · cases h
  · rfl

/-- A field that does not drift is kept in the kind of each of its values. -/
lemma fieldColumn_kind_of_mem {name : String} {kinds : List Value.Kind} {ordinal : Nat}
    {sort : Value.Kind} (h : (fieldColumn name kinds ordinal).drift = false)
    (hsort : sort ∈ kinds) : (fieldColumn name kinds ordinal).kind = .ofKind sort := by
  unfold fieldColumn at h ⊢
  split at h
  · obtain rfl := List.mem_singleton.1 hsort
    rfl
  · cases h

end Observations

namespace Column

/-- In a column that drifts every cell is a text or empty. -/
lemma fits_encode_of_drift {c : Column} (h : c.drift = true) (v : Value) :
    (c.encode (some v)).fits .text = true := by
  cases v <;> simp [encode, h, Cell.fits]

/-- A whole number becomes a whole number if a signed word holds it, and a double otherwise. -/
lemma encode_whole {c : Column} (h : c.drift = false) (n : Int) (wide : Wide n) :
    c.encode (some (.num (.whole n wide))) =
      if Signed n then .integer n else .real (Number.whole n wide).toDouble := by
  by_cases hsigned : Signed n
  · simp only [encode, h, Number.cell, Number.signed?, if_pos hsigned, Bool.false_eq_true, if_false]
  · simp only [encode, h, Number.cell, Number.signed?, if_neg hsigned, Bool.false_eq_true, if_false]

/-- In a column of the kind of its sort, a value is stored as a cell of this kind unless it is too
large. -/
theorem fits_encode_iff {c : Column} (h : c.drift = false) (v : Value) :
    (c.encode (some v)).fits (.ofKind v.kind) = true ↔ v.isOversized = false := by
  cases v with
  | num n =>
    cases n with
    | whole n wide =>
      rw [encode_whole h]
      by_cases hsigned : Signed n
      · simp only [if_pos hsigned, Cell.fits, Value.isOversized, decide_eq_true hsigned,
          ColumnKind.ofKind, Value.kind, Bool.not_true]
      · simp only [if_neg hsigned, Cell.fits, Value.isOversized, decide_eq_false hsigned,
          ColumnKind.ofKind, Value.kind, Bool.not_false, Bool.false_eq_true, Bool.true_eq_false]
    | double x =>
      simp [encode, h, Number.cell, Number.signed?, Number.toDouble, Cell.fits,
        Value.isOversized, ColumnKind.ofKind, Value.kind]
  | null | bool | str | list | mapping =>
    simp [encode, h, Cell.fits, Value.isOversized, ColumnKind.ofKind, Value.kind]

end Column

/-! ## The cells of a corpus -/

section Corpus

variable {p : Profile} {cards : List Card} {columns : List Column} {card : Card} {c : Column}

/-- A field column of a corpus has the sort of each value that its field has in the corpus. -/
lemma exists_kinds_of_inferSchema (hinfer : inferSchema p cards = .ok columns)
    (hc : c ∈ columns) (hfield : c.source = .field) :
    ∃ kinds ordinal, c = Observations.fieldColumn c.name kinds ordinal ∧
      ∀ card ∈ cards, ∀ v, card.get? c.name = some v → v.kind ∈ kinds := by
  obtain ⟨seen, hobserve, hschema⟩ := inferSchema_eq_ok_iff.1 hinfer
  have hlawful : seen.Lawful := Observations.Lawful.nil.observeAll hobserve
  obtain ⟨hname, ordinal, hcolumn⟩ :=
    Observations.eq_fieldColumn_of_mem_schema hlawful hschema hc hfield
  refine ⟨seen.kindsOf c.name, ordinal, hcolumn, ?_⟩
  intro card hcard v hv
  have hseen := Observations.mem_kindsOf_observeAll Observations.Lawful.nil hobserve c.name
  -- a field that some card shows is not excluded, so that this card shows it too
  obtain ⟨sort, hsort⟩ := List.exists_mem_of_ne_nil _ (hlawful.kindsOf_ne_nil hname)
  obtain ⟨_, -, hincluded, -⟩ :=
    ((hseen sort).1 hsort).resolve_left (by simp [Observations.kindsOf])
  exact (hseen v.kind).2 (.inr ⟨card, hcard, hincluded, v, Fields.mem_of_get? hv, rfl⟩)

/-- A cell of a corpus is of the kind that its column declares unless its value is too large. A
field that drifts is kept in a column of texts, and the whole numbers of another field are exact
where a signed word holds them. -/
lemma cellOf_fits_iff (hinfer : inferSchema p cards = .ok columns) (hcard : card ∈ cards)
    (pack : Pack) (hc : c ∈ columns) (hfield : c.source = .field) :
    ((c.cellOf card pack).fits c.kind = true ↔ c.overflows card = false) ∧
      (c.drift = true → c.kind = .text) ∧
      ∀ n wide, c.drift = false → card.get? c.name = some (.num (.whole n wide)) →
        c.kind = .integer ∧ (c.cellOf card pack = .integer n ↔ Signed n) := by
  obtain ⟨kinds, ordinal, hcolumn, hkinds⟩ := exists_kinds_of_inferSchema hinfer hc hfield
  have hcell : c.cellOf card pack = c.encode (card.get? c.name) := by
    simp only [Column.cellOf, hfield]
  have hdrifting : c.drift = true → c.kind = .text := by
    rw [hcolumn]
    exact Observations.fieldColumn_kind_of_drift
  have hkind : c.drift = false → ∀ v, card.get? c.name = some v → c.kind = .ofKind v.kind := by
    intro hdrift v hv
    have hsort := hkinds card hcard v hv
    rw [hcolumn] at hdrift ⊢
    exact Observations.fieldColumn_kind_of_mem hdrift hsort
  refine ⟨?_, hdrifting, ?_⟩
  · rw [hcell]
    unfold Column.overflows
    cases hv : card.get? c.name with
    | none => cases c.kind <;> simp [Column.encode, Cell.fits]
    | some v =>
      cases hdrift : c.drift with
      | true => simpa [hdrifting hdrift] using Column.fits_encode_of_drift hdrift v
      | false => simpa [hkind hdrift v hv] using Column.fits_encode_iff hdrift v
  · intro n wide hdrift hv
    refine ⟨hkind hdrift _ hv, ?_⟩
    rw [hcell, hv, Column.encode_whole hdrift]
    by_cases hsigned : Signed n
    · rw [if_pos hsigned]
      exact iff_of_true rfl hsigned
    · rw [if_neg hsigned]
      refine iff_of_false ?_ hsigned
      intro hstored
      cases hstored

/-- **The cells of a row are of the kinds that their columns declare**, except for whole numbers
beyond the signed words in a column of whole numbers. All other whole numbers are stored exactly
there, and a field that drifts is kept in a column of texts. -/
theorem fits_encodeRow_iff (hinfer : inferSchema p cards = .ok columns) (hcard : card ∈ cards)
    (pack : Pack) {i : Nat} (hc : columns[i]? = some c) (hfield : c.source = .field) :
    ∃ cell, (encodeRow columns card pack)[i]? = some cell ∧
      (cell.fits c.kind = true ↔ c.overflows card = false) ∧
      (c.drift = true → c.kind = .text) ∧
      ∀ n wide, c.drift = false → card.get? c.name = some (.num (.whole n wide)) →
        c.kind = .integer ∧ (cell = .integer n ↔ Signed n) := by
  have hmem : c ∈ columns := List.mem_of_getElem? hc
  refine ⟨c.cellOf card pack, ?_, cellOf_fits_iff hinfer hcard pack hmem hfield⟩
  rw [encodeRow, List.getElem?_map, hc, Option.map_some]

end Corpus

/-- A card with a number that only an unsigned word holds. -/
def unsignedCard : Card :=
  [("id", .str "base1-1"), ("hp", .num (.whole 9223372036854775808 (by decide)))]

/-- Where `2 ^ 63` is the only value of its field, its column is one of whole numbers and its cell
is none. -/
theorem unsignedCard_not_fits :
    ∃ columns, inferSchema .flat [unsignedCard] = .ok columns ∧
      ∃ c cell, columns[1]? = some c ∧ c.source = .field ∧ c.kind = .integer ∧
        (encodeRow columns unsignedCard {})[1]? = some cell ∧ cell.fits c.kind = false := by
  refine ⟨_, rfl, ⟨"hp", .integer, 1, .field, false⟩, ?_⟩
  have hinfer : inferSchema .flat [unsignedCard] = .ok _ := rfl
  obtain ⟨cell, hcell, hfits, -, -⟩ := fits_encodeRow_iff (i := 1)
    (c := ⟨"hp", .integer, 1, .field, false⟩) hinfer (List.mem_cons_self ..) {} rfl rfl
  refine ⟨cell, rfl, rfl, rfl, hcell, ?_⟩
  rw [← Bool.not_eq_true, hfits]
  intro hkind
  cases hkind

end CardTable
