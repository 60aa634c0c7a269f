import CardTable.Proofs.Table.Inference
import Mathlib.Data.List.Sort

set_option autoImplicit false

/-!
# Schemas of the same cards in another order

A schema is inferred from the cards one after the other, and inference stops at the first card that
it refuses. What it returns does not depend on the order all the same: neither on that of the cards
nor on that of the fields in a card, and a card counts once however often it is listed. The record
of what was seen is the same from every order, because it keeps the names sorted and of the sorts of
a field only which there are; and a corpus with a refused card is refused from every order, although
the error may name another field.

## Main definitions

* `CardTable.SameCards` — the same cards, in any order and any number of times.

## Main results

* `CardTable.Observations.columns_congr` — the columns are determined by which sorts were seen.
* `CardTable.inferSchema_of_sameCards` — inference does not depend on order or repetition.
-/

namespace CardTable

/-! ## The same cards -/

/-- The two corpora have the same cards: in any order, any number of times, and each with its fields
in any order. -/
structure SameCards (cards cards' : List Card) : Prop where
  /-- Each card of the first corpus is one of the second. -/
  forth : ∀ card ∈ cards, ∃ card' ∈ cards', card.Perm card'
  /-- Each card of the second corpus is one of the first. -/
  back : ∀ card' ∈ cards', ∃ card ∈ cards, card'.Perm card

namespace SameCards

variable {cards cards' : List Card}

/-- What holds of some card, whatever the order of its fields, holds of some card of the other
corpus. -/
lemma exists_iff (h : SameCards cards cards') {P : Card → Prop}
    (hP : ∀ card card', card.Perm card' → P card → P card') :
    (∃ card ∈ cards, P card) ↔ ∃ card ∈ cards', P card := by
  constructor
  · rintro ⟨card, hcard, h'⟩
    obtain ⟨card', hcard', hperm⟩ := h.forth card hcard
    exact ⟨card', hcard', hP _ _ hperm h'⟩
  · rintro ⟨card', hcard', h'⟩
    obtain ⟨card, hcard, hperm⟩ := h.back card' hcard'
    exact ⟨card, hcard, hP _ _ hperm h'⟩

/-- The same fields occur. -/
lemma occurs_iff (h : SameCards cards cards') (p : Profile) (name : String) :
    p.Occurs cards name ↔ p.Occurs cards' name :=
  and_congr_right fun _ => h.exists_iff fun _ _ hperm => (hperm.map Prod.fst).mem_iff.1

/-- The fields have values of the same sorts. -/
lemma shows_iff (h : SameCards cards cards') (p : Profile) (name : String) (sort : Value.Kind) :
    (∃ card ∈ cards, Observations.Shows p card name sort) ↔
      ∃ card ∈ cards', Observations.Shows p card name sort :=
  h.exists_iff fun _ _ hperm ⟨hname, value, hvalue, hsort⟩ =>
    ⟨hname, value, hperm.mem_iff.1 hvalue, hsort⟩

/-- The same fields have the name of a derived column. -/
lemma clashes_iff (h : SameCards cards cards') (p : Profile) :
    p.Clashes cards ↔ p.Clashes cards' :=
  exists_congr fun name => and_congr_left fun _ => h.occurs_iff p name

end SameCards

/-! ## The columns for what was seen -/

namespace Observations

variable {seen seen' : Observations}

/-- The order of the sorts of a field does not show in its column. -/
lemma fieldColumn_congr (name : String) {kinds kinds' : List Value.Kind}
    (h : kinds.Perm kinds') (ordinal : Nat) :
    fieldColumn name kinds ordinal = fieldColumn name kinds' ordinal := by
  by_cases hone : ∃ only, kinds = [only]
  · obtain ⟨only, rfl⟩ := hone
    rw [List.singleton_perm.1 h]
  · have hone' : ¬ ∃ only, kinds' = [only] := by
      rintro ⟨only, rfl⟩
      exact hone ⟨only, List.perm_singleton.1 h⟩
    unfold fieldColumn
    split
    · next only => exact absurd ⟨only, rfl⟩ hone
    · split
      · next only => exact absurd ⟨only, rfl⟩ hone'
      · rfl

/-- Two records with the same sorts have the same fields, in the same order. -/
lemma names_congr (h : seen.Lawful) (h' : seen'.Lawful)
    (hkinds : ∀ name sort, sort ∈ seen.kindsOf name ↔ sort ∈ seen'.kindsOf name) :
    seen.names = seen'.names := by
  refine h.ordered.eq_of_mem_iff h'.ordered fun name => ?_
  rw [← h.exists_mem_kindsOf_iff, ← h'.exists_mem_kindsOf_iff]
  exact exists_congr (hkinds name)

/-- **The columns are determined by which sorts were seen**, whatever the order in which they
were. -/
theorem columns_congr (p : Profile) (h : seen.Lawful) (h' : seen'.Lawful)
    (hkinds : ∀ name sort, sort ∈ seen.kindsOf name ↔ sort ∈ seen'.kindsOf name) :
    seen.columns p = seen'.columns p := by
  have hnames : seen.fieldNames = seen'.fieldNames := by
    rw [fieldNames, fieldNames, names_congr h h' hkinds]
  have hcolumn : ∀ name ordinal, fieldColumn name (seen.kindsOf name) ordinal =
      fieldColumn name (seen'.kindsOf name) ordinal := by
    intro name ordinal
    refine fieldColumn_congr name ?_ ordinal
    exact (List.perm_ext_iff_of_nodup (h.nodup_kindsOf name) (h'.nodup_kindsOf name)).2
      (hkinds name)
  simp only [columns, hnames, hcolumn]

end Observations

/-! ## Order and repetition -/

/-- **Inference does not depend on order or repetition.** From the same cards it returns the same
columns, or an error of the same sort: one that names a field with the name of a derived column if
there is such a field, and one that says that no card has an id otherwise.

**Proof sketch.** Whether a field has the name of a derived column, whether some card has an id and
which sorts occur in which field depends only on which cards there are. These decide the outcome,
since the columns are determined by the sorts that were seen (`Observations.columns_congr`). -/
theorem inferSchema_of_sameCards {cards cards' : List Card} (h : SameCards cards cards')
    (p : Profile) :
    (∃ columns, inferSchema p cards = .ok columns ∧ inferSchema p cards' = .ok columns) ∨
    (p.Clashes cards ∧ p.Clashes cards' ∧
      (∃ name, inferSchema p cards = .error (.reservedColumn name)) ∧
      ∃ name, inferSchema p cards' = .error (.reservedColumn name)) ∨
    (¬ p.Clashes cards ∧ ¬ p.Clashes cards' ∧
      inferSchema p cards = .error .missingId ∧ inferSchema p cards' = .error .missingId) := by
  by_cases hclash : p.Clashes cards
  · have hclash' := (h.clashes_iff p).1 hclash
    exact .inr (.inl ⟨hclash, hclash', inferSchema_of_clashes hclash,
      inferSchema_of_clashes hclash'⟩)
  · have hclash' := mt (h.clashes_iff p).2 hclash
    obtain ⟨seen, hlawful, -, hkinds, hinfer⟩ := inferSchema_of_not_clashes hclash
    obtain ⟨seen', hlawful', -, hkinds', hinfer'⟩ := inferSchema_of_not_clashes hclash'
    rw [hinfer, hinfer']
    by_cases hid : p.Occurs cards idField
    · have hcolumns : seen.columns p = seen'.columns p :=
        Observations.columns_congr p hlawful hlawful' fun name sort => by
          rw [hkinds, hkinds', h.shows_iff]
      rw [if_pos hid, if_pos ((h.occurs_iff p idField).1 hid), hcolumns]
      exact .inl ⟨_, rfl, rfl⟩
    · rw [if_neg hid, if_neg (mt (h.occurs_iff p idField).2 hid)]
      exact .inr (.inr ⟨hclash, hclash', rfl, rfl⟩)

/-- Two cards whose levels are a text and no value. -/
def mixedCards : List Card :=
  [[("id", .str "base1-1"), ("level", .str "42")], [("id", .str "base1-2"), ("level", .null)]]

/-- These cards with the second one in front, the first one listed twice, and its fields in another
order. -/
def shuffledCards : List Card :=
  [[("id", .str "base1-2"), ("level", .null)], [("level", .str "42"), ("id", .str "base1-1")],
    [("id", .str "base1-1"), ("level", .str "42")]]

/-- The two cards have the same columns from either order. -/
theorem inferSchema_shuffledCards :
    SameCards mixedCards shuffledCards ∧
      ∃ columns, inferSchema .flat mixedCards = .ok columns ∧
        inferSchema .flat shuffledCards = .ok columns := by
  have hsame : SameCards mixedCards shuffledCards := by
    constructor
    · simp [mixedCards, shuffledCards]
    · intro card hcard
      simp only [shuffledCards, List.mem_cons, List.not_mem_nil, or_false] at hcard
      rcases hcard with rfl | rfl | rfl
      · exact ⟨_, .tail _ (.head _), .rfl⟩
      · exact ⟨_, .head _, .swap ..⟩
      · exact ⟨_, .head _, .rfl⟩
  refine ⟨hsame, ?_⟩
  rcases inferSchema_of_sameCards hsame .flat with h | ⟨-, -, ⟨name, h⟩, -⟩ | ⟨-, -, h, -⟩
  · exact h
  · cases h
  · cases h

end CardTable
