import CardTable.Table.Schema
import Mathlib.Tactic.Lemma

set_option autoImplicit false

/-!
# What is seen of a card

The fields of a card are seen one after the other. A field that counts must not have the name of a
derived column: at the first one that has, the card is refused, and the fields in front of it were
seen by then.

## Main definitions

* `CardTable.Profile.admits` — the names that a field may have.
* `CardTable.Profile.accepts`, `CardTable.Profile.front` — the cards that are not refused, and what
  is seen of any card.
* `CardTable.Profile.verdict` — how a card is answered.

## Main results

* `CardTable.Profile.verdict_eq_error_iff` — the field at which a card is refused.
* `CardTable.Observations.observe_eq` — what one card does to the record, and how it is answered.
-/

namespace CardTable

namespace Profile

variable {p : Profile} {card : Card}

/-- Whether a card may have a field with this name. -/
def admits (p : Profile) (name : String) : Bool :=
  name ∈ p.excluded || !p.isReserved name

/-- Whether a card may have all its fields. -/
def accepts (p : Profile) (card : Card) : Bool :=
  card.all fun field => p.admits field.1

/-- The fields of a card in front of the first that it may not have. -/
def front (p : Profile) (card : Card) : Card :=
  card.takeWhile fun field => p.admits field.1

/-- How a card is answered. -/
def verdict (p : Profile) (card : Card) : Except SchemaError Unit :=
  match card.find? fun field => !p.admits field.1 with
  | none => .ok ()
  | some field => .error (.reservedColumn field.1)

/-- A name is refused if it is reserved and not left out. -/
lemma admits_eq_false_iff {name : String} :
    p.admits name = false ↔ name ∉ p.excluded ∧ p.isReserved name = true := by
  simp [admits]

/-- What is seen of a card is a card that it may be. -/
lemma accepts_front (p : Profile) (card : Card) : p.accepts (p.front card) = true :=
  List.all_takeWhile

/-- A card is accepted if its first field is admitted and the others are accepted. -/
@[simp] lemma accepts_cons (name : String) (value : Value) (card : Card) :
    p.accepts ((name, value) :: card) = (p.admits name && p.accepts card) :=
  List.all_cons ..

/-- The fields in front of a refused one, with one more in front. -/
lemma front_cons (name : String) (value : Value) (card : Card) :
    p.front ((name, value) :: card) =
      if p.admits name = true then (name, value) :: p.front card else [] :=
  List.takeWhile_cons ..

/-- All of an accepted card is seen. -/
lemma front_of_accepts (h : p.accepts card = true) : p.front card = card := by
  induction card with
  | nil => rfl
  | cons field card ih =>
    obtain ⟨hadmits, hrest⟩ := Bool.and_eq_true_iff.1 h
    rw [front_cons, if_pos hadmits, ih hrest]

/-- No field of an accepted card counts and has the name of a derived column. -/
lemma isReserved_of_accepts (h : p.accepts card = true) {name : String}
    (hname : name ∉ p.excluded)
    (hmem : name ∈ Fields.keys card) : p.isReserved name = false := by
  obtain ⟨field, hfield, rfl⟩ := List.mem_map.1 hmem
  have hadmits : p.admits field.1 = true := List.all_eq_true.1 h field hfield
  simpa [admits, hname] using hadmits

/-- The verdict on a card is that on its first field, if this is refused. -/
lemma verdict_cons (name : String) (value : Value) (card : Card) :
    p.verdict ((name, value) :: card) =
      if p.admits name = true then p.verdict card else .error (.reservedColumn name) := by
  unfold verdict
  cases h : p.admits name <;> simp [h]

/-- The verdict says whether a card is accepted. -/
lemma verdict_eq_ok_iff : p.verdict card = .ok () ↔ p.accepts card = true := by
  induction card with
  | nil => simp [verdict, accepts]
  | cons field card ih =>
    obtain ⟨name, value⟩ := field
    rw [verdict_cons, accepts_cons]
    cases h : p.admits name <;> simp [ih]

/-- A card is accepted, or refused because of one of its fields. -/
lemma verdict_cases (p : Profile) (card : Card) :
    p.verdict card = .ok () ∨ ∃ name, p.verdict card = .error (.reservedColumn name) := by
  unfold verdict
  split
  · exact .inl rfl
  · exact .inr ⟨_, rfl⟩

/-- A card is refused at its first field that counts and has the name of a derived column. -/
theorem verdict_eq_error_iff {name : String} : p.verdict card = .error (.reservedColumn name) ↔
    ∃ value behind, card = p.front card ++ (name, value) :: behind ∧ name ∉ p.excluded ∧
      p.isReserved name = true := by
  induction card with
  | nil => simp [verdict]
  | cons field card ih =>
    obtain ⟨first, value⟩ := field
    rw [verdict_cons, front_cons]
    cases h : p.admits first with
    | true => simp [ih]
    | false =>
      simp only [Bool.false_eq_true, if_false, List.nil_append, List.cons.injEq, Prod.mk.injEq]
      constructor
      · rintro ⟨⟩
        exact ⟨value, card, ⟨⟨rfl, rfl⟩, rfl⟩, admits_eq_false_iff.1 h⟩
      · rintro ⟨_, _, ⟨⟨rfl, -⟩, -⟩, -⟩
        rfl

end Profile

namespace Observations

/-- **What one card does to the record**: what its front part does. -/
theorem observe_eq (p : Profile) (seen : Observations) (card : Card) :
    observe p seen card = ((observe p seen (p.front card)).1, p.verdict card) := by
  induction card generalizing seen with
  | nil => rfl
  | cons field card ih =>
    obtain ⟨name, value⟩ := field
    rw [Profile.front_cons, Profile.verdict_cons]
    by_cases hexcluded : name ∈ p.excluded
    · have hadmits : p.admits name = true := by simp [Profile.admits, hexcluded]
      simp only [observe, if_pos hexcluded, if_pos hadmits]
      exact ih seen
    · cases hreserved : p.isReserved name with
      | true =>
        have hadmits : p.admits name = false := Profile.admits_eq_false_iff.2 ⟨hexcluded, hreserved⟩
        simp [observe, hexcluded, hreserved, hadmits]
      | false =>
        have hadmits : p.admits name = true := by simp [Profile.admits, hreserved]
        simp only [observe, if_neg hexcluded, hreserved, Bool.false_eq_true, if_false, if_pos hadmits]
        exact ih (seen.add name value.kind)

end Observations

end CardTable
