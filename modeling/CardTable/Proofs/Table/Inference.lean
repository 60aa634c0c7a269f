import CardTable.Proofs.Table.SeenFields
import Mathlib.Tactic.Lemma

set_option autoImplicit false

/-!
# What inference has seen

Inference keeps, for each field, the sorts of the values seen so far. This file says what that
record holds after any number of cards: exactly the sorts that occur in them. The columns of a
schema are read off from it.

## Main definitions

* `CardTable.Profile.Occurs` — whether a field counts and occurs in some card.
* `CardTable.Profile.Clashes` — whether such a field has the name of a derived column.
* `CardTable.Observations.kindsOf` — the sorts of values seen in a field.
* `CardTable.Observations.Lawful` — each field stands once, in order, with the sorts seen in it.

## Main results

* `CardTable.Observations.mem_kindsOf_add` — seeing one value adds its sort to its field.
* `CardTable.Observations.mem_kindsOf_observeAll` — after a corpus was observed, a field has
  exactly the sorts of its values in the corpus.
* `CardTable.Observations.observeAll_cases` — a corpus is refused exactly if a field that counts
  has the name of a derived column.
* `CardTable.Observations.schema_eq` — the schema, made of the names of the fields and their sorts.
* `CardTable.Observations.eq_fieldColumn_of_mem_schema` — the column of a field is made of the
  sorts seen in it.
* `CardTable.inferSchema_of_clashes`, `CardTable.inferSchema_of_not_clashes` — when inference
  succeeds, and which error it returns otherwise.
-/

namespace CardTable

/-- Whether the field `name` counts and some card has it. -/
def Profile.Occurs (p : Profile) (cards : List Card) (name : String) : Prop :=
  name ∉ p.excluded ∧ ∃ card ∈ cards, name ∈ Fields.keys card

instance (p : Profile) (cards : List Card) (name : String) : Decidable (p.Occurs cards name) :=
  inferInstanceAs (Decidable (_ ∧ _))

/-- Whether some card has a field that counts and has the name of a derived column. -/
def Profile.Clashes (p : Profile) (cards : List Card) : Prop :=
  ∃ name, p.Occurs cards name ∧ p.isReserved name = true

namespace Observations

/-! ## The record of sorts -/

/-- The names of the fields seen. -/
def names (seen : Observations) : List String :=
  seen.map Prod.fst

/-- The sorts of values seen in the field `name`. -/
def kindsOf (seen : Observations) (name : String) : List Value.Kind :=
  (seen.lookup name).getD []

/-- A record of sorts: the fields stand in the order of their names, and each of them has at least
one sort and no sort twice. -/
structure Lawful (seen : Observations) : Prop where
  /-- The names ascend. -/
  ordered : seen.names.Pairwise (· < ·)
  /-- A field that is there was seen. -/
  inhabited : ∀ field ∈ seen, field.2 ≠ []
  /-- A sort counts once. -/
  distinct : ∀ field ∈ seen, field.2.Nodup

/-- Before any card there is nothing to keep. -/
lemma Lawful.nil : Lawful [] :=
  ⟨List.Pairwise.nil, by simp, by simp⟩

/-- Observations stay lawful without the first of them. -/
lemma Lawful.tail {field : String × List Value.Kind} {rest : Observations}
    (h : Lawful (field :: rest)) : Lawful rest where
  ordered := (List.pairwise_cons.1 h.ordered).2
  inhabited f hf := h.inhabited f (List.mem_cons_of_mem _ hf)
  distinct f hf := h.distinct f (List.mem_cons_of_mem _ hf)

/-- The first name is in front of all others. -/
lemma Lawful.head_lt {field : String × List Value.Kind} {rest : Observations} {name : String}
    (h : Lawful (field :: rest)) (hname : name ∈ rest.names) : field.1 < name :=
  (List.pairwise_cons.1 h.ordered).1 name hname

/-- A field in front of all others keeps the record lawful. -/
lemma Lawful.cons {field : String × List Value.Kind} {rest : Observations} (h : rest.Lawful)
    (hlt : ∀ name ∈ rest.names, field.1 < name) (hkinds : field.2 ≠ []) (hnodup : field.2.Nodup) :
    Lawful (field :: rest) where
  ordered := List.pairwise_cons.2 ⟨hlt, h.ordered⟩
  inhabited := List.forall_mem_cons.2 ⟨hkinds, h.inhabited⟩
  distinct := List.forall_mem_cons.2 ⟨hnodup, h.distinct⟩

/-- The kinds of a field with one more observation in front. -/
lemma kindsOf_cons (other : String) (kinds : List Value.Kind) (rest : Observations)
    (name : String) :
    kindsOf ((other, kinds) :: rest) name = if name = other then kinds else rest.kindsOf name := by
  unfold kindsOf
  rw [List.lookup_cons]
  by_cases h : name = other
  · simp [h]
  · have hne : (name == other) = false := by simpa using h
    simp [hne, h]

/-- A name that was not seen has no sorts. -/
lemma kindsOf_eq_nil {seen : Observations} {name : String} (h : name ∉ seen.names) :
    seen.kindsOf name = [] := by
  induction seen with
  | nil => rfl
  | cons field rest ih =>
    obtain ⟨hne, hrest⟩ : name ≠ field.1 ∧ name ∉ names rest := by simpa [names] using h
    rw [kindsOf_cons, if_neg hne]
    exact ih hrest

/-- The sorts of a field are those that stand beside it. -/
lemma kindsOf_of_mem {seen : Observations} {field : String × List Value.Kind}
    (h : seen.Lawful) (hmem : field ∈ seen) : seen.kindsOf field.1 = field.2 := by
  induction seen with
  | nil => exact absurd hmem List.not_mem_nil
  | cons first rest ih =>
    rw [kindsOf_cons]
    rcases List.mem_cons.1 hmem with rfl | hrest
    · rw [if_pos rfl]
    · have hlt : first.1 < field.1 := h.head_lt (List.mem_map_of_mem hrest)
      have hne : field.1 ≠ first.1 := fun heq => String.lt_irrefl _ (heq ▸ hlt)
      rw [if_neg hne]
      exact ih h.tail hrest

/-- A name that was seen has sorts. -/
lemma Lawful.kindsOf_ne_nil {seen : Observations} {name : String} (h : seen.Lawful)
    (hname : name ∈ seen.names) : seen.kindsOf name ≠ [] := by
  obtain ⟨field, hfield, rfl⟩ := List.mem_map.1 hname
  rw [kindsOf_of_mem h hfield]
  exact h.inhabited field hfield

/-- A field was seen exactly if a value of it was. -/
lemma Lawful.exists_mem_kindsOf_iff {seen : Observations} (h : seen.Lawful) (name : String) :
    (∃ sort, sort ∈ seen.kindsOf name) ↔ name ∈ seen.names := by
  constructor
  · rintro ⟨sort, hsort⟩
    refine Decidable.byContradiction fun hname => ?_
    rw [kindsOf_eq_nil hname] at hsort
    cases hsort
  · exact fun hname => List.exists_mem_of_ne_nil _ (h.kindsOf_ne_nil hname)

/-- No sort stands twice in a field. -/
lemma Lawful.nodup_kindsOf {seen : Observations} (h : seen.Lawful) (name : String) :
    (seen.kindsOf name).Nodup := by
  by_cases hname : name ∈ seen.names
  · obtain ⟨field, hfield, rfl⟩ := List.mem_map.1 hname
    rw [kindsOf_of_mem h hfield]
    exact h.distinct field hfield
  · rw [kindsOf_eq_nil hname]
    exact List.nodup_nil

/-! ## Seeing one value -/

/-- The names that have been seen once one more is. -/
lemma mem_names_add (seen : Observations) (name other : String) (kind : Value.Kind) :
    other ∈ (seen.add name kind).names ↔ other = name ∨ other ∈ seen.names := by
  induction seen with
  | nil => simp [add, names]
  | cons field rest ih =>
    simp only [names] at ih
    unfold add
    split
    · next heq => simp [names, heq]
    · split
      · simp [names]
      · simp only [names, List.map_cons, List.mem_cons, ih]
        constructor
        · rintro (h | h | h)
          · exact .inr (.inl h)
          · exact .inl h
          · exact .inr (.inr h)
        · rintro (h | h | h)
          · exact .inr (.inl h)
          · exact .inl h
          · exact .inr (.inr h)

/-- A name that is neither the first one nor in front of it is behind it. -/
lemma lt_of_not_namesBefore {name other : String} (hne : name ≠ other)
    (h : ¬ namesBefore name other = true) : other < name := by
  have hle : other ≤ name := by
    rw [namesBefore, decide_eq_true_iff] at h
    exact String.not_lt.1 h
  rcases Decidable.em (other < name) with hlt | hlt
  · exact hlt
  · exact absurd (String.le_antisymm (String.not_lt.1 hlt) hle) hne

/-- A sort that is seen once more stands once in the list. -/
lemma kinds_ne_nil_and_nodup {kinds : List Value.Kind} (hkinds : kinds ≠ [])
    (hnodup : kinds.Nodup) (kind : Value.Kind) :
    (if kind ∈ kinds then kinds else kinds ++ [kind]) ≠ [] ∧
      (if kind ∈ kinds then kinds else kinds ++ [kind]).Nodup := by
  split
  · exact ⟨hkinds, hnodup⟩
  · next hnew =>
    refine ⟨by simp, List.nodup_append.2 ⟨hnodup, by simp, ?_⟩⟩
    intro a ha b hb
    obtain rfl : b = kind := by simpa using hb
    exact fun hab => hnew (hab ▸ ha)

/-- Seeing a value keeps the record lawful. -/
lemma Lawful.add {seen : Observations} (h : seen.Lawful) (name : String) (kind : Value.Kind) :
    (seen.add name kind).Lawful := by
  induction seen with
  | nil =>
    exact Lawful.nil.cons (by simp [names]) (List.cons_ne_nil _ _) (List.pairwise_singleton ..)
  | cons field rest ih =>
    obtain ⟨other, kinds⟩ := field
    have hkinds : kinds ≠ [] := h.inhabited _ (List.mem_cons_self ..)
    have hnodup : kinds.Nodup := h.distinct _ (List.mem_cons_self ..)
    unfold Observations.add
    split
    · -- the field is there: only its sorts change
      obtain ⟨hne, hdistinct⟩ := kinds_ne_nil_and_nodup hkinds hnodup kind
      exact h.tail.cons (fun _ => h.head_lt) hne hdistinct
    · next hne =>
      split
      · -- the field is new and goes in front
        next hbefore =>
        have hlt : name < other := by simpa [namesBefore] using hbefore
        refine h.cons ?_ (List.cons_ne_nil _ _) (List.pairwise_singleton ..)
        intro b hb
        rcases List.mem_cons.1 hb with rfl | hrest
        · exact hlt
        · exact String.lt_trans hlt (h.head_lt hrest)
      · -- the field belongs further back
        next hbehind =>
        refine (ih h.tail).cons ?_ hkinds hnodup
        intro b hb
        rcases (mem_names_add rest name b kind).1 hb with rfl | hrest
        · exact lt_of_not_namesBefore hne hbehind
        · exact h.head_lt hrest

/-- Seeing one value adds its sort to the sorts of its field, and to nothing else. -/
theorem mem_kindsOf_add {seen : Observations} (h : seen.Lawful) (name other : String)
    (kind sort : Value.Kind) :
    sort ∈ (seen.add name kind).kindsOf other ↔
      sort ∈ seen.kindsOf other ∨ other = name ∧ sort = kind := by
  induction seen with
  | nil =>
    have hnil : kindsOf [] other = [] := rfl
    simp only [add, kindsOf_cons, hnil]
    split <;> simp_all
  | cons field rest ih =>
    obtain ⟨first, kinds⟩ := field
    unfold add
    split
    · next heq =>
      subst heq
      simp only [kindsOf_cons]
      by_cases hother : other = name
      · simp only [hother, if_true, true_and]
        split
        · next hmem => exact ⟨.inl, fun hs => hs.elim id fun heq => heq ▸ hmem⟩
        · simp
      · simp [hother]
    · next hne =>
      split
      · next hbefore =>
        have hlt : name < first := by simpa [namesBefore] using hbefore
        have hnew : name ∉ names ((first, kinds) :: rest) := by
          intro hmem
          rcases List.mem_cons.1 hmem with heq | hrest
          · exact hne heq
          · exact String.lt_irrefl _ (String.lt_trans hlt (h.head_lt hrest))
        rw [kindsOf_cons]
        by_cases hother : other = name
        · rw [if_pos hother, hother, kindsOf_eq_nil hnew]
          simp
        · simp [hother]
      · simp only [kindsOf_cons]
        by_cases hother : other = first
        · have hname : ¬ first = name := fun heq => hne heq.symm
          simp [hother, hname]
        · simp only [if_neg hother]
          exact ih h.tail

/-! ## Observing cards -/

/-- Whether the field `name` of a card counts as a field with a value of the sort `sort`. -/
def Shows (p : Profile) (card : Card) (name : String) (sort : Value.Kind) : Prop :=
  name ∉ p.excluded ∧ ∃ value, (name, value) ∈ card ∧ value.kind = sort

/-- What a card shows is what its first field shows, and what the other ones show. -/
lemma shows_cons {p : Profile} {field : String × Value} {rest : Card} {name : String}
    {sort : Value.Kind} :
    Shows p (field :: rest) name sort ↔
      (field.1 ∉ p.excluded ∧ field.1 = name ∧ field.2.kind = sort) ∨ Shows p rest name sort := by
  constructor
  · rintro ⟨hname, value, hvalue, hsort⟩
    rcases List.mem_cons.1 hvalue with rfl | hrest
    · exact .inl ⟨hname, rfl, hsort⟩
    · exact .inr ⟨hname, value, hrest, hsort⟩
  · rintro (⟨hname, rfl, hsort⟩ | ⟨hname, value, hvalue, hsort⟩)
    · exact ⟨hname, field.2, List.mem_cons_self .., hsort⟩
    · exact ⟨hname, value, List.mem_cons_of_mem _ hvalue, hsort⟩

/-- Observing a card keeps the record lawful, also if the card is refused. -/
lemma Lawful.observe {seen seen' : Observations} {p : Profile} {card : Card}
    {r : Except SchemaError Unit} (h : seen.Lawful)
    (hobserve : Observations.observe p seen card = (seen', r)) : seen'.Lawful := by
  induction card generalizing seen with
  | nil =>
    obtain ⟨rfl, -⟩ : seen = seen' ∧ _ := by simpa [Observations.observe] using hobserve
    exact h
  | cons field rest ih =>
    obtain ⟨name, value⟩ := field
    unfold Observations.observe at hobserve
    split at hobserve
    · exact ih h hobserve
    · split at hobserve
      · obtain ⟨rfl, -⟩ : seen = seen' ∧ _ := by simpa using hobserve
        exact h
      · exact ih (h.add name value.kind) hobserve

/-- A card that is accepted adds the sorts of its values to their fields, and nothing else. -/
lemma mem_kindsOf_observe {seen seen' : Observations} {p : Profile} {card : Card}
    (h : seen.Lawful) (hobserve : observe p seen card = (seen', .ok ())) (name : String)
    (sort : Value.Kind) :
    sort ∈ seen'.kindsOf name ↔ sort ∈ seen.kindsOf name ∨ Shows p card name sort := by
  induction card generalizing seen with
  | nil =>
    obtain rfl : seen = seen' := by simpa [observe] using hobserve
    simp [Shows]
  | cons field rest ih =>
    obtain ⟨first, value⟩ := field
    unfold observe at hobserve
    split at hobserve
    · next hexcluded =>
      rw [ih h hobserve, shows_cons]
      simp [hexcluded]
    · next hincluded =>
      split at hobserve
      · simp at hobserve
      · rw [ih (h.add first value.kind) hobserve, mem_kindsOf_add h, shows_cons, or_assoc]
        simp only [hincluded, not_false_eq_true, true_and, eq_comm (a := name), eq_comm (a := sort)]

/-- A corpus that is observed from a lawful record leaves a lawful record. -/
lemma Lawful.observeAll {seen seen' : Observations} {p : Profile} {cards : List Card}
    (h : seen.Lawful) (hobserve : Observations.observeAll p seen cards = .ok seen') :
    seen'.Lawful := by
  induction cards generalizing seen with
  | nil =>
    obtain rfl : seen = seen' := by simpa [Observations.observeAll] using hobserve
    exact h
  | cons card rest ih =>
    unfold Observations.observeAll at hobserve
    split at hobserve
    · next hcard => exact ih (h.observe hcard) hobserve
    · cases hobserve

/-- After a corpus was observed, a field has the sorts of its values in the corpus. -/
theorem mem_kindsOf_observeAll {seen seen' : Observations} {p : Profile} {cards : List Card}
    (h : seen.Lawful) (hobserve : observeAll p seen cards = .ok seen') (name : String)
    (sort : Value.Kind) :
    sort ∈ seen'.kindsOf name ↔
      sort ∈ seen.kindsOf name ∨ ∃ card ∈ cards, Shows p card name sort := by
  induction cards generalizing seen with
  | nil =>
    obtain rfl : seen = seen' := by simpa [observeAll] using hobserve
    simp
  | cons card rest ih =>
    unfold observeAll at hobserve
    split at hobserve
    · next hcard =>
      rw [ih (h.observe hcard) hobserve, mem_kindsOf_observe h hcard]
      simp [or_assoc]
    · cases hobserve

/-! ## Refused cards -/

/-- A card is refused at its first field that counts and has the name of a derived column, and
accepted if it has none. -/
lemma observe_cases (p : Profile) (seen : Observations) (card : Card) :
    (∃ name, p.Occurs [card] name ∧ p.isReserved name = true ∧
      ∃ seen', observe p seen card = (seen', .error (.reservedColumn name))) ∨
    (∀ name, p.Occurs [card] name → p.isReserved name = false) ∧
      ∃ seen', observe p seen card = (seen', .ok ()) := by
  simp only [Profile.Occurs, List.mem_singleton, exists_eq_left]
  rw [observe_eq]
  rcases p.verdict_cases card with hok | ⟨name, herror⟩
  · refine .inr ⟨fun name hname => ?_, _, by rw [hok]⟩
    exact Profile.isReserved_of_accepts (Profile.verdict_eq_ok_iff.1 hok) hname.1 hname.2
  · obtain ⟨value, behind, hcard, hname, hreserved⟩ := Profile.verdict_eq_error_iff.1 herror
    have hmem : name ∈ Fields.keys card := by
      rw [hcard]
      simp [Fields.keys]
    exact .inl ⟨name, ⟨hname, hmem⟩, hreserved, _, by rw [herror]⟩

/-- A corpus is refused if a field that counts has the name of a derived column, and accepted
otherwise. -/
theorem observeAll_cases (p : Profile) (seen : Observations) (cards : List Card) :
    (∃ name, p.Occurs cards name ∧ p.isReserved name = true ∧
      observeAll p seen cards = .error (.reservedColumn name)) ∨
    (∀ name, p.Occurs cards name → p.isReserved name = false) ∧
      ∃ seen', observeAll p seen cards = .ok seen' := by
  induction cards generalizing seen with
  | nil => exact .inr ⟨fun name ⟨_, card, hcard, _⟩ => absurd hcard List.not_mem_nil, seen, rfl⟩
  | cons card rest ih =>
    have hoccurs : ∀ name, p.Occurs (card :: rest) name ↔
        p.Occurs [card] name ∨ p.Occurs rest name := by
      intro name
      simp only [Profile.Occurs, List.mem_cons, List.not_mem_nil, or_false,
        exists_eq_or_imp, exists_eq_left, and_or_left]
    simp only [hoccurs, observeAll]
    rcases observe_cases p seen card with ⟨name, hname, hreserved, seen', h⟩ | ⟨hfree, seen', h⟩
    · exact .inl ⟨name, .inl hname, hreserved, by rw [h]⟩
    · rw [h]
      refine (ih seen').imp ?_ ?_
      · exact fun ⟨name, hname, hrest⟩ => ⟨name, .inr hname, hrest⟩
      · exact fun ⟨hfreeRest, hrest⟩ =>
          ⟨fun name hname => hname.elim (hfree name) (hfreeRest name), hrest⟩

/-- What was seen of a corpus from the start: the fields that occur. -/
lemma mem_names_observeAll {seen : Observations} {p : Profile} {cards : List Card}
    (hobserve : observeAll p [] cards = .ok seen) (name : String) :
    name ∈ seen.names ↔ p.Occurs cards name := by
  rw [← (Lawful.nil.observeAll hobserve).exists_mem_kindsOf_iff]
  simp only [mem_kindsOf_observeAll Lawful.nil hobserve]
  constructor
  · rintro ⟨sort, hsort | ⟨card, hcard, hname, value, hvalue, -⟩⟩
    · cases hsort
    · exact ⟨hname, card, hcard, List.mem_map_of_mem hvalue⟩
  · rintro ⟨hname, card, hcard, hkey⟩
    obtain ⟨⟨_, value⟩, hvalue, rfl⟩ := List.mem_map.1 hkey
    exact ⟨value.kind, .inr ⟨card, hcard, hname, value, hvalue, rfl⟩⟩

/-! ## Schemas -/

/-- The names of the field columns: the id, and the other fields in order. -/
def fieldNames (seen : Observations) : List String :=
  idField :: seen.names.filter fun name => name ≠ idField

/-- The columns for the fields seen and the derived columns. -/
def columns (p : Profile) (seen : Observations) : List Column :=
  (seen.fieldNames.mapIdx fun i name => fieldColumn name (seen.kindsOf name) i) ++
    p.derived.mapIdx fun i d => derivedColumn d (seen.fieldNames.length + i)

/-- There is a schema exactly if an id was seen, and then it is made of the names of the fields and
the sorts seen in them. -/
theorem schema_eq {seen : Observations} (h : seen.Lawful) (p : Profile) :
    schema p seen = if idField ∈ seen.names then .ok (seen.columns p) else .error .missingId := by
  unfold schema
  split
  · next hid =>
    have hnone : idField ∉ seen.names := by
      intro hmem
      obtain ⟨field, hfield, hname⟩ := List.mem_map.1 hmem
      simpa [hname] using List.lookup_eq_none_iff.1 hid field hfield
    rw [if_neg hnone]
  · next idKinds hid =>
    have hmem : (idField, idKinds) ∈ seen := by
      obtain ⟨before, behind, rfl, -⟩ := List.lookup_eq_some_iff.1 hid
      simp
    have hfields : ((idField, idKinds) :: seen.filter fun field => field.1 ≠ idField) =
        seen.fieldNames.map fun name => (name, seen.kindsOf name) := by
      rw [fieldNames, List.map_cons, kindsOf_of_mem h hmem, names, List.filter_map, List.map_map]
      refine congrArg _ ((List.map_id _).symm.trans (List.map_congr_left fun field hfield => ?_))
      rw [Function.comp_apply, kindsOf_of_mem h (List.mem_filter.1 hfield).1]
      rfl
    have hname : idField ∈ seen.names := List.mem_map_of_mem hmem
    simp only [if_pos hname, hfields, columns, List.length_map]
    refine congrArg (fun fields => Except.ok (fields ++ _)) ?_
    apply List.ext_getElem <;> simp

/-- A schema is made of observations with an id. -/
lemma schema_eq_ok_iff {seen : Observations} {p : Profile} {columns : List Column}
    (h : seen.Lawful) :
    schema p seen = .ok columns ↔ idField ∈ seen.names ∧ seen.columns p = columns := by
  rw [schema_eq h]
  split
  · next hid => simp [hid]
  · next hid => simp [hid]

/-- A column that reads a field of the cards is made of the sorts seen in this field. -/
theorem eq_fieldColumn_of_mem_schema {seen : Observations} {p : Profile} {columns : List Column}
    {c : Column} (h : seen.Lawful) (hschema : schema p seen = .ok columns) (hc : c ∈ columns)
    (hfield : c.source = .field) :
    c.name ∈ seen.names ∧ ∃ ordinal, c = fieldColumn c.name (seen.kindsOf c.name) ordinal := by
  have hname : ∀ name kinds ordinal, (fieldColumn name kinds ordinal).name = name := by
    intro name kinds ordinal
    unfold fieldColumn
    split <;> rfl
  obtain ⟨hid, rfl⟩ := (schema_eq_ok_iff h).1 hschema
  rcases List.mem_append.1 hc with hfields | hderived
  · obtain ⟨i, hi, rfl⟩ := List.mem_mapIdx.1 hfields
    generalize hf : seen.fieldNames[i] = name
    rw [hname]
    refine ⟨?_, i, rfl⟩
    rcases List.mem_cons.1 (hf ▸ List.getElem_mem hi) with rfl | hrest
    · exact hid
    · exact (List.mem_filter.1 hrest).1
  · obtain ⟨i, hi, rfl⟩ := List.mem_mapIdx.1 hderived
    cases hfield

/-- The first column is the one of the ids. -/
lemma head_schema {seen : Observations} {p : Profile} {columns : List Column} (h : seen.Lawful)
    (hschema : schema p seen = .ok columns) :
    ∃ rest, columns = fieldColumn idField (seen.kindsOf idField) 0 :: rest := by
  obtain ⟨-, rfl⟩ := (schema_eq_ok_iff h).1 hschema
  exact ⟨_, by rw [Observations.columns, fieldNames, List.mapIdx_cons, List.cons_append]⟩

end Observations

/-- Inference observes the corpus and reads the schema off. -/
lemma inferSchema_eq_ok_iff {p : Profile} {cards : List Card} {columns : List Column} :
    inferSchema p cards = .ok columns ↔
      ∃ seen, Observations.observeAll p [] cards = .ok seen ∧
        Observations.schema p seen = .ok columns := by
  unfold inferSchema
  cases Observations.observeAll p [] cards with
  | error e => simp [bind, Except.bind]
  | ok seen => simp [bind, Except.bind]

/-! ## When inference succeeds -/

section Outcomes

variable {p : Profile} {cards : List Card}

/-- A field with the name of a derived column makes inference fail. -/
theorem inferSchema_of_clashes (h : p.Clashes cards) :
    ∃ name, inferSchema p cards = .error (.reservedColumn name) := by
  obtain ⟨field, hfield, hreserved⟩ := h
  rcases Observations.observeAll_cases p [] cards with ⟨name, -, -, hobserve⟩ | ⟨hfree, -⟩
  · exact ⟨name, by rw [inferSchema, hobserve]; rfl⟩
  · rw [hfree field hfield] at hreserved
    cases hreserved

/-- Without such a field, the schema is read off the record of what occurs in the cards. -/
theorem inferSchema_of_not_clashes (h : ¬ p.Clashes cards) :
    ∃ seen : Observations, seen.Lawful ∧
      (∀ name, name ∈ seen.names ↔ p.Occurs cards name) ∧
      (∀ name sort, sort ∈ seen.kindsOf name ↔
        ∃ card ∈ cards, Observations.Shows p card name sort) ∧
      inferSchema p cards =
        if p.Occurs cards idField then .ok (seen.columns p) else .error .missingId := by
  rcases Observations.observeAll_cases p [] cards with
    ⟨name, hname, hreserved, -⟩ | ⟨-, seen, hobserve⟩
  · exact absurd ⟨name, hname, hreserved⟩ h
  · have hlawful : seen.Lawful := Observations.Lawful.nil.observeAll hobserve
    have hnames := Observations.mem_names_observeAll hobserve
    refine ⟨seen, hlawful, hnames, fun name sort => ?_, ?_⟩
    · rw [Observations.mem_kindsOf_observeAll Observations.Lawful.nil hobserve]
      exact or_iff_right List.not_mem_nil
    · rw [inferSchema, hobserve]
      refine (Observations.schema_eq hlawful p).trans ?_
      simp only [hnames idField]

/-- If there is a schema then no field has the name of a derived column, some card has an id, and
the columns are those of the record of what occurs in the cards. -/
lemma exists_seen_of_inferSchema {columns : List Column}
    (h : inferSchema p cards = .ok columns) :
    ¬ p.Clashes cards ∧ ∃ seen : Observations, seen.Lawful ∧
      (∀ name, name ∈ seen.names ↔ p.Occurs cards name) ∧
      p.Occurs cards idField ∧ seen.columns p = columns := by
  by_cases hclash : p.Clashes cards
  · obtain ⟨name, herror⟩ := inferSchema_of_clashes hclash
    rw [h] at herror
    cases herror
  · obtain ⟨seen, hlawful, hnames, -, hinfer⟩ := inferSchema_of_not_clashes hclash
    rw [h] at hinfer
    split at hinfer
    · next hid => exact ⟨hclash, seen, hlawful, hnames, hid, (Except.ok.inj hinfer).symm⟩
    · cases hinfer

end Outcomes

end CardTable
