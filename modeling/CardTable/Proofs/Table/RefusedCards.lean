import CardTable.Proofs.Table.CorpusOrder
import CardTable.Proofs.Table.SchemaShape

set_option autoImplicit false

/-!
# Refused cards

A card is refused at its first field that counts and has the name of a derived column. The fields in
front of this one have been seen by then, and they stay in the record: a refused card counts like
the card that ends in front of the refused field. So whoever goes on after a refusal gets the schema
of the cards that were accepted together with these front parts. It is the schema of the accepted
cards alone exactly if the front parts add no column and no sort that makes a field drift.

Inference itself does not go on: `inferSchema` returns the refusal and drops the record.

## Main definitions

* `CardTable.Profile.remnants` — what is seen of refused cards.
* `CardTable.Profile.Covers` — whether some cards add nothing to the schema of others.
* `CardTable.Observations.observeEach` — several cards, without a stop at those that are refused.

## Main results

* `CardTable.Observations.observeAll_map_front` — several cards do what their front parts do.
* `CardTable.Observations.columns_eq_iff` — when further sorts do not show in the columns.
* `CardTable.Observations.schema_observeEach` — refused cards and the schema.
-/

namespace CardTable

/-! ## Accepted and refused cards -/

namespace Profile

variable {p : Profile}

/-- What is seen of the refused ones among some cards. -/
def remnants (p : Profile) (cards : List Card) : List Card :=
  (cards.filter fun card => !p.accepts card).map p.front

/-- Cards that are accepted have no field with the name of a derived column. -/
lemma not_clashes_of_accepts {cards : List Card} (h : ∀ card ∈ cards, p.accepts card = true) :
    ¬ p.Clashes cards := by
  rintro ⟨name, ⟨hcounts, card, hcard, hname⟩, hreserved⟩
  rw [isReserved_of_accepts (h card hcard) hcounts hname] at hreserved
  cases hreserved

/-! ## Cards that add nothing to a schema -/

/-- Whether some card has a value of the sort `sort` in the field `name`, which counts. -/
def Shown (p : Profile) (cards : List Card) (name : String) (sort : Value.Kind) : Prop :=
  ∃ card ∈ cards, Observations.Shows p card name sort

/-- Whether the cards have values of several sorts in a field. -/
def Drifts (p : Profile) (cards : List Card) (name : String) : Prop :=
  ∃ sort sort', p.Shown cards name sort ∧ p.Shown cards name sort' ∧ sort ≠ sort'

/-- Whether the cards `more` add nothing to the schema of the cards `cards`: each of their values
stands in a field that has a value of this sort or drifts without them; and where the cards `cards`
have no id, the others have none either. -/
def Covers (p : Profile) (cards more : List Card) : Prop :=
  if p.Occurs cards idField then
    ∀ name sort, p.Shown more name sort → p.Shown cards name sort ∨ p.Drifts cards name
  else ¬ p.Occurs more idField

end Profile

namespace Observations

variable {p : Profile} {seen seen' : Observations} {card : Card} {cards : List Card} {name : String}
  {kinds : List Value.Kind}

/-! ## Observing on after a refusal -/

/-- Takes several cards into account, the refused ones as far as they are seen. -/
def observeEach (p : Profile) (seen : Observations) (cards : List Card) : Observations :=
  cards.foldl (fun seen card => (observe p seen card).1) seen

/-- The front part of a card is accepted. -/
lemma observe_front (p : Profile) (seen : Observations) (card : Card) :
    observe p seen (p.front card) = ((observe p seen card).1, .ok ()) := by
  have hfront : p.front (p.front card) = p.front card :=
    Profile.front_of_accepts (p.accepts_front card)
  rw [observe_eq p seen card, observe_eq p seen (p.front card), hfront,
    Profile.verdict_eq_ok_iff.2 (p.accepts_front card)]

/-- **Several cards do what their front parts do.** -/
theorem observeAll_map_front (p : Profile) (seen : Observations) (cards : List Card) :
    observeAll p seen (cards.map p.front) = .ok (observeEach p seen cards) := by
  induction cards generalizing seen with
  | nil => rfl
  | cons card cards ih =>
    rw [List.map_cons, observeAll, observe_front]
    exact ih _

/-- So the schema afterwards is that of the front parts. -/
lemma schema_observeEach_eq (p : Profile) (cards : List Card) :
    schema p (observeEach p [] cards) = inferSchema p (cards.map p.front) := by
  rw [inferSchema, observeAll_map_front]
  rfl

/-- The record is lawful, also behind cards that were refused. -/
lemma Lawful.observeEach (p : Profile) (cards : List Card) :
    (Observations.observeEach p [] cards).Lawful :=
  Lawful.nil.observeAll (observeAll_map_front p [] cards)

/-- A value whose sort was seen in its field changes nothing. -/
lemma add_of_mem_kindsOf (h : seen.Lawful) {kind : Value.Kind}
    (hkind : kind ∈ seen.kindsOf name) :
    seen.add name kind = seen := by
  induction seen with
  | nil => cases hkind
  | cons field rest ih =>
    obtain ⟨other, kinds⟩ := field
    rw [kindsOf_cons] at hkind
    unfold add
    split
    · next heq =>
      rw [if_pos heq] at hkind
      rw [if_pos hkind]
    · next hne =>
      rw [if_neg hne] at hkind
      have hname : name ∈ names rest := (h.tail.exists_mem_kindsOf_iff name).1 ⟨kind, hkind⟩
      have hbehind : ¬ namesBefore name other = true := by
        rw [namesBefore, decide_eq_true_iff]
        exact String.lt_asymm (h.head_lt hname)
      rw [if_neg hbehind, ih h.tail hkind]

/-- An accepted card leaves the record as it is exactly if the sorts of all its values were seen. -/
lemma observe_eq_self_iff (h : seen.Lawful) (hcard : p.accepts card = true) :
    (observe p seen card).1 = seen ↔
      ∀ name sort, Shows p card name sort → sort ∈ seen.kindsOf name := by
  have hverdict : (observe p seen card).2 = .ok () := by
    rw [observe_eq, Profile.verdict_eq_ok_iff.2 hcard]
  constructor
  · intro heq name sort hshows
    rw [← heq]
    exact (mem_kindsOf_observe h (Prod.ext rfl hverdict) name sort).2 (.inr hshows)
  · intro hall
    clear hverdict hcard
    induction card with
    | nil => rfl
    | cons field card ih =>
      obtain ⟨first, value⟩ := field
      have hrest := ih fun name sort hshows => hall name sort (shows_cons.2 (.inr hshows))
      unfold observe
      split
      · exact hrest
      · next hcounts =>
        split
        · rfl
        · rw [add_of_mem_kindsOf h (hall first value.kind (shows_cons.2 (.inl ⟨hcounts, rfl, rfl⟩)))]
          exact hrest

/-! ## Sorts that do not show -/

/-- Whether values of several sorts were seen in a field. -/
def Drifts (seen : Observations) (name : String) : Prop :=
  ∃ sort ∈ seen.kindsOf name, ∃ sort' ∈ seen.kindsOf name, sort ≠ sort'

/-- A field with values of several sorts is stored as text. -/
lemma fieldColumn_of_ne {sort sort' : Value.Kind} (hsort : sort ∈ kinds) (hsort' : sort' ∈ kinds)
    (hne : sort ≠ sort') (name : String) (ordinal : Nat) :
    fieldColumn name kinds ordinal = ⟨name, .text, ordinal, .field, true⟩ := by
  unfold fieldColumn
  split
  · next only =>
    exact absurd ((List.mem_singleton.1 hsort).trans (List.mem_singleton.1 hsort').symm) hne
  · rfl

/-- A column drifts exactly if values of several sorts were seen in its field. -/
lemma drift_fieldColumn_iff (h : seen.Lawful) (hname : name ∈ seen.names) (ordinal : Nat) :
    (fieldColumn name (seen.kindsOf name) ordinal).drift = true ↔ seen.Drifts name := by
  constructor
  · intro hdrift
    have hnodup := h.nodup_kindsOf name
    have hne := h.kindsOf_ne_nil hname
    unfold Drifts
    match hkinds : seen.kindsOf name with
    | [] => exact absurd hkinds hne
    | [only] => simp [hkinds, fieldColumn] at hdrift
    | sort :: sort' :: rest =>
      rw [hkinds] at hnodup
      refine ⟨sort, by simp, sort', by simp, ?_⟩
      exact fun heq => (List.nodup_cons.1 hnodup).1 (by simp [heq])
  · rintro ⟨sort, hsort, sort', hsort', hne⟩
    rw [fieldColumn_of_ne hsort hsort' hne]

/-- Of a field that does not drift one sort was seen. -/
lemma eq_of_not_drifts (h : ¬ seen.Drifts name) {sort sort' : Value.Kind}
    (hsort : sort ∈ seen.kindsOf name) (hsort' : sort' ∈ seen.kindsOf name) : sort = sort' :=
  Decidable.byContradiction fun hne => h ⟨sort, hsort, sort', hsort', hne⟩

/-- A field that was seen has a column. -/
lemma mem_fieldNames_of_mem_names (hname : name ∈ seen.names) : name ∈ seen.fieldNames := by
  by_cases hid : name = idField
  · exact hid ▸ List.mem_cons_self ..
  · exact List.mem_cons_of_mem _ (List.mem_filter.2 ⟨hname, by simpa using hid⟩)

section Further

variable (h : seen.Lawful) (h' : seen'.Lawful)
  (hsub : ∀ name, seen.kindsOf name ⊆ seen'.kindsOf name)
include h h' hsub

/-- Further sorts that do not show: each was seen in its field, or the field drifts already. -/
lemma columns_eq_of_forall
    (hall : ∀ name, ∀ sort ∈ seen'.kindsOf name, sort ∈ seen.kindsOf name ∨ seen.Drifts name) :
    seen'.columns p = seen.columns p := by
  have hnames : seen'.names = seen.names := by
    refine h'.ordered.eq_of_mem_iff h.ordered fun name => ?_
    rw [← h.exists_mem_kindsOf_iff, ← h'.exists_mem_kindsOf_iff]
    constructor
    · rintro ⟨sort, hsort⟩
      rcases hall name sort hsort with hmem | ⟨other, hother, -⟩
      · exact ⟨sort, hmem⟩
      · exact ⟨other, hother⟩
    · exact fun ⟨sort, hsort⟩ => ⟨sort, hsub name hsort⟩
  have hcolumn : ∀ name ordinal, fieldColumn name (seen'.kindsOf name) ordinal =
      fieldColumn name (seen.kindsOf name) ordinal := by
    intro name ordinal
    by_cases hdrifts : seen.Drifts name
    · obtain ⟨sort, hsort, sort', hsort', hne⟩ := hdrifts
      rw [fieldColumn_of_ne hsort hsort' hne,
        fieldColumn_of_ne (hsub name hsort) (hsub name hsort') hne]
    · refine fieldColumn_congr name ?_ ordinal
      refine (List.perm_ext_iff_of_nodup (h'.nodup_kindsOf name) (h.nodup_kindsOf name)).2 ?_
      exact fun sort => ⟨fun hsort => (hall name sort hsort).resolve_right hdrifts,
        fun hsort => hsub name hsort⟩
  have hfields : seen'.fieldNames = seen.fieldNames := by rw [fieldNames, fieldNames, hnames]
  simp only [columns, hfields, hcolumn]

/-- A further sort that does not show was seen in its field, or the field drifts already. -/
lemma mem_kindsOf_or_drifts_of_columns_eq (hid : idField ∈ seen.names)
    (hcolumns : seen'.columns p = seen.columns p) {sort : Value.Kind}
    (hsort : sort ∈ seen'.kindsOf name) : sort ∈ seen.kindsOf name ∨ seen.Drifts name := by
  have hname' : name ∈ seen'.names := (h'.exists_mem_kindsOf_iff name).1 ⟨sort, hsort⟩
  have hid' : idField ∈ seen'.names := by
    obtain ⟨other, hother⟩ := (h.exists_mem_kindsOf_iff idField).2 hid
    exact (h'.exists_mem_kindsOf_iff idField).1 ⟨other, hsub idField hother⟩
  -- the column of the field is made of either record
  obtain ⟨c, hc, hfield, rfl⟩ := (exists_field_mem_columns_iff (p := p) name).2
    (mem_fieldNames_of_mem_names hname')
  obtain ⟨-, i', hi'⟩ :=
    eq_fieldColumn_of_mem_schema h' ((schema_eq_ok_iff h').2 ⟨hid', rfl⟩) hc hfield
  obtain ⟨hname, i, hi⟩ :=
    eq_fieldColumn_of_mem_schema h ((schema_eq_ok_iff h).2 ⟨hid, rfl⟩) (hcolumns ▸ hc) hfield
  refine or_iff_not_imp_right.2 fun hdrifts => ?_
  have hdrifts' : ¬ seen'.Drifts c.name := by
    rw [← drift_fieldColumn_iff h' hname' i', ← hi', hi, drift_fieldColumn_iff h hname i]
    exact hdrifts
  obtain ⟨only, honly⟩ := (h.exists_mem_kindsOf_iff c.name).2 hname
  rwa [eq_of_not_drifts hdrifts' hsort (hsub c.name honly)]

/-- **When further sorts do not show in the columns.** -/
theorem columns_eq_iff (hid : idField ∈ seen.names) : seen'.columns p = seen.columns p ↔
    ∀ name, ∀ sort ∈ seen'.kindsOf name, sort ∈ seen.kindsOf name ∨ seen.Drifts name :=
  ⟨fun hcolumns _ _ => mem_kindsOf_or_drifts_of_columns_eq h h' hsub hid hcolumns,
    columns_eq_of_forall h h' hsub⟩

end Further

/-! ## Schemas behind refusals -/

/-- What is seen of some cards is the cards that are accepted, and the front parts of the others. -/
lemma exists_front_iff {P : Card → Prop} : (∃ card ∈ cards.map p.front, P card) ↔
    (∃ card ∈ cards.filter p.accepts, P card) ∨
      ∃ card ∈ p.remnants cards, P card := by
  simp only [Profile.remnants, List.mem_map, List.mem_filter, exists_exists_and_eq_and,
    Bool.not_eq_true']
  constructor
  · rintro ⟨card, hcard, hP⟩
    cases haccepts : p.accepts card with
    | true => exact .inl ⟨card, ⟨hcard, haccepts⟩, Profile.front_of_accepts haccepts ▸ hP⟩
    | false => exact .inr ⟨card, ⟨hcard, haccepts⟩, hP⟩
  · rintro (⟨card, ⟨hcard, haccepts⟩, hP⟩ | ⟨card, ⟨hcard, -⟩, hP⟩)
    · exact ⟨card, hcard, (Profile.front_of_accepts haccepts).symm ▸ hP⟩
    · exact ⟨card, hcard, hP⟩

/-- The schema behind refusals is that of the accepted cards exactly if the front parts of the
others add nothing to it. -/
lemma inferSchema_map_front_eq_iff (p : Profile) (cards : List Card) :
    inferSchema p (cards.map p.front) = inferSchema p (cards.filter p.accepts) ↔
      p.Covers (cards.filter p.accepts) (p.remnants cards) := by
  have hfronts : ¬ p.Clashes (cards.map p.front) :=
    Profile.not_clashes_of_accepts (List.forall_mem_map.2 fun card _ => p.accepts_front card)
  have hkept : ¬ p.Clashes (cards.filter p.accepts) :=
    Profile.not_clashes_of_accepts fun card hcard => (List.mem_filter.1 hcard).2
  obtain ⟨seen, h, hnames, hkinds, hinfer⟩ := inferSchema_of_not_clashes hkept
  obtain ⟨seen', h', hnames', hkinds', hinfer'⟩ := inferSchema_of_not_clashes hfronts
  have hmore := fun name sort => (hkinds' name sort).trans exists_front_iff
  have hsub : ∀ name, seen.kindsOf name ⊆ seen'.kindsOf name := fun name sort hsort =>
    (hmore name sort).2 (.inl ((hkinds name sort).1 hsort))
  have hoccurs : p.Occurs (cards.map p.front) idField ↔ p.Occurs (cards.filter p.accepts) idField ∨
      p.Occurs (p.remnants cards) idField :=
    (and_congr_right fun _ => exists_front_iff).trans and_or_left
  rw [hinfer, hinfer', Profile.Covers]
  by_cases hid : p.Occurs (cards.filter p.accepts) idField
  · rw [if_pos hid, if_pos hid, if_pos (hoccurs.2 (.inl hid)), Except.ok.injEq,
      columns_eq_iff h h' hsub ((hnames idField).2 hid)]
    have hdrifts : ∀ name, seen.Drifts name ↔ p.Drifts (cards.filter p.accepts) name := by
      simp only [Drifts, Profile.Drifts, Profile.Shown, hkinds]
      grind
    simp only [hmore, hkinds, hdrifts]
    refine forall₂_congr fun name sort => ⟨fun hall hmore => hall (.inr hmore), fun hall hsort => ?_⟩
    exact hsort.elim .inl hall
  · rw [if_neg hid, if_neg hid]
    split
    · next hid' => exact iff_of_false nofun (not_not.2 ((hoccurs.1 hid').resolve_left hid))
    · next hid' => exact iff_of_true rfl fun hmore => hid' (hoccurs.2 (.inr hmore))

/-- **Refused cards and the schema.** Behind any cards, refused ones among them, a card is refused
at its first field that counts and has the name of a derived column, and what was seen stays as it
was exactly if the fields in front of this one show no sort that is new to their fields. The schema
is that of the front parts of all cards. It is that of the accepted cards alone, or fails as theirs
does, exactly if the front parts of the refused ones add nothing to it.

**Proof sketch.** A card does to the record what its front part does, and the front part is never
refused (`observe_eq`, `observeAll_map_front`). So the record behind any cards is the one behind
their front parts, which are all accepted, and the schema is inferred from these. The last part
compares two such records, the second of which has seen more: its columns are the same exactly if
the further sorts belong to fields that drift already (`columns_eq_iff`). -/
theorem schema_observeEach (p : Profile) (cards : List Card) :
    (∀ card name, (observe p (observeEach p [] cards) card).2 = .error (.reservedColumn name) ↔
      ∃ value behind, card = p.front card ++ (name, value) :: behind ∧ name ∉ p.excluded ∧
        p.isReserved name = true) ∧
    (∀ card, (observe p (observeEach p [] cards) card).2 = .ok () ↔ p.accepts card = true) ∧
    (∀ card, (observe p (observeEach p [] cards) card).1 = observeEach p [] cards ↔
      ∀ name sort, Shows p (p.front card) name sort → p.Shown (cards.map p.front) name sort) ∧
    schema p (observeEach p [] cards) = inferSchema p (cards.map p.front) ∧
    (schema p (observeEach p [] cards) = inferSchema p (cards.filter p.accepts) ↔
      p.Covers (cards.filter p.accepts) (p.remnants cards)) := by
  refine ⟨fun card name => ?_, fun card => ?_, fun card => ?_, schema_observeEach_eq p cards, ?_⟩
  · rw [observe_eq]
    exact Profile.verdict_eq_error_iff
  · rw [observe_eq]
    exact Profile.verdict_eq_ok_iff
  · rw [observe_eq]
    refine (observe_eq_self_iff (.observeEach p cards) (p.accepts_front card)).trans ?_
    simp only [mem_kindsOf_observeAll .nil (observeAll_map_front p [] cards)]
    exact forall₃_congr fun name sort _ => or_iff_right List.not_mem_nil
  · rw [schema_observeEach_eq]
    exact inferSchema_map_front_eq_iff p cards

/-- A card that is accepted. -/
def plainCard : Card :=
  [("id", .str "base1-1")]

/-- A card that is refused at its second field. -/
def packedCard : Card :=
  [("level", .str "42"), ("packName", .str "Base")]

/-- The level of the refused card stays in the record, and it gets a column. -/
theorem schema_packedCard :
    (observe .flat (observeEach .flat [] [plainCard]) packedCard).2 =
      .error (.reservedColumn "packName") ∧
    (observe .flat (observeEach .flat [] [plainCard]) packedCard).1 ≠
      observeEach .flat [] [plainCard] ∧
    schema .flat (observeEach .flat [] [plainCard, packedCard]) ≠ inferSchema .flat [plainCard] := by
  refine ⟨rfl, by decide, fun hschema => ?_⟩
  have hcolumns := congrArg (Except.map List.length) hschema
  exact absurd hcolumns (by decide)

end Observations

end CardTable
