import CardTable.Proofs.Value.FieldLaws
import CardTable.Proofs.Script.Expressions.JsonTexts

set_option autoImplicit false

/-!
# The order of keys in values

A script lists the fields of a mapping by their names: array indices ascending, and then all other
names in the order in which they were set. A value is ordered if every mapping in it is listed in
this way. The parts of ordered values are ordered, and so is what is put together from them.

## Main definitions

* `CardTable.Script.InKeyOrder` — fields in the order in which a script lists them.
* `CardTable.Value.IsOrdered` — values in which every mapping is in that order.
* `CardTable.Script.IsCollected` — fields on their way into a mapping.

## Main results

* `CardTable.Script.sortKeys_sortKeys` — ordering fields that are ordered leaves them alone.
* `CardTable.Script.IsCollected.isOrdered` — the mapping of an object literal is ordered.
-/

namespace CardTable

namespace Script

/-! ## Fields in order -/

/-- The fields are in the order in which a script lists them: first those named by array indices, in
ascending order, and then all others. -/
def InKeyOrder {α : Type} (fields : Fields α) : Prop :=
  ∃ indexed named, fields = indexed ++ named ∧ (∀ field ∈ indexed, IsArrayIndex field.1) ∧
    (∀ field ∈ named, ¬ IsArrayIndex field.1) ∧
    indexed.Pairwise fun f g => ∃ m n, f.1 = Nat.repr m ∧ g.1 = Nat.repr n ∧ m < n

instance : DecidablePred IsArrayIndex :=
  fun _ => decidable_of_iff _ isIndexKey_iff

section SortKeys

variable {α : Type} {fields fields' : Fields α}

/-- Fields with distinct names are ordered. -/
lemma inKeyOrder_sortKeys (hkeys : fields.keys.Nodup) : InKeyOrder (sortKeys fields) := by
  obtain ⟨indexed, named, hfields, -, hindexed, hnamed, hascending, -⟩ :=
    indicesFirst_sortKeys hkeys
  exact ⟨indexed, named, hfields, hindexed, hnamed, hascending⟩

/-- Whether one field stands in front of the other, both named by array indices. -/
def indexLe (f g : String × α) : Bool :=
  (indexKey? f.1).getD 0 ≤ (indexKey? g.1).getD 0

/-- Sorted fields are those with indices, in ascending order, and then the others. -/
lemma sortKeys_eq (fields : Fields α) :
    sortKeys fields = (fields.filter fun field => isIndexKey field.1).mergeSort indexLe ++
      fields.filter fun field => !isIndexKey field.1 :=
  rfl

/-- Sorting by array indices puts fields in ascending order. -/
lemma pairwise_mergeSort_indexLe (fields : Fields α) :
    (fields.mergeSort indexLe).Pairwise fun f g => indexLe f g = true := by
  refine List.pairwise_mergeSort ?_ ?_ fields
  · intro f g h hfg hgh
    simp only [indexLe, decide_eq_true_eq] at hfg hgh ⊢
    exact Nat.le_trans hfg hgh
  · intro f g
    simpa [indexLe] using Nat.le_total ((indexKey? f.1).getD 0) ((indexKey? g.1).getD 0)

/-- Fields sorted by array indices are named by array indices. -/
lemma isIndexKey_of_mem_mergeSort {field : String × α}
    (h : field ∈ (fields.filter fun field => isIndexKey field.1).mergeSort indexLe) :
    isIndexKey field.1 = true :=
  (List.mem_filter.1 (List.mem_mergeSort.1 h)).2

/-- Ordering fields keeps the order of those that are not named by array indices. -/
lemma filter_sortKeys (fields : Fields α) :
    (sortKeys fields).filter (fun field => !isIndexKey field.1) =
      fields.filter fun field => !isIndexKey field.1 := by
  have hindexed : ∀ field ∈ (fields.filter fun field => isIndexKey field.1).mergeSort indexLe,
      ¬ (!isIndexKey field.1) = true := by
    intro field hfield
    simp [isIndexKey_of_mem_mergeSort hfield]
  rw [sortKeys_eq, List.filter_append, List.filter_eq_nil_iff.2 hindexed, List.nil_append,
    List.filter_filter]
  simp

/-- Ordering fields sorts those that are named by array indices. -/
lemma filter_isIndexKey_sortKeys (fields : Fields α) :
    (sortKeys fields).filter (fun field => isIndexKey field.1) =
      (fields.filter fun field => isIndexKey field.1).mergeSort indexLe := by
  have hnamed : ∀ field ∈ fields.filter fun field => !isIndexKey field.1,
      ¬ isIndexKey field.1 = true := by
    intro field hfield
    simpa using (List.mem_filter.1 hfield).2
  rw [sortKeys_eq, List.filter_append, List.filter_eq_nil_iff.2 hnamed, List.append_nil,
    List.filter_eq_self.2 fun field => isIndexKey_of_mem_mergeSort]

/-- **Ordering fields that are ordered** leaves them alone. -/
theorem sortKeys_sortKeys (fields : Fields α) : sortKeys (sortKeys fields) = sortKeys fields := by
  rw [sortKeys_eq (sortKeys fields), filter_sortKeys, filter_isIndexKey_sortKeys,
    List.mergeSort_of_pairwise (pairwise_mergeSort_indexLe _), ← sortKeys_eq]

/-- Fields without array indices are in order. -/
lemma sortKeys_of_named (h : ∀ field ∈ fields, isIndexKey field.1 = false) :
    sortKeys fields = fields := by
  have hindexed : ∀ field ∈ fields, ¬ isIndexKey field.1 = true := by simpa using h
  rw [sortKeys_eq, List.filter_eq_nil_iff.2 hindexed, List.mergeSort_nil, List.nil_append,
    List.filter_eq_self.2 fun field hfield => by rw [h field hfield]; rfl]

/-- Fields with distinct names are ordered alike if they are the same up to their order, and those
that are not named by array indices stand in the same order. -/
lemma sortKeys_of_perm (hkeys : fields.keys.Nodup) (hperm : fields.Perm fields')
    (hnamed : fields.filter (fun field => !isIndexKey field.1) =
      fields'.filter fun field => !isIndexKey field.1) : sortKeys fields = sortKeys fields' := by
  have hsame : ((fields.filter fun field => isIndexKey field.1).mergeSort indexLe).Perm
      ((fields'.filter fun field => isIndexKey field.1).mergeSort indexLe) :=
    (List.mergeSort_perm _ _).trans ((hperm.filter _).trans (List.mergeSort_perm _ _).symm)
  rw [sortKeys_eq, sortKeys_eq, hnamed]
  congr 1
  refine hsame.eq_of_pairwise ?_ (pairwise_mergeSort_indexLe _) (pairwise_mergeSort_indexLe _)
  intro f g hf hg hfg hgf
  -- array indices that are the same number are the same name
  have hindexf := isIndexKey_of_mem_mergeSort hf
  have hindexg := isIndexKey_of_mem_mergeSort hg
  obtain ⟨m, hm, hfm⟩ := isIndexKey_iff.1 hindexf
  obtain ⟨n, hn, hgn⟩ := isIndexKey_iff.1 hindexg
  simp only [indexLe, decide_eq_true_eq, indexKey?_eq_some_iff.2 ⟨hm, hfm⟩,
    indexKey?_eq_some_iff.2 ⟨hn, hgn⟩, Option.getD_some] at hfg hgf
  obtain rfl := Nat.le_antisymm hfg hgf
  have hmemf := (List.mem_filter.1 (List.mem_mergeSort.1 hf)).1
  have hmemg := hperm.mem_iff.2 (List.mem_filter.1 (List.mem_mergeSort.1 hg)).1
  exact List.inj_on_of_nodup_map hkeys hmemf hmemg (hfm.trans hgn.symm)

end SortKeys

end Script

/-- Every mapping in the value, at every depth, lists its fields in order. -/
inductive Value.IsOrdered : Value → Prop
  | null : IsOrdered .null
  | bool (b : Bool) : IsOrdered (.bool b)
  | num (n : Number) : IsOrdered (.num n)
  | str (s : String) : IsOrdered (.str s)
  | list {items : List Value} (hitems : ∀ item ∈ items, IsOrdered item) : IsOrdered (.list items)
  | mapping {fields : Fields Value} (horder : Script.InKeyOrder fields)
      (hvalues : ∀ field ∈ fields, IsOrdered field.2) : IsOrdered (.mapping fields)

/-- An item of an ordered list. -/
lemma Value.IsOrdered.of_mem {items : List Value} (h : (Value.list items).IsOrdered)
    {item : Value} (hitem : item ∈ items) : item.IsOrdered := by
  cases h with
  | list hitems => exact hitems item hitem

/-- A field of an ordered mapping. -/
lemma Value.IsOrdered.of_mem_fields {fields : Fields Value}
    (h : (Value.mapping fields).IsOrdered) {field : String × Value} (hfield : field ∈ fields) :
    field.2.IsOrdered := by
  cases h with
  | mapping _ hvalues => exact hvalues field hfield

namespace Script

/-! ## Parts of ordered values -/

/-- The value is ordered, if there is one. -/
abbrev IsOrdered? (v : Option Value) : Prop :=
  ∀ w ∈ v, w.IsOrdered

/-- All values in the scope are ordered. -/
def Scope.IsOrdered (scope : Scope) : Prop :=
  ∀ field ∈ scope, IsOrdered? field.2

/-- Fields on their way into a mapping: their names are distinct and their values ordered. -/
structure IsCollected (fields : Fields Value) : Prop where
  nodup : fields.keys.Nodup
  ordered : ∀ field ∈ fields, field.2.IsOrdered

section Parts

variable {v target k : Option Value} {key : String} {fields more : Fields Value} {scope : Scope}

/-- There is nothing to be in order. -/
lemma isOrdered?_none : IsOrdered? none :=
  nofun

/-- A value that is there is in order if it is. -/
lemma isOrdered?_some {v : Value} : IsOrdered? (some v) ↔ v.IsOrdered := by
  simp [IsOrdered?]

/-- `undefined` becomes null. -/
lemma isOrdered_getD (hv : IsOrdered? v) : (v.getD .null).IsOrdered := by
  cases v with
  | none => exact .null
  | some v => exact hv v rfl

/-- The texts of the characters of a text. -/
lemma isOrdered_charTexts (s : String) : ∀ item ∈ charTexts s, item.IsOrdered := by
  intro item hitem
  obtain ⟨c, -, rfl⟩ := List.mem_map.1 hitem
  exact .str _

/-- One item of a list. -/
lemma isOrdered?_position {items : List Value} (hitems : ∀ item ∈ items, item.IsOrdered)
    (position : Option Nat) : IsOrdered? (position.bind (items[·]?)) := by
  intro item hitem
  obtain ⟨n, -, hn⟩ := Option.bind_eq_some_iff.1 hitem
  exact hitems item (List.mem_of_getElem? hn)

/-- A property of an ordered value. -/
lemma isOrdered?_member (htarget : IsOrdered? target) (h : member target key = .ok v) :
    IsOrdered? v := by
  unfold member at h
  split at h
  · obtain rfl := Except.ok.inj h
    intro w hw
    exact (htarget _ rfl).of_mem_fields (Fields.mem_of_get? hw)
  · split at h <;> obtain rfl := Except.ok.inj h
    · exact isOrdered?_some.2 (.num _)
    · exact isOrdered?_position (fun _ => (htarget _ rfl).of_mem) _
  · split at h <;> obtain rfl := Except.ok.inj h
    · exact isOrdered?_some.2 (.num _)
    · exact isOrdered?_position (isOrdered_charTexts _) _
  · cases h
  · cases h
  · obtain rfl := Except.ok.inj h
    exact isOrdered?_none

/-- One access further. -/
lemma isOrdered?_access {optional : Bool} {reached next : Reached}
    (hreached : ∀ v ∈ reached, IsOrdered? v) (h : access optional key reached = .ok next) :
    ∀ v ∈ next, IsOrdered? v := by
  cases reached with
  | none =>
    obtain rfl := Except.ok.inj h
    exact nofun
  | some target =>
    rw [access] at h
    split at h
    · obtain rfl := Except.ok.inj h
      exact nofun
    · rcases hmember : member target key with f | v
      · simp [hmember, Except.map] at h
      · rw [hmember] at h
        obtain rfl := Except.ok.inj h
        intro w hw
        obtain rfl := Option.some.inj hw
        exact isOrdered?_member (hreached target rfl) hmember

/-- A value in scope. -/
lemma isOrdered?_lookup {word : String} (hscope : scope.IsOrdered)
    (h : lookup scope word = .ok v) : IsOrdered? v := by
  unfold lookup at h
  split at h
  · next hget =>
    obtain rfl := Except.ok.inj h
    exact hscope _ (Fields.mem_of_get? hget)
  · cases h

/-- A number that is written out. -/
lemma isOrdered_numberValue (x : Option Double) : (numberValue x).IsOrdered := by
  unfold numberValue
  split
  · exact .null
  · split
    · split
      · exact .num _
      · exact .num _
    · exact .num _

/-- A number behind a minus sign. -/
lemma isOrdered_negate? {n : Number} {w : Value} (h : negate? n = some w) : w.IsOrdered := by
  unfold negate? at h
  split at h
  · split at h
    · cases h
    · obtain rfl := Option.some.inj h
      exact .num _
  · obtain rfl := Option.some.inj h
    exact isOrdered_numberValue _

/-- A number behind a sign. -/
lemma isOrdered?_applySign {negative : Bool} (h : applySign negative k = .ok v) :
    IsOrdered? v := by
  unfold applySign at h
  split at h
  · next n =>
    split at h
    · split at h
      · next hvalue =>
        obtain rfl := Except.ok.inj h
        exact isOrdered?_some.2 (isOrdered_negate? hvalue)
      · cases h
    · obtain rfl := Except.ok.inj h
      exact isOrdered?_some.2 (.num n)
  · cases h

/-- The items that an array literal takes over. -/
lemma isOrdered_spreadItems {values : List Value} (hv : IsOrdered? v)
    (h : spreadItems v = .ok values) : ∀ item ∈ values, item.IsOrdered := by
  unfold spreadItems at h
  split at h
  · obtain rfl := Except.ok.inj h
    exact fun _ => (hv _ rfl).of_mem
  · obtain rfl := Except.ok.inj h
    exact isOrdered_charTexts _
  · cases h

/-- Items by position. -/
lemma isOrdered_positioned {items : List Value} (hitems : ∀ item ∈ items, item.IsOrdered) :
    ∀ field ∈ positioned items, field.2.IsOrdered := by
  intro field hfield
  obtain ⟨⟨item, n⟩, hmem, rfl⟩ := List.mem_map.1 hfield
  exact hitems item (List.fst_mem_of_mem_zipIdx hmem)

/-- The properties that an object literal takes over. -/
lemma isOrdered_spreadFields (hv : IsOrdered? v) :
    ∀ field ∈ spreadFields v, field.2.IsOrdered := by
  unfold spreadFields
  split
  · exact fun _ => (hv _ rfl).of_mem_fields
  · exact isOrdered_positioned fun _ => (hv _ rfl).of_mem
  · exact isOrdered_positioned (isOrdered_charTexts _)
  · exact nofun

namespace IsCollected

/-- No fields. -/
lemma nil : IsCollected [] :=
  ⟨List.nodup_nil, nofun⟩

/-- A property is set or removed. -/
lemma setProperty (h : IsCollected fields) (key : String) (hv : IsOrdered? v) :
    IsCollected (setProperty fields key v) := by
  cases v with
  | none =>
    exact ⟨Fields.nodup_keys_filter _ h.nodup, fun field hfield =>
      h.ordered field (List.mem_filter.1 hfield).1⟩
  | some w =>
    refine ⟨Fields.nodup_keys_insert _ _ h.nodup, fun field hfield => ?_⟩
    rcases Fields.mem_insert hfield with hfield | rfl
    · exact h.ordered field hfield
    · exact hv w rfl

/-- Properties are taken over. -/
lemma insertAll (h : IsCollected fields) (hmore : ∀ field ∈ more, field.2.IsOrdered) :
    IsCollected (Fields.insertAll fields more) := by
  refine ⟨Fields.nodup_keys_insertAll _ h.nodup, fun field hfield => ?_⟩
  exact (Fields.mem_insertAll hfield).elim (h.ordered field) (hmore field)

/-- The mapping of an object literal. -/
theorem isOrdered (h : IsCollected fields) : (Value.mapping (sortKeys fields)).IsOrdered :=
  .mapping (inKeyOrder_sortKeys h.nodup) fun field hfield =>
    h.ordered field ((sortKeys_perm fields).mem_iff.1 hfield)

end IsCollected

end Parts

end Script

end CardTable
