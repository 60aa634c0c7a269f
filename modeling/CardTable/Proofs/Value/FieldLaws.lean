import CardTable.Value.Fields
import Mathlib.Data.List.Nodup

set_option autoImplicit false

/-!
# Setting and removing fields

What a field list holds after fields have been set or removed, and in which order these steps may
be taken.

## Main results

* `CardTable.Fields.nodup_keys_insertAll` — setting fields keeps the names distinct.
* `CardTable.Fields.insertAll_insert` — setting fields all at once and one by one.
* `CardTable.Fields.filter_insertAll` — fields with some of the names, after fields have been set.
* `CardTable.Fields.insertAll_perm` — the order in which fields are set only moves them.
-/

namespace CardTable

namespace Fields

variable {α : Type} {fields fields' more more' : Fields α} {field : String × α} {key : String}
  {entry : α}

/-! ## What is there -/

/-- A field that is there after `key` was set was there before, or it is the one that was set. -/
lemma mem_insert (h : field ∈ insert fields key entry) :
    field ∈ fields ∨ field = (key, entry) := by
  induction fields with
  | nil => exact .inr (List.mem_singleton.1 h)
  | cons first rest ih =>
    obtain ⟨name, old⟩ := first
    unfold insert at h
    split at h
    · next hname =>
      subst hname
      rcases List.mem_cons.1 h with h | h
      · exact .inr h
      · exact .inl (List.mem_cons_of_mem _ h)
    · rcases List.mem_cons.1 h with rfl | h
      · exact .inl (List.mem_cons_self ..)
      · exact (ih h).imp_left (List.mem_cons_of_mem _)

/-- A field that is there after others were set was there before, or it is one of them. -/
lemma mem_insertAll (h : field ∈ insertAll fields more) : field ∈ fields ∨ field ∈ more := by
  induction more generalizing fields with
  | nil => exact .inl h
  | cons first rest ih =>
    rcases ih h with h | h
    · rcases mem_insert h with h | rfl
      · exact .inl h
      · exact .inr (List.mem_cons_self ..)
    · exact .inr (List.mem_cons_of_mem _ h)

/-- Setting fields keeps the names distinct. -/
theorem nodup_keys_insertAll (more : Fields α) (h : fields.keys.Nodup) :
    (insertAll fields more).keys.Nodup := by
  induction more generalizing fields with
  | nil => exact h
  | cons first rest ih => exact ih (nodup_keys_insert _ _ h)

/-- Removing fields keeps the names distinct. -/
lemma nodup_keys_filter (p : String × α → Bool) (h : fields.keys.Nodup) :
    (keys (fields.filter p)).Nodup :=
  (List.filter_sublist.map _).nodup h

/-! ## Setting fields in another order -/

/-- A field that was set is there. -/
lemma mem_keys_insert_self (fields : Fields α) (key : String) (entry : α) :
    key ∈ (insert fields key entry).keys := by
  rw [keys_insert]
  split <;> simp_all

/-- A field that is there stays when another one is set. -/
lemma mem_keys_insert (h : key ∈ fields.keys) (other : String) (entry : α) :
    key ∈ (insert fields other entry).keys := by
  rw [keys_insert]
  split <;> simp_all

/-- Setting a field twice. -/
lemma insert_insert_self (fields : Fields α) (key : String) (first second : α) :
    insert (insert fields key first) key second = insert fields key second := by
  induction fields with
  | nil => simp [insert]
  | cons field rest ih =>
    obtain ⟨name, old⟩ := field
    by_cases hname : name = key <;> simp [insert, hname, ih]

/-- A field that is there may be set before another one is. -/
lemma insert_comm {other : String} (hne : key ≠ other) (hkey : key ∈ fields.keys)
    (first second : α) : insert (insert fields other first) key second =
      insert (insert fields key second) other first := by
  induction fields with
  | nil => cases hkey
  | cons field rest ih =>
    obtain ⟨name, old⟩ := field
    by_cases hname : name = key
    · subst hname
      simp [insert, hne]
    · by_cases hother : name = other
      · simp [insert, hother, Ne.symm hne]
      · have hrest : key ∈ keys rest := (List.mem_cons.1 hkey).resolve_left (Ne.symm hname)
        simp [insert, hname, hother, ih hrest]

/-- A field that is there may be set before others are, if it is none of them. -/
lemma insert_insertAll (hmore : key ∉ more.keys) (hkey : key ∈ fields.keys) (entry : α) :
    insert (insertAll fields more) key entry = insertAll (insert fields key entry) more := by
  induction more generalizing fields with
  | nil => rfl
  | cons first rest ih =>
    obtain ⟨name, value⟩ := first
    simp only [keys, List.map_cons, List.mem_cons, not_or] at hmore
    have hrest := ih hmore.2 (mem_keys_insert hkey name value)
    rw [insert_comm hmore.1 hkey] at hrest
    exact hrest

/-- **Setting fields all at once and one by one**: one more field may be set before the others are
taken over, or after it. -/
theorem insertAll_insert (fields : Fields α) (hmore : more.keys.Nodup) (key : String) (entry : α) :
    insertAll fields (insert more key entry) = insert (insertAll fields more) key entry := by
  induction more generalizing fields with
  | nil => rfl
  | cons first rest ih =>
    obtain ⟨name, value⟩ := first
    have hdistinct := List.nodup_cons.1 hmore
    by_cases hname : name = key
    · subst hname
      have hrest :=
        insert_insertAll hdistinct.1 (mem_keys_insert_self fields name value) entry
      rw [insert_insert_self] at hrest
      rw [insert, if_pos rfl]
      exact hrest.symm
    · rw [insert, if_neg hname]
      exact ih _ hdistinct.2

/-! ## Fields with some of the names -/

section Filter

variable {p : String → Bool}

/-- A field with one of the names was set. -/
lemma filter_insert_of_pos (hkey : p key = true) (fields : Fields α) (entry : α) :
    (insert fields key entry).filter (fun field => p field.1) =
      insert (fields.filter fun field => p field.1) key entry := by
  induction fields with
  | nil => simp [insert, hkey]
  | cons field rest ih =>
    obtain ⟨name, old⟩ := field
    by_cases hname : name = key
    · subst hname
      simp [insert, hkey]
    · cases hp : p name <;> simp [insert, hname, hp, ih]

/-- A field with another name was set. -/
lemma filter_insert_of_neg (hkey : p key = false) (fields : Fields α) (entry : α) :
    (insert fields key entry).filter (fun field => p field.1) =
      fields.filter fun field => p field.1 := by
  induction fields with
  | nil => simp [insert, hkey]
  | cons field rest ih =>
    obtain ⟨name, old⟩ := field
    by_cases hname : name = key
    · subst hname
      simp [insert, hkey]
    · cases hp : p name <;> simp [insert, hname, hp, ih]

/-- **Fields with some of the names**, after fields have been set. -/
theorem filter_insertAll (p : String → Bool) (fields more : Fields α) :
    (insertAll fields more).filter (fun field => p field.1) =
      insertAll (fields.filter fun field => p field.1) (more.filter fun field => p field.1) := by
  induction more generalizing fields with
  | nil => rfl
  | cons first rest ih =>
    obtain ⟨name, value⟩ := first
    refine (ih (insert fields name value)).trans ?_
    cases hname : p name with
    | true =>
      rw [filter_insert_of_pos hname, List.filter_cons, if_pos hname]
      rfl
    | false => rw [filter_insert_of_neg hname, List.filter_cons, if_neg (by simp [hname])]

end Filter

/-! ## Fields in another order -/

/-- A field whose name is distinct is read as it stands there. -/
lemma get?_eq_some_iff (h : fields.keys.Nodup) :
    get? fields key = some entry ↔ (key, entry) ∈ fields := by
  refine ⟨mem_of_get?, fun hmem => ?_⟩
  induction fields with
  | nil => cases hmem
  | cons field rest ih =>
    obtain ⟨name, old⟩ := field
    obtain ⟨hname, hrest⟩ := List.nodup_cons.1 h
    rcases List.mem_cons.1 hmem with heq | hmem
    · obtain ⟨rfl, rfl⟩ := Prod.mk.inj heq
      rw [get?, if_pos rfl]
    · have hne : name ≠ key := by
        rintro rfl
        exact hname (List.mem_map.2 ⟨_, hmem, rfl⟩)
      rw [get?, if_neg hne, ih hrest hmem]

/-- What is read after fields have been set. -/
lemma get?_insertAll (fields : Fields α) (hmore : more.keys.Nodup) (key : String) :
    get? (insertAll fields more) key = (get? more key).or (get? fields key) := by
  induction more generalizing fields with
  | nil => rfl
  | cons first rest ih =>
    obtain ⟨name, value⟩ := first
    obtain ⟨hname, hrest⟩ := List.nodup_cons.1 hmore
    refine (ih (insert fields name value) hrest).trans ?_
    rw [get?_insert, get?]
    split
    · next hkey =>
      subst hkey
      have hnone : get? rest name = none :=
        Option.eq_none_iff_forall_ne_some.2 fun entry hentry =>
          hname (List.mem_map.2 ⟨_, mem_of_get? hentry, rfl⟩)
      rw [hnone]
      rfl
    · rfl

/-- Fields that are read alike are the same up to their order. -/
lemma perm_of_get? (h : fields.keys.Nodup) (h' : fields'.keys.Nodup)
    (hget : ∀ key, get? fields key = get? fields' key) : fields.Perm fields' := by
  refine (List.perm_ext_iff_of_nodup (List.Nodup.of_map _ h) (List.Nodup.of_map _ h')).2 ?_
  rintro ⟨key, entry⟩
  rw [← get?_eq_some_iff h, ← get?_eq_some_iff h', hget]

/-- Fields in another order are read alike. -/
lemma get?_of_perm (h : fields.keys.Nodup) (hperm : fields.Perm fields') (key : String) :
    get? fields key = get? fields' key := by
  have h' : fields'.keys.Nodup := (hperm.map Prod.fst).nodup_iff.1 h
  refine Option.ext fun entry => ?_
  rw [get?_eq_some_iff h, get?_eq_some_iff h', hperm.mem_iff]

/-- **The order in which fields are set** only moves them. -/
theorem insertAll_perm (h : fields.keys.Nodup) (hmore : more.keys.Nodup)
    (hperm : more.Perm more') : (insertAll fields more).Perm (insertAll fields more') := by
  have hmore' : more'.keys.Nodup := (hperm.map Prod.fst).nodup_iff.1 hmore
  refine perm_of_get? (nodup_keys_insertAll _ h) (nodup_keys_insertAll _ h) fun key => ?_
  rw [get?_insertAll _ hmore, get?_insertAll _ hmore', get?_of_perm hmore hperm]

end Fields

end CardTable
