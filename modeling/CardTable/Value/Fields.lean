set_option autoImplicit false

/-!
# Fields in insertion order

The fields of a mapping form a list of named entries. Their order is part of the mapping: a new
field goes to the end, and a field that is set again keeps its place.

## Main definitions

* `CardTable.Fields` — named entries in insertion order.
* `CardTable.Fields.get?`, `CardTable.Fields.insert`, `CardTable.Fields.erase` — reading, setting
  and removing one field.
* `CardTable.Fields.insertAll` — setting one field after the other.

## Main results

* `CardTable.Fields.mem_of_get?` — what is read stands among the fields.
* `CardTable.Fields.get?_insert` — what is read after a field was set.
* `CardTable.Fields.keys_insert` — where a field goes that is set.
* `CardTable.Fields.nodup_keys_insert` — setting a field keeps the names distinct.
-/

namespace CardTable

/-- Named entries in insertion order. -/
abbrev Fields (α : Type) : Type := List (String × α)

namespace Fields

variable {α : Type}

/-- The names of the fields, in order. -/
def keys (fields : Fields α) : List String :=
  fields.map Prod.fst

/-- The entry named `key`. -/
def get? : Fields α → String → Option α
  | [], _ => none
  | (name, entry) :: rest, key => if name = key then some entry else get? rest key

/-- Sets the field `key`: in its place if it is there, otherwise at the end. -/
def insert : Fields α → String → α → Fields α
  | [], key, entry => [(key, entry)]
  | (name, old) :: rest, key, entry =>
    if name = key then (name, entry) :: rest else (name, old) :: insert rest key entry

/-- Removes the field `key`; the other fields keep their order. -/
def erase (fields : Fields α) (key : String) : Fields α :=
  fields.filter fun field => field.1 ≠ key

/-- Sets the fields `more`, one after the other. -/
def insertAll (fields more : Fields α) : Fields α :=
  more.foldl (fun acc field => insert acc field.1 field.2) fields

/-- The mapping with the given entries: of several entries with one name the last one counts, at
the place of the first. -/
def ofEntries (entries : List (String × α)) : Fields α :=
  insertAll [] entries

/-! ## Laws -/

/-- What is read stands among the fields. -/
theorem mem_of_get? {fields : Fields α} {key : String} {entry : α}
    (h : get? fields key = some entry) : (key, entry) ∈ fields := by
  induction fields with
  | nil => exact absurd h nofun
  | cons field rest ih =>
    obtain ⟨name, first⟩ := field
    unfold get? at h
    split at h
    · next hname =>
      obtain rfl : first = entry := by simpa using h
      exact hname ▸ List.mem_cons_self ..
    · exact List.mem_cons_of_mem _ (ih h)

/-- After `key` was set it reads as its new entry, and every other field reads as before. -/
theorem get?_insert (fields : Fields α) (key other : String) (entry : α) :
    get? (insert fields key entry) other =
      if key = other then some entry else get? fields other := by
  induction fields with
  | nil => simp [insert, get?]
  | cons field rest ih =>
    obtain ⟨name, old⟩ := field
    by_cases hkey : name = key
    · subst hkey
      by_cases hother : name = other <;> simp [insert, get?, hother]
    · by_cases hother : name = other
      · subst hother
        simp [insert, get?, hkey, Ne.symm hkey]
      · simp [insert, get?, hkey, hother, ih]

/-- A new field goes to the end. -/
theorem insert_of_not_mem {fields : Fields α} {key : String} (h : key ∉ keys fields) (entry : α) :
    insert fields key entry = fields ++ [(key, entry)] := by
  induction fields with
  | nil => rfl
  | cons field rest ih =>
    obtain ⟨name, old⟩ := field
    simp only [keys, List.map_cons, List.mem_cons, not_or] at h
    rw [insert, if_neg (Ne.symm h.1), ih h.2]
    rfl

/-- Setting a field adds its name at the end unless the name is there. -/
theorem keys_insert (fields : Fields α) (key : String) (entry : α) :
    keys (insert fields key entry) =
      if key ∈ keys fields then keys fields else keys fields ++ [key] := by
  induction fields with
  | nil => simp [insert, keys]
  | cons field rest ih =>
    obtain ⟨name, old⟩ := field
    by_cases hkey : name = key
    · subst hkey
      simp [insert, keys]
    · have hne : ¬ key = name := fun h => hkey h.symm
      simp only [keys] at ih
      by_cases hmem : key ∈ rest.map Prod.fst <;> simp_all [insert, keys]

/-- Setting a field keeps the names distinct. -/
theorem nodup_keys_insert {fields : Fields α} (key : String) (entry : α)
    (h : (keys fields).Nodup) : (keys (insert fields key entry)).Nodup := by
  rw [keys_insert]
  split
  · exact h
  · next hmem =>
    refine List.nodup_append.2 ⟨h, by simp, ?_⟩
    intro a ha b hb
    obtain rfl : b = key := by simpa using hb
    exact fun hab => hmem (hab ▸ ha)

end Fields

end CardTable
