import CardTable.Corpus.Catalog
import Mathlib.Data.List.Induction

set_option autoImplicit false

/-!
# Catalogs and their entries

A catalog is made of the entries of a value: of what stands in its lists, at whatever depth, in the
order in which a walk through the lists comes to it. How the lists are nested makes no difference:
the entries alone decide whether there is a catalog, which of them is the first that cannot be
taken, and what the catalog says about each id.

## Main definitions

* `CardTable.Value.at?` — the value at a place in nested lists.
* `CardTable.Value.ListsLeaves` — the places of the entries, in the order of a walk.
* `CardTable.Catalog.HasId` — the entries that can be taken.
* `CardTable.Catalog.IsCatalogOf` — the catalog of given entries.
* `CardTable.Catalog.entryFor?` — the entry that a catalog has for an id.

## Main results

* `CardTable.Value.exists_listsLeaves` — where the entries of a value stand.
* `CardTable.Catalog.addEntries_cases` — entries are taken up to the first that has no id.
* `CardTable.Catalog.get?_of_ofValue` — what a catalog says about an id.
* `CardTable.Catalog.ofValue_of_leaves` — a catalog depends on the entries only.
-/

namespace CardTable

/-! ## Entries of nested lists -/

namespace Value

/-- The item at a position of a list. -/
def item? : Value → Nat → Option Value
  | .list items, i => items[i]?
  | _, _ => none

/-- The value at a place in nested lists: the positions of the items to go into, from the outermost
list on. -/
def at? : Value → List Nat → Option Value
  | v, [] => some v
  | v, i :: place => (v.item? i).bind fun item => at? item place

/-- The places of the entries of a value: they ascend, so that a walk through the lists comes to
them in this order, and they are all places with a value that is not a list. -/
structure ListsLeaves (v : Value) (places : List (List Nat)) : Prop where
  /-- The places ascend. -/
  ascending : places.Pairwise (· < ·)
  /-- They are the places with a value that is not a list. -/
  mem_iff : ∀ place, place ∈ places ↔ ∃ leaf, v.at? place = some leaf ∧ leaf.kind ≠ .list
  /-- The entries stand there. -/
  map_eq : places.map v.at? = (leaves v).map some

/-- The entry of a value that is not a list is the value itself. -/
lemma leaves_of_kind_ne {v : Value} (h : v.kind ≠ .list) : leaves v = [v] := by
  cases v with
  | list items => exact absurd rfl h
  | _ => rfl

/-- A value that is not a list has itself at its only place. -/
lemma listsLeaves_of_kind_ne {v : Value} (h : v.kind ≠ .list) : v.ListsLeaves [[]] where
  ascending := List.pairwise_singleton ..
  mem_iff place := by
    have hitem : ∀ i, v.item? i = none := by
      cases v with
      | list items => exact absurd rfl h
      | _ => exact fun _ => rfl
    cases place with
    | nil => simp [at?, h]
    | cons i place => simp [at?, hitem]
  map_eq := by rw [leaves_of_kind_ne h]; rfl

section Concat

variable {items : List Value} {item : Value} {places more : List (List Nat)} {place : List Nat}

/-- The places of the entries of a list begin with the position of an item. -/
lemma ListsLeaves.exists_cons (h : (Value.list items).ListsLeaves places)
    (hplace : place ∈ places) :
    ∃ i rest, place = i :: rest ∧ i < items.length := by
  obtain ⟨leaf, hleaf, hkind⟩ := (h.mem_iff place).1 hplace
  cases place with
  | nil => exact absurd (congrArg kind (Option.some.inj hleaf)).symm hkind
  | cons i rest =>
    obtain ⟨item, hitem, -⟩ := Option.bind_eq_some_iff.1 hleaf
    exact ⟨i, rest, rfl, (List.getElem?_eq_some_iff.1 hitem).1⟩

/-- A further item at the end of a list is not in the way of what stands in the others. -/
lemma at?_concat_of_lt {i : Nat} (hi : i < items.length) (item : Value) (rest : List Nat) :
    (Value.list (items ++ [item])).at? (i :: rest) = (Value.list items).at? (i :: rest) := by
  simp only [at?, item?, List.getElem?_append_left hi]

/-- What stands in the last item of a list. -/
lemma at?_concat_length (items : List Value) (item : Value) (rest : List Nat) :
    (Value.list (items ++ [item])).at? (items.length :: rest) = item.at? rest := by
  simp only [at?, item?, List.getElem?_concat_length, Option.bind_some]

/-- The entries of a further item at the end of a list come behind those of the others. -/
lemma ListsLeaves.concat (h : (Value.list items).ListsLeaves places)
    (hitem : item.ListsLeaves more) :
    (Value.list (items ++ [item])).ListsLeaves (places ++ more.map (items.length :: ·)) where
  ascending := by
    refine List.pairwise_append.2 ⟨h.ascending, ?_, ?_⟩
    · exact List.pairwise_map.2 (hitem.ascending.imp fun hlt => List.Lex.cons hlt)
    · intro place hplace other hother
      obtain ⟨i, rest, rfl, hi⟩ := h.exists_cons hplace
      obtain ⟨rest', -, rfl⟩ := List.mem_map.1 hother
      exact List.Lex.rel hi
  mem_iff place := by
    rw [List.mem_append, List.mem_map]
    constructor
    · rintro (hplace | ⟨rest, hrest, rfl⟩)
      · obtain ⟨i, rest, rfl, hi⟩ := h.exists_cons hplace
        rw [at?_concat_of_lt hi]
        exact (h.mem_iff _).1 hplace
      · rw [at?_concat_length]
        exact (hitem.mem_iff rest).1 hrest
    · rintro ⟨leaf, hleaf, hkind⟩
      cases place with
      | nil => exact absurd (congrArg kind (Option.some.inj hleaf)).symm hkind
      | cons i rest =>
        obtain ⟨found, hfound, -⟩ := Option.bind_eq_some_iff.1 hleaf
        have hi : i < items.length + 1 := by
          simpa using (List.getElem?_eq_some_iff.1 hfound).1
        rcases Nat.lt_succ_iff_lt_or_eq.1 hi with hlt | rfl
        · rw [at?_concat_of_lt hlt] at hleaf
          exact .inl ((h.mem_iff _).2 ⟨leaf, hleaf, hkind⟩)
        · rw [at?_concat_length] at hleaf
          exact .inr ⟨rest, (hitem.mem_iff rest).2 ⟨leaf, hleaf, hkind⟩, rfl⟩
  map_eq := by
    have hleaves : leaves (.list (items ++ [item])) = leaves (.list items) ++ leaves item := by
      simp [leaves, leavesOf_append, leavesOf]
    rw [List.map_append, List.map_map, hleaves, List.map_append, ← h.map_eq, ← hitem.map_eq]
    refine congrArg₂ _ (List.map_congr_left fun place hplace => ?_) ?_
    · obtain ⟨i, rest, rfl, hi⟩ := h.exists_cons hplace
      exact at?_concat_of_lt hi item rest
    · exact List.map_congr_left fun rest _ => at?_concat_length items item rest

end Concat

/-- **Where the entries of a value stand**: in the order of their places in the nested lists.

**Proof sketch.** Induction on the value, and for a list on its items, the last one split off: the
places in the last item come behind those in the items in front of it. -/
theorem exists_listsLeaves (v : Value) : ∃ places, v.ListsLeaves places := by
  induction v using Value.induction with
  | list items ih =>
    induction items using List.reverseRecOn with
    | nil =>
      refine ⟨[], List.Pairwise.nil, fun place => ?_, rfl⟩
      cases place <;> simp [at?, item?, kind]
    | append_singleton items item ihItems =>
      obtain ⟨places, hplaces⟩ := ihItems fun other hother => ih other (by simp [hother])
      obtain ⟨more, hmore⟩ := ih item (by simp)
      exact ⟨_, hplaces.concat hmore⟩
  | num n => exact ⟨_, listsLeaves_of_kind_ne (by cases n <;> exact nofun)⟩
  | null | bool | str | mapping => exact ⟨_, listsLeaves_of_kind_ne nofun⟩

end Value

namespace Catalog

/-! ## Taking entries -/

/-- An entry that can be taken: a mapping with the text `id` as its id. -/
def HasId (v : Value) (id : String) : Prop :=
  ∃ fields, v = .mapping fields ∧ Fields.get? fields "id" = some (.str id)

/-- Why an entry at the position `index` cannot be taken. -/
def problemAt (index : Nat) : Value → InputProblem
  | .mapping _ => .entryWithoutId index
  | _ => .entryNotMapping index

/-- The wording names the position of the entry and says what is wrong with it. -/
lemma message_problemAt (index : Nat) (v : Value) : (problemAt index v).message =
    "set entry " ++ String.ofList (Nat.toDigits 10 index) ++
      if v.kind = .mapping then " has no string id" else " is not an object" := by
  cases v with
  | num n => cases n <;> rfl
  | _ => rfl

/-- The fields of an entry of a catalog with the given id. -/
def fieldsWithId? (id : String) : Value → Option (Fields Value)
  | .mapping fields =>
    if (Fields.get? fields "id").bind Value.text? = some id then some fields else none
  | _ => none

/-- The entry that a catalog has for an id: the last one with this id. -/
def entryFor? (sets : Value) (id : String) : Option (Fields Value) :=
  ((leaves sets).filterMap (fieldsWithId? id)).getLast?

section Entries

variable {catalog catalog' : Catalog} {index : Nat} {entries before behind : List Value} {v : Value}
  {fields : Fields Value} {id : String}

/-- An entry with an id is taken. -/
lemma addEntries_cons_of_id (hid : Fields.get? fields "id" = some (.str id)) :
    addEntries catalog index (.mapping fields :: entries) =
      addEntries (Fields.insert catalog id (info fields)) (index + 1) entries := by
  rw [addEntries, hid]

/-- Another entry is not. -/
lemma addEntries_cons_of_not (h : ∀ id, ¬ HasId v id) :
    addEntries catalog index (v :: entries) = .error (problemAt index v) := by
  cases v with
  | mapping fields =>
    rw [addEntries]
    split
    · next id hid => exact absurd ⟨fields, rfl, hid⟩ (h id)
    · rfl
  | _ => rfl

/-- **Entries are taken up to the first that has no id**, if there is one. -/
theorem addEntries_of_first (hbefore : ∀ entry ∈ before, ∃ id, HasId entry id)
    (h : ∀ id, ¬ HasId v id) :
    addEntries catalog index (before ++ v :: behind) =
      .error (problemAt (index + before.length) v) := by
  induction before generalizing catalog index with
  | nil => exact addEntries_cons_of_not h
  | cons entry before ih =>
    obtain ⟨⟨id, fields, rfl, hid⟩, hrest⟩ := List.forall_mem_cons.1 hbefore
    rw [List.cons_append, addEntries_cons_of_id hid, ih hrest, List.length_cons, Nat.add_assoc,
      Nat.add_comm 1]

/-- Entries that all have ids are taken. -/
lemma exists_addEntries (catalog : Catalog) (index : Nat)
    (h : ∀ entry ∈ entries, ∃ id, HasId entry id) :
    ∃ catalog', addEntries catalog index entries = .ok catalog' := by
  induction entries generalizing catalog index with
  | nil => exact ⟨catalog, rfl⟩
  | cons entry entries ih =>
    obtain ⟨⟨id, fields, rfl, hid⟩, hrest⟩ := List.forall_mem_cons.1 h
    rw [addEntries_cons_of_id hid]
    exact ih _ _ hrest

/-- Of several entries there is a first without an id, or all have one. -/
lemma exists_first_or_forall (entries : List Value) :
    (∃ before v behind, entries = before ++ v :: behind ∧
      (∀ entry ∈ before, ∃ id, HasId entry id) ∧ ∀ id, ¬ HasId v id) ∨
    ∀ entry ∈ entries, ∃ id, HasId entry id := by
  induction entries with
  | nil => exact .inr nofun
  | cons entry entries ih =>
    by_cases hentry : ∃ id, HasId entry id
    · refine ih.imp ?_ fun hrest => List.forall_mem_cons.2 ⟨hentry, hrest⟩
      rintro ⟨before, v, behind, rfl, hbefore, hv⟩
      exact ⟨entry :: before, v, behind, rfl, List.forall_mem_cons.2 ⟨hentry, hbefore⟩, hv⟩
    · exact .inl ⟨[], entry, entries, rfl, nofun, fun id hid => hentry ⟨id, hid⟩⟩

/-- A mapping has the id in its field `id`. -/
lemma hasId_mapping_iff :
    HasId (.mapping fields) id ↔ Fields.get? fields "id" = some (.str id) := by
  constructor
  · rintro ⟨_, ⟨⟩, hid⟩
    exact hid
  · exact fun hid => ⟨fields, rfl, hid⟩

/-- A catalog has the ids of the entries that were taken, each of them once. -/
lemma keys_of_addEntries (hnodup : catalog.keys.Nodup)
    (h : addEntries catalog index entries = .ok catalog') :
    catalog'.keys.Nodup ∧
      ∀ id, id ∈ catalog'.keys ↔ id ∈ catalog.keys ∨ ∃ entry ∈ entries, HasId entry id := by
  induction entries generalizing catalog index with
  | nil =>
    obtain rfl := Except.ok.inj h
    exact ⟨hnodup, by simp⟩
  | cons entry entries ih =>
    by_cases hentry : ∃ id, HasId entry id
    · obtain ⟨id, fields, rfl, hid⟩ := hentry
      rw [addEntries_cons_of_id hid] at h
      obtain ⟨hnodup', hkeys⟩ := ih (Fields.nodup_keys_insert _ _ hnodup) h
      refine ⟨hnodup', fun other => ?_⟩
      have hinsert : other ∈ (Fields.insert catalog id (info fields)).keys ↔
          other ∈ catalog.keys ∨ id = other := by
        rw [Fields.keys_insert]
        split <;> grind
      simp only [hkeys, hinsert, List.mem_cons, exists_eq_or_imp, hasId_mapping_iff, hid,
        Option.some.injEq, Value.str.injEq, or_assoc]
    · rw [addEntries_cons_of_not fun id hid => hentry ⟨id, hid⟩] at h
      cases h

/-- The fields of an entry with an id. -/
lemma fieldsWithId?_eq_some_iff : fieldsWithId? id v = some fields ↔
    v = .mapping fields ∧ Fields.get? fields "id" = some (.str id) := by
  have htext : ∀ found : Fields Value, (Fields.get? found "id").bind Value.text? = some id ↔
      Fields.get? found "id" = some (.str id) := by
    intro found
    cases Fields.get? found "id" with
    | none => simp
    | some value => cases value <;> simp [Value.text?]
  cases v with
  | mapping found =>
    rw [fieldsWithId?, Option.ite_none_right_eq_some, htext]
    constructor
    · rintro ⟨hid, ⟨⟩⟩
      exact ⟨rfl, hid⟩
    · rintro ⟨⟨⟩, hid⟩
      exact ⟨hid, rfl⟩
  | _ => simp [fieldsWithId?]

/-- What is known about an id once further entries were added. -/
lemma get?_of_addEntries {catalog catalog' : Catalog} {index : Nat} {entries : List Value}
    (h : addEntries catalog index entries = .ok catalog') (id : String) :
    Fields.get? catalog' id =
      ((entries.filterMap (fieldsWithId? id)).getLast?.map info).or (Fields.get? catalog id) := by
  induction entries generalizing catalog index with
  | nil =>
    obtain rfl := Except.ok.inj h
    simp
  | cons v rest ih =>
    cases v with
    | mapping fields =>
      unfold addEntries at h
      split at h
      · next other hother =>
        rw [ih h, Fields.get?_insert]
        by_cases hid : other = id
        · rw [List.filterMap_cons_some (b := fields) (by simp [fieldsWithId?, hother, Value.text?, hid]),
            if_pos hid, List.getLast?_cons]
          cases (rest.filterMap (fieldsWithId? id)).getLast? <;> rfl
        · rw [List.filterMap_cons_none (by simp [fieldsWithId?, hother, Value.text?, hid]), if_neg hid]
      · cases h
    | _ => cases h

end Entries

/-- **What a catalog says about an id** is what its entry for this id says. -/
theorem get?_of_ofValue {sets : Value} {catalog : Catalog} (h : ofValue sets = .ok catalog)
    (id : String) : Fields.get? catalog id = (entryFor? sets id).map info := by
  have hnone : Fields.get? ([] : Catalog) id = none := rfl
  unfold ofValue at h
  split at h
  · rw [get?_of_addEntries h id, hnone, Option.or_none, entryFor?]
  · rw [get?_of_addEntries h id, hnone, Option.or_none, entryFor?]
  · cases h

/-- The catalog in a file is that of the value that the file spells. -/
lemma exists_value_of_read {t : FileTree} {file : Path} {catalog : Catalog}
    (h : read t file = .ok catalog) :
    ∃ text sets, t.readText file = .ok text ∧ Json.read? text = some sets ∧
      ofValue sets = .ok catalog := by
  unfold read at h
  split at h
  · cases htext : t.readText file with
    | error e => simp [htext, Except.mapError, bind, Except.bind] at h
    | ok text =>
      simp only [htext, Except.mapError, bind, Except.bind] at h
      split at h
      · cases h
      · split at h
        · cases h
        · next sets hsets =>
          refine ⟨text, sets, rfl, hsets, ?_⟩
          cases hcatalog : ofValue sets with
          | error e => simp [hcatalog] at h
          | ok found =>
            rw [hcatalog] at h
            exact congrArg _ (Except.ok.inj h)
  · cases h

/-! ## The catalog of a value -/

/-- What a catalog is given as: a list, or a single entry. -/
def IsGiven (v : Value) : Prop :=
  v.kind = .list ∨ v.kind = .mapping

/-- The catalog of given entries. -/
structure IsCatalogOf (entries : List Value) (catalog : Catalog) : Prop where
  /-- Each id stands there once. -/
  nodup : catalog.keys.Nodup
  /-- The ids are those of the entries. -/
  mem_keys_iff : ∀ id, id ∈ catalog.keys ↔ ∃ entry ∈ entries, HasId entry id
  /-- What is known about an id comes from the last entry with this id. -/
  get?_eq : ∀ {before behind : List Value} {fields : Fields Value} {id : String},
    entries = before ++ .mapping fields :: behind → HasId (.mapping fields) id →
    (∀ entry ∈ behind, ¬ HasId entry id) → Fields.get? catalog id = some (info fields)

section Leaves

variable {v w : Value} {catalog : Catalog}

/-- A list or a single entry gives its entries. -/
lemma ofValue_eq (h : IsGiven v) : ofValue v = addEntries [] 0 (leaves v) := by
  cases v with
  | list | mapping => rfl
  | num n => cases n <;> exact absurd h (by rintro (h | h) <;> cases h)
  | _ => exact absurd h (by rintro (h | h) <;> cases h)

/-- Entries that were taken make their catalog. -/
lemma isCatalogOf_of_addEntries {entries : List Value}
    (h : addEntries [] 0 entries = .ok catalog) : IsCatalogOf entries catalog := by
  have hnil : (Fields.keys ([] : Catalog)).Nodup := List.nodup_nil
  obtain ⟨hnodup, hkeys⟩ := keys_of_addEntries hnil h
  refine ⟨hnodup, fun id => (hkeys id).trans (or_iff_right List.not_mem_nil), ?_⟩
  rintro before behind fields id rfl hid hbehind
  have hlast : behind.filterMap (fieldsWithId? id) = [] := by
    refine List.filterMap_eq_nil_iff.2 fun entry hentry => ?_
    exact Option.eq_none_iff_forall_ne_some.2 fun found hfound =>
      hbehind entry hentry ⟨found, fieldsWithId?_eq_some_iff.1 hfound⟩
  rw [get?_of_addEntries h, List.filterMap_append,
    List.filterMap_cons_some (fieldsWithId?_eq_some_iff.2 ⟨rfl, hasId_mapping_iff.1 hid⟩), hlast,
    List.getLast?_concat]
  rfl

/-- **A catalog depends on the entries only.**

**Proof sketch.** A catalog is made by going through the entries once (`ofValue_eq`), whatever lists
they stand in. Either all of them have ids, and then all are taken up (`exists_addEntries`), or
there is a first one that has none, which is reported with its number (`addEntries_of_first`). -/
theorem ofValue_of_leaves (h : IsGiven v) :
    (∃ places, v.ListsLeaves places) ∧
    ((∃ catalog, ofValue v = .ok catalog) ↔ ∀ leaf ∈ leaves v, ∃ id, HasId leaf id) ∧
    (∀ problem, ofValue v = .error problem ↔ ∃ before leaf behind,
      leaves v = before ++ leaf :: behind ∧ (∀ earlier ∈ before, ∃ id, HasId earlier id) ∧
      (∀ id, ¬ HasId leaf id) ∧ problem = problemAt before.length leaf ∧
      problem.message = "set entry " ++ String.ofList (Nat.toDigits 10 before.length) ++
        if leaf.kind = .mapping then " has no string id" else " is not an object") ∧
    (∀ catalog, ofValue v = .ok catalog → IsCatalogOf (leaves v) catalog) ∧
    ∀ w, IsGiven w → leaves w = leaves v → ofValue w = ofValue v := by
  simp only [ofValue_eq h]
  refine ⟨v.exists_listsLeaves, ?_, ?_, fun catalog => isCatalogOf_of_addEntries, ?_⟩
  · refine ⟨?_, exists_addEntries [] 0⟩
    rintro ⟨catalog, hcatalog⟩
    refine (exists_first_or_forall (leaves v)).resolve_left ?_
    rintro ⟨before, leaf, behind, hleaves, hbefore, hleaf⟩
    rw [hleaves, addEntries_of_first hbefore hleaf] at hcatalog
    cases hcatalog
  · intro problem
    constructor
    · intro herror
      rcases exists_first_or_forall (leaves v) with
        ⟨before, leaf, behind, hleaves, hbefore, hleaf⟩ | hall
      · refine ⟨before, leaf, behind, hleaves, hbefore, hleaf, ?_⟩
        rw [hleaves, addEntries_of_first hbefore hleaf, Nat.zero_add] at herror
        obtain rfl := Except.error.inj herror
        exact ⟨rfl, message_problemAt _ _⟩
      · obtain ⟨catalog, hcatalog⟩ := exists_addEntries [] 0 hall
        rw [hcatalog] at herror
        cases herror
    · rintro ⟨before, leaf, behind, hleaves, hbefore, hleaf, rfl, -⟩
      rw [hleaves, addEntries_of_first hbefore hleaf, Nat.zero_add]
  · intro w hw hleaves
    rw [ofValue_eq hw, hleaves]

end Leaves

/-- A catalog with an id that occurs at two depths. -/
def nestedSets : Value :=
  .list [.list [.mapping [("id", .str "base1"), ("name", .str "Base")],
      .list [.list [], .mapping [("id", .str "base2")]]],
    .mapping [("name", .str "Base Set"), ("id", .str "base1")]]

/-- Its last entry for this id counts, and so it does without the inner lists. -/
theorem ofValue_nestedSets : IsGiven nestedSets ∧ IsGiven (.list (leaves nestedSets)) ∧
    ∃ catalog, ofValue nestedSets = .ok catalog ∧
      ofValue (.list (leaves nestedSets)) = .ok catalog ∧
      Fields.get? catalog "base1" = some ⟨some "Base Set", none, none⟩ := by
  have hgiven : IsGiven nestedSets := .inl rfl
  obtain ⟨-, hloads, -, hcatalog, hsame⟩ := ofValue_of_leaves hgiven
  have hleaves : leaves nestedSets =
      [.mapping [("id", .str "base1"), ("name", .str "Base")], .mapping [("id", .str "base2")]] ++
        [.mapping [("name", .str "Base Set"), ("id", .str "base1")]] := rfl
  have hids : ∀ leaf ∈ leaves nestedSets, ∃ id, HasId leaf id := by
    simp [hleaves, hasId_mapping_iff, Fields.get?]
  obtain ⟨catalog, hvalue⟩ := hloads.2 hids
  refine ⟨hgiven, .inl rfl, catalog, hvalue, ?_, ?_⟩
  · exact (hsame (.list (leaves nestedSets)) (.inl rfl) rfl).trans hvalue
  · exact (hcatalog catalog hvalue).get?_eq hleaves ⟨_, rfl, rfl⟩ (by simp)

end Catalog

end CardTable
