import CardTable.Proofs.Artifact.Directories
import CardTable.Proofs.Files.Relisting
import Mathlib.Data.List.Induction
import Mathlib.Data.List.Nodup

set_option autoImplicit false

/-!
# Trees in which everything is in a directory

In a tree as file systems have them what is at a place is in a directory. Such a tree stays one when
directories are made in it, and names lead from directory to directory up to whatever is there.

## Main definitions

* `CardTable.FileTree.IsRooted` — a tree in which everything is in a directory.

## Main results

* `CardTable.FileTree.exists_name_of_locate` — a path that leads to no directory ends in a name.
* `CardTable.FileTree.IsRooted.createDirectories` — directories are made in directories.
* `CardTable.FileTree.IsRooted.descend_names` — names lead to what is there.
-/

namespace CardTable

namespace FileTree

/-! ## Trees in which everything is in a directory -/

/-- A tree as file systems have them: no place is listed twice, nor is the root listed, everything
is in a directory, and the working directory is there. -/
structure IsRooted (t : FileTree) : Prop where
  /-- The root and the places are distinct. -/
  distinct : ([] :: t.places).Nodup
  /-- What is at a place is in a directory. -/
  inDirectory : ∀ loc entry, t.at? loc = some entry → t.at? loc.dropLast = some .directory
  /-- The working directory is a directory. -/
  start : t.at? t.workingDirectory = some .directory

variable {t u : FileTree} {p : Path} {loc place : Location}

/-! ## Distinct places -/

/-- What is listed is what is at the places, but for the root. -/
lemma mem_entries_iff (h : ([] :: t.places).Nodup) {e : Location × Entry} :
    e ∈ t.entries ↔ e.1 ≠ [] ∧ t.at? e.1 = some e.2 := by
  obtain ⟨hroot, hdistinct⟩ := List.nodup_cons.1 h
  by_cases hloc : e.1 = []
  · exact iff_of_false (fun he => hroot (hloc ▸ List.mem_map_of_mem he)) fun he => he.1 hloc
  · rw [at?, if_neg hloc, lookup_eq_some_iff_mem hdistinct]
    exact (and_iff_right hloc).symm

/-- No entry is listed twice. -/
lemma nodup_entries (h : ([] :: t.places).Nodup) : t.entries.Nodup :=
  List.Nodup.of_map _ (List.nodup_cons.1 h).2

/-- A removal lists no place twice. -/
lemma nodup_remove (h : ([] :: t.places).Nodup) (loc : Location) :
    ([] :: (t.remove loc).places).Nodup :=
  ((List.filter_sublist.map Prod.fst).cons_cons []).nodup h

/-- What is put at a place is listed once. -/
lemma nodup_set (h : ([] :: t.places).Nodup) (hroot : loc ≠ []) (entry : Entry) :
    ([] :: (t.set loc entry).places).Nodup := by
  obtain ⟨hroot', hdistinct⟩ := List.nodup_cons.1 (nodup_remove h loc)
  have hnew : loc ∉ (t.remove loc).places := by
    simp [places, remove]
  refine List.nodup_cons.2 ⟨?_, List.nodup_cons.2 ⟨hnew, hdistinct⟩⟩
  exact fun hmem => (List.mem_cons.1 hmem).elim hroot.symm hroot'

/-! ## Where steps lead -/

/-- Where steps from a directory lead to no directory, the last of them is a name. -/
lemma exists_name_of_descend (ht : t.IsRooted) {start : Location} {steps : List Path.Component}
    (hstart : t.at? start = some .directory) (hplace : t.descend start steps = .ok place)
    (hfree : t.at? place ≠ some .directory) :
    ∃ front s middle, steps = front ++ [.name s] ∧ t.at? middle = some .directory ∧
      place = middle ++ [s] := by
  rcases List.eq_nil_or_concat steps with rfl | ⟨front, last, rfl⟩
  · obtain rfl := Except.ok.inj hplace
    exact absurd hstart hfree
  · rw [List.concat_eq_append] at hplace ⊢
    obtain ⟨middle, -, hmiddle, rfl⟩ := exists_of_descend_concat hplace
    cases last with
    | root => exact absurd rfl hfree
    | current => exact absurd hmiddle hfree
    | parent => exact absurd (ht.inDirectory _ _ hmiddle) hfree
    | name s => exact ⟨front, s, middle, rfl, hmiddle, rfl⟩

/-- Paths start at a directory. -/
lemma IsRooted.at?_startOf (ht : t.IsRooted) (p : Path) :
    t.at? (t.startOf p) = some .directory := by
  unfold startOf
  split
  · rfl
  · exact ht.start

/-- Where a path leads to no directory, its last step is a name. -/
theorem exists_name_of_locate (ht : t.IsRooted) (hplace : t.locate p = .ok place)
    (hfree : t.at? place ≠ some .directory) :
    ∃ front s middle, p.steps = front ++ [.name s] ∧ t.at? middle = some .directory ∧
      place = middle ++ [s] := by
  unfold locate at hplace
  split at hplace
  · cases hplace
  · exact exists_name_of_descend ht (ht.at?_startOf p) hplace hfree

/-! ## Making directories -/

/-- A directory is made in a directory. -/
lemma IsRooted.makeDirectory (ht : t.IsRooted) {start : Location} {steps : List Path.Component}
    (hstart : t.at? start = some .directory) (h : t.makeDirectory start steps = .ok u) :
    u.IsRooted := by
  obtain ⟨place, hplace, hempty, rfl⟩ := exists_set_of_makeDirectory h
  have hmore := MoreDirectories.set hempty
  have hfree : t.at? place ≠ some .directory := by simp [hempty]
  obtain ⟨front, s, middle, -, hmiddle, rfl⟩ := exists_name_of_descend ht hstart hplace hfree
  refine ⟨nodup_set ht.distinct (ne_root hfree) _, fun loc entry hentry => ?_, ?_⟩
  · rw [at?_set t _ loc _ (ne_root hfree)] at hentry
    refine hmore.kept _ _ ?_
    split at hentry
    · next heq => rw [heq, List.dropLast_concat, hmiddle]
    · exact ht.inDirectory loc entry hentry
  · exact hmore.kept _ _ ht.start

/-- **Directories are made in directories.** -/
theorem IsRooted.createDirectories (ht : t.IsRooted) (p : Path) :
    (t.createDirectories p).1.IsRooted := by
  -- the place where the path starts stays a directory, too
  refine (makeDirectories_keeps (fun u => u.IsRooted ∧ u.at? (t.startOf p) = some .directory) ?_
    ⟨ht, ht.at?_startOf p⟩ p.steps.reverse).1
  rintro u u' steps ⟨hu, hstart⟩ hmade
  obtain ⟨place, -, hempty, rfl⟩ := exists_set_of_makeDirectory hmade
  exact ⟨hu.makeDirectory hstart hmade, (MoreDirectories.set hempty).kept _ _ hstart⟩

/-! ## Names -/

/-- What leads on to something is a directory. -/
lemma IsRooted.at?_of_append (ht : t.IsRooted) {names : List String} (hne : names ≠ [])
    {entry : Entry} (h : t.at? (loc ++ names) = some entry) : t.at? loc = some .directory := by
  induction names using List.reverseRecOn generalizing entry with
  | nil => exact absurd rfl hne
  | append_singleton front s ih =>
    have hfront := ht.inDirectory _ _ h
    rw [← List.append_assoc, List.dropLast_concat] at hfront
    by_cases hnil : front = []
    · rw [hnil, List.append_nil] at hfront
      exact hfront
    · exact ih hnil hfront

/-- **Names lead to what is there.** -/
theorem IsRooted.descend_names (ht : t.IsRooted) {names : List String} {entry : Entry}
    (h : t.at? (loc ++ names) = some entry) :
    t.descend loc (names.map .name) = .ok (loc ++ names) := by
  induction names generalizing loc with
  | nil => rw [List.append_nil]; rfl
  | cons s names ih =>
    have hhere := ht.at?_of_append (List.cons_ne_nil s names) h
    rw [List.append_cons] at h ⊢
    simp only [List.map_cons, descend, hhere]
    exact ih h

end FileTree

end CardTable
