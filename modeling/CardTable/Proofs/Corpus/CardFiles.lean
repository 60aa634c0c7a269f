import CardTable.Corpus.Collection
import CardTable.Proofs.Files.Places
import CardTable.Proofs.Files.Relisting
import Mathlib.Data.List.Nodup

set_option autoImplicit false

/-!
# The files that are listed

A corpus lists the files at a fixed depth below its directory that have a fixed ending. Provided
that the file tree is well formed, the list has each of these files once, in the order of their
paths, and no other file.

## Main definitions

* `CardTable.FileTree.IsWellFormed` — whether the entries of a tree are those of directories.
* `CardTable.FileTree.IsFileBelow` — the files at a depth below a directory.
* `CardTable.FileTree.Lists` — what a list of files has to be like.

## Main results

* `CardTable.FileTree.mem_filesBelow_iff`, `CardTable.FileTree.nodup_filesBelow` — the files below a
  directory.
* `CardTable.FileTree.lists_flat`, `CardTable.FileTree.lists_collection` — the card files of the two
  kinds of corpora.
-/

namespace CardTable

namespace Path

/-! ## Entries of directories -/

/-- The path that names lead to from the directory `p`. -/
def below (p : Path) (names : List String) : Path :=
  names.foldl (fun p s => p.join ⟨s⟩) p

variable {p : Path} {s : String} {names : List String}

/-- A name says something. -/
lemma IsName.ne_nil (h : IsName s) : s.toList ≠ [] := by
  intro hnil
  have hnone : componentOf? s.toList = none := by rw [hnil]; rfl
  cases hnone.symm.trans h.2

/-- A name is a path of one step. -/
lemma IsName.steps (h : IsName s) :
    (⟨s⟩ : Path).isAbsolute = false ∧ (⟨s⟩ : Path).steps = [.name s] := by
  refine ⟨Bool.eq_false_iff.2 fun habsolute => h.1 ?_, ?_⟩
  · exact List.mem_of_head? (beq_iff_eq.1 habsolute)
  · rw [Path.steps, splitSlash_of_not_mem h.1, List.filterMap_cons_some h.2, List.filterMap_nil]

/-- The steps to an entry of a directory. -/
lemma steps_join_name (h : IsName s) : (p.join ⟨s⟩).steps = p.steps ++ [.name s] := by
  rw [steps_join h.steps.1, h.steps.2]

/-- The text of a path to an entry of a directory ends in its name. -/
lemma exists_text_join_name (h : IsName s) :
    ∃ before, (p.join ⟨s⟩).text.toList = before ++ s.toList := by
  unfold join
  rw [if_neg (by simp [h.steps.1])]
  split
  · exact ⟨p.text.toList, String.toList_append ..⟩
  · exact ⟨(p.text ++ "/").toList, String.toList_append ..⟩

/-- A path to an entry of a directory is not empty. -/
lemma text_join_name_ne (h : IsName s) : (p.join ⟨s⟩).text ≠ "" := by
  intro hnone
  obtain ⟨before, htext⟩ := exists_text_join_name (p := p) h
  rw [hnone] at htext
  exact h.ne_nil (List.append_eq_nil_iff.1 htext.symm).2

/-- A path to an entry of a directory does not ask for a directory. -/
lemma endsInSlash_join_name (h : IsName s) : (p.join ⟨s⟩).endsInSlash = false := by
  obtain ⟨before, htext⟩ := exists_text_join_name (p := p) h
  refine Bool.eq_false_iff.2 fun hslash => h.1 ?_
  unfold endsInSlash at hslash
  rw [htext, List.getLast?_append_of_ne_nil _ h.ne_nil] at hslash
  exact List.mem_of_getLast? (beq_iff_eq.1 hslash)

/-- The steps to a path below a directory. -/
lemma steps_below (h : ∀ s ∈ names, IsName s) :
    (p.below names).steps = p.steps ++ names.map .name := by
  induction names generalizing p with
  | nil => exact (List.append_nil _).symm
  | cons s names ih =>
    rw [List.forall_mem_cons] at h
    show ((p.join ⟨s⟩).below names).steps = _
    rw [ih h.2, steps_join_name h.1, List.append_assoc]
    rfl

/-- A path below a directory starts where the directory does. -/
lemma isAbsolute_below (h : ∀ s ∈ names, IsName s) :
    (p.below names).isAbsolute = p.isAbsolute := by
  induction names generalizing p with
  | nil => rfl
  | cons s names ih =>
    rw [List.forall_mem_cons] at h
    show ((p.join ⟨s⟩).below names).isAbsolute = _
    rw [ih h.2, isAbsolute_join h.1.steps.1]

/-- Different names lead to different paths. -/
lemma below_injective {names' : List String} (h : ∀ s ∈ names, IsName s)
    (h' : ∀ s ∈ names', IsName s) (heq : p.below names = p.below names') : names = names' := by
  have hsteps : p.steps ++ names.map .name = p.steps ++ names'.map .name := by
    rw [← steps_below h, heq, steps_below h']
  have hnames := List.append_cancel_left hsteps
  exact (List.map_inj_right fun _ _ hname => Component.name.inj hname).1 hnames

end Path

namespace FileTree

open CardTable.Path (IsName)

/-! ## Well-formed trees -/

/-- Whether the entries are those of directories: no place stands twice, and each of them is spelled
by names. -/
structure IsWellFormed (t : FileTree) : Prop where
  /-- No place stands twice. -/
  distinct : t.places.Nodup
  /-- Each place is spelled by names. -/
  spelled : ∀ loc ∈ t.places, loc.IsSpelled

/-- What is left of a well-formed tree is well formed. -/
lemma IsWellFormed.remove {t : FileTree} (h : t.IsWellFormed) (loc : Location) :
    (t.remove loc).IsWellFormed := by
  have hsub : (t.remove loc).places.Sublist t.places := List.filter_sublist.map Prod.fst
  exact ⟨hsub.nodup h.distinct, fun other hother => h.spelled other (hsub.subset hother)⟩

/-- A directory lists what is at the places one step below it. -/
lemma mem_childrenAt_iff {t : FileTree} (h : t.places.Nodup) {loc : Location} {s : String}
    {entry : Entry} :
    (s, entry) ∈ t.childrenAt loc ↔ t.at? (loc ++ [s]) = some entry := by
  rw [at?, if_neg (by simp), lookup_eq_some_iff_mem h, childrenAt, List.mem_filterMap]
  constructor
  · rintro ⟨⟨place, found⟩, hmem, hchild⟩
    dsimp only at hchild
    split at hchild
    · next last hlast =>
      split at hchild
      · next hdirectory =>
        obtain ⟨rfl, rfl⟩ := Prod.mk.inj (Option.some.inj hchild)
        rw [← hdirectory, List.dropLast_append_getLast? last hlast]
        exact hmem
      · cases hchild
    · cases hchild
  · intro hmem
    refine ⟨_, hmem, ?_⟩
    simp

/-- No name is listed twice. -/
lemma pairwise_childrenAt {t : FileTree} (h : t.places.Nodup) (loc : Location) :
    (t.childrenAt loc).Pairwise fun a b => a.1 ≠ b.1 := by
  have hentries : t.entries.Pairwise fun e e' => e.1 ≠ e'.1 := List.pairwise_map.1 h
  rw [childrenAt, List.pairwise_filterMap]
  refine hentries.imp fun {e e'} hne a ha b hb hname => hne ?_
  split at ha
  · next last hlast =>
    split at hb
    · next last' hlast' =>
      obtain ⟨hdirectory, ha⟩ := Option.ite_none_right_eq_some.1 ha
      obtain ⟨hdirectory', hb⟩ := Option.ite_none_right_eq_some.1 hb
      obtain rfl := Option.some.inj ha
      obtain rfl := Option.some.inj hb
      obtain rfl : last = last' := hname
      rw [← List.dropLast_append_getLast? last hlast, ← List.dropLast_append_getLast? last hlast',
        hdirectory, hdirectory']
    · cases hb
  · cases ha

/-- What a directory lists has a name. -/
lemma isName_of_at? {t : FileTree} (h : t.IsWellFormed) {loc : Location} {s : String}
    {entry : Entry} (hentry : t.at? (loc ++ [s]) = some entry) : IsName s := by
  rw [at?, if_neg (by simp)] at hentry
  exact h.spelled _ (mem_places_of_lookup hentry) s (by simp)

/-! ## Files below a directory -/

/-- The path `file` leads to a regular file, over as many names from the directory `root` as `depth`
says. -/
def IsFileBelow (t : FileTree) (depth : Nat) (root file : Path) : Prop :=
  ∃ names : List String, names.length = depth ∧ (∀ s ∈ names, IsName s) ∧ file = root.below names ∧
    t.isFile file = true

section Below

variable {t : FileTree} {p : Path} {loc : Location} {s : String}

/-- An entry of a directory is one step further. -/
lemma locate_join_name (hp : t.locate p = .ok loc) (hdirectory : t.at? loc = some .directory)
    (hs : IsName s) : t.locate (p.join ⟨s⟩) = .ok (loc ++ [s]) := by
  have hsteps : t.descend (t.startOf p) p.steps = .ok loc := by
    unfold locate at hp
    split at hp
    · cases hp
    · exact hp
  have hstep : t.descend loc [.name s] = .ok (loc ++ [s]) := by
    simp only [descend, hdirectory]
  rw [locate, if_neg (Path.text_join_name_ne hs), startOf, Path.isAbsolute_join hs.steps.1,
    Path.steps_join_name hs, descend_append, ← startOf, hsteps]
  exact hstep

/-- An entry of a directory is a file if there is one at its place. -/
lemma isFile_join_name_iff (hp : t.locate p = .ok loc)
    (hdirectory : t.at? loc = some .directory) (hs : IsName s) :
    t.isFile (p.join ⟨s⟩) = true ↔ ∃ content, t.at? (loc ++ [s]) = some (.file content) := by
  simp only [isFile_iff, locate_join_name hp hdirectory hs, Path.endsInSlash_join_name hs, and_true,
    Except.ok.injEq]
  constructor
  · rintro ⟨place, content, rfl, hcontent⟩
    exact ⟨content, hcontent⟩
  · rintro ⟨content, hcontent⟩
    exact ⟨_, content, rfl, hcontent⟩

/-- What has files below it is a directory. -/
lemma at?_of_isFile_below {names : List String} (hp : t.locate p = .ok loc) (hne : names ≠ [])
    (hnames : ∀ s ∈ names, IsName s) (hfile : t.isFile (p.below names) = true) :
    t.at? loc = some .directory := by
  obtain ⟨place, -, hplace, -, -⟩ := isFile_iff.1 hfile
  unfold locate at hp hplace
  split at hp
  · cases hp
  split at hplace
  · cases hplace
  rw [Path.steps_below hnames, startOf, Path.isAbsolute_below hnames, ← startOf] at hplace
  have hleads := leadsToDirectory_of_descend hplace (by simpa using hne)
  obtain ⟨found, hfound, hentry⟩ := leadsToDirectory_iff.1 hleads
  obtain rfl := Except.ok.inj (hp.symm.trans hfound)
  exact hentry

variable (h : t.IsWellFormed)
include h

open Collection (filesBelow)

/-- **The files below a directory** are exactly the regular files at this depth.

**Proof sketch.** Induction on the depth, along the path. At depth one the files are the children
that are files. Below that they are the files below some child that is a directory, whose place is
reached by one more step. -/
theorem mem_filesBelow_iff {depth : Nat} {file : Path} (hp : t.locate p = .ok loc)
    (hdirectory : t.at? loc = some .directory) :
    file ∈ filesBelow t (depth + 1) p loc ↔ t.IsFileBelow (depth + 1) p file := by
  induction depth generalizing p loc with
  | zero =>
    rw [filesBelow, List.mem_filterMap]
    constructor
    · rintro ⟨⟨s, entry⟩, hchild, hfile⟩
      cases entry with
      | directory => cases hfile
      | file content =>
        obtain rfl := Option.some.inj hfile
        have hentry := (mem_childrenAt_iff h.distinct).1 hchild
        have hs := isName_of_at? h hentry
        refine ⟨[s], rfl, by simpa using hs, rfl, ?_⟩
        exact (isFile_join_name_iff hp hdirectory hs).2 ⟨content, hentry⟩
    · rintro ⟨names, hlength, hnames, rfl, hfile⟩
      obtain ⟨s, rfl⟩ := List.length_eq_one_iff.1 hlength
      have hs := hnames s (List.mem_singleton_self s)
      obtain ⟨content, hentry⟩ := (isFile_join_name_iff hp hdirectory hs).1 hfile
      exact ⟨(s, .file content), (mem_childrenAt_iff h.distinct).2 hentry, rfl⟩
  | succ depth ih =>
    rw [filesBelow, List.mem_flatMap]
    constructor
    · rintro ⟨⟨s, entry⟩, hchild, hfile⟩
      cases entry with
      | file content => cases hfile
      | directory =>
        have hentry := (mem_childrenAt_iff h.distinct).1 hchild
        have hs := isName_of_at? h hentry
        obtain ⟨names, hlength, hnames, rfl, hisFile⟩ :=
          (ih (locate_join_name hp hdirectory hs) hentry).1 hfile
        refine ⟨s :: names, congrArg Nat.succ hlength, ?_, rfl, hisFile⟩
        exact List.forall_mem_cons.2 ⟨hs, hnames⟩
    · rintro ⟨names, hlength, hnames, rfl, hfile⟩
      obtain ⟨s, names, rfl⟩ := List.exists_cons_of_length_eq_add_one hlength
      obtain ⟨hs, hnames⟩ := List.forall_mem_cons.1 hnames
      have hlength : names.length = depth + 1 := Nat.succ.inj hlength
      have hne : names ≠ [] := List.length_pos_iff.1 (hlength ▸ Nat.succ_pos depth)
      have hlocate := locate_join_name hp hdirectory hs
      have hentry := at?_of_isFile_below hlocate hne hnames hfile
      refine ⟨(s, .directory), (mem_childrenAt_iff h.distinct).2 hentry, ?_⟩
      exact (ih hlocate hentry).2 ⟨names, hlength, hnames, rfl, hfile⟩

/-- No file below a directory is listed twice. -/
theorem nodup_filesBelow {depth : Nat} (hp : t.locate p = .ok loc)
    (hdirectory : t.at? loc = some .directory) : (filesBelow t (depth + 1) p loc).Nodup := by
  induction depth generalizing p loc with
  | zero =>
    rw [filesBelow, List.Nodup, List.pairwise_filterMap]
    refine (pairwise_childrenAt h.distinct loc).imp_of_mem ?_
    rintro ⟨s, entry⟩ ⟨s', entry'⟩ hchild hchild' hne file hfile file' hfile' rfl
    cases entry with
    | directory => cases hfile
    | file content =>
      cases entry' with
      | directory => cases hfile'
      | file content' =>
        have hs := isName_of_at? h ((mem_childrenAt_iff h.distinct).1 hchild)
        have hs' := isName_of_at? h ((mem_childrenAt_iff h.distinct).1 hchild')
        have hsame : p.below [s] = p.below [s'] :=
          (Option.some.inj hfile).trans (Option.some.inj hfile').symm
        have hnames := Path.below_injective (by simpa using hs) (by simpa using hs') hsame
        exact hne (List.singleton_inj.1 hnames)
  | succ depth ih =>
    rw [filesBelow, List.nodup_flatMap]
    constructor
    · rintro ⟨s, entry⟩ hchild
      cases entry with
      | file content => exact List.nodup_nil
      | directory =>
        have hentry := (mem_childrenAt_iff h.distinct).1 hchild
        exact ih (locate_join_name hp hdirectory (isName_of_at? h hentry)) hentry
    · refine (pairwise_childrenAt h.distinct loc).imp_of_mem ?_
      rintro ⟨s, entry⟩ ⟨s', entry'⟩ hchild hchild' hne file hfile hfile'
      cases entry with
      | file content => cases hfile
      | directory =>
        cases entry' with
        | file content' => cases hfile'
        | directory =>
          have hentry := (mem_childrenAt_iff h.distinct).1 hchild
          have hentry' := (mem_childrenAt_iff h.distinct).1 hchild'
          have hs := isName_of_at? h hentry
          have hs' := isName_of_at? h hentry'
          obtain ⟨names, -, hnames, hbelow, -⟩ :=
            (mem_filesBelow_iff h (locate_join_name hp hdirectory hs) hentry).1 hfile
          obtain ⟨names', -, hnames', hbelow', -⟩ :=
            (mem_filesBelow_iff h (locate_join_name hp hdirectory hs') hentry').1 hfile'
          have hsame : p.below (s :: names) = p.below (s' :: names') := hbelow.symm.trans hbelow'
          have hcons := Path.below_injective (List.forall_mem_cons.2 ⟨hs, hnames⟩)
            (List.forall_mem_cons.2 ⟨hs', hnames'⟩) hsame
          exact hne (List.cons.inj hcons).1

end Below

/-! ## Listings -/

/-- Whether a list has each file with an ending at a depth below a directory once, in order. -/
structure Lists (t : FileTree) (depth : Nat) (root : Path) (ending : String) (files : List Path) :
    Prop where
  /-- The list has exactly these files. -/
  mem_iff : ∀ file, file ∈ files ↔
    t.IsFileBelow depth root file ∧ file.extension? = some ending
  /-- They stand once each, in the order of their paths. -/
  ordered : files.Pairwise fun p q => p.text < q.text

/-- Files that stand once each are listed when they are sorted. -/
lemma lists_mergeSort {t : FileTree} {depth : Nat} {root : Path} {ending : String}
    {found : List Path} (hmem : ∀ file, file ∈ found ↔ t.IsFileBelow depth root file)
    (hnodup : found.Nodup) :
    t.Lists depth root ending
      ((found.filter fun file => file.extension? = some ending).mergeSort Path.notAfter) where
  mem_iff file := by simp [hmem]
  ordered := by
    have hsorted := Path.pairwise_mergeSort_notAfter
      (found.filter fun file => file.extension? = some ending)
    have hdistinct := ((List.mergeSort_perm (found.filter fun file => file.extension? = some ending)
      Path.notAfter).nodup_iff).2 (hnodup.filter _)
    refine (hsorted.and hdistinct).imp ?_
    rintro p q ⟨hle, hne⟩
    refine Decidable.byContradiction fun hnot => hne ?_
    exact Path.eq_of_text_le hle (String.not_lt.1 hnot)

section Corpora

variable {t : FileTree} (h : t.IsWellFormed) {files : List Path}
include h

/-- **The card files of a flat corpus** are the regular files with the ending `json` directly in its
directory. -/
theorem lists_flat {directory : Path} (hfiles : Flat.cardFiles t directory = .ok files) :
    t.Lists 1 directory "json" files := by
  unfold Flat.cardFiles at hfiles
  split at hfiles
  · next hdirectory =>
    obtain ⟨place, hplace, hentry⟩ := isDirectory_iff.1 hdirectory
    have hchildren : t.children directory = t.childrenAt place := by rw [children, hplace]
    obtain rfl := Except.ok.inj hfiles
    rw [hchildren]
    show t.Lists 1 directory "json" (((Collection.filesBelow t 1 directory place).filter fun file =>
      file.extension? = some "json").mergeSort Path.notAfter)
    exact lists_mergeSort (fun file => mem_filesBelow_iff h hplace hentry)
      (nodup_filesBelow h hplace hentry)
  · cases hfiles

/-- **The card files of a corpus of modules** are the regular files with the ending `ts` three
levels below its directory. -/
theorem lists_collection {root : Path} (hfiles : Collection.cardFiles t root = .ok files) :
    t.Lists 3 root "ts" files := by
  unfold Collection.cardFiles at hfiles
  split at hfiles
  · next place hdirectory hplace =>
    obtain ⟨place', hplace', hentry⟩ := isDirectory_iff.1 hdirectory
    obtain rfl := Except.ok.inj (hplace.symm.trans hplace')
    obtain rfl := Except.ok.inj hfiles
    exact lists_mergeSort (fun file => mem_filesBelow_iff h hplace hentry)
      (nodup_filesBelow h hplace hentry)
  · cases hfiles

end Corpora

end FileTree

end CardTable
