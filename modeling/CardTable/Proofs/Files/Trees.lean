import CardTable.Files.Tree
import Mathlib.Tactic.Lemma

set_option autoImplicit false

/-!
# Removing and putting files and making directories

Where a path leads depends on the directories of a tree only. Removing, putting and moving files
leaves these alone, so that paths lead afterwards where they did before, and where there is room for
a file it stays. A file that is removed is no longer found, and no other file appears by that.
Directories that cannot be made stay out of reach, together with everything that would be in them.

## Main definitions

* `CardTable.FileTree.SameDirectories` — trees with the same directories.
* `CardTable.FileTree.HasRoom` — whether a file can be put at a path.

## Main results

* `CardTable.FileTree.descend_append` — walking goes on where it stopped.
* `CardTable.FileTree.isFile_iff`, `CardTable.FileTree.isDirectory_iff` — which paths lead to files
  and to directories.
* `CardTable.FileTree.SameDirectories.locate_iff` — paths lead to the same places where the same
  directories are.
* `CardTable.FileTree.removeFile_cases` — what the removal of a file does.
* `CardTable.FileTree.not_leadsToDirectory_of_makeDirectories` — directories that cannot be made.
* `CardTable.FileTree.createDirectories_of_isDirectory` — directories that are there already.
* `CardTable.FileTree.exists_writeFile_iff` — where files can be put.
* `CardTable.FileTree.writeFile_writeFile` — what was put into a file before.
* `CardTable.FileTree.find_of_writeFile`, `CardTable.FileTree.find_of_rename` — where files are
  found that were put or moved.
-/

namespace CardTable

namespace FileTree

/-! ## Walking -/

/-- Walking goes on where it stopped. -/
theorem descend_append (t : FileTree) (here : Location) (xs ys : List Path.Component) :
    t.descend here (xs ++ ys) = (t.descend here xs).bind fun place => t.descend place ys := by
  induction xs generalizing here with
  | nil => rfl
  | cons step xs ih =>
    simp only [List.cons_append, descend]
    cases t.at? here with
    | none => rfl
    | some entry =>
      cases entry with
      | file content => rfl
      | directory => cases step <;> exact ih _

/-- Steps lead to a directory if they can be walked and their place has one. -/
lemma leadsToDirectory_iff {t : FileTree} {start : Location} {steps : List Path.Component} :
    t.leadsToDirectory start steps = true ↔
      ∃ place, t.descend start steps = .ok place ∧ t.at? place = some .directory := by
  unfold leadsToDirectory
  cases t.descend start steps with
  | error e =>
    constructor
    · intro h
      cases h
    · rintro ⟨place, h, -⟩
      cases h
  | ok place =>
    cases hentry : t.at? place with
    | none => simp [hentry]
    | some entry => cases entry <;> simp [hentry]

/-- Whoever walks on has come to a directory. -/
lemma leadsToDirectory_of_descend {t : FileTree} {start place : Location}
    {steps more : List Path.Component} (h : t.descend start (steps ++ more) = .ok place)
    (hmore : more ≠ []) : t.leadsToDirectory start steps = true := by
  obtain ⟨step, rest, rfl⟩ := List.exists_cons_of_ne_nil hmore
  rw [descend_append] at h
  cases hsteps : t.descend start steps with
  | error e =>
    rw [hsteps] at h
    cases h
  | ok middle =>
    rw [hsteps] at h
    change t.descend middle (step :: rest) = .ok place at h
    refine leadsToDirectory_iff.2 ⟨middle, hsteps, ?_⟩
    unfold descend at h
    cases hmiddle : t.at? middle with
    | none => simp [hmiddle] at h
    | some entry =>
      cases entry with
      | file content => simp [hmiddle] at h
      | directory => rfl

/-- Steps that can be walked can be walked where the same directories are, and perhaps others. -/
lemma descend_eq_ok_of_directories {t u : FileTree}
    (h : ∀ loc, t.at? loc = some .directory → u.at? loc = some .directory) {here place : Location}
    {steps : List Path.Component} (hsteps : t.descend here steps = .ok place) :
    u.descend here steps = .ok place := by
  induction steps generalizing here with
  | nil => exact hsteps
  | cons step steps ih =>
    unfold descend at hsteps ⊢
    cases hentry : t.at? here with
    | none => simp [hentry] at hsteps
    | some entry =>
      cases entry with
      | file content => simp [hentry] at hsteps
      | directory =>
        rw [hentry] at hsteps
        rw [h here hentry]
        cases step <;> exact ih hsteps

/-- Where the same directories are, and perhaps others, paths that lead somewhere lead there. -/
lemma locate_eq_ok_of_directories {t u : FileTree}
    (h : ∀ loc, t.at? loc = some .directory → u.at? loc = some .directory)
    (hstart : u.workingDirectory = t.workingDirectory) {p : Path} {place : Location}
    (hp : t.locate p = .ok place) : u.locate p = .ok place := by
  unfold locate at hp ⊢
  split at hp
  · cases hp
  · next hnamed =>
    rw [if_neg hnamed, startOf, hstart]
    exact descend_eq_ok_of_directories h hp

/-- A file is found if its place has it and the path does not ask for a directory. -/
lemma find_eq_file_iff {t : FileTree} {p : Path} {content : Content} :
    t.find p = .ok (.file content) ↔
      ∃ place, t.locate p = .ok place ∧ t.at? place = some (.file content) ∧
        p.endsInSlash = false := by
  unfold find
  cases hplace : t.locate p with
  | error e => simp [bind, Except.bind]
  | ok place =>
    cases hentry : t.at? place with
    | none => simp [bind, Except.bind, hentry]
    | some entry =>
      cases entry with
      | directory => simp [bind, Except.bind, hentry]
      | file other => cases p.endsInSlash <;> simp [bind, Except.bind, hentry]

/-- A path leads to a file if its place has one and the path does not ask for a directory. -/
theorem isFile_iff {t : FileTree} {p : Path} :
    t.isFile p = true ↔ ∃ place content, t.locate p = .ok place ∧
      t.at? place = some (.file content) ∧ p.endsInSlash = false := by
  have hfile : t.isFile p = true ↔ ∃ content, t.find p = .ok (.file content) := by
    unfold isFile
    split
    · next content hfind => exact iff_of_true rfl ⟨content, hfind⟩
    · next hother =>
      refine iff_of_false Bool.false_ne_true ?_
      rintro ⟨content, h⟩
      exact hother content h
  simp only [hfile, find_eq_file_iff]
  exact exists_comm

/-- A path leads to a directory if its place has one. -/
theorem isDirectory_iff {t : FileTree} {p : Path} :
    t.isDirectory p = true ↔ ∃ place, t.locate p = .ok place ∧ t.at? place = some .directory := by
  unfold isDirectory find
  cases t.locate p with
  | error e =>
    constructor
    · intro h
      cases h
    · rintro ⟨place, h, -⟩
      cases h
  | ok place =>
    cases hentry : t.at? place with
    | none => simp [bind, Except.bind, hentry]
    | some entry =>
      cases entry with
      | directory => simp [bind, Except.bind, hentry]
      | file content => cases p.endsInSlash <;> simp [bind, Except.bind, hentry]

/-- What is in a directory is out of reach where the steps lead to no directory. -/
lemma not_isFile_of_not_leadsToDirectory {t : FileTree} {p directory : Path}
    {tail : List Path.Component} (hstart : p.isAbsolute = directory.isAbsolute)
    (hsteps : p.steps = directory.steps ++ tail) (htail : tail ≠ [])
    (h : t.leadsToDirectory (t.startOf directory) directory.steps = false) :
    t.isFile p = false := by
  rw [← Bool.not_eq_true]
  intro hfile
  obtain ⟨place, -, hlocate, -, -⟩ := isFile_iff.1 hfile
  unfold locate at hlocate
  split at hlocate
  · cases hlocate
  · rw [startOf, hstart, hsteps] at hlocate
    have hleads := leadsToDirectory_of_descend hlocate htail
    cases h.symm.trans hleads

/-! ## The directories of a tree -/

/-- A place that is no directory is not the root. -/
lemma ne_root {t : FileTree} {loc : Location} (hfree : t.at? loc ≠ some .directory) :
    loc ≠ [] := by
  rintro rfl
  exact hfree rfl

/-- Two trees have the same directories, and relative paths start at the same place in both. -/
structure SameDirectories (t u : FileTree) : Prop where
  /-- Relative paths start at the same place. -/
  workingDirectory : u.workingDirectory = t.workingDirectory
  /-- The same places are directories. -/
  directory_iff : ∀ loc, u.at? loc = some .directory ↔ t.at? loc = some .directory

namespace SameDirectories

variable {t u v : FileTree} {loc : Location}

/-- A tree has the same directories as itself. -/
lemma refl (t : FileTree) : SameDirectories t t :=
  ⟨rfl, fun _ => Iff.rfl⟩

/-- Either tree may be the first one. -/
lemma symm (h : SameDirectories t u) : SameDirectories u t :=
  ⟨h.workingDirectory.symm, fun loc => (h.directory_iff loc).symm⟩

/-- Directories that are the same twice in a row are the same. -/
lemma trans (h : SameDirectories t u) (h' : SameDirectories u v) : SameDirectories t v :=
  ⟨h'.workingDirectory.trans h.workingDirectory,
    fun loc => (h'.directory_iff loc).trans (h.directory_iff loc)⟩

/-- A removal at a place that is no directory leaves the directories alone. -/
lemma remove (hfree : t.at? loc ≠ some .directory) : SameDirectories t (t.remove loc) := by
  have hroot := ne_root hfree
  refine ⟨rfl, fun other => ?_⟩
  rw [at?_remove t loc other hroot]
  by_cases hother : other = loc
  · rw [if_pos hother, hother]
    exact iff_of_false (Option.some_ne_none _).symm hfree
  · rw [if_neg hother]

/-- A file at a place that is no directory leaves the directories alone. -/
lemma set (hfree : t.at? loc ≠ some .directory) (content : Content) :
    SameDirectories t (t.set loc (.file content)) := by
  have hroot := ne_root hfree
  refine ⟨rfl, fun other => ?_⟩
  rw [at?_set t loc other _ hroot]
  by_cases hother : other = loc
  · rw [if_pos hother, hother]
    refine iff_of_false (fun heq => ?_) hfree
    cases heq
  · rw [if_neg hother]

/-- Steps that can be walked can be walked where the same directories are. -/
lemma descend_eq_ok (h : SameDirectories t u) {here place : Location}
    {steps : List Path.Component} (hsteps : t.descend here steps = .ok place) :
    u.descend here steps = .ok place :=
  descend_eq_ok_of_directories (fun loc => (h.directory_iff loc).2) hsteps

/-- **Paths lead to the same places** where the same directories are. -/
theorem locate_iff (h : SameDirectories t u) {p : Path} {place : Location} :
    u.locate p = .ok place ↔ t.locate p = .ok place :=
  ⟨locate_eq_ok_of_directories (fun loc => (h.directory_iff loc).1) h.workingDirectory.symm,
    locate_eq_ok_of_directories (fun loc => (h.directory_iff loc).2) h.workingDirectory⟩

/-- The same paths lead to directories. -/
theorem isDirectory_iff (h : SameDirectories t u) {p : Path} :
    u.isDirectory p = true ↔ t.isDirectory p = true := by
  simp only [FileTree.isDirectory_iff, h.locate_iff, h.directory_iff]

end SameDirectories

/-! ## Removing files -/

/-- **What the removal of a file does**: the file goes from its place, or there is none and the
removal fails. -/
theorem removeFile_cases (t : FileTree) (p : Path) :
    (t.isFile p = true ∧ ∃ place, place ≠ [] ∧ t.locate p = .ok place ∧
        t.removeFile p = .ok (t.remove place)) ∨
      (t.isFile p = false ∧ ∃ e, t.removeFile p = .error e) := by
  unfold isFile removeFile
  cases hplace : t.locate p with
  | error e =>
    refine .inr ⟨?_, e, rfl⟩
    simp [find, hplace, bind, Except.bind]
  | ok place =>
    cases hfind : t.find p with
    | error e => exact .inr ⟨rfl, e, rfl⟩
    | ok entry =>
      cases entry with
      | directory => exact .inr ⟨rfl, _, rfl⟩
      | file content =>
        refine .inl ⟨rfl, place, ?_, rfl, rfl⟩
        rintro rfl
        simp [find, hplace, at?, bind, Except.bind] at hfind

/-- **What is removed** was a file at the place of its path; the directories are left alone. -/
theorem exists_of_removeFile {t t' : FileTree} {p : Path} (h : t.removeFile p = .ok t') :
    ∃ place content, t.locate p = .ok place ∧ t.at? place = some (.file content) ∧ place ≠ [] ∧
      t' = t.remove place ∧ SameDirectories t t' := by
  rcases t.removeFile_cases p with ⟨hfile, place, hroot, hplace, hremove⟩ | ⟨-, e, herror⟩
  · obtain rfl := Except.ok.inj (hremove.symm.trans h)
    obtain ⟨place', content, hplace', hcontent, -⟩ := isFile_iff.1 hfile
    obtain rfl := Except.ok.inj (hplace.symm.trans hplace')
    have hfree : t.at? place ≠ some .directory := by simp [hcontent]
    exact ⟨place, content, hplace, hcontent, hroot, rfl, .remove hfree⟩
  · cases herror.symm.trans h

/-- After a removal there are only files that were there before. -/
lemma isFile_of_removeFile {t t' : FileTree} {p q : Path} (h : t.removeFile p = .ok t')
    (hq : t'.isFile q = true) : t.isFile q = true := by
  obtain ⟨place, -, -, -, hroot, rfl, hsame⟩ := exists_of_removeFile h
  obtain ⟨found, content, hlocate, hentry, hslash⟩ := isFile_iff.1 hq
  rw [at?_remove t place found hroot] at hentry
  split at hentry
  · cases hentry
  · exact isFile_iff.2 ⟨found, content, hsame.locate_iff.1 hlocate, hentry, hslash⟩

/-- A file that was removed is not found. -/
lemma not_isFile_of_removeFile {t t' : FileTree} {p : Path} (h : t.removeFile p = .ok t') :
    t'.isFile p = false := by
  obtain ⟨place, -, hplace, -, hroot, rfl, hsame⟩ := exists_of_removeFile h
  rw [← Bool.not_eq_true]
  intro hfile
  obtain ⟨found, content, hlocate, hentry, -⟩ := isFile_iff.1 hfile
  obtain rfl := Except.ok.inj (hplace.symm.trans (hsame.locate_iff.1 hlocate))
  rw [at?_remove t place place hroot, if_pos rfl] at hentry
  cases hentry

/-! ## Making directories -/

/-- A directory is made at an empty place. -/
lemma exists_set_of_makeDirectory {t t' : FileTree} {start : Location}
    {steps : List Path.Component} (h : t.makeDirectory start steps = .ok t') :
    ∃ place, t.descend start steps = .ok place ∧ t.at? place = none ∧
      t' = t.set place .directory := by
  unfold makeDirectory at h
  cases hplace : t.descend start steps with
  | error e =>
    rw [hplace] at h
    cases h
  | ok place =>
    rw [hplace] at h
    dsimp only [bind, Except.bind] at h
    split at h
    · cases h
    · next hfree => exact ⟨place, rfl, hfree, (Except.ok.inj h).symm⟩

/-- Makes the directory at the end of steps, which may be there already. -/
def makeLast (t : FileTree) (start : Location) (steps : List Path.Component) :
    FileTree × Except IoError Unit :=
  match t.makeDirectory start steps with
  | .ok t => (t, .ok ())
  | .error e => (t, if t.leadsToDirectory start steps then .ok () else .error e)

/-- **How directories are made**: the last one is, perhaps after those on the way to it, unless one
of these cannot be made. -/
theorem makeDirectories_cases (t : FileTree) (start : Location) (last : Path.Component)
    (before : List Path.Component) :
    (∃ u, (u = t ∨ u = (t.makeDirectories start before).1) ∧
        t.makeDirectories start (last :: before) = u.makeLast start (last :: before).reverse) ∨
      ∃ u e, t.makeDirectories start before = (u, .error e) ∧
        t.makeDirectories start (last :: before) = (u, .error e) := by
  rw [makeDirectories]
  dsimp only
  split
  · split
    · next u hbefore => exact .inl ⟨u, .inr (by rw [hbefore]), rfl⟩
    · next u e hbefore => exact .inr ⟨u, e, hbefore, rfl⟩
  · exact .inl ⟨t, .inl rfl, rfl⟩

/-- **What the making of one directory keeps**, the making of several keeps. -/
theorem makeDirectories_keeps (P : FileTree → Prop) {start : Location}
    (hmake : ∀ {u u' : FileTree} {steps : List Path.Component}, P u →
      u.makeDirectory start steps = .ok u' → P u')
    {t : FileTree} (ht : P t) (reversed : List Path.Component) :
    P (t.makeDirectories start reversed).1 := by
  induction reversed with
  | nil => exact ht
  | cons last before ih =>
    rcases makeDirectories_cases t start last before with ⟨u, hu, hlast⟩ | ⟨u, e, hbefore, hlast⟩
    · have hkept : P u := by
        rcases hu with rfl | rfl
        · exact ht
        · exact ih
      rw [hlast, makeLast]
      split
      · next made hmade => exact hmake hkept hmade
      · exact hkept
    · rw [hlast]
      rw [hbefore] at ih
      exact ih

/-- Directories are made without going anywhere. -/
lemma workingDirectory_makeDirectories (t : FileTree) (start : Location)
    (reversed : List Path.Component) :
    (t.makeDirectories start reversed).1.workingDirectory = t.workingDirectory := by
  refine makeDirectories_keeps (fun u => u.workingDirectory = t.workingDirectory)
    (fun hkept hmade => ?_) rfl reversed
  obtain ⟨place, -, -, rfl⟩ := exists_set_of_makeDirectory hmade
  exact hkept

/-- Directories that cannot be made are not there afterwards. -/
theorem not_leadsToDirectory_of_makeDirectories {t t' : FileTree} {start : Location}
    {reversed : List Path.Component} {e : IoError}
    (h : t.makeDirectories start reversed = (t', .error e)) :
    t'.leadsToDirectory start reversed.reverse = false := by
  induction reversed generalizing e with
  | nil => cases congrArg Prod.snd h
  | cons last before ih =>
    rcases makeDirectories_cases t start last before with ⟨u, -, hlast⟩ | ⟨u, cause, hbefore, hlast⟩
    · rw [h, makeLast] at hlast
      split at hlast
      · cases congrArg Prod.snd hlast
      · obtain ⟨rfl, hcause⟩ := Prod.mk.inj hlast
        split at hcause
        · cases hcause
        · next hmissing => exact Bool.eq_false_iff.2 hmissing
    · rw [h] at hlast
      obtain ⟨rfl, -⟩ := Prod.mk.inj hlast
      have hmissing := ih hbefore
      rw [← Bool.not_eq_true]
      intro hleads
      obtain ⟨place, hplace, -⟩ := leadsToDirectory_iff.1 hleads
      rw [List.reverse_cons] at hplace
      have hreached := leadsToDirectory_of_descend hplace (List.cons_ne_nil _ _)
      cases hmissing.symm.trans hreached

/-- A directory that is there is not made again. -/
theorem createDirectories_of_isDirectory {t : FileTree} {p : Path} (h : t.isDirectory p = true) :
    t.createDirectories p = (t, .ok ()) := by
  obtain ⟨place, hplace, hentry⟩ := isDirectory_iff.1 h
  have hsteps : t.descend (t.startOf p) p.steps = .ok place := by
    unfold locate at hplace
    split at hplace
    · cases hplace
    · exact hplace
  unfold createDirectories
  cases hreversed : p.steps.reverse with
  | nil => rfl
  | cons last before =>
    have hforth : (last :: before).reverse = p.steps := by
      rw [← hreversed, List.reverse_reverse]
    have hexists : t.makeDirectory (t.startOf p) p.steps = .error .exists := by
      rw [makeDirectory, hsteps]
      simp [hentry, bind, Except.bind]
    have hleads := leadsToDirectory_iff.2 ⟨place, hsteps, hentry⟩
    rw [makeDirectories]
    simp only [hforth, hexists, hleads, if_true]

/-! ## Putting files -/

/-- Whether a file can be put at a path: it leads to a place that is no directory, and does not ask
for one. -/
def HasRoom (t : FileTree) (p : Path) : Prop :=
  p.endsInSlash = false ∧ ∃ place, t.locate p = .ok place ∧ t.at? place ≠ some .directory

/-- Where there is room for a file there is no directory. -/
lemma HasRoom.not_isDirectory {t : FileTree} {p : Path} (h : t.HasRoom p) :
    t.isDirectory p = false := by
  obtain ⟨-, place, hplace, hfree⟩ := h
  refine Bool.eq_false_iff.2 fun hdirectory => ?_
  obtain ⟨other, hother, hthere⟩ := isDirectory_iff.1 hdirectory
  obtain rfl := Except.ok.inj (hplace.symm.trans hother)
  exact hfree hthere

/-- Where there is room for a file there is room where the same directories are. -/
lemma HasRoom.of_sameDirectories {t u : FileTree} {p : Path} (hp : t.HasRoom p)
    (h : SameDirectories t u) : u.HasRoom p := by
  obtain ⟨hslash, place, hplace, hfree⟩ := hp
  exact ⟨hslash, place, h.locate_iff.2 hplace, mt (h.directory_iff place).1 hfree⟩

/-- **Where files can be put**: exactly where there is room for them. -/
theorem exists_writeFile_iff {t : FileTree} {p : Path} {content : Content} :
    (∃ t', t.writeFile p content = .ok t') ↔ t.HasRoom p := by
  unfold writeFile HasRoom
  cases hplace : t.locate p with
  | error e => simp [bind, Except.bind]
  | ok place =>
    cases hentry : t.at? place with
    | none => cases p.endsInSlash <;> simp [bind, Except.bind, hentry]
    | some entry =>
      cases entry with
      | directory => simp [bind, Except.bind, hentry]
      | file other => cases p.endsInSlash <;> simp [bind, Except.bind, hentry]

/-- A file that can be put is put at the place that its path leads to. -/
lemma writeFile_eq_ok {t : FileTree} {p : Path} (h : t.HasRoom p) (content : Content) :
    ∃ place, t.locate p = .ok place ∧ t.at? place ≠ some .directory ∧
      t.writeFile p content = .ok (t.set place (.file content)) := by
  obtain ⟨hslash, place, hplace, hfree⟩ := h
  refine ⟨place, hplace, hfree, ?_⟩
  unfold writeFile
  simp only [hplace, bind, Except.bind, hslash, Bool.false_eq_true, if_false]
  cases hentry : t.at? place with
  | none => rfl
  | some entry =>
    cases entry with
    | file other => rfl
    | directory => exact absurd hentry hfree

/-- What was put at a place before does not matter for what is put there. -/
lemma set_set (t : FileTree) (loc : Location) (first second : Entry) :
    (t.set loc first).set loc second = t.set loc second := by
  simp [set]

/-- A file that was put at a place where nothing was is removed without a trace. -/
lemma remove_set {t : FileTree} {loc : Location} (hroot : loc ≠ []) (h : t.at? loc = none)
    (entry : Entry) : (t.set loc entry).remove loc = t := by
  have hkeep : t.entries.filter (·.1 != loc) = t.entries := by
    refine List.filter_eq_self.2 fun e he => bne_iff_ne.2 ?_
    rintro rfl
    rw [at?, if_neg hroot, List.lookup_eq_none_iff] at h
    exact bne_iff_ne.1 (h e he) rfl
  unfold set remove
  simp [hkeep]

/-- **What was put into a file before** does not matter for what is put into it. -/
theorem writeFile_writeFile {t u : FileTree} {p : Path} {first : Content}
    (h : t.writeFile p first = .ok u) (second : Content) :
    u.writeFile p second = t.writeFile p second := by
  have hroom : t.HasRoom p := exists_writeFile_iff.1 ⟨u, h⟩
  obtain ⟨place, hplace, hfree, hfirst⟩ := writeFile_eq_ok hroom first
  obtain ⟨place', hplace', -, hsecond⟩ := writeFile_eq_ok hroom second
  obtain rfl := Except.ok.inj (hplace.symm.trans hplace')
  obtain rfl := Except.ok.inj (hfirst.symm.trans h)
  have hsame := SameDirectories.set hfree first
  obtain ⟨place', hplace', -, hagain⟩ := writeFile_eq_ok (hroom.of_sameDirectories hsame) second
  obtain rfl := Except.ok.inj (hplace.symm.trans (hsame.locate_iff.1 hplace'))
  rw [hagain, hsecond, set_set]

/-- A file that is removed, or need not be, leaves its path free. -/
lemma removeFile_of_hasRoom {t : FileTree} {p : Path} (h : t.HasRoom p) :
    (∃ t', t.removeFile p = .ok t') ∨ t.removeFile p = .error .notFound := by
  obtain ⟨hslash, place, hplace, hfree⟩ := h
  unfold removeFile find
  cases hentry : t.at? place with
  | none => simp [hplace, bind, Except.bind, hentry]
  | some entry =>
    cases entry with
    | directory => exact absurd hentry hfree
    | file content => simp [hplace, bind, Except.bind, hentry, hslash]

/-- A file that is put at the place of a path is found there. -/
lemma find_set {t : FileTree} {p : Path} {place : Location} (content : Content)
    (hplace : t.locate p = .ok place) (hfree : t.at? place ≠ some .directory)
    (hslash : p.endsInSlash = false) :
    (t.set place (.file content)).find p = .ok (.file content) := by
  have hroot := ne_root hfree
  have hsame := SameDirectories.set hfree content
  refine find_eq_file_iff.2 ⟨place, hsame.locate_iff.2 hplace, ?_, hslash⟩
  rw [at?_set t place place _ hroot, if_pos rfl]

/-- A file that is put somewhere is found there. -/
theorem find_of_writeFile {t t' : FileTree} {p : Path} {content : Content}
    (h : t.writeFile p content = .ok t') : t'.find p = .ok (.file content) := by
  have hroom := exists_writeFile_iff.1 ⟨t', h⟩
  obtain ⟨place, hplace, hfree, hwrite⟩ := writeFile_eq_ok hroom content
  obtain rfl := Except.ok.inj (hwrite.symm.trans h)
  exact find_set content hplace hfree hroom.1

/-- **What is moved** is a file, which goes from its place to another one; the directories are left
alone. -/
theorem exists_of_rename {t t' : FileTree} {source target : Path}
    (h : t.rename source target = .ok t') :
    ∃ origin place content, t.locate source = .ok origin ∧ t.at? origin = some (.file content) ∧
      t.locate target = .ok place ∧ t.at? place ≠ some .directory ∧ target.endsInSlash = false ∧
      t' = (t.remove origin).set place (.file content) ∧ SameDirectories t t' := by
  unfold rename at h
  cases horigin : t.locate source with
  | error e => simp [horigin, bind, Except.bind] at h
  | ok origin =>
  cases hsource : t.find source with
  | error e => simp [horigin, hsource, bind, Except.bind] at h
  | ok entry =>
  simp only [horigin, hsource, bind, Except.bind] at h
  cases entry with
  | directory => cases h
  | file content =>
    obtain ⟨origin', horigin', hcontent, -⟩ := find_eq_file_iff.1 hsource
    obtain rfl := Except.ok.inj (horigin.symm.trans horigin')
    cases hplace : t.locate target with
    | error e => simp [hplace] at h
    | ok place =>
      simp only [hplace] at h
      split at h
      · cases h
      next hfree =>
      split at h
      · cases h
      next hslash =>
      obtain rfl := Except.ok.inj h
      have hsame : SameDirectories t (t.remove origin) := .remove (by simp [hcontent])
      exact ⟨origin, place, content, rfl, hcontent, rfl, hfree, Bool.eq_false_iff.2 hslash, rfl,
        hsame.trans (.set (mt (hsame.directory_iff place).1 hfree) content)⟩

/-- A file that is moved is found where it was moved to. -/
theorem find_of_rename {t t' : FileTree} {source target : Path} {content : Content}
    (hsource : t.find source = .ok (.file content)) (h : t.rename source target = .ok t') :
    t'.find target = .ok (.file content) := by
  obtain ⟨origin, place, moved, horigin, hmoved, hplace, hfree, hslash, rfl, hsame⟩ :=
    exists_of_rename h
  obtain ⟨origin', horigin', hcontent, -⟩ := find_eq_file_iff.1 hsource
  obtain rfl := Except.ok.inj (horigin.symm.trans horigin')
  obtain rfl : content = moved := by simpa [hcontent] using hmoved
  have hroot := ne_root hfree
  refine find_eq_file_iff.2 ⟨place, hsame.locate_iff.2 hplace, ?_, hslash⟩
  rw [at?_set _ place place _ hroot, if_pos rfl]

/-- A file can be moved to where there is room for it. -/
lemma exists_rename_of_hasRoom {t : FileTree} {source target : Path}
    (hsource : t.isFile source = true) (htarget : t.HasRoom target) :
    ∃ t', t.rename source target = .ok t' := by
  obtain ⟨origin, content, horigin, hcontent, hslash⟩ := isFile_iff.1 hsource
  obtain ⟨hslash', place, hplace, hfree⟩ := htarget
  have hfind : t.find source = .ok (.file content) :=
    find_eq_file_iff.2 ⟨origin, horigin, hcontent, hslash⟩
  unfold rename
  simp only [horigin, hfind, hplace, bind, Except.bind, hslash', Bool.false_eq_true, if_false]
  exact ⟨_, rfl⟩

end FileTree

end CardTable
