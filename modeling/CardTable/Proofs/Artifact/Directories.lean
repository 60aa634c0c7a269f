import CardTable.Proofs.Artifact.Artifacts

set_option autoImplicit false

/-!
# The places of the artifact and of the files next to it

Making directories leaves the files alone, and the preparations of a writing leave the directories
alone once they have made that of the artifact. Where there is no directory at the path of the
artifact, the artifact and a file next to it are at different places: the path of that file ends in
another name, or leads into the artifact. So the staging file and each of its companions have a
place of their own.

## Main definitions

* `CardTable.FileTree.MoreDirectories` — a tree with more directories than another.

## Main results

* `CardTable.FileTree.MoreDirectories.createDirectories` — directories are made beside what is
  there.
* `CardTable.Artifact.sameDirectories_prepare` — the preparations leave the directories alone.
* `CardTable.Artifact.exists_of_locate_siblingPath` — the place of a file next to the artifact.
* `CardTable.Artifact.place_ne_of_locate`, `CardTable.Artifact.place_ne_of_ending_ne` — the places
  of the artifact and of files next to it.
* `CardTable.Artifact.exists_of_commit` — what a commit does to the two.
-/

namespace CardTable

namespace FileTree

/-- What is found is a file or a directory. -/
lemma isFile_or_isDirectory_of_find {t : FileTree} {p : Path} {entry : Entry}
    (h : t.find p = .ok entry) : t.isFile p = true ∨ t.isDirectory p = true := by
  unfold isFile isDirectory
  rw [h]
  cases entry with
  | file content => exact .inl rfl
  | directory => exact .inr rfl

/-- What is neither a file nor a directory is not found. -/
lemma find_ne_ok_of_not {t : FileTree} {p : Path} (hfile : t.isFile p = false)
    (hdirectory : t.isDirectory p = false) (entry : Entry) : t.find p ≠ .ok entry := by
  intro hfound
  rcases isFile_or_isDirectory_of_find hfound with h | h
  · cases hfile.symm.trans h
  · cases hdirectory.symm.trans h

/-- Nothing is found at an empty place. -/
lemma find_ne_ok {t : FileTree} {p : Path}
    (h : ∀ place, t.locate p = .ok place → t.at? place = none) (entry : Entry) :
    t.find p ≠ .ok entry := by
  unfold find
  cases hplace : t.locate p with
  | error e => exact nofun
  | ok place => simp [bind, Except.bind, h place hplace]

/-! ## Making directories -/

/-- The tree `u` is `t` with more directories: all that is in `t` is in `u`, and all files in `u`
are in `t`. -/
structure MoreDirectories (t u : FileTree) : Prop where
  /-- Relative paths start at the same place. -/
  workingDirectory : u.workingDirectory = t.workingDirectory
  /-- What was there is there. -/
  kept : ∀ loc entry, t.at? loc = some entry → u.at? loc = some entry
  /-- A file that is there was there. -/
  old : ∀ loc content, u.at? loc = some (.file content) → t.at? loc = some (.file content)

namespace MoreDirectories

variable {t u v : FileTree}

/-- A tree has all that it has. -/
lemma refl (t : FileTree) : MoreDirectories t t :=
  ⟨rfl, fun _ _ h => h, fun _ _ h => h⟩

/-- Directories can be added one after the other. -/
lemma trans (h : MoreDirectories t u) (h' : MoreDirectories u v) : MoreDirectories t v :=
  ⟨h'.workingDirectory.trans h.workingDirectory,
    fun loc entry hentry => h'.kept loc entry (h.kept loc entry hentry),
    fun loc content hcontent => h.old loc content (h'.old loc content hcontent)⟩

/-- A directory at an empty place is one more. -/
lemma set {loc : Location} (hempty : t.at? loc = none) :
    MoreDirectories t (t.set loc .directory) := by
  have hroot : loc ≠ [] := ne_root fun heq => by cases hempty.symm.trans heq
  have hafter := fun other => t.at?_set loc other .directory hroot
  refine ⟨rfl, fun other entry hentry => ?_, fun other content hcontent => ?_⟩
  · rw [hafter, if_neg, hentry]
    rintro rfl
    cases hempty.symm.trans hentry
  · rw [hafter] at hcontent
    split at hcontent
    · cases hcontent
    · exact hcontent

/-- **Directories are made beside what is there.** -/
theorem createDirectories (t : FileTree) (p : Path) :
    MoreDirectories t (t.createDirectories p).1 := by
  refine makeDirectories_keeps (MoreDirectories t) (fun hkept hmade => ?_) (refl t) _
  obtain ⟨place, -, hempty, rfl⟩ := exists_set_of_makeDirectory hmade
  exact hkept.trans (set hempty)

/-- The same files are there. -/
lemma file_iff (h : MoreDirectories t u) {loc : Location} {content : Content} :
    u.at? loc = some (.file content) ↔ t.at? loc = some (.file content) :=
  ⟨h.old loc content, h.kept loc _⟩

end MoreDirectories

/-! ## Walking -/

/-- The last step of a walk is taken from a directory. -/
lemma exists_of_descend_concat {t : FileTree} {here place : Location}
    {steps : List Path.Component} {last : Path.Component}
    (h : t.descend here (steps ++ [last]) = .ok place) :
    ∃ middle, t.descend here steps = .ok middle ∧ t.at? middle = some .directory ∧
      place = middle.next last := by
  have hleads := leadsToDirectory_of_descend h (List.cons_ne_nil _ _)
  obtain ⟨middle, hsteps, hmiddle⟩ := leadsToDirectory_iff.1 hleads
  rw [descend_append, hsteps] at h
  replace h : t.descend middle [last] = .ok place := h
  unfold descend at h
  rw [hmiddle] at h
  refine ⟨middle, hsteps, hmiddle, ?_⟩
  cases last <;> exact (Except.ok.inj h).symm

end FileTree

/-- The last component of a path is its last step, unless this stays where it is. -/
lemma Path.getLast?_components {p : Path} {steps : List Path.Component} {last : Path.Component}
    (h : p.steps = steps ++ [last]) (hlast : last ≠ .current) :
    p.components.getLast? = some last := by
  have hkept : [last].filter (· ≠ Component.current) = [last] := by simp [hlast]
  unfold components
  split
  · rw [h, List.filter_append, hkept, ← List.cons_append, List.getLast?_concat]
  · rw [h]
    cases steps with
    | nil => rfl
    | cons first rest =>
      show (first :: (rest ++ [last]).filter (· ≠ Component.current)).getLast? = some last
      rw [List.filter_append, hkept, ← List.cons_append, List.getLast?_concat]

/-- A path without steps has no name. -/
lemma Path.fileName?_of_steps_eq_nil {p : Path} (h : p.steps = []) : p.fileName? = none := by
  unfold fileName? components
  cases p.isAbsolute <;> simp [h]

namespace Artifact

/-! ## The artifact and its staging file -/

/-- The directory of the artifact is made beside what is there. -/
lemma moreDirectories_withDirectory (t : FileTree) (artifact : Path) :
    FileTree.MoreDirectories t (withDirectory t artifact) := by
  unfold withDirectory
  split
  · exact .refl t
  · split
    · exact .refl t
    · exact .createDirectories t _

/-- The preparations leave the directories alone once they have made that of the artifact. -/
theorem sameDirectories_prepare (t : FileTree) (artifact : Path) :
    FileTree.SameDirectories (withDirectory t artifact) (prepare t artifact).1 := by
  rcases prepare_cases t artifact with hdiscard | ⟨-, e, hfailed⟩
  · rw [hdiscard]
    exact sameDirectories_discard ..
  · rw [hfailed]
    exact .refl _

/-- What is next to the artifact is reached by the same steps, up to the last one, which is its
name. -/
lemma exists_steps_concat_siblingPath (artifact : Path) :
    ∃ steps absolute, (artifact.fileName? = none →
        steps = artifact.steps ∧ absolute = artifact.isAbsolute) ∧
      ∀ ending, IsEnding ending → (siblingPath artifact ending).isAbsolute = absolute ∧
        (siblingPath artifact ending).steps =
          steps ++ [.name (artifact.fileName?.getD "" ++ ending)] := by
  have hname := fun ending (hending : IsEnding ending) =>
    steps_siblingName (slash_not_mem_fileName artifact) hending
  by_cases hsome : artifact.fileName?.isSome
  · refine ⟨(artifact.parent?.getD ⟨""⟩).steps, (artifact.parent?.getD ⟨""⟩).isAbsolute,
      fun hnone => ?_, fun ending hending => ?_⟩
    · rw [hnone] at hsome
      cases hsome
    · obtain ⟨habsolute, hsteps⟩ := hname ending hending
      rw [siblingPath, Path.withFileName, if_pos hsome, Path.isAbsolute_join habsolute,
        Path.steps_join habsolute, hsteps]
      exact ⟨rfl, rfl⟩
  · refine ⟨artifact.steps, artifact.isAbsolute, fun _ => ⟨rfl, rfl⟩, fun ending hending => ?_⟩
    obtain ⟨habsolute, hsteps⟩ := hname ending hending
    rw [siblingPath, Path.withFileName, if_neg hsome, Path.isAbsolute_join habsolute,
      Path.steps_join habsolute, hsteps]
    exact ⟨rfl, rfl⟩

/-- The name of the artifact is not its name with an ending. -/
lemma fileName?_ne_of_isEnding (artifact : Path) {ending : String} (hending : IsEnding ending) :
    artifact.fileName? ≠ some (artifact.fileName?.getD "" ++ ending) := by
  intro heq
  have hlength := congrArg (fun name => (name.getD "").length) heq
  rw [Option.getD_some, String.length_append] at hlength
  have hlong : 2 < ending.length := String.length_toList ▸ hending.2
  omega

/-- The last step to the staging file is a name that is not that of the artifact. -/
lemma exists_steps_concat_stagingPath (artifact : Path) :
    ∃ steps s, (stagingPath artifact).steps = steps ++ [.name s] ∧
      artifact.fileName? ≠ some s ∧ (artifact.fileName? = none → steps = artifact.steps ∧
        (stagingPath artifact).isAbsolute = artifact.isAbsolute) := by
  obtain ⟨steps, absolute, hnameless, hsibling⟩ := exists_steps_concat_siblingPath artifact
  obtain ⟨habsolute, hsteps⟩ := hsibling _ isEnding_staging
  refine ⟨steps, _, hsteps, fileName?_ne_of_isEnding artifact isEnding_staging, fun hnone => ?_⟩
  obtain ⟨hsame, hstart⟩ := hnameless hnone
  exact ⟨hsame, habsolute.trans hstart⟩

section Places

variable {t : FileTree} {artifact : Path} {ending other : String} {place next : Location}

/-- The place of what is next to the artifact: its name in a directory. -/
theorem exists_of_locate_siblingPath (artifact : Path) (t : FileTree) :
    ∃ start : Except IoError Location, (artifact.fileName? = none → artifact.text ≠ "" →
        start = t.locate artifact) ∧
      ∀ ending next, IsEnding ending → t.locate (siblingPath artifact ending) = .ok next →
        ∃ directory, start = .ok directory ∧ t.at? directory = some .directory ∧
          next = directory ++ [artifact.fileName?.getD "" ++ ending] := by
  obtain ⟨steps, absolute, hnameless, hsibling⟩ := exists_steps_concat_siblingPath artifact
  refine ⟨t.descend (if absolute then [] else t.workingDirectory) steps, fun hnone hnamed => ?_,
    fun ending next hending hnext => ?_⟩
  · obtain ⟨rfl, rfl⟩ := hnameless hnone
    rw [FileTree.locate, if_neg hnamed]
    rfl
  · obtain ⟨habsolute, hsteps⟩ := hsibling ending hending
    unfold FileTree.locate at hnext
    split at hnext
    · cases hnext
    rw [hsteps, FileTree.startOf, habsolute] at hnext
    obtain ⟨directory, hdirectory, hthere, rfl⟩ := FileTree.exists_of_descend_concat hnext
    exact ⟨directory, hdirectory, hthere, rfl⟩

/-- **What is next to the artifact is at another place** if there is no directory at that of the
artifact.

**Proof sketch.** Its path is that of the artifact with another last step, or with one more step if
the artifact has no name. In the second case it is in a directory at the place of the artifact. In
the first case the path of the artifact either ends in its name, and the two names differ, or leads
to a directory. -/
theorem place_ne_of_locate (hending : IsEnding ending) (hplace : t.locate artifact = .ok place)
    (hfree : t.at? place ≠ some .directory)
    (hnext : t.locate (siblingPath artifact ending) = .ok next) : next ≠ place := by
  obtain ⟨start, hnameless, hsibling⟩ := exists_of_locate_siblingPath artifact t
  obtain ⟨directory, hdirectory, hthere, rfl⟩ := hsibling ending next hending hnext
  have hnamed : artifact.text ≠ "" := by
    intro hempty
    rw [FileTree.locate, if_pos hempty] at hplace
    cases hplace
  cases hname : artifact.fileName? with
  | none =>
    -- it is in what the artifact's path leads to
    obtain rfl := Except.ok.inj (hplace.symm.trans ((hnameless hname hnamed).symm.trans hdirectory))
    exact absurd hthere hfree
  | some name =>
    -- the path of the artifact ends in its name, or it leads to a directory
    rw [FileTree.locate, if_neg hnamed] at hplace
    rcases List.eq_nil_or_concat artifact.steps with hnil | ⟨front, last, hfront⟩
    · cases hname.symm.trans (Path.fileName?_of_steps_eq_nil hnil)
    · rw [List.concat_eq_append] at hfront
      rw [hfront] at hplace
      obtain ⟨middle, -, hmiddle, rfl⟩ := FileTree.exists_of_descend_concat hplace
      cases last with
      | root => exact absurd rfl hfree
      | current => exact absurd hmiddle hfree
      | parent =>
        have hlast := Path.getLast?_components hfront (by decide)
        rw [Path.fileName?, hlast] at hname
        cases hname
      | name last =>
        have hlast := Path.getLast?_components hfront (fun heq => by cases heq)
        have hother := fileName?_ne_of_isEnding artifact hending
        rw [Path.fileName?, hlast] at hname hother
        obtain rfl := Path.Component.name.inj (by simpa using hname)
        intro hsame
        have hnames := (List.append_inj' hsame rfl).2
        exact hother (congrArg some (List.singleton_inj.1 hnames).symm)

/-- **Different endings** lead to different places. -/
theorem place_ne_of_ending_ne (hending : IsEnding ending) (hother : IsEnding other)
    (hne : ending ≠ other) (hplace : t.locate (siblingPath artifact ending) = .ok place)
    (hnext : t.locate (siblingPath artifact other) = .ok next) : next ≠ place := by
  obtain ⟨start, -, hsibling⟩ := exists_of_locate_siblingPath artifact t
  obtain ⟨directory, hdirectory, -, rfl⟩ := hsibling ending place hending hplace
  obtain ⟨directory', hdirectory', -, rfl⟩ := hsibling other next hother hnext
  intro hsame
  have hnames := List.singleton_inj.1 (List.append_inj' hsame rfl).2
  exact hne ((String.append_right_inj _).1 hnames).symm

end Places

/-! ## Putting the table -/

/-- **What is committed** goes from the place of the staging file to that of the artifact, which is
another one. -/
theorem exists_of_commit {t t' : FileTree} {artifact : Path} {table : StoredTable}
    (h : commit t artifact table = (t', .ok ())) :
    ∃ staged place, t.locate (stagingPath artifact) = .ok staged ∧
      t.locate artifact = .ok place ∧ artifact.endsInSlash = false ∧
      FileTree.SameDirectories t t' ∧
      ∀ loc, t'.at? loc = if loc = place then some (.file (.table table))
        else if loc = staged then none else t.at? loc := by
  obtain ⟨-, between, hput, hmove⟩ := commit_eq_ok_iff.1 h
  have hroom : t.HasRoom (stagingPath artifact) := FileTree.exists_writeFile_iff.1 ⟨between, hput⟩
  obtain ⟨staged, hstaged, hunused, hwrite⟩ := FileTree.writeFile_eq_ok hroom (.table table)
  obtain rfl := Except.ok.inj (hwrite.symm.trans hput)
  have hdrafted := FileTree.SameDirectories.set hunused (.table table)
  obtain ⟨origin, place, content, horigin, hcontent, hplace, hfree, hslash, rfl, hmoved⟩ :=
    FileTree.exists_of_rename hmove
  obtain rfl := Except.ok.inj (hstaged.symm.trans (hdrafted.locate_iff.1 horigin))
  have hroot := FileTree.ne_root hunused
  have hroot' := FileTree.ne_root hfree
  rw [FileTree.at?_set t staged staged _ hroot, if_pos rfl] at hcontent
  obtain rfl : Content.table table = content := by simpa using hcontent
  refine ⟨staged, place, hstaged, hdrafted.locate_iff.1 hplace, hslash, hdrafted.trans hmoved,
    fun loc => ?_⟩
  rw [FileTree.at?_set _ place loc _ hroot', FileTree.at?_remove _ staged loc hroot,
    FileTree.at?_set t staged loc _ hroot]
  by_cases hloc : loc = staged <;> simp [hloc]

end Artifact

end CardTable
