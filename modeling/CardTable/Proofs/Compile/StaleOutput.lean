import CardTable.Proofs.Compile.Compilations
import CardTable.Proofs.Compile.RootedTrees

set_option autoImplicit false

/-!
# Output of earlier compilations

What an earlier compilation has left at the artifact or at its staging file does not show in a later
one: both are removed before anything is read. That the two removals do not show either takes an
argument, because a compilation fails if one of them is refused, and where one of the two files is
in the way of the path of the other, the reason could be another one.

## Main definitions

* `CardTable.Artifact.DifferInArtifact` — trees that differ in the artifact and its staging file
  only.
* `CardTable.Compile.SameResult` — the same answer, and the same table at the artifact.

## Main results

* `CardTable.Artifact.DifferInArtifact.answer_discard` — the removal has the same answer.
* `CardTable.Artifact.DifferInArtifact.relists_discard` — what is left by it is the same.
* `CardTable.Artifact.differInArtifact_of_write` — a writing makes no other difference.
* `CardTable.Compile.Plan.sameResult_run` — compilations have the same result.
-/

namespace CardTable

namespace FileTree

/-! ## What paths lead to -/

variable {t u : FileTree} {p : Path} {loc place : Location}

/-- Trees that have the same at each place list the same entries. -/
lemma relists_of_at?_eq (ht : ([] :: t.places).Nodup) (hu : ([] :: u.places).Nodup)
    (hstart : u.workingDirectory = t.workingDirectory) (h : ∀ loc, u.at? loc = t.at? loc) :
    t.Relists u := by
  refine ⟨(List.perm_ext_iff_of_nodup (nodup_entries hu) (nodup_entries ht)).2 fun e => ?_, hstart,
    (List.nodup_cons.1 ht).2⟩
  rw [mem_entries_iff ht, mem_entries_iff hu, h]

/-- A path with steps is walked. -/
lemma locate_of_steps (h : p.steps ≠ []) : t.locate p = t.descend (t.startOf p) p.steps := by
  refine if_neg fun hnone => h ?_
  rw [Path.steps, hnone]
  rfl

/-- Where a path leads to a file there is room for one. -/
lemma hasRoom_of_isFile (h : t.isFile p = true) : t.HasRoom p := by
  obtain ⟨place, content, hplace, hcontent, hslash⟩ := isFile_iff.1 h
  exact ⟨hslash, place, hplace, by simp [hcontent]⟩

/-- Steps that go nowhere end where they begin, and two trees that agree there agree on them. -/
lemma descend_of_filter_eq_nil {here : Location} {steps : List Path.Component}
    (h : steps.filter (· ≠ .current) = []) (hhere : u.at? here = t.at? here) :
    u.descend here steps = t.descend here steps ∧
      ∀ place, t.descend here steps = .ok place → place = here := by
  induction steps with
  | nil => exact ⟨rfl, fun place hplace => (Except.ok.inj hplace).symm⟩
  | cons step rest ih =>
    obtain ⟨rfl, hrest⟩ : step = .current ∧ rest.filter (· ≠ .current) = [] := by
      rw [List.filter_cons] at h
      split at h
      · cases h
      · next hstep => exact ⟨by simpa using hstep, h⟩
    obtain ⟨hsame, hend⟩ := ih hrest
    unfold descend
    rw [hhere]
    cases t.at? here with
    | none => exact ⟨rfl, fun _ hplace => by cases hplace⟩
    | some entry =>
      cases entry with
      | file content => exact ⟨rfl, fun _ hplace => by cases hplace⟩
      | directory => exact ⟨hsame, hend⟩

/-- Steps that go to one name end there, and two trees that agree where they begin and there agree
on them. -/
lemma descend_of_filter_eq_name {here : Location} {steps : List Path.Component} {s : String}
    (h : steps.filter (· ≠ .current) = [.name s]) (hhere : u.at? here = t.at? here)
    (hthere : u.at? (here ++ [s]) = t.at? (here ++ [s])) :
    u.descend here steps = t.descend here steps ∧
      ∀ place, t.descend here steps = .ok place → place = here ++ [s] := by
  induction steps with
  | nil => cases h
  | cons step rest ih =>
    rw [List.filter_cons] at h
    unfold descend
    rw [hhere]
    cases t.at? here with
    | none => exact ⟨rfl, fun _ hplace => by cases hplace⟩
    | some entry =>
      cases entry with
      | file content => exact ⟨rfl, fun _ hplace => by cases hplace⟩
      | directory =>
        split at h
        · obtain ⟨rfl, hrest⟩ := List.cons.inj h
          exact descend_of_filter_eq_nil hrest hthere
        · next hstep =>
          obtain rfl : step = .current := by simpa using hstep
          exact ih h

/-- Where a path leads to the same place in two trees, and there is the same there, which is no
file, its removal is refused in both for the same reason. -/
lemma removeFile_congr (hlocate : u.locate p = t.locate p)
    (hthere : ∀ place, t.locate p = .ok place → u.at? place = t.at? place)
    (hfile : t.isFile p = false) :
    ∃ e, t.removeFile p = .error e ∧ u.removeFile p = .error e := by
  have hfind : u.find p = t.find p := by
    unfold find
    rw [hlocate]
    cases hplace : t.locate p with
    | error e => rfl
    | ok place =>
      simp only [bind, Except.bind]
      rw [hthere place hplace]
  rcases t.removeFile_cases p with ⟨htrue, -⟩ | ⟨-, e, herror⟩
  · cases hfile.symm.trans htrue
  · refine ⟨e, herror, ?_⟩
    rw [← herror]
    unfold removeFile
    rw [hlocate, hfind]
    rw [removeFile] at herror
    cases hplace : t.locate p with
    | error e => rfl
    | ok place =>
      cases hentry : t.find p with
      | error e => rfl
      | ok entry =>
        cases entry with
        | directory => rfl
        | file content =>
          rw [hplace, hentry] at herror
          cases herror

end FileTree

namespace Artifact

open FileTree (SameDirectories)

variable {t u : FileTree} {artifact : Path}

/-! ## Trees that differ in the artifact -/

/-- The two trees differ only in files at the artifact and at its staging file: these may be there
or not, and hold anything. A path with a slash at its end leads to no file. -/
structure DifferInArtifact (t u : FileTree) (artifact : Path) : Prop where
  /-- Relative paths start at the same place. -/
  workingDirectory : u.workingDirectory = t.workingDirectory
  /-- Where there is a difference, one of the two paths leads, and there is no directory. -/
  files : ∀ loc, u.at? loc ≠ t.at? loc →
    t.at? loc ≠ some .directory ∧ u.at? loc ≠ some .directory ∧
      ∃ p, (p = artifact ∨ p = stagingPath artifact) ∧ p.endsInSlash = false ∧
        t.locate p = .ok loc

namespace DifferInArtifact

/-- The directories are the same. -/
lemma sameDirectories (h : DifferInArtifact t u artifact) : SameDirectories t u := by
  refine ⟨h.workingDirectory, fun loc => ?_⟩
  by_cases heq : u.at? loc = t.at? loc
  · rw [heq]
  · obtain ⟨ht, hu, -⟩ := h.files loc heq
    exact iff_of_false hu ht

/-- A tree does not differ from itself. -/
lemma refl (t : FileTree) : DifferInArtifact t t artifact :=
  ⟨rfl, fun _ hne => absurd rfl hne⟩

/-- Differences in the two files add up to differences in them. -/
lemma trans {v : FileTree} (h : DifferInArtifact t u artifact)
    (h' : DifferInArtifact u v artifact) : DifferInArtifact t v artifact := by
  have hsame := h.sameDirectories.trans h'.sameDirectories
  refine ⟨h'.workingDirectory.trans h.workingDirectory, fun loc hne => ?_⟩
  by_cases heq : u.at? loc = t.at? loc
  · obtain ⟨hu, hv, p, hp, hslash, hplace⟩ := h'.files loc (heq ▸ hne)
    exact ⟨heq ▸ hu, hv, p, hp, hslash, h.sameDirectories.locate_iff.1 hplace⟩
  · obtain ⟨ht, -, p, hp, hslash, hplace⟩ := h.files loc heq
    exact ⟨ht, mt (hsame.directory_iff loc).1 ht, p, hp, hslash, hplace⟩

end DifferInArtifact

/-! ## Paths to the two -/

/-- No slash is at the end of the path of the staging file. -/
lemma endsInSlash_stagingPath (artifact : Path) :
    (stagingPath artifact).endsInSlash = false := by
  have hjoin : ∀ (q : Path) (s : String), (q.join ⟨s ++ ".partial"⟩).endsInSlash = false := by
    intro q s
    have hend : (q.join ⟨s ++ ".partial"⟩).text.toList.getLast? = some 'l' := by
      unfold Path.join
      split
      · simp
      · split <;> simp [List.getLast?_cons]
    rw [Path.endsInSlash, hend]
    rfl
  unfold stagingPath siblingPath Path.withFileName
  split <;> exact hjoin _ _

/-- The staging file of an artifact with a name is in the directory of the artifact. -/
lemma exists_steps_stagingPath_of_fileName? {s : String} (h : artifact.fileName? = some s) :
    ∃ (q : Path) (tail : List Path.Component), q.isAbsolute = artifact.isAbsolute ∧
      (stagingPath artifact).isAbsolute = artifact.isAbsolute ∧
      artifact.steps = q.steps ++ tail ∧ tail.filter (· ≠ .current) = [.name s] ∧
      (stagingPath artifact).steps = q.steps ++ [.name (s ++ ".partial")] := by
  obtain ⟨q, tail, hparent, hstart, hsteps, htail⟩ := Path.exists_steps_of_fileName? h
  obtain ⟨habsolute, hname⟩ :=
    steps_siblingName (Path.slash_not_mem_of_fileName? h) isEnding_staging
  have hstaging : stagingPath artifact = q.join ⟨s ++ ".partial"⟩ := by
    simp only [stagingPath, siblingPath, Path.withFileName, h, hparent, Option.isSome_some, if_true,
      Option.getD_some]
  refine ⟨q, tail, hstart, ?_, hsteps, htail, ?_⟩
  · rw [hstaging, Path.isAbsolute_join habsolute, hstart]
  · rw [hstaging, Path.steps_join habsolute, hname]

/-- Where the directory of an artifact with a name is reached, so is the place of its staging
file. -/
lemma locate_stagingPath {q : Path} {name : String} {directory : Location}
    (hstart : (stagingPath artifact).isAbsolute = artifact.isAbsolute)
    (hsteps : (stagingPath artifact).steps = q.steps ++ [.name name])
    (hdirectory : t.descend (t.startOf artifact) q.steps = .ok directory)
    (hthere : t.at? directory = some .directory) :
    t.locate (stagingPath artifact) = .ok (directory ++ [name]) := by
  rw [FileTree.locate_of_steps (by simp [hsteps]), FileTree.startOf, hstart, hsteps,
    FileTree.descend_append]
  rw [FileTree.startOf] at hdirectory
  rw [hdirectory]
  show t.descend directory [.name name] = _
  simp only [FileTree.descend, hthere]

/-- Where there is room for the artifact, the path of the staging file leads somewhere. -/
lemma exists_locate_stagingPath (ht : t.IsRooted) (h : t.HasRoom artifact) :
    ∃ place, t.locate (stagingPath artifact) = .ok place := by
  obtain ⟨-, place, hplace, hfree⟩ := h
  obtain ⟨front, s, -, hfront, -, -⟩ := FileTree.exists_name_of_locate ht hplace hfree
  have hname : artifact.fileName? = some s := by
    rw [Path.fileName?, Path.getLast?_components hfront (fun heq => by cases heq)]
  obtain ⟨q, tail, -, hstart, hsteps, htail, hstaged⟩ := exists_steps_stagingPath_of_fileName? hname
  have hne : tail ≠ [] := by
    rintro rfl
    cases htail
  rw [FileTree.locate_of_steps (by simp [hfront]), hsteps] at hplace
  obtain ⟨directory, hdirectory, hthere⟩ :=
    FileTree.leadsToDirectory_iff.1 (FileTree.leadsToDirectory_of_descend hplace hne)
  exact ⟨_, locate_stagingPath hstart hstaged hdirectory hthere⟩

/-! ## Removing the two -/

/-- A directory is not removed. -/
lemma removeFile_of_directory {p : Path} {place : Location} (hplace : t.locate p = .ok place)
    (h : t.at? place = some .directory) : t.removeFile p = .error .isDirectory := by
  simp only [FileTree.removeFile, FileTree.find, hplace, h, bind, Except.bind]

/-- Where a path leads somewhere and asks for no directory, the answer to a removal depends on the
directories only. -/
lemma answer_removeStale {p : Path} {place : Location} (h : SameDirectories t u)
    (hplace : t.locate p = .ok place) (hslash : p.endsInSlash = false) :
    (removeStale u p).2 = (removeStale t p).2 := by
  by_cases hfree : t.at? place = some .directory
  · have hfree' := (h.directory_iff place).2 hfree
    rw [removeStale, removeStale, removeFile_of_directory hplace hfree,
      removeFile_of_directory (h.locate_iff.2 hplace) hfree']
  · have hroom : t.HasRoom p := ⟨hslash, place, hplace, hfree⟩
    obtain ⟨t', ht', -⟩ := removeStale_of_hasRoom hroom
    obtain ⟨u', hu', -⟩ := removeStale_of_hasRoom (hroom.of_sameDirectories h)
    rw [ht', hu']

/-- The path of the staging file leads through the directory it is in. -/
lemma exists_directory_of_locate_stagingPath {steps : List Path.Component} {s : String}
    {staged : Location} (hsteps : (stagingPath artifact).steps = steps ++ [.name s])
    (hstart : (stagingPath artifact).isAbsolute = artifact.isAbsolute)
    (hstaged : t.locate (stagingPath artifact) = .ok staged) :
    ∃ directory, t.descend (t.startOf artifact) steps = .ok directory ∧
      t.at? directory = some .directory ∧ staged = directory ++ [s] := by
  rw [FileTree.locate_of_steps (by simp [hsteps]), FileTree.startOf, hstart, hsteps] at hstaged
  exact FileTree.exists_of_descend_concat hstaged

/-- An artifact without a name is a directory if there is a place for its staging file, or its path
is empty. Its removal is refused, for a reason that depends on the directories only. -/
lemma refused_of_nameless (h : SameDirectories t u) (hname : artifact.fileName? = none)
    {staged : Location} (hstaged : t.locate (stagingPath artifact) = .ok staged) :
    ∃ e, t.removeFile artifact = .error e ∧ u.removeFile artifact = .error e := by
  obtain ⟨steps, s, hsteps, -, hnameless⟩ := exists_steps_concat_stagingPath artifact
  obtain ⟨rfl, hstart⟩ := hnameless hname
  by_cases hbare : artifact.text = ""
  · exact ⟨.notFound, by simp [FileTree.removeFile, FileTree.locate, hbare, bind, Except.bind],
      by simp [FileTree.removeFile, FileTree.locate, hbare, bind, Except.bind]⟩
  · obtain ⟨directory, hdirectory, hthere, -⟩ :=
      exists_directory_of_locate_stagingPath hsteps hstart hstaged
    have hplace : t.locate artifact = .ok directory := by
      rw [FileTree.locate, if_neg hbare, hdirectory]
    exact ⟨.isDirectory, removeFile_of_directory hplace hthere,
      removeFile_of_directory (h.locate_iff.2 hplace) ((h.directory_iff directory).2 hthere)⟩

namespace DifferInArtifact

/-- Where there is no room for an artifact with a name, the trees have the same at its place, which
is in the directory of the staging file. Its removal is refused for the same reason. -/
lemma refused_of_named (h : DifferInArtifact t u artifact) {s : String}
    (hname : artifact.fileName? = some s) (hnone : ¬ t.HasRoom artifact) {staged : Location}
    (hstaged : t.locate (stagingPath artifact) = .ok staged) :
    ∃ e, t.removeFile artifact = .error e ∧ u.removeFile artifact = .error e := by
  have hsame := h.sameDirectories
  obtain ⟨q, tail, -, hstart, hsteps, htail, hstagingSteps⟩ :=
    exists_steps_stagingPath_of_fileName? hname
  obtain ⟨directory, hdirectory, hthere, rfl⟩ :=
    exists_directory_of_locate_stagingPath hstagingSteps hstart hstaged
  have hne : artifact.steps ≠ [] := by
    rw [hsteps]
    rintro hnil
    rw [(List.append_eq_nil_iff.1 hnil).2] at htail
    cases htail
  -- the trees differ at most in the staging file, which has another name
  have hagree : u.at? (directory ++ [s]) = t.at? (directory ++ [s]) := by
    refine Classical.byContradiction fun hdiffer => ?_
    obtain ⟨hfree, -, p, rfl | rfl, hslash, hplace⟩ := h.files _ hdiffer
    · exact hnone ⟨hslash, _, hplace, hfree⟩
    · have hnames := Except.ok.inj (hplace.symm.trans hstaged)
      have hlength := congrArg String.length
        (List.singleton_inj.1 (List.append_cancel_left hnames))
      rw [String.length_append] at hlength
      exact absurd hlength (by simp)
  have hwalk : ∀ v : FileTree, v.workingDirectory = t.workingDirectory →
      v.descend (t.startOf artifact) q.steps = .ok directory →
      v.locate artifact = v.descend directory tail := by
    intro v hstart hv
    rw [FileTree.locate_of_steps hne, FileTree.startOf, hstart, hsteps, FileTree.descend_append]
    rw [FileTree.startOf] at hv
    rw [hv]
    rfl
  have ht := hwalk t rfl hdirectory
  have hu := hwalk u h.workingDirectory (hsame.descend_eq_ok hdirectory)
  obtain ⟨htailSame, hend⟩ := FileTree.descend_of_filter_eq_name htail
    (((hsame.directory_iff directory).2 hthere).trans hthere.symm) hagree
  refine FileTree.removeFile_congr (hu.trans (htailSame.trans ht.symm)) (fun place hplace => ?_)
    (Bool.eq_false_iff.2 fun hfile => hnone (FileTree.hasRoom_of_isFile hfile))
  rw [hend place (ht.symm.trans hplace), hagree]

/-- Where there is no room for the artifact, but a place for its staging file, the removal of the
artifact has the same answer in both trees and leaves them as they are. -/
lemma removeStale_of_not_hasRoom (h : DifferInArtifact t u artifact) {staged : Location}
    (hnone : ¬ t.HasRoom artifact) (hstaged : t.locate (stagingPath artifact) = .ok staged) :
    ∃ answer, removeStale t artifact = (t, answer) ∧ removeStale u artifact = (u, answer) := by
  have hrefused : ∃ e, t.removeFile artifact = .error e ∧ u.removeFile artifact = .error e := by
    cases hname : artifact.fileName? with
    | none => exact refused_of_nameless h.sameDirectories hname hstaged
    | some s => exact h.refused_of_named hname hnone hstaged
  obtain ⟨e, ht, hu⟩ := hrefused
  unfold removeStale
  rw [ht, hu]
  cases e <;> exact ⟨_, rfl, rfl⟩

/-- **The removal has the same answer** whatever is at the artifact and its staging file.

**Proof sketch.** By cases on where files can be at all. If there is room for a file at the
artifact, nothing is in the way of its removal from either tree, and what is answered for its
staging file is the same. If there is room at the staging file only, the first removal has one
answer for both trees and leaves them as they are. If there is room at neither, the trees have the
same entries. -/
theorem answer_discard (h : DifferInArtifact t u artifact) (ht : t.IsRooted) (hu : u.IsRooted) :
    (discard u artifact).2 = (discard t artifact).2 := by
  have hsame := h.sameDirectories
  by_cases hroom : t.HasRoom artifact
  · obtain ⟨t', ht', -⟩ := removeStale_of_hasRoom hroom
    obtain ⟨u', hu', -⟩ := removeStale_of_hasRoom (hroom.of_sameDirectories hsame)
    have htt' := sameDirectories_removeStale t artifact
    have huu' := sameDirectories_removeStale u artifact
    rw [ht'] at htt'
    rw [hu'] at huu'
    obtain ⟨staged, hstaged⟩ := exists_locate_stagingPath ht hroom
    rw [discard, discard, ht', hu']
    exact answer_removeStale (htt'.symm.trans (hsame.trans huu')) (htt'.locate_iff.2 hstaged)
      (endsInSlash_stagingPath artifact)
  · by_cases hstaging : t.HasRoom (stagingPath artifact)
    · obtain ⟨-, staged, hstaged, -⟩ := id hstaging
      obtain ⟨answer, ht', hu'⟩ := h.removeStale_of_not_hasRoom hroom hstaged
      rw [discard, discard, ht', hu']
      cases answer with
      | error e => rfl
      | ok _ => exact answer_removeStale hsame hstaged (endsInSlash_stagingPath artifact)
    · -- there is nowhere that the trees could differ
      have hagree : ∀ loc, u.at? loc = t.at? loc := by
        intro loc
        refine Classical.byContradiction fun hne => ?_
        obtain ⟨hfree, -, p, rfl | rfl, hslash, hplace⟩ := h.files loc hne
        · exact hroom ⟨hslash, loc, hplace, hfree⟩
        · exact hstaging ⟨hslash, loc, hplace, hfree⟩
      have hrelists := FileTree.relists_of_at?_eq ht.distinct hu.distinct h.workingDirectory hagree
      exact (hrelists.discard artifact).answers

end DifferInArtifact

/-! ## What is left by the removal -/

/-- A removal lists no new places. -/
lemma places_removeStale_sublist (t : FileTree) (p : Path) :
    (removeStale t p).1.places.Sublist t.places := by
  unfold removeStale
  split
  · next hremove =>
    obtain ⟨place, -, -, -, -, rfl, -⟩ := FileTree.exists_of_removeFile hremove
    exact List.filter_sublist.map Prod.fst
  · exact List.Sublist.refl _
  · exact List.Sublist.refl _

/-- A removal of both adds no places and keeps the order of the others. -/
lemma places_discard_sublist (t : FileTree) (artifact : Path) :
    (discard t artifact).1.places.Sublist t.places :=
  discard_keeps (fun u => u.places.Sublist t.places)
    (fun _ hkept => (places_removeStale_sublist _ _).trans hkept) (List.Sublist.refl _)

/-- **What is left by the removal is the same**, whatever was at the artifact and its staging
file.

**Proof sketch.** Place by place: at the two files nothing is left in either tree, and at any other
place both removals have left what was there, which was the same. -/
theorem DifferInArtifact.relists_discard (h : DifferInArtifact t u artifact) (ht : t.IsRooted)
    (hu : u.IsRooted) {left left' : FileTree} (hleft : discard t artifact = (left, .ok ()))
    (hleft' : discard u artifact = (left', .ok ())) : left.Relists left' := by
  have hsub := places_discard_sublist t artifact
  have hsub' := places_discard_sublist u artifact
  rw [hleft] at hsub
  rw [hleft'] at hsub'
  obtain ⟨hcleared, -⟩ := isCleared_discard hleft
  obtain ⟨hcleared', -⟩ := isCleared_discard hleft'
  have hlocate : ∀ {p : Path} {loc : Location}, u.locate p = .ok loc ↔ t.locate p = .ok loc :=
    h.sameDirectories.locate_iff
  refine FileTree.relists_of_at?_eq ((hsub.cons_cons []).nodup ht.distinct)
    ((hsub'.cons_cons []).nodup hu.distinct) ?_ fun loc => ?_
  · rw [hcleared'.workingDirectory, hcleared.workingDirectory, h.workingDirectory]
  · by_cases hgone : t.locate artifact = .ok loc ∨ t.locate (stagingPath artifact) = .ok loc
    · rw [hcleared.gone loc hgone, hcleared'.gone loc (hgone.imp hlocate.2 hlocate.2)]
    · obtain ⟨hartifact, hstaging⟩ := not_or.1 hgone
      rw [hcleared.kept loc hartifact hstaging,
        hcleared'.kept loc (mt hlocate.1 hartifact) (mt hlocate.1 hstaging)]
      refine Classical.byContradiction fun hne => ?_
      obtain ⟨-, -, p, rfl | rfl, -, hplace⟩ := h.files loc hne
      · exact hartifact hplace
      · exact hstaging hplace

/-- The tree with the difference is one in which everything is in a directory, too. -/
lemma DifferInArtifact.isRooted (h : DifferInArtifact t u artifact) (ht : t.IsRooted)
    (hu : ([] :: u.places).Nodup) : u.IsRooted := by
  have hsame := h.sameDirectories
  refine ⟨hu, fun loc entry hentry => (hsame.directory_iff _).2 ?_, ?_⟩
  · by_cases heq : u.at? loc = t.at? loc
    · exact ht.inDirectory loc entry (heq ▸ hentry)
    · obtain ⟨hfree, -, p, -, -, hplace⟩ := h.files loc heq
      obtain ⟨-, s, middle, -, hmiddle, rfl⟩ := FileTree.exists_name_of_locate ht hplace hfree
      rw [List.dropLast_concat]
      exact hmiddle
  · rw [h.workingDirectory]
    exact (hsame.directory_iff _).2 ht.start

/-! ## What a compilation leaves -/

/-- A change of one of the two makes a difference in them only. -/
lemma differInArtifact_of_change {p : Path} {place : Location} {change : Option Entry}
    (hp : p = artifact ∨ p = stagingPath artifact) (hslash : p.endsInSlash = false)
    (hplace : t.locate p = .ok place) (hfree : t.at? place ≠ some .directory)
    (hchange : change ≠ some .directory) (hstart : u.workingDirectory = t.workingDirectory)
    (hafter : ∀ loc, u.at? loc = if loc = place then change else t.at? loc) :
    DifferInArtifact t u artifact := by
  refine ⟨hstart, fun loc hne => ?_⟩
  obtain rfl : loc = place := Classical.byContradiction fun hother =>
    hne (by rw [hafter, if_neg hother])
  refine ⟨hfree, ?_, p, hp, hslash, hplace⟩
  rw [hafter, if_pos rfl]
  exact hchange

/-- The removal of one of the two makes a difference in them only. -/
lemma differInArtifact_remove {p : Path} {place : Location}
    (hp : p = artifact ∨ p = stagingPath artifact) (hslash : p.endsInSlash = false)
    (hplace : t.locate p = .ok place) (hfree : t.at? place ≠ some .directory) :
    DifferInArtifact t (t.remove place) artifact :=
  differInArtifact_of_change hp hslash hplace hfree (Option.some_ne_none _).symm rfl
    fun loc => t.at?_remove place loc (FileTree.ne_root hfree)

/-- A file at one of the two makes a difference in them only. -/
lemma differInArtifact_set {p : Path} {place : Location}
    (hp : p = artifact ∨ p = stagingPath artifact) (hslash : p.endsInSlash = false)
    (hplace : t.locate p = .ok place) (hfree : t.at? place ≠ some .directory) (content : Content) :
    DifferInArtifact t (t.set place (.file content)) artifact :=
  differInArtifact_of_change hp hslash hplace hfree (fun heq => by cases heq) rfl
    fun loc => t.at?_set place loc _ (FileTree.ne_root hfree)

/-- A removal, whatever its answer, makes a difference in the two only. -/
lemma differInArtifact_removeStale (t : FileTree) {p : Path}
    (hp : p = artifact ∨ p = stagingPath artifact) :
    DifferInArtifact t (removeStale t p).1 artifact := by
  unfold removeStale
  split
  · next left hremove =>
    have hfile : t.isFile p = true := by
      rcases t.removeFile_cases p with ⟨hfile, -⟩ | ⟨-, e, herror⟩
      · exact hfile
      · cases hremove.symm.trans herror
    obtain ⟨place, content, hplace, hcontent, -, rfl, -⟩ := FileTree.exists_of_removeFile hremove
    exact differInArtifact_remove hp (FileTree.hasRoom_of_isFile hfile).1 hplace (by simp [hcontent])
  · exact .refl t
  · exact .refl t

/-- A removal of both makes a difference in the two files only. -/
lemma differInArtifact_discard (t : FileTree) (artifact : Path) :
    DifferInArtifact t (discard t artifact).1 artifact :=
  discard_keeps (fun u => DifferInArtifact t u artifact)
    (fun hp hkept => hkept.trans (differInArtifact_removeStale _ hp)) (.refl t)

/-- What is left by a removal is in a directory. -/
lemma isRooted_discard (ht : t.IsRooted) (artifact : Path) : (discard t artifact).1.IsRooted :=
  (differInArtifact_discard t artifact).isRooted ht
    (((places_discard_sublist t artifact).cons_cons []).nodup ht.distinct)

/-- Putting a table makes a difference in the artifact and its staging file only. -/
lemma differInArtifact_of_commit {t' : FileTree} {table : StoredTable}
    (h : commit t artifact table = (t', .ok ())) : DifferInArtifact t t' artifact := by
  obtain ⟨staged, place, hstaged, hplace, hslash, hsame, hafter⟩ := exists_of_commit h
  refine ⟨hsame.workingDirectory, fun loc hne => ?_⟩
  have hnone : t'.at? loc ≠ some .directory ∧ (loc = place ∨ loc = staged) := by
    rw [hafter] at hne ⊢
    by_cases hloc : loc = place
    · simp [hloc]
    · by_cases hloc' : loc = staged
      · simp [hloc']
      · exact absurd (by rw [if_neg hloc, if_neg hloc']) hne
  refine ⟨mt (hsame.directory_iff loc).2 hnone.1, hnone.1, ?_⟩
  rcases hnone.2 with rfl | rfl
  · exact ⟨artifact, .inl rfl, hslash, hplace⟩
  · exact ⟨stagingPath artifact, .inr rfl, endsInSlash_stagingPath artifact, hstaged⟩

/-- Preparations that succeed are a removal once the directory of the artifact is made. -/
lemma prepare_eq_discard (h : prepare t artifact = (u, .ok ())) :
    discard (withDirectory t artifact) artifact = (u, .ok ()) := by
  rcases prepare_cases t artifact with hdiscard | ⟨-, e, hfailed⟩
  · rw [← hdiscard, h]
  · cases congrArg Prod.snd (h.symm.trans hfailed)

/-- **Writing a table** makes a difference in the artifact and its staging file only, once the
directory of the artifact is made. -/
theorem differInArtifact_of_write {t' : FileTree} {columns : List Column} {cards : List CorpusCard}
    {rows : Nat} (h : write t artifact columns cards = (t', .ok rows)) :
    DifferInArtifact (withDirectory t artifact) t' artifact := by
  obtain ⟨prepared, table, hprepare, -, -, hcommit, -⟩ := write_succeeds_iff.1 h
  have hleft := differInArtifact_discard (withDirectory t artifact) artifact
  rw [prepare_eq_discard hprepare] at hleft
  exact hleft.trans (differInArtifact_of_commit hcommit)

end Artifact

namespace Compile

open Artifact (DifferInArtifact)

variable {t u : FileTree} {artifact : Path}

/-! ## Compilations -/

/-- Two compilations have the same answer, and the same table is at the artifact if they succeed. -/
structure SameResult (artifact : Path) (r s : FileTree × Except CompileError Summary) : Prop where
  /-- The answers. -/
  answers : s.2 = r.2
  /-- The tables. -/
  tables : ∀ summary, r.2 = .ok summary → ∃ table,
    r.1.find artifact = .ok (.file (.table table)) ∧ s.1.find artifact = .ok (.file (.table table))

/-- Where the trees differ in their order only, the same table is at the artifact. -/
lemma SameResult.of_sameEnd {r s : FileTree × Except CompileError Summary}
    (h : FileTree.SameEnd r s)
    (htable : ∀ summary, r.2 = .ok summary →
      ∃ table, r.1.find artifact = .ok (.file (.table table))) : SameResult artifact r s := by
  refine ⟨h.answers, fun summary hsummary => ?_⟩
  obtain ⟨table, hfound⟩ := htable summary hsummary
  exact ⟨table, hfound, (h.trees.find_eq artifact).trans hfound⟩

/-- What is built is a table at the artifact. -/
lemma Plan.exists_table_of_build {plan : Plan} {left : FileTree} {summary : Summary}
    (h : (plan.build left).2 = .ok summary) :
    ∃ table, (plan.build left).1.find plan.artifact = .ok (.file (.table table)) := by
  unfold Plan.build at h ⊢
  split at h
  · cases h
  split at h
  · cases h
  next hmade =>
  obtain ⟨-, -, table, -, -, hfound⟩ := exists_table_of_materialize hmade
  exact ⟨table, hfound⟩

/-- **Stale output does not show** in a compilation.

**Proof sketch.** The removals give the same answer (`answer_discard`). If it is a success they
leave trees with the same entries (`relists_discard`), and from there on both runs do the same. -/
theorem Plan.sameResult_run {plan : Plan}
    (hread : ∀ {left left' : FileTree}, left.Relists left' → plan.read left' = plan.read left)
    (h : DifferInArtifact t u plan.artifact) (ht : t.IsRooted) (hu : u.IsRooted) :
    SameResult plan.artifact (plan.run t) (plan.run u) := by
  have hanswer := h.answer_discard ht hu
  unfold Plan.run
  cases hleft : Artifact.discard t plan.artifact with
  | mk left answer =>
    cases hleft' : Artifact.discard u plan.artifact with
    | mk left' answer' =>
      rw [hleft, hleft'] at hanswer
      obtain rfl : answer' = answer := hanswer
      cases answer' with
      | error e => exact ⟨rfl, fun summary hsummary => by cases hsummary⟩
      | ok _ =>
        have hsame := h.relists_discard ht hu hleft hleft'
        exact .of_sameEnd (hsame.build (hread hsame)) fun _ => Plan.exists_table_of_build

end Compile

end CardTable
