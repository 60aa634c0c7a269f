import CardTable.Proofs.Files.Paths
import CardTable.Proofs.Files.Trees
import CardTable.Table.Artifact
import Mathlib.Tactic.Lemma

set_option autoImplicit false

/-!
# Removing and putting artifacts

The artifact is removed first, and the staging file is not looked at if this is refused. Whether
deletion is permitted matters at two moments: at the start, and once the directory of the artifact
has been made. A table can be put at a path in a directory if no directory is in the way of the
artifact or of its staging file, and if the store opens the staging file under its own name.

## Main definitions

* `CardTable.Artifact.IsGone` — neither the artifact nor its staging file is there.
* `CardTable.Artifact.IsStuck` — there is a staging file that a removal does not come to.
* `CardTable.Artifact.Deletable` — whether a compilation may delete the two.
* `CardTable.Artifact.IsWritable` — whether a table can be put at a path.

## Main results

* `CardTable.Artifact.sameDirectories_discard` — a removal leaves the directories alone.
* `CardTable.Artifact.isGone_discard_iff` — what is left by a removal.
* `CardTable.Artifact.isGone_prepare_iff_not_isStuck` — what is left by the preparations.
* `CardTable.Artifact.write_succeeds_iff`, `CardTable.Artifact.eq_prepare_of_write` — what is done
  by a writing that succeeds, and what is left by one that fails.
* `CardTable.Artifact.deletable_of_hasDirectory` — in a directory that is there already only the
  start matters.
* `CardTable.Artifact.isWritable_of_hasRoom` — where a table can be put.
-/

namespace CardTable

namespace Artifact

/-! ## Files next to the artifact -/

/-- Whether a name with the ending is never one of the special names of a directory. -/
def IsEnding (ending : String) : Prop :=
  '/' ∉ ending.toList ∧ 2 < ending.toList.length

/-- The ending of staging files. -/
lemma isEnding_staging : IsEnding ".partial" :=
  ⟨by decide, by decide⟩

/-- The endings of the companions. -/
lemma Companion.isEnding (c : Companion) : IsEnding c.ending := by
  cases c <;> exact ⟨by decide, by decide⟩

section Siblings

variable {artifact : Path} {ending : String}

/-- A name with an ending is a path of one step. -/
lemma steps_siblingName {s : String} (h : '/' ∉ s.toList) (hending : IsEnding ending) :
    (⟨s ++ ending⟩ : Path).isAbsolute = false ∧
      (⟨s ++ ending⟩ : Path).steps = [.name (s ++ ending)] := by
  have hslash : '/' ∉ (s ++ ending).toList := by
    rw [String.toList_append, List.mem_append, not_or]
    exact ⟨h, hending.1⟩
  have hlength : 2 < (s ++ ending).toList.length := by
    rw [String.toList_append, List.length_append]
    exact Nat.lt_add_left _ hending.2
  refine ⟨?_, ?_⟩
  · refine Bool.eq_false_iff.2 fun habsolute => hslash ?_
    exact List.mem_of_head? (beq_iff_eq.1 habsolute)
  · unfold Path.steps
    rw [Path.splitSlash_of_not_mem hslash, List.filterMap_cons, Path.componentOf?_of_length hlength,
      String.ofList_toList]
    rfl

/-- The name of the artifact has no slash. -/
lemma slash_not_mem_fileName (artifact : Path) :
    '/' ∉ (artifact.fileName?.getD "").toList := by
  cases hname : artifact.fileName? with
  | none => exact List.not_mem_nil
  | some s => exact Path.slash_not_mem_of_fileName? hname

/-- What is next to the artifact is in its directory. -/
lemma exists_steps_siblingPath (hending : IsEnding ending) {directory : Path}
    (h : artifact.parent? = some directory) (hdirectory : directory.text ≠ "") :
    (siblingPath artifact ending).isAbsolute = directory.isAbsolute ∧
      ∃ tail, tail ≠ [] ∧ (siblingPath artifact ending).steps = directory.steps ++ tail := by
  obtain ⟨habsolute, hsteps⟩ := steps_siblingName (slash_not_mem_fileName artifact) hending
  unfold siblingPath Path.withFileName
  split
  · rw [h, Option.getD_some, Path.isAbsolute_join habsolute, Path.steps_join habsolute, hsteps]
    exact ⟨rfl, _, List.cons_ne_nil _ _, rfl⟩
  · obtain ⟨hstart, tail, -, hartifact, -⟩ := Path.exists_steps_of_parent? h hdirectory
    rw [Path.isAbsolute_join habsolute, Path.steps_join habsolute, hsteps, hartifact, hstart]
    exact ⟨rfl, _, by simp, List.append_assoc ..⟩

end Siblings

/-! ## Removing both -/

/-- Neither the artifact nor its staging file is there. -/
structure IsGone (t : FileTree) (artifact : Path) : Prop where
  /-- There is no artifact. -/
  absent : t.isFile artifact = false
  /-- There is no staging file. -/
  unstaged : t.isFile (stagingPath artifact) = false

/-- There is a staging file, and the deletion of the artifact is refused for another reason than
that it is not there. -/
structure IsStuck (t : FileTree) (artifact : Path) : Prop where
  /-- Deletion of the artifact is refused. -/
  refused : ∃ e, e ≠ .notFound ∧ t.removeFile artifact = .error e
  /-- There is a staging file. -/
  staged : t.isFile (stagingPath artifact) = true

/-- What was removed is not there afterwards, whether it was there or not. -/
lemma not_isFile_removeStale (t : FileTree) (file : Path) :
    (removeStale t file).1.isFile file = false := by
  unfold removeStale
  split
  · next hremove => exact FileTree.not_isFile_of_removeFile hremove
  all_goals
    next herror =>
    rcases t.removeFile_cases file with ⟨-, _, -, -, hremove⟩ | ⟨hnone, -⟩
    · cases hremove.symm.trans herror
    · exact hnone

/-- A removal makes no files. -/
lemma isFile_of_removeStale {t : FileTree} {file other : Path}
    (h : (removeStale t file).1.isFile other = true) : t.isFile other = true := by
  unfold removeStale at h
  split at h
  · next hremove => exact FileTree.isFile_of_removeFile hremove h
  · exact h
  · exact h

/-- A removal that is refused changes nothing. -/
lemma removeStale_eq_error {t t' : FileTree} {file : Path} {e : ArtifactError}
    (h : removeStale t file = (t', .error e)) :
    t' = t ∧ ∃ cause, cause ≠ .notFound ∧ t.removeFile file = .error cause := by
  unfold removeStale at h
  split at h
  · cases congrArg Prod.snd h
  · cases congrArg Prod.snd h
  · next cause hother herror =>
    obtain ⟨rfl, -⟩ := Prod.mk.inj h
    exact ⟨rfl, cause, hother, herror⟩

/-- A removal leaves the directories alone. -/
lemma sameDirectories_removeStale (t : FileTree) (file : Path) :
    FileTree.SameDirectories t (removeStale t file).1 := by
  unfold removeStale
  split
  · next hremove =>
    obtain ⟨-, -, -, -, -, -, hsame⟩ := FileTree.exists_of_removeFile hremove
    exact hsame
  · exact .refl t
  · exact .refl t

/-- **What the removal of one of the two keeps**, the removal of both keeps. -/
theorem discard_keeps (P : FileTree → Prop) {t : FileTree} {artifact : Path}
    (hremove : ∀ {u : FileTree} {p : Path}, p = artifact ∨ p = stagingPath artifact → P u →
      P (removeStale u p).1)
    (ht : P t) : P (discard t artifact).1 := by
  have hartifact := hremove (.inl rfl) ht
  unfold discard
  split
  · next u hfirst =>
    rw [hfirst] at hartifact
    exact hremove (.inr rfl) hartifact
  · next u e hfirst =>
    rw [hfirst] at hartifact
    exact hartifact

/-- **A removal of both** leaves the directories alone. -/
theorem sameDirectories_discard (t : FileTree) (artifact : Path) :
    FileTree.SameDirectories t (discard t artifact).1 :=
  discard_keeps (FileTree.SameDirectories t)
    (fun _ hkept => hkept.trans (sameDirectories_removeStale _ _)) (.refl t)

/-- **What is left by a removal**: nothing, unless the staging file is stuck.

**Proof sketch.** If the artifact can be removed, or is not there, the staging file is removed as
well as it can be and neither is left. If its removal is refused nothing is changed, so the staging
file is left just if it was there, which is what being stuck means. -/
theorem isGone_discard_iff (t : FileTree) (artifact : Path) :
    IsGone (discard t artifact).1 artifact ↔ ¬ IsStuck t artifact := by
  have hartifact := not_isFile_removeStale t artifact
  unfold discard
  split
  · next u hremove =>
    rw [hremove] at hartifact
    refine iff_of_true ⟨?_, not_isFile_removeStale u _⟩ fun hstuck => ?_
    · refine Bool.eq_false_iff.2 fun h => ?_
      have hbefore := isFile_of_removeStale h
      cases hartifact.symm.trans hbefore
    · obtain ⟨cause, hcause, herror⟩ := hstuck.refused
      unfold removeStale at hremove
      rw [herror] at hremove
      cases cause with
      | notFound => exact hcause rfl
      | _ => cases congrArg Prod.snd hremove
  · next u e hremove =>
    obtain ⟨rfl, hrefused⟩ := removeStale_eq_error hremove
    rw [hremove] at hartifact
    constructor
    · intro hgone hstuck
      cases hgone.unstaged.symm.trans hstuck.staged
    · exact fun hfree => ⟨hartifact, Bool.eq_false_iff.2 fun h => hfree ⟨hrefused, h⟩⟩

/-- A staging file that is stuck stays so, together with everything else. -/
lemma discard_of_isStuck {t : FileTree} {artifact : Path} (h : IsStuck t artifact) :
    (discard t artifact).1 = t := by
  obtain ⟨cause, hcause, herror⟩ := h.refused
  have hremove : removeStale t artifact = (t, .error (.io artifact cause)) := by
    rw [removeStale, herror]
    cases cause with
    | notFound => exact absurd rfl hcause
    | _ => rfl
  rw [discard, hremove]

/-- Where nothing is left, nothing is stuck. -/
lemma IsGone.not_isStuck {t : FileTree} {artifact : Path} (h : IsGone t artifact) :
    ¬ IsStuck t artifact := by
  intro hstuck
  cases h.unstaged.symm.trans hstuck.staged

/-- A removal leaves nothing, or a staging file that is stuck. -/
lemma isGone_discard_iff_not_isStuck (t : FileTree) (artifact : Path) :
    IsGone (discard t artifact).1 artifact ↔ ¬ IsStuck (discard t artifact).1 artifact := by
  constructor
  · exact IsGone.not_isStuck
  · intro hfree
    refine (isGone_discard_iff t artifact).2 fun hstuck => hfree ?_
    rw [discard_of_isStuck hstuck]
    exact hstuck

/-! ## Writing -/

/-- The tree in which the directory of the artifact has been made. -/
def withDirectory (t : FileTree) (artifact : Path) : FileTree :=
  match artifact.parent? with
  | none => t
  | some directory =>
    if directory.text = "" then t else (t.createDirectories directory).1

/-- The artifact is removed once its directory has been made; where that fails, there is none. -/
lemma prepare_cases (t : FileTree) (artifact : Path) :
    prepare t artifact = discard (withDirectory t artifact) artifact ∨
      (IsGone (withDirectory t artifact) artifact ∧
        ∃ e, prepare t artifact = (withDirectory t artifact, .error e)) := by
  unfold prepare withDirectory
  cases hdirectory : artifact.parent? with
  | none => exact .inl rfl
  | some directory =>
    dsimp only
    by_cases hnamed : directory.text = ""
    · rw [if_pos hnamed, if_pos hnamed]
      exact .inl rfl
    · rw [if_neg hnamed, if_neg hnamed]
      have hkept := t.workingDirectory_makeDirectories (t.startOf directory) directory.steps.reverse
      change (t.createDirectories directory).1.workingDirectory = _ at hkept
      cases hmade : t.createDirectories directory with
      | mk u outcome =>
        rw [hmade] at hkept
        cases outcome with
        | ok _ => exact .inl rfl
        | error e =>
          have hmissing := FileTree.not_leadsToDirectory_of_makeDirectories hmade
          have hstart : t.startOf directory = u.startOf directory := by
            rw [FileTree.startOf, FileTree.startOf, hkept]
          rw [List.reverse_reverse, hstart] at hmissing
          obtain ⟨hfirst, tail, c, hsteps, hmoves⟩ := Path.exists_steps_of_parent? hdirectory hnamed
          have htail : tail ≠ [] := by
            rintro rfl
            cases hmoves
          obtain ⟨hfirst', tail', htail', hsteps'⟩ :=
            exists_steps_siblingPath isEnding_staging hdirectory hnamed
          refine .inr ⟨⟨?_, ?_⟩, _, rfl⟩
          · exact FileTree.not_isFile_of_not_leadsToDirectory hfirst.symm hsteps htail hmissing
          · exact FileTree.not_isFile_of_not_leadsToDirectory hfirst' hsteps' htail' hmissing

/-- After the preparations nothing is left, or a staging file that is stuck. -/
theorem isGone_prepare_iff_not_isStuck (t : FileTree) (artifact : Path) :
    IsGone (prepare t artifact).1 artifact ↔ ¬ IsStuck (prepare t artifact).1 artifact := by
  rcases prepare_cases t artifact with hdiscard | ⟨hgone, e, hfailed⟩
  · rw [hdiscard]
    exact isGone_discard_iff_not_isStuck _ _
  · rw [hfailed]
    exact iff_of_true hgone hgone.not_isStuck

/-- After the preparations nothing is left if the staging file is not stuck once the directory of
the artifact has been made. -/
lemma isGone_prepare {t : FileTree} {artifact : Path}
    (h : ¬ IsStuck (withDirectory t artifact) artifact) :
    IsGone (prepare t artifact).1 artifact := by
  rcases prepare_cases t artifact with hdiscard | ⟨hgone, e, hfailed⟩
  · rw [hdiscard]
    exact (isGone_discard_iff _ _).2 h
  · rw [hfailed]
    exact hgone

/-- **What a commit does**: it puts the table to the staging file, whose name is no address, and
moves that to the artifact. -/
theorem commit_eq_ok_iff {t t' : FileTree} {artifact : Path} {table : StoredTable} :
    commit t artifact table = (t', .ok ()) ↔
      isAddress (stagingPath artifact) = false ∧ ∃ staged,
        t.writeFile (stagingPath artifact) (.table table) = .ok staged ∧
          staged.rename (stagingPath artifact) artifact = .ok t' := by
  unfold commit
  generalize stagingPath artifact = staging
  dsimp only
  cases isAddress staging with
  | true => simp
  | false =>
    rw [if_neg Bool.false_ne_true]
    cases t.writeFile staging (.table table) with
    | error e => simp
    | ok staged => cases hmove : staged.rename staging artifact <;> simp [hmove]

/-- A table that is not committed leaves the files alone. -/
lemma eq_of_commit_error {t t' : FileTree} {artifact : Path} {table : StoredTable}
    {e : ArtifactError} (h : commit t artifact table = (t', .error e)) : t' = t := by
  unfold commit at h
  dsimp only at h
  split at h
  · exact (congrArg Prod.fst h).symm
  split at h
  · exact (congrArg Prod.fst h).symm
  split at h
  · cases congrArg Prod.snd h
  · exact (congrArg Prod.fst h).symm

/-- **What a writing does**: it prepares the tree, opens the staging file, makes the table and
commits it. -/
theorem write_succeeds_iff {t t' : FileTree} {artifact : Path} {columns : List Column}
    {cards : List CorpusCard} {rows : Nat} :
    write t artifact columns cards = (t', .ok rows) ↔
      ∃ prepared table, prepare t artifact = (prepared, .ok ()) ∧
        openError? prepared artifact = none ∧ tableOf columns cards = .ok table ∧
        commit prepared artifact table = (t', .ok ()) ∧ rows = cards.length := by
  constructor
  · intro h
    unfold write at h
    split at h
    · cases congrArg Prod.snd h
    next prepared hprepare =>
    split at h
    · cases congrArg Prod.snd h
    next hopen =>
    split at h
    · cases congrArg Prod.snd h
    next table htable =>
    split at h
    · cases congrArg Prod.snd h
    · next hcommit =>
      obtain ⟨rfl, hrows⟩ := Prod.mk.inj h
      exact ⟨prepared, table, hprepare, hopen, htable, hcommit, (Except.ok.inj hrows).symm⟩
  · rintro ⟨prepared, table, hprepare, hopen, htable, hcommit, rfl⟩
    simp only [write, hprepare, hopen, htable, hcommit]

/-- **A failed writing** goes no further than the preparations. -/
theorem eq_prepare_of_write {t t' : FileTree} {artifact : Path} {columns : List Column}
    {cards : List CorpusCard} {e : ArtifactError}
    (h : write t artifact columns cards = (t', .error e)) : t' = (prepare t artifact).1 := by
  unfold write at h
  split at h
  · next hfailed =>
    obtain ⟨rfl, -⟩ := Prod.mk.inj h
    rw [hfailed]
  · next u hdone =>
    rw [hdone]
    split at h
    · exact (congrArg Prod.fst h).symm
    split at h
    · exact (congrArg Prod.fst h).symm
    split at h
    · next hfailed =>
      obtain ⟨rfl, -⟩ := Prod.mk.inj h
      exact eq_of_commit_error hfailed
    · cases congrArg Prod.snd h

/-- Whether a compilation may delete the artifact and its staging file: the staging file is not
stuck at the start, and not once the directory of the artifact has been made either. -/
structure Deletable (t : FileTree) (artifact : Path) : Prop where
  /-- At the start. -/
  first : ¬ IsStuck t artifact
  /-- Before the table is written. -/
  later : ¬ IsStuck (withDirectory (discard t artifact).1 artifact) artifact

/-! ## Artifacts in directories that are there -/

/-- Whether the directory of the artifact is there already. -/
def HasDirectory (t : FileTree) (artifact : Path) : Prop :=
  ∀ directory, artifact.parent? = some directory → directory.text ≠ "" →
    t.isDirectory directory = true

/-- A directory that is there is not made. -/
lemma withDirectory_of_hasDirectory {t : FileTree} {artifact : Path}
    (h : HasDirectory t artifact) : withDirectory t artifact = t := by
  unfold withDirectory
  split
  · rfl
  · next directory hparent =>
    split
    · rfl
    · next hnamed => rw [FileTree.createDirectories_of_isDirectory (h directory hparent hnamed)]

/-- Where the directory is there, the preparations are a removal. -/
lemma prepare_of_hasDirectory {t : FileTree} {artifact : Path} (h : HasDirectory t artifact) :
    prepare t artifact = discard t artifact := by
  unfold prepare
  split
  · rfl
  · next directory hparent =>
    split
    · rfl
    · next hnamed => rw [FileTree.createDirectories_of_isDirectory (h directory hparent hnamed)]

/-- A removal of both leaves the directory alone. -/
lemma HasDirectory.discard {t : FileTree} {artifact : Path} (h : HasDirectory t artifact) :
    HasDirectory (discard t artifact).1 artifact :=
  fun directory hparent hnamed =>
    (sameDirectories_discard t artifact).isDirectory_iff.2 (h directory hparent hnamed)

/-- **In a directory that is there already** only the start matters for deletion. -/
theorem deletable_of_hasDirectory {t : FileTree} {artifact : Path} (hfree : ¬ IsStuck t artifact)
    (hdirectory : HasDirectory t artifact) : Deletable t artifact := by
  refine ⟨hfree, ?_⟩
  have hgone := (isGone_discard_iff t artifact).2 hfree
  rw [withDirectory_of_hasDirectory hdirectory.discard]
  exact hgone.not_isStuck

/-! ## Opening the staging file -/

/-- **Which files can be opened**: those for which there is room, unless their absolute path is too
long, or that of a place on the way. -/
theorem canOpen_iff {t : FileTree} {file : Path} :
    canOpen t file = true ↔ t.HasRoom file ∧
      (∃ place, t.locate file = .ok place ∧ pathLength place ≤ pathLimit) ∧
        ∀ place ∈ passed t file, pathLength place ≤ wayLimit := by
  unfold canOpen
  cases hplace : t.locate file with
  | error e => simp
  | ok place =>
    cases hwrite : t.writeFile file (.bytes .empty) with
    | error e =>
      have hroom : ¬ t.HasRoom file := by
        rintro hroom
        obtain ⟨u, hu⟩ := FileTree.exists_writeFile_iff.2 hroom
        cases hwrite.symm.trans hu
      simp [hroom]
    | ok u =>
      have hroom : t.HasRoom file := FileTree.exists_writeFile_iff.1 ⟨u, hwrite⟩
      simp [hroom]

/-- Only the directories matter for whether a file can be opened. -/
lemma canOpen_of_sameDirectories {t u : FileTree} (h : FileTree.SameDirectories t u)
    (file : Path) : canOpen u file = canOpen t file := by
  have hroom : u.HasRoom file ↔ t.HasRoom file :=
    ⟨fun hfile => hfile.of_sameDirectories h.symm, fun hfile => hfile.of_sameDirectories h⟩
  have hpassed : passed u file = passed t file := by
    simp only [passed, FileTree.startOf, h.workingDirectory]
  rw [Bool.eq_iff_iff, canOpen_iff, canOpen_iff, hroom, hpassed]
  simp only [h.locate_iff]

/-- Only the directories matter for whether the store opens the staging file. -/
lemma openError?_of_sameDirectories {t u : FileTree} (h : FileTree.SameDirectories t u)
    (artifact : Path) : openError? u artifact = openError? t artifact := by
  have hlog : u.isDirectory (Companion.log.path artifact) =
      t.isDirectory (Companion.log.path artifact) := Bool.eq_iff_iff.2 h.isDirectory_iff
  simp only [openError?, canOpen_of_sameDirectories h, hlog]

/-! ## Putting a table -/

/-- The names in a path. -/
def names (p : Path) : List String :=
  p.steps.filterMap fun
    | .name s => some s
    | _ => none

/-- Whether an operating system takes a path: it has fewer than 4096 bytes, and each name in it has
at most 255 and no NUL character. -/
def IsNameable (p : Path) : Prop :=
  Text.byteCount p.text.toList < 4096 ∧
    ∀ s ∈ names p, '\x00' ∉ s.toList ∧ Text.byteCount s.toList ≤ 255

/-- Whether a table can be put at a path: its directory is there or can be made, what stands in the
way can be removed, the store opens the staging file, and the file tree allows the table to be moved
from there. -/
def IsWritable (t : FileTree) (artifact : Path) : Prop :=
  IsNameable (stagingPath artifact) ∧
    ∃ prepared, prepare t artifact = (prepared, .ok ()) ∧ openError? prepared artifact = none ∧
      ∀ table, (commit prepared artifact table).2 = .ok ()

/-- Where there is room for a file, what is there can be removed; the directories stay. -/
lemma removeStale_of_hasRoom {t : FileTree} {file : Path} (h : t.HasRoom file) :
    ∃ t', removeStale t file = (t', .ok ()) ∧ FileTree.SameDirectories t t' := by
  unfold removeStale
  rcases FileTree.removeFile_of_hasRoom h with ⟨t', hremove⟩ | hnone
  · rw [hremove]
    obtain ⟨-, -, -, -, -, -, hsame⟩ := FileTree.exists_of_removeFile hremove
    exact ⟨t', rfl, hsame⟩
  · rw [hnone]
    exact ⟨t, rfl, .refl t⟩

/-- Where there is room for both files a table can be committed. -/
lemma commit_of_hasRoom {t : FileTree} {artifact : Path}
    (haddress : isAddress (stagingPath artifact) = false) (hartifact : t.HasRoom artifact)
    (hstaging : t.HasRoom (stagingPath artifact)) (table : StoredTable) :
    (commit t artifact table).2 = .ok () := by
  obtain ⟨place, -, hfree, hwrite⟩ := FileTree.writeFile_eq_ok hstaging (.table table)
  obtain ⟨origin, hstaged⟩ := FileTree.find_eq_file_iff.1 (FileTree.find_of_writeFile hwrite)
  have hfile := FileTree.isFile_iff.2 ⟨origin, _, hstaged⟩
  obtain ⟨t', hrename⟩ := FileTree.exists_rename_of_hasRoom hfile
    (hartifact.of_sameDirectories (.set hfree _))
  rw [commit_eq_ok_iff.2 ⟨haddress, _, hwrite, hrename⟩]

/-- **Where a table can be put**: in a directory that is there, if there is room for the artifact
and for its staging file, and the store opens the staging file under its own name. -/
theorem isWritable_of_hasRoom {t : FileTree} {artifact : Path}
    (hnameable : IsNameable (stagingPath artifact))
    (haddress : isAddress (stagingPath artifact) = false) (hdirectory : HasDirectory t artifact)
    (hartifact : t.HasRoom artifact) (hstaging : t.HasRoom (stagingPath artifact))
    (hopen : openError? t artifact = none) : IsWritable t artifact := by
  obtain ⟨u, hu, hfirst⟩ := removeStale_of_hasRoom hartifact
  obtain ⟨v, hv, hsecond⟩ := removeStale_of_hasRoom (hstaging.of_sameDirectories hfirst)
  have hsame := hfirst.trans hsecond
  refine ⟨hnameable, v, ?_, ?_, ?_⟩
  · rw [prepare_of_hasDirectory hdirectory, discard, hu]
    exact hv
  · rw [openError?_of_sameDirectories hsame, hopen]
  · exact commit_of_hasRoom haddress (hartifact.of_sameDirectories hsame)
      (hstaging.of_sameDirectories hsame)

end Artifact

end CardTable
