import CardTable.Proofs.Artifact.Drafts

set_option autoImplicit false

/-!
# All or nothing

A writing ends in one of three ways: its preparations fail, or they succeed and nothing comes of
them, or the table is committed. In the latter two the companions of an earlier use to which the
store came are gone. Each of these leaves everything or nothing, whatever happens to the writing
from outside and at whatever stage, exactly if the artifact and its staging file can be removed once
the directory of the artifact has been made, and no companion is deleted that holds something. All
this is about staging files whose names are no addresses, since an address leads to another file.

## Main definitions

* `CardTable.Artifact.WritingEnds` — how a writing ends.
* `CardTable.Artifact.IsAtomic` — whether a writing leaves everything or nothing.
* `CardTable.Artifact.IsClear` — whether the artifact and its staging file can be removed.
* `CardTable.Artifact.DeletesCompanion` — whether a companion of an earlier use is deleted.

## Main results

* `CardTable.Artifact.writingEnds_writeGuarded` — how writings end.
* `CardTable.Artifact.at?_prepare` — the preparations leave the other files.
* `CardTable.Artifact.isAtomic_writeGuarded_iff` — when a writing is all or nothing.
* `CardTable.Artifact.isClear_of_hasRoom`, `CardTable.Artifact.not_deletesCompanion` — a common case
  in which it is.
-/

namespace CardTable

namespace Artifact

/-! ## How a writing ends -/

/-- How a writing ends: the tree is not prepared for it, or it is and nothing comes of it, or the
table is committed. Companions of an earlier use are gone if the store came to them. -/
inductive WritingEnds (s : Surroundings) (t : FileTree) (artifact : Path) (columns : List Column)
    (cards : List CorpusCard) : FileTree × Except ArtifactError Nat → Prop
  | unprepared {u : FileTree} {e : ArtifactError} (hprepare : prepare t artifact = (u, .error e)) :
    WritingEnds s t artifact columns cards (u, .error e)
  | unfinished {u : FileTree} (hprepare : prepare t artifact = (u, .ok ())) (e : ArtifactError) :
    WritingEnds s t artifact columns cards (recovered s u artifact, .error e)
  | finished {u t' : FileTree} {table : StoredTable} (hprepare : prepare t artifact = (u, .ok ()))
    (htable : tableOf columns cards = .ok table)
    (hcommit : commit (recovered s u artifact) artifact table = (t', .ok ())) :
    WritingEnds s t artifact columns cards (t', .ok cards.length)

/-- **How a writing in stages ends**, whatever happens to it from outside.

**Proof sketch.** The stages from the opening of the staging file on either commit the table or
leave a draft (`build_cases`). The guard removes a draft, and since there was nothing at the staging
file after the preparations, the tree is the prepared one again, without the companions that were
deleted. -/
theorem writingEnds_writeGuarded {artifact : Path}
    (haddress : isAddress (stagingPath artifact) = false) (t : FileTree) (columns : List Column)
    (cards : List CorpusCard) (s : Surroundings) :
    WritingEnds s t artifact columns cards (writeGuarded s t artifact columns cards) := by
  unfold writeGuarded
  split
  · next hprepare => exact .unprepared hprepare
  next u hprepare =>
  rcases build_cases s haddress u columns cards with
    ⟨table, t', htable, hcommit, hbuild⟩ | ⟨e, v, hbuild, hdraft⟩
  · rw [hbuild]
    exact .finished hprepare htable hcommit
  · rw [hbuild]
    dsimp only
    rw [hdraft.removeStale_eq (at?_recovered_eq_none hprepare)]
    exact .unfinished hprepare e

/-! ## What a writing leaves -/

/-- What a writing to `t` leaves, with its answer: there is no staging file; the artifact is the
whole table if the writing succeeded, and is not there if it failed; and the other files are those
that there were. -/
structure IsAtomic (t : FileTree) (artifact : Path) (columns : List Column)
    (cards : List CorpusCard) (left : FileTree × Except ArtifactError Nat) : Prop where
  /-- There is no staging file. -/
  unstaged : ∀ entry, left.1.find (stagingPath artifact) ≠ .ok entry
  /-- After a success the artifact is a table with a row for each card. -/
  complete : ∀ rows, left.2 = .ok rows → rows = cards.length ∧
    ∃ table, left.1.find artifact = .ok (.file (.table table)) ∧
      table.columns = columns.map Column.definition ∧ table.rows.length = rows ∧
      table.Represents (fun c row => row = rowOf table columns c) cards
  /-- After a failure there is no artifact. -/
  absent : ∀ e, left.2 = .error e → ∀ entry, left.1.find artifact ≠ .ok entry
  /-- Other files are kept. -/
  kept : ∀ loc content, t.at? loc = some (.file content) → left.1.locate artifact ≠ .ok loc →
    left.1.locate (stagingPath artifact) ≠ .ok loc → left.1.at? loc = some (.file content)
  /-- Other files are not made. -/
  added : ∀ loc content, left.1.at? loc = some (.file content) →
    t.at? loc = some (.file content) ∨ left.1.locate artifact = .ok loc

/-- Whether the artifact and its staging file can be removed: neither of them is a directory, and
the staging file is not stuck. -/
structure IsClear (t : FileTree) (artifact : Path) : Prop where
  /-- The artifact is no directory. -/
  plain : t.isDirectory artifact = false
  /-- The staging file is no directory. -/
  stagingPlain : t.isDirectory (stagingPath artifact) = false
  /-- The removal comes to the staging file if there is one. -/
  free : ¬ IsStuck t artifact

/-- **Where the two can be removed**: in a directory that is there already, if there is room for
both. -/
theorem isClear_of_hasRoom {t : FileTree} {artifact : Path} (hdirectory : HasDirectory t artifact)
    (hartifact : t.HasRoom artifact) (hstaging : t.HasRoom (stagingPath artifact)) :
    IsClear (withDirectory t artifact) artifact := by
  rw [withDirectory_of_hasDirectory hdirectory]
  refine ⟨hartifact.not_isDirectory, hstaging.not_isDirectory, fun hstuck => ?_⟩
  obtain ⟨e, hrefused, herror⟩ := hstuck.refused
  rcases FileTree.removeFile_of_hasRoom hartifact with ⟨u, hremove⟩ | hnone
  · cases hremove.symm.trans herror
  · exact hrefused (Except.error.inj (herror.symm.trans hnone))

/-- Whether a companion of an earlier use is deleted: once the tree has been prepared, the store
comes to one that holds something. -/
def DeletesCompanion (s : Surroundings) (t : FileTree) (artifact : Path) : Prop :=
  ∃ u c, prepare t artifact = (u, .ok ()) ∧ comesTo s u artifact c = true ∧
    IsLeftover u (c.path artifact)

/-! ### Files that are kept -/

/-- A removal leaves what is at other places. -/
lemma at?_removeStale {t : FileTree} {file : Path} {loc : Location}
    (h : t.locate file ≠ .ok loc) : (removeStale t file).1.at? loc = t.at? loc := by
  unfold removeStale
  rcases t.removeFile_cases file with ⟨-, place, hroot, hplace, hremove⟩ | ⟨-, e, herror⟩
  · rw [hremove]
    refine (FileTree.at?_remove t place loc hroot).trans (if_neg ?_)
    rintro rfl
    exact h hplace
  · rw [herror]
    cases e <;> rfl

/-- A removal leaves nothing that there was not. -/
lemma at?_of_removeStale {t : FileTree} {file : Path} {loc : Location} {entry : Entry}
    (h : (removeStale t file).1.at? loc = some entry) : t.at? loc = some entry := by
  unfold removeStale at h
  rcases t.removeFile_cases file with ⟨-, place, hroot, -, hremove⟩ | ⟨-, e, herror⟩
  · rw [hremove] at h
    change (t.remove place).at? loc = some entry at h
    rw [FileTree.at?_remove t place loc hroot] at h
    split at h
    · cases h
    · exact h
  · rw [herror] at h
    cases e <;> exact h

/-- A removal of both leaves what is at other places, and nothing that there was not. -/
lemma at?_discard (t : FileTree) (artifact : Path) (loc : Location) :
    (t.locate artifact ≠ .ok loc → t.locate (stagingPath artifact) ≠ .ok loc →
        (discard t artifact).1.at? loc = t.at? loc) ∧
      ∀ entry, (discard t artifact).1.at? loc = some entry → t.at? loc = some entry := by
  have hsame := sameDirectories_removeStale t artifact
  have hkept : t.locate artifact ≠ .ok loc → (removeStale t artifact).1.at? loc = t.at? loc :=
    at?_removeStale
  have hold : ∀ entry, (removeStale t artifact).1.at? loc = some entry → t.at? loc = some entry :=
    fun _ => at?_of_removeStale
  unfold discard
  split
  · next u hremove =>
    rw [hremove] at hsame hkept hold
    refine ⟨fun hartifact hstaging => ?_, fun entry hentry => hold entry (at?_of_removeStale hentry)⟩
    rw [at?_removeStale fun hloc => hstaging (hsame.locate_iff.1 hloc), hkept hartifact]
  · next u e hremove =>
    rw [hremove] at hkept hold
    exact ⟨fun hartifact _ => hkept hartifact, hold⟩

/-- **The preparations leave the other files**, and make none. -/
theorem at?_prepare (t : FileTree) (artifact : Path) (loc : Location) (content : Content) :
    (t.at? loc = some (.file content) → (prepare t artifact).1.locate artifact ≠ .ok loc →
        (prepare t artifact).1.locate (stagingPath artifact) ≠ .ok loc →
        (prepare t artifact).1.at? loc = some (.file content)) ∧
      ((prepare t artifact).1.at? loc = some (.file content) → t.at? loc = some (.file content)) := by
  have hsame := sameDirectories_prepare t artifact
  have hmade : _ ↔ t.at? loc = some (.file content) :=
    (moreDirectories_withDirectory t artifact).file_iff
  rcases prepare_cases t artifact with hdiscard | ⟨-, e, hfailed⟩
  · rw [hdiscard] at hsame ⊢
    obtain ⟨hkept, hold⟩ := at?_discard (withDirectory t artifact) artifact loc
    refine ⟨fun hfile hartifact hstaging => ?_, fun hfile => hmade.1 (hold _ hfile)⟩
    rw [hkept (fun hloc => hartifact (hsame.locate_iff.2 hloc))
      fun hloc => hstaging (hsame.locate_iff.2 hloc)]
    exact hmade.2 hfile
  · rw [hfailed]
    exact ⟨fun hfile _ _ => hmade.2 hfile, hmade.1⟩

/-- **Where no companion is deleted**: if there is none once the directory of the artifact has been
made. -/
theorem not_deletesCompanion {t : FileTree} {artifact : Path}
    (h : ∀ c : Companion, (withDirectory t artifact).isFile (c.path artifact) = false)
    (s : Surroundings) : ¬ DeletesCompanion s t artifact := by
  rintro ⟨u, c, hprepare, -, content, hfound, -⟩
  have hsame := sameDirectories_prepare t artifact
  have hfiles := at?_prepare t artifact
  rw [hprepare] at hsame hfiles
  obtain ⟨place, hplace, hthere, hslash⟩ := FileTree.find_eq_file_iff.1 hfound
  have hmade : _ ↔ t.at? place = some (.file content) :=
    (moreDirectories_withDirectory t artifact).file_iff
  have hfile := FileTree.isFile_iff.2 ⟨place, content, hsame.locate_iff.1 hplace,
    hmade.2 ((hfiles place content).2 hthere), hslash⟩
  cases (h c).symm.trans hfile

/-! ### All or nothing -/

section Endings

variable {s : Surroundings} {t : FileTree} {artifact : Path} {columns : List Column}
  {cards : List CorpusCard} {left : FileTree × Except ArtifactError Nat}

/-- If no companion is deleted, the prepared tree stays as it is. -/
lemma recovered_of_not_deletesCompanion (h : ¬ DeletesCompanion s t artifact) {u : FileTree}
    (hprepare : prepare t artifact = (u, .ok ())) : recovered s u artifact = u :=
  recovered_eq_self fun c hcomes hleft => h ⟨u, c, hprepare, hcomes, hleft⟩

/-- **A writing that fails** leaves neither the artifact nor its staging file if the two can be
removed once the directory of the artifact has been made.

**Proof sketch.** What is left is the prepared tree. The preparations leave neither of the two
files, make directories only, and leave all other files alone (`at?_prepare`). -/
theorem isAtomic_of_failure {u : FileTree} {outcome : Except ArtifactError Unit}
    (hclear : IsClear (withDirectory t artifact) artifact)
    (hprepare : prepare t artifact = (u, outcome)) (e : ArtifactError) :
    IsAtomic t artifact columns cards (u, .error e) := by
  have hsame := sameDirectories_prepare t artifact
  have hgone := isGone_prepare hclear.free
  have hfiles := at?_prepare t artifact
  rw [hprepare] at hsame hgone hfiles
  have hdirectory : ∀ p, (withDirectory t artifact).isDirectory p = false →
      u.isDirectory p = false := by
    intro p hp
    refine Bool.eq_false_iff.2 fun h => ?_
    cases hp.symm.trans (hsame.isDirectory_iff.1 h)
  exact {
    unstaged := FileTree.find_ne_ok_of_not hgone.unstaged (hdirectory _ hclear.stagingPlain)
    complete := nofun
    absent := fun _ _ => FileTree.find_ne_ok_of_not hgone.absent (hdirectory _ hclear.plain)
    kept := fun loc content => (hfiles loc content).1
    added := fun loc content hfile => .inl ((hfiles loc content).2 hfile) }

/-- **A writing that succeeds** leaves the whole table, and nothing else.

**Proof sketch.** A commit moves the table from the place of the staging file to that of the
artifact, which is another one, and touches no other place (`exists_of_commit`). So each of the five
parts is read off place by place. -/
theorem isAtomic_of_commit {u t' : FileTree} {table : StoredTable}
    (hprepare : prepare t artifact = (u, .ok ())) (htable : tableOf columns cards = .ok table)
    (hcommit : commit u artifact table = (t', .ok ())) :
    IsAtomic t artifact columns cards (t', .ok cards.length) := by
  obtain ⟨staged, place, hstaged, hplace, -, hsame, hat⟩ := exists_of_commit hcommit
  obtain ⟨hcolumns, -, hrows⟩ := represents_of_tableOf htable
  have hnone := at?_eq_none_of_prepare hprepare
  have hfiles := at?_prepare t artifact
  rw [hprepare] at hfiles
  have hapart : staged ≠ place := by
    refine place_ne_of_locate isEnding_staging hplace ?_ hstaged
    rw [hnone _ (.inl rfl) place hplace]
    exact (Option.some_ne_none _).symm
  exact {
    unstaged := by
      refine FileTree.find_ne_ok fun loc hloc => ?_
      obtain rfl := Except.ok.inj (hstaged.symm.trans (hsame.locate_iff.1 hloc))
      rw [hat, if_neg hapart, if_pos rfl]
    complete := by
      rintro rows hdone
      obtain rfl := Except.ok.inj hdone
      exact ⟨rfl, table, find_of_commit hcommit, hcolumns, hrows.length_eq, hrows⟩
    absent := nofun
    kept := by
      intro loc content hfile hartifact hstaging
      rw [hat, if_neg, if_neg]
      · refine (hfiles loc content).1 hfile ?_ ?_
        · exact fun hloc => hartifact (hsame.locate_iff.2 hloc)
        · exact fun hloc => hstaging (hsame.locate_iff.2 hloc)
      · rintro rfl
        exact hstaging (hsame.locate_iff.2 hstaged)
      · rintro rfl
        exact hartifact (hsame.locate_iff.2 hplace)
    added := by
      intro loc content hfile
      rw [hat] at hfile
      split at hfile
      · next heq => exact .inr (hsame.locate_iff.2 (heq ▸ hplace))
      · split at hfile
        · cases hfile
        · exact .inl ((hfiles loc content).2 hfile) }

/-- Where there is something at the path of the artifact or of its staging file after the
preparations, these have failed. -/
lemma WritingEnds.eq_of_find (h : WritingEnds s t artifact columns cards left) {p : Path}
    (hp : p = artifact ∨ p = stagingPath artifact) {entry : Entry}
    (hfound : (prepare t artifact).1.find p = .ok entry) :
    left.1 = (prepare t artifact).1 ∧ ∃ e, left.2 = .error e := by
  have hnone : ∀ {u : FileTree}, prepare t artifact = (u, .ok ()) → False := by
    intro u hprepare
    rw [hprepare] at hfound
    exact FileTree.find_ne_ok (at?_eq_none_of_prepare hprepare p hp) entry hfound
  cases h with
  | unprepared hprepare =>
    rw [hprepare]
    exact ⟨rfl, _, rfl⟩
  | unfinished hprepare => exact (hnone hprepare).elim
  | finished hprepare => exact (hnone hprepare).elim

/-- What a writing leaves in the place of a companion: if the preparations succeed, what is left of
the other files is what the recovery leaves. -/
lemma WritingEnds.at?_eq (h : WritingEnds s t artifact columns cards left) {u : FileTree}
    (hprepare : prepare t artifact = (u, .ok ())) :
    FileTree.SameDirectories u left.1 ∧ ∀ loc, u.locate artifact ≠ .ok loc →
      u.locate (stagingPath artifact) ≠ .ok loc →
        left.1.at? loc = (recovered s u artifact).at? loc := by
  have hsame := sameDirectories_recovered s u artifact
  cases h with
  | unprepared hfailed => cases congrArg Prod.snd (hprepare.symm.trans hfailed)
  | unfinished hdone e =>
    obtain rfl := congrArg Prod.fst (hprepare.symm.trans hdone)
    exact ⟨hsame, fun _ _ _ => rfl⟩
  | finished hdone htable hcommit =>
    obtain rfl := congrArg Prod.fst (hprepare.symm.trans hdone)
    obtain ⟨staged, place, hstaged, hplace, -, hmoved, hat⟩ := exists_of_commit hcommit
    refine ⟨hsame.trans hmoved, fun loc hartifact hstaging => ?_⟩
    rw [hat, if_neg, if_neg]
    · rintro rfl
      exact hstaging (hsame.locate_iff.1 hstaged)
    · rintro rfl
      exact hartifact (hsame.locate_iff.1 hplace)

/-- **A companion that is deleted** is missing, whatever else the writing does.

**Proof sketch.** The companion is at another place than the artifact and its staging file
(`place_ne_of_locate`, `place_ne_of_ending_ne`). It was there before the preparations
(`at?_prepare`), so it would have to be left, but the recovery has emptied its place
(`not_isLeftover_recovered`). -/
theorem WritingEnds.not_isAtomic (h : WritingEnds s t artifact columns cards left)
    (hdeletes : DeletesCompanion s t artifact) : ¬ IsAtomic t artifact columns cards left := by
  intro hatomic
  obtain ⟨u, c, hprepare, hcomes, content, hfound, hfull⟩ := hdeletes
  obtain ⟨loc, hloc, hthere, hslash⟩ := FileTree.find_eq_file_iff.1 hfound
  have hfiles := at?_prepare t artifact
  rw [hprepare] at hfiles
  have hartifact : u.locate artifact ≠ .ok loc := by
    intro hplace
    refine place_ne_of_locate c.isEnding hplace ?_ hloc rfl
    rw [at?_eq_none_of_prepare hprepare _ (.inl rfl) loc hplace]
    exact (Option.some_ne_none _).symm
  have hstaging : u.locate (stagingPath artifact) ≠ .ok loc := by
    intro hplace
    refine place_ne_of_ending_ne isEnding_staging c.isEnding ?_ hplace hloc rfl
    cases c <;> decide
  obtain ⟨hsame, hat⟩ := h.at?_eq hprepare
  have hkept := hatomic.kept loc content ((hfiles loc content).2 hthere)
    (fun hplace => hartifact (hsame.locate_iff.1 hplace))
    (fun hplace => hstaging (hsame.locate_iff.1 hplace))
  rw [hat loc hartifact hstaging] at hkept
  have hleft := (sameDirectories_recovered s u artifact).locate_iff.2 hloc
  exact not_isLeftover_recovered hcomes
    ⟨content, FileTree.find_eq_file_iff.2 ⟨loc, hleft, hkept, hslash⟩, hfull⟩

/-- **When a writing is all or nothing**: if and only if the artifact and its staging file can be
removed once the directory of the artifact has been made, and no companion is deleted.

**Proof sketch.** From left to right, whatever stands in the way shows in what is left: a directory
at one of the two paths survives the preparations, and so does a staging file that is stuck, and
where they do the writing has failed; a companion that is deleted is missing
(`WritingEnds.not_isAtomic`). From right to left by the way in which the writing ends
(`isAtomic_of_failure`, `isAtomic_of_commit`). -/
theorem WritingEnds.isAtomic_iff (h : WritingEnds s t artifact columns cards left) :
    IsAtomic t artifact columns cards left ↔
      IsClear (withDirectory t artifact) artifact ∧ ¬ DeletesCompanion s t artifact := by
  refine ⟨fun hatomic => ⟨?_, fun hdeletes => h.not_isAtomic hdeletes hatomic⟩, ?_⟩
  · have hsame := sameDirectories_prepare t artifact
    -- a directory at one of the two paths is still there after the preparations
    have hdirectory : ∀ p, (withDirectory t artifact).isDirectory p = true →
        (prepare t artifact).1.find p = .ok .directory := by
      intro p hp
      have hthere := hsame.isDirectory_iff.2 hp
      unfold FileTree.isDirectory at hthere
      split at hthere
      · assumption
      · cases hthere
    refine ⟨Bool.eq_false_iff.2 fun hd => ?_, Bool.eq_false_iff.2 fun hd => ?_, fun hstuck => ?_⟩
    · have hfound := hdirectory _ hd
      obtain ⟨hleft, e, he⟩ := h.eq_of_find (.inl rfl) hfound
      exact hatomic.absent e he _ (hleft ▸ hfound)
    · have hfound := hdirectory _ hd
      obtain ⟨hleft, -⟩ := h.eq_of_find (.inr rfl) hfound
      exact hatomic.unstaged _ (hleft ▸ hfound)
    · -- a removal that is stuck changes nothing, so that the staging file is left
      have hkept : (prepare t artifact).1 = withDirectory t artifact := by
        rcases prepare_cases t artifact with hdiscard | ⟨hgone, -⟩
        · rw [hdiscard, discard_of_isStuck hstuck]
        · exact (hgone.not_isStuck hstuck).elim
      obtain ⟨place, content, hplace, hentry, hslash⟩ := FileTree.isFile_iff.1 hstuck.staged
      have hfound : (prepare t artifact).1.find (stagingPath artifact) = .ok (.file content) :=
        hkept ▸ FileTree.find_eq_file_iff.2 ⟨place, hplace, hentry, hslash⟩
      obtain ⟨hleft, -⟩ := h.eq_of_find (.inr rfl) hfound
      exact hatomic.unstaged _ (hleft ▸ hfound)
  · rintro ⟨hclear, hnone⟩
    cases h with
    | unprepared hprepare => exact isAtomic_of_failure hclear hprepare _
    | unfinished hprepare e =>
      rw [recovered_of_not_deletesCompanion hnone hprepare]
      exact isAtomic_of_failure hclear hprepare e
    | finished hprepare htable hcommit =>
      rw [recovered_of_not_deletesCompanion hnone hprepare] at hcommit
      exact isAtomic_of_commit hprepare htable hcommit

end Endings

/-- **A writing is all or nothing**, whatever happens to it from outside and at whatever stage, if
and only if the artifact and its staging file can be removed once the directory of the artifact has
been made, and no companion is deleted that holds something. Where none would be, this also says
when a writing at one go is all or nothing.

**Proof sketch.** For each of the ways in which a writing in stages ends
(`writingEnds_writeGuarded`) the condition is the same (`WritingEnds.isAtomic_iff`). Where no
companion would be deleted, a writing at one go is one in stages in surroundings in which nothing
happens (`writeGuarded_quiet`). -/
theorem isAtomic_writeGuarded_iff {artifact : Path}
    (haddress : isAddress (stagingPath artifact) = false) (t : FileTree) (columns : List Column)
    (cards : List CorpusCard) :
    (∀ s : Surroundings,
        IsAtomic t artifact columns cards (writeGuarded s t artifact columns cards) ↔
          IsClear (withDirectory t artifact) artifact ∧ ¬ DeletesCompanion s t artifact) ∧
      (¬ DeletesCompanion .quiet t artifact →
        (IsAtomic t artifact columns cards (write t artifact columns cards) ↔
          IsClear (withDirectory t artifact) artifact)) := by
  have hstages := fun s => (writingEnds_writeGuarded haddress t columns cards s).isAtomic_iff
  refine ⟨hstages, fun hnone => ?_⟩
  rw [← writeGuarded_quiet columns haddress
    (fun _ hprepare => recovered_of_not_deletesCompanion hnone hprepare) cards, hstages]
  exact and_iff_left hnone

end Artifact

/-- A tree with an artifact and a staging file of earlier writings in its working directory. -/
def leftoverTree : FileTree :=
  { entries := [(["cards.sqlite"], .file (.table ⟨[], []⟩)),
      (["cards.sqlite.partial"], .file (.bytes .empty))],
    workingDirectory := [] }

/-- A tree with a journal that holds something in its working directory. -/
def journalTree : FileTree :=
  { entries := [(["cards.sqlite.partial-journal"], .file (.table ⟨[], []⟩))],
    workingDirectory := [] }

/-- Writing a corpus with an id that is used twice removes both of them. With a slash behind its
path the artifact is not removed, since this is a path of directories, and the staging file is not
looked at. The journal of an earlier use is not kept. -/
theorem isAtomic_leftoverTree :
    Artifact.isAddress (Artifact.stagingPath ⟨"cards.sqlite"⟩) = false ∧
      Artifact.IsAtomic leftoverTree ⟨"cards.sqlite"⟩ oneTwiceColumns oneTwiceCorpus
        (Artifact.write leftoverTree ⟨"cards.sqlite"⟩ oneTwiceColumns oneTwiceCorpus) ∧
      Artifact.isAddress (Artifact.stagingPath ⟨"cards.sqlite/"⟩) = false ∧
      leftoverTree.isDirectory ⟨"cards.sqlite/"⟩ = false ∧
      leftoverTree.isDirectory (Artifact.stagingPath ⟨"cards.sqlite/"⟩) = false ∧
      ¬ Artifact.IsAtomic leftoverTree ⟨"cards.sqlite/"⟩ oneTwiceColumns oneTwiceCorpus
        (Artifact.write leftoverTree ⟨"cards.sqlite/"⟩ oneTwiceColumns oneTwiceCorpus) ∧
      ¬ Artifact.IsAtomic journalTree ⟨"cards.sqlite"⟩ oneTwiceColumns oneTwiceCorpus
        (Artifact.writeGuarded .quiet journalTree ⟨"cards.sqlite"⟩ oneTwiceColumns
          oneTwiceCorpus) := by
  have haddress : Artifact.isAddress (Artifact.stagingPath ⟨"cards.sqlite"⟩) = false := by decide
  have haddress' : Artifact.isAddress (Artifact.stagingPath ⟨"cards.sqlite/"⟩) = false := by decide
  refine ⟨haddress, ?_, haddress', by decide, by decide, ?_, ?_⟩
  · refine ((Artifact.isAtomic_writeGuarded_iff haddress _ _ _).2
      (Artifact.not_deletesCompanion ?_ _)).2 (Artifact.isClear_of_hasRoom ?_ ?_ ?_)
    · rintro (_ | _) <;> rfl
    · intro directory hparent hnamed
      have hbare : (⟨"cards.sqlite"⟩ : Path).parent? = some ⟨""⟩ := rfl
      obtain rfl := Option.some.inj (hbare.symm.trans hparent)
      exact absurd rfl hnamed
    · exact ⟨rfl, ["cards.sqlite"], rfl, nofun⟩
    · exact ⟨rfl, ["cards.sqlite.partial"], rfl, nofun⟩
  · intro hatomic
    have hclear := ((Artifact.isAtomic_writeGuarded_iff haddress' _ _ _).2
      (Artifact.not_deletesCompanion (by rintro (_ | _) <;> rfl) _)).1 hatomic
    exact hclear.free ⟨⟨.notDirectory, nofun, rfl⟩, rfl⟩
  · intro hatomic
    have hnone := (((Artifact.isAtomic_writeGuarded_iff haddress _ _ _).1 .quiet).1 hatomic).2
    exact hnone ⟨journalTree, .journal, rfl, rfl, _, rfl, rfl⟩

end CardTable
