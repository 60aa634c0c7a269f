import CardTable.Proofs.Artifact.Directories
import CardTable.Table.Staging
import Mathlib.Tactic.Lemma

set_option autoImplicit false

/-!
# Companions of earlier uses

A companion that stands beside the staging file is deleted if it holds something and the store comes
to it: the staging file can be opened, and nothing fails before. All other files stay, and so do the
directories. What is in the staging file has no part in this, as the companions are at other places.

## Main definitions

* `CardTable.Artifact.IsLeftover` — files that hold something.
* `CardTable.Artifact.comesTo` — whether the store comes to a companion.
* `CardTable.Artifact.clearOf` — the tree without a companion to which the store comes.
* `CardTable.Artifact.recovered` — the tree without the companions that are deleted.

## Main results

* `CardTable.Artifact.swept_of_isLeftover`, `CardTable.Artifact.swept_of_not_isLeftover` — what is
  removed.
* `CardTable.Artifact.swept_set` — the sweeping and the making of another file.
* `CardTable.Artifact.recovered_eq_self`, `CardTable.Artifact.not_isLeftover_recovered` — when
  nothing is deleted, and what is.
-/

namespace CardTable

namespace FileTree

variable {t : FileTree} {loc place : Location}

/-- The file that is found is the one that is removed. -/
lemma removeFile_of_find {p : Path} {content : Content} (hplace : t.locate p = .ok place)
    (hfound : t.find p = .ok (.file content)) : t.removeFile p = .ok (t.remove place) := by
  simp only [removeFile, hplace, hfound, bind, Except.bind]

/-- A removal at one place and a change at another can be made in either order. -/
lemma remove_set_of_ne (h : loc ≠ place) (entry : Entry) :
    (t.set place entry).remove loc = (t.remove loc).set place entry := by
  have hne : (place != loc) = true := bne_iff_ne.2 h.symm
  simp only [set, remove, List.filter_cons, hne, if_true, List.filter_filter, Bool.and_comm]

end FileTree

namespace Artifact

open FileTree (SameDirectories)

/-! ## Sweeping a file -/

/-- Whether there is a file that holds something. -/
def IsLeftover (t : FileTree) (file : Path) : Prop :=
  ∃ content, t.find file = .ok (.file content) ∧ content.isEmpty = false

section Sweeping

variable {t : FileTree} {file other : Path} {loc place : Location} {entry : Entry}

/-- **What holds nothing** is left alone. -/
lemma swept_of_not_isLeftover (h : ¬ IsLeftover t file) : swept t file = t := by
  unfold swept
  split
  · next content hfound =>
    split
    · rfl
    · next hfull => exact absurd ⟨content, hfound, Bool.eq_false_iff.2 hfull⟩ h
  · rfl

/-- **A file that holds something** is removed. -/
lemma swept_of_isLeftover (h : IsLeftover t file) :
    ∃ place content, t.locate file = .ok place ∧ t.at? place = some (.file content) ∧
      swept t file = t.remove place := by
  obtain ⟨content, hfound, hfull⟩ := h
  obtain ⟨place, hplace, hthere, -⟩ := FileTree.find_eq_file_iff.1 hfound
  refine ⟨place, content, hplace, hthere, ?_⟩
  simp only [swept, hfound, hfull, Bool.false_eq_true, if_false, removeStale,
    FileTree.removeFile_of_find hplace hfound]

/-- Sweeping leaves the directories alone. -/
lemma sameDirectories_swept (t : FileTree) (file : Path) : SameDirectories t (swept t file) := by
  by_cases hleft : IsLeftover t file
  · obtain ⟨place, content, -, hthere, hswept⟩ := swept_of_isLeftover hleft
    rw [hswept]
    refine .remove ?_
    rw [hthere]
    simp
  · rw [swept_of_not_isLeftover hleft]
    exact .refl t

/-- Sweeping makes nothing. -/
lemma at?_of_swept (h : (swept t file).at? loc = some entry) : t.at? loc = some entry := by
  by_cases hleft : IsLeftover t file
  · obtain ⟨place, content, -, hthere, hswept⟩ := swept_of_isLeftover hleft
    have hroot : place ≠ [] := FileTree.ne_root (t := t) (by simp [hthere])
    rw [hswept, FileTree.at?_remove t place loc hroot] at h
    split at h
    · cases h
    · exact h
  · rwa [swept_of_not_isLeftover hleft] at h

/-- What is left over when a file was swept had been left over before. -/
lemma isLeftover_of_swept (h : IsLeftover (swept t file) other) : IsLeftover t other := by
  obtain ⟨content, hfound, hfull⟩ := h
  obtain ⟨place, hplace, hthere, hslash⟩ := FileTree.find_eq_file_iff.1 hfound
  exact ⟨content, FileTree.find_eq_file_iff.2
    ⟨place, (sameDirectories_swept t file).locate_iff.1 hplace, at?_of_swept hthere, hslash⟩, hfull⟩

/-- A file that was swept does not hold anything. -/
lemma not_isLeftover_swept (t : FileTree) (file : Path) : ¬ IsLeftover (swept t file) file := by
  intro h
  obtain ⟨place, content, hplace, hthere, hswept⟩ := swept_of_isLeftover (isLeftover_of_swept h)
  have hroot : place ≠ [] := FileTree.ne_root (t := t) (by simp [hthere])
  obtain ⟨content, hfound, -⟩ := h
  obtain ⟨next, hnext, hleft, -⟩ := FileTree.find_eq_file_iff.1 hfound
  obtain rfl := Except.ok.inj
    (hplace.symm.trans ((sameDirectories_swept t file).locate_iff.1 hnext))
  rw [hswept, FileTree.at?_remove t place place hroot, if_pos rfl] at hleft
  cases hleft

/-- **The sweeping of a file** and the making of a file at another place do not interfere. -/
lemma swept_set (hfree : t.at? place ≠ some .directory)
    (hapart : ∀ loc, t.locate file = .ok loc → loc ≠ place) (content : Content) :
    swept (t.set place (.file content)) file = (swept t file).set place (.file content) := by
  have hsame := SameDirectories.set hfree content
  have hat : ∀ loc, t.locate file = .ok loc → (t.set place (.file content)).at? loc = t.at? loc :=
    fun loc hloc =>
      (FileTree.at?_set t place loc _ (FileTree.ne_root hfree)).trans (if_neg (hapart loc hloc))
  have hleft : IsLeftover (t.set place (.file content)) file ↔ IsLeftover t file := by
    simp only [IsLeftover, FileTree.find_eq_file_iff, hsame.locate_iff]
    constructor
    · rintro ⟨held, ⟨loc, hloc, hthere, hslash⟩, hfull⟩
      exact ⟨held, ⟨loc, hloc, hat loc hloc ▸ hthere, hslash⟩, hfull⟩
    · rintro ⟨held, ⟨loc, hloc, hthere, hslash⟩, hfull⟩
      exact ⟨held, ⟨loc, hloc, (hat loc hloc).trans hthere, hslash⟩, hfull⟩
  by_cases h : IsLeftover t file
  · obtain ⟨loc, _, hloc, -, hswept⟩ := swept_of_isLeftover h
    obtain ⟨loc', _, hloc', -, hswept'⟩ := swept_of_isLeftover (hleft.2 h)
    obtain rfl := Except.ok.inj (hloc.symm.trans (hsame.locate_iff.1 hloc'))
    rw [hswept, hswept', FileTree.remove_set_of_ne (hapart loc hloc)]
  · rw [swept_of_not_isLeftover h, swept_of_not_isLeftover (mt hleft.1 h)]

end Sweeping

/-! ## Companions -/

/-- Whether the store comes to a companion: the staging file is opened, and no companion fails up to
this one. -/
def comesTo (s : Surroundings) (t : FileTree) (artifact : Path) (c : Companion) : Bool :=
  (s.failure .opening).isNone && canOpen t (stagingPath artifact) &&
    (s.failure (.recovery .journal)).isNone &&
      (decide (c = .journal) || (s.failure (.recovery .log)).isNone)

/-- The tree `u` without a companion, if it holds something and the store, which has found the tree
`t`, comes to it. -/
def clearOf (s : Surroundings) (t : FileTree) (artifact : Path) (u : FileTree) (c : Companion) :
    FileTree :=
  if comesTo s t artifact c then swept u (c.path artifact) else u

/-- The tree without the companions to which the store comes, if these hold something. -/
def recovered (s : Surroundings) (t : FileTree) (artifact : Path) : FileTree :=
  clearOf s t artifact (clearOf s t artifact t .journal) .log

section Recovery

variable {s : Surroundings} {t u : FileTree} {artifact : Path}

/-- Only the directories matter for whether the store comes to a companion. -/
lemma comesTo_of_sameDirectories (h : SameDirectories t u) (s : Surroundings) (artifact : Path)
    (c : Companion) : comesTo s u artifact c = comesTo s t artifact c := by
  rw [comesTo, comesTo, canOpen_of_sameDirectories h]

/-- The store comes to a companion only if the staging file can be opened. -/
lemma openable_of_comesTo {c : Companion} (h : comesTo s t artifact c = true) :
    s.failure .opening = none ∧ canOpen t (stagingPath artifact) = true := by
  simp only [comesTo, Bool.and_eq_true, Option.isNone_iff_eq_none] at h
  exact h.1.1

/-- A companion that is deleted is no directory. -/
lemma sameDirectories_clearOf (s : Surroundings) (t : FileTree) (artifact : Path) (u : FileTree)
    (c : Companion) : SameDirectories u (clearOf s t artifact u c) := by
  unfold clearOf
  split
  · exact sameDirectories_swept u _
  · exact .refl u

/-- The companions that are deleted are no directories. -/
lemma sameDirectories_recovered (s : Surroundings) (t : FileTree) (artifact : Path) :
    SameDirectories t (recovered s t artifact) :=
  (sameDirectories_clearOf s t artifact t .journal).trans
    (sameDirectories_clearOf s t artifact _ .log)

/-- The deletion of a companion makes nothing. -/
lemma at?_of_clearOf {c : Companion} {loc : Location} {entry : Entry}
    (h : (clearOf s t artifact u c).at? loc = some entry) : u.at? loc = some entry := by
  unfold clearOf at h
  split at h
  · exact at?_of_swept h
  · exact h

/-- The recovery makes nothing. -/
lemma at?_of_recovered {loc : Location} {entry : Entry}
    (h : (recovered s t artifact).at? loc = some entry) : t.at? loc = some entry :=
  at?_of_clearOf (at?_of_clearOf h)

/-- A companion that holds nothing stays, and so does one to which the store does not come. -/
lemma clearOf_eq_self {c : Companion}
    (h : comesTo s t artifact c = true → ¬ IsLeftover u (c.path artifact)) :
    clearOf s t artifact u c = u := by
  unfold clearOf
  split
  · next hcomes => exact swept_of_not_isLeftover (h hcomes)
  · rfl

/-- **Nothing is deleted** if the store comes to no companion that holds something. -/
lemma recovered_eq_self
    (h : ∀ c, comesTo s t artifact c = true → ¬ IsLeftover t (c.path artifact)) :
    recovered s t artifact = t := by
  rw [recovered, clearOf_eq_self (h .journal), clearOf_eq_self (h .log)]

/-- What is left over when a companion was deleted had been left over before. -/
lemma isLeftover_of_clearOf {c : Companion} {file : Path}
    (h : IsLeftover (clearOf s t artifact u c) file) : IsLeftover u file := by
  unfold clearOf at h
  split at h
  · exact isLeftover_of_swept h
  · exact h

/-- A companion to which the store comes does not hold anything once it is its turn. -/
lemma not_isLeftover_clearOf {c : Companion} (h : comesTo s t artifact c = true) (u : FileTree) :
    ¬ IsLeftover (clearOf s t artifact u c) (c.path artifact) := by
  rw [clearOf, if_pos h]
  exact not_isLeftover_swept u _

/-- **A companion to which the store comes** does not hold anything afterwards. -/
lemma not_isLeftover_recovered {c : Companion} (h : comesTo s t artifact c = true) :
    ¬ IsLeftover (recovered s t artifact) (c.path artifact) := by
  unfold recovered
  cases c with
  | journal => exact mt isLeftover_of_clearOf (not_isLeftover_clearOf h t)
  | log => exact not_isLeftover_clearOf h _

/-- A file at the place of the staging file does not matter for whether a companion is deleted. -/
lemma clearOf_set {place : Location} (hplace : t.locate (stagingPath artifact) = .ok place)
    (hfree : t.at? place ≠ some .directory) (hsame : SameDirectories t u) (c : Companion)
    (content : Content) :
    clearOf s (t.set place (.file content)) artifact (u.set place (.file content)) c =
      (clearOf s t artifact u c).set place (.file content) := by
  unfold clearOf
  rw [comesTo_of_sameDirectories (SameDirectories.set hfree content)]
  split
  · refine swept_set (mt (hsame.directory_iff place).1 hfree) (fun loc hloc => ?_) content
    refine place_ne_of_ending_ne isEnding_staging c.isEnding ?_ hplace (hsame.locate_iff.1 hloc)
    cases c <;> decide
  · rfl

/-- A file at the place of the staging file does not matter for what is deleted. -/
lemma recovered_set {place : Location} (hplace : t.locate (stagingPath artifact) = .ok place)
    (hfree : t.at? place ≠ some .directory) (content : Content) :
    recovered s (t.set place (.file content)) artifact =
      (recovered s t artifact).set place (.file content) := by
  have hjournal := sameDirectories_clearOf s t artifact t .journal
  rw [recovered, clearOf_set hplace hfree (.refl t), clearOf_set hplace hfree hjournal]
  rfl

end Recovery

end Artifact

end CardTable
