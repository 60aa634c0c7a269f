import CardTable.Proofs.Artifact.Artifacts
import CardTable.Proofs.Compile.Plans

set_option autoImplicit false

/-!
# What a failed compilation leaves

A compilation removes the artifact of an earlier one before it reads anything, and the artifact and
its staging file are removed once more before the table is written. So a compilation that fails
leaves neither of the two, with one exception: the runtime is chosen before anything is removed, and
a compilation that fails for want of a runtime leaves everything as it was.

## Main definitions

* `CardTable.Compile.EndsIn` — the trees in which a compilation can fail.

## Main results

* `CardTable.Compile.Plan.endsIn_of_run`, `CardTable.Compile.endsIn_of_modules` — where a
  compilation fails.
* `CardTable.Compile.isGone_iff_of_error` — what is left by a failed compilation.
-/

namespace CardTable

namespace Compile

/-! ## Where a compilation fails -/

/-- The trees in which a compilation that got to its removals can fail: the one after the first
removal, and the one after the preparations for writing. -/
def EndsIn (t : FileTree) (artifact : Path) (t' : FileTree) : Prop :=
  t' = (Artifact.discard t artifact).1 ∨
    t' = (Artifact.prepare (Artifact.discard t artifact).1 artifact).1

/-- Where a compilation fails nothing is left, or a staging file that is stuck. -/
lemma EndsIn.isGone_iff {t t' : FileTree} {artifact : Path} (h : EndsIn t artifact t') :
    Artifact.IsGone t' artifact ↔ ¬ Artifact.IsStuck t' artifact := by
  rcases h with rfl | rfl
  · exact Artifact.isGone_discard_iff_not_isStuck t artifact
  · exact Artifact.isGone_prepare_iff_not_isStuck _ artifact

/-- Where a compilation fails nothing is left if everything can be deleted. -/
lemma EndsIn.isGone {t t' : FileTree} {artifact : Path} (h : EndsIn t artifact t')
    (hdeletable : Artifact.Deletable t artifact) : Artifact.IsGone t' artifact := by
  rcases h with rfl | rfl
  · exact (Artifact.isGone_discard_iff t artifact).2 hdeletable.first
  · exact Artifact.isGone_prepare hdeletable.later

/-- A table that cannot be made changes nothing, or the tree is prepared for it. -/
lemma eq_of_materialize {t t' : FileTree} {p : Profile} {artifact : Path}
    {cards : List CorpusCard} {e : CompileError}
    (h : materialize t p artifact cards = (t', .error e)) :
    t' = t ∨ t' = (Artifact.prepare t artifact).1 := by
  unfold materialize at h
  split at h
  · exact .inl (congrArg Prod.fst h).symm
  split at h
  · exact .inl (congrArg Prod.fst h).symm
  split at h
  · next hfailed =>
    obtain ⟨rfl, -⟩ := Prod.mk.inj h
    exact .inr (Artifact.eq_prepare_of_write hfailed)
  · cases congrArg Prod.snd h

/-- **Where a compilation fails.**

**Proof sketch.** By the four ways in which a compilation ends (`Plan.ends_run`): before the corpus
is read only the first removal was made, and the making of a table prepares the tree before it does
anything else (`eq_of_materialize`). -/
theorem Plan.endsIn_of_run {plan : Plan} {t t' : FileTree} {e : CompileError}
    (h : plan.run t = (t', .error e)) : EndsIn t plan.artifact t' := by
  have hends := plan.ends_run t
  rw [h] at hends
  unfold EndsIn
  cases hends with
  | uncleared hdiscard => exact .inl (congrArg Prod.fst hdiscard).symm
  | unread hdiscard hread => exact .inl (congrArg Prod.fst hdiscard).symm
  | unmade hdiscard hread hmade =>
    rw [hdiscard]
    exact eq_of_materialize hmade

/-- Where a compilation of flat card files fails. -/
lemma endsIn_of_flat {t t' : FileTree} {config : FlatConfig} {e : CompileError}
    (h : flat t config = (t', .error e)) : EndsIn t config.dbPath t' := by
  rw [flat_eq_run] at h
  exact Plan.endsIn_of_run h

/-- Where a compilation of modules with a runtime fails. -/
lemma endsIn_of_modulesWith {t t' : FileTree} {runtime : Runtime} {config : ModulesConfig}
    {e : CompileError} (h : modulesWith t runtime config = (t', .error e)) :
    EndsIn t config.dbPath t' := by
  rw [modulesWith_eq_run] at h
  exact Plan.endsIn_of_run h

/-- Without a runtime nothing changes; otherwise the modules are compiled with it. -/
theorem endsIn_of_modules {t t' : FileTree} {host : Host} {config : ModulesConfig}
    {e : CompileError} (h : modules t host config = (t', .error e)) :
    (t' = t ∧ ¬ ∃ runtime, runtimeOf t host config = .ok runtime) ∨
      (EndsIn t config.dbPath t' ∧ ∃ runtime, runtimeOf t host config = .ok runtime) := by
  unfold modules at h
  split at h
  · next reason hruntime =>
    refine .inl ⟨(congrArg Prod.fst h).symm, ?_⟩
    rw [hruntime]
    rintro ⟨runtime, hfound⟩
    cases hfound
  · next runtime hruntime => exact .inr ⟨endsIn_of_modulesWith h, runtime, hruntime⟩

/-- **What is left by a failed compilation**, wherever it fails: neither the artifact nor its
staging file if the two can be deleted, and otherwise at most a staging file that is stuck. Only
where there is no runtime as the settings ask for, what was there before is left.

**Proof sketch.** A compilation that got to its removals fails in one of two trees (`EndsIn`), and
in both of them what is left is known: the first removal and the preparations for writing remove the
same two files. A compilation with settings of its own either has a runtime, and then the same holds
of it, or has none and has changed nothing. -/
theorem isGone_iff_of_error (t t' : FileTree) (e : CompileError) :
    (∀ config : FlatConfig, flat t config = (t', .error e) →
        (Artifact.IsGone t' config.dbPath ↔ ¬ Artifact.IsStuck t' config.dbPath) ∧
          (Artifact.Deletable t config.dbPath → Artifact.IsGone t' config.dbPath)) ∧
      (∀ (runtime : Runtime) (config : ModulesConfig), modulesWith t runtime config = (t', .error e) →
        (Artifact.IsGone t' config.dbPath ↔ ¬ Artifact.IsStuck t' config.dbPath) ∧
          (Artifact.Deletable t config.dbPath → Artifact.IsGone t' config.dbPath)) ∧
      ∀ (host : Host) (config : ModulesConfig), modules t host config = (t', .error e) →
        (Artifact.IsGone t' config.dbPath ↔
            (Artifact.IsGone t config.dbPath ∨ ∃ runtime, runtimeOf t host config = .ok runtime) ∧
              ¬ Artifact.IsStuck t' config.dbPath) ∧
          (Artifact.Deletable t config.dbPath →
            (Artifact.IsGone t' config.dbPath ↔
              Artifact.IsGone t config.dbPath ∨
                ∃ runtime, runtimeOf t host config = .ok runtime)) := by
  refine ⟨fun config h => ?_, fun runtime config h => ?_, fun host config h => ?_⟩
  · exact ⟨(endsIn_of_flat h).isGone_iff, (endsIn_of_flat h).isGone⟩
  · exact ⟨(endsIn_of_modulesWith h).isGone_iff, (endsIn_of_modulesWith h).isGone⟩
  · rcases endsIn_of_modules h with ⟨rfl, hnone⟩ | ⟨hends, hruntime⟩
    · rw [or_iff_left hnone]
      exact ⟨⟨fun hgone => ⟨hgone, hgone.not_isStuck⟩, And.left⟩, fun _ => Iff.rfl⟩
    · simp only [hruntime, or_true, true_and]
      exact ⟨hends.isGone_iff, fun hdeletable => iff_true_intro (hends.isGone hdeletable)⟩

/-- A tree with the artifact of an earlier compilation in its working directory. -/
def staleTree : FileTree :=
  { entries := [(["cards.sqlite"], .file (.table ⟨[], []⟩))], workingDirectory := [] }

/-- A host without programs. -/
def emptyHost : Host :=
  { isProgram := fun _ => false, reply := fun _ _ => {}, searchPath := none }

/-- Without a program that evaluates modules the artifact of an earlier compilation stays. -/
theorem not_isGone_staleTree :
    Artifact.Deletable staleTree ⟨"cards.sqlite"⟩ ∧
      ∃ t' e, modules staleTree emptyHost { dbPath := ⟨"cards.sqlite"⟩ } = (t', .error e) ∧
        ¬ Artifact.IsGone t' ⟨"cards.sqlite"⟩ := by
  have hdeletable : Artifact.Deletable staleTree ⟨"cards.sqlite"⟩ := by
    refine Artifact.deletable_of_hasDirectory ?_ ?_
    · intro hstuck
      have hnone : staleTree.isFile (Artifact.stagingPath ⟨"cards.sqlite"⟩) = false := rfl
      cases hnone.symm.trans hstuck.staged
    · intro directory hparent hnamed
      have hbare : (⟨"cards.sqlite"⟩ : Path).parent? = some ⟨""⟩ := rfl
      obtain rfl := Option.some.inj (hbare.symm.trans hparent)
      exact absurd rfl hnamed
  have hnone : emptyHost.located = .error (.notLocated false) := by
    have hsearch : (emptyHost.searched "node").find? emptyHost.isProgram = none := by
      refine List.find?_eq_none.2 ?_
      intro program _ hprogram
      cases hprogram
    rw [Host.located, hsearch]
    rfl
  have hruntime : runtimeOf staleTree emptyHost { dbPath := ⟨"cards.sqlite"⟩ } =
      .error (.notLocated false) := by
    simp only [runtimeOf, hnone]
    rfl
  refine ⟨hdeletable, staleTree, _, by rw [modules, hruntime], ?_⟩
  rw [((isGone_iff_of_error _ _ _).2.2 emptyHost { dbPath := ⟨"cards.sqlite"⟩ }
    (by rw [modules, hruntime])).2 hdeletable]
  rintro (hgone | ⟨runtime, hfound⟩)
  · have hfile : staleTree.isFile ⟨"cards.sqlite"⟩ = true := rfl
    cases hgone.absent.symm.trans hfile
  · cases hruntime.symm.trans hfound

end Compile

end CardTable
