import CardTable.Proofs.Artifact.Artifacts
import CardTable.Proofs.Modules.Loading
import CardTable.Proofs.Files.Paths
import CardTable.Proofs.Compile.Plans
import CardTable.Proofs.Files.Relisting
import Mathlib.Data.List.Perm.Basic

set_option autoImplicit false

/-!
# Compiling trees listed in another order

A compilation does not depend on the order in which directories list their entries. Modules are
loaded in the order of their imports, and card files are sorted before they are read, so that the
order of the listing is forgotten where it could be seen.

## Main results

* `CardTable.FileTree.Relists.loadAt_eq` — modules are loaded in the same way.
* `CardTable.FileTree.Relists.evaluateAll_eq` — evaluators answer the same.
* `CardTable.Path.mergeSort_notAfter_eq` — sorted paths do not show the order they had before.
* `CardTable.FileTree.Relists.flat`, `CardTable.FileTree.Relists.modulesWith` — compilations do the
  same.
-/

namespace CardTable

/-! ## Loading -/

namespace FileTree.Relists

open ModuleGraph (loadAt loadImports sourceAt waiting)

variable {t u : FileTree} (h : t.Relists u)
include h

/-- Specifiers stand for the same files. -/
lemma resolve_eq (importer : Path) (specifier : String) :
    resolve u importer specifier = resolve t importer specifier := by
  rw [resolve, resolve, h.isFile_eq]

/-- Modules are the same. -/
lemma sourceAt_eq (loc : Location) : sourceAt u loc = sourceAt t loc := by
  rw [sourceAt, sourceAt, h.readTextAt_eq]

/-- Imports are loaded in the same way if modules are. -/
lemma loadImports_eq {loading : List Location}
    (hload : ∀ g loc, loadAt u loading g loc = loadAt t loading g loc) (g : ModuleGraph)
    (importer : Location) (imports : List Source.Import) :
    loadImports u loading g importer imports = loadImports t loading g importer imports := by
  induction imports generalizing g with
  | nil => rw [loadImports, loadImports]
  | cons i rest ih =>
    rw [loadImports, loadImports]
    simp only [h.resolve_eq, h.workingDirectory, hload, ih]

/-- **Modules are loaded in the same way.**

**Proof sketch.** Induction on the number of places that are not being loaded: both loads read the
same source, and each import of it is loaded with one place less to go. -/
theorem loadAt_eq (loading : List Location) (g : ModuleGraph) (loc : Location) :
    loadAt u loading g loc = loadAt t loading g loc := by
  -- each module that is being loaded leaves fewer places
  induction hn : (waiting t loading).length using Nat.strongRecOn
    generalizing loading g loc with
  | ind n ih =>
    rw [ModuleGraph.loadAt_eq, ModuleGraph.loadAt_eq, h.sourceAt_eq]
    split
    · rfl
    · split
      · rfl
      · next hfresh =>
        cases hsource : sourceAt t loc with
        | error e => rfl
        | ok source =>
          have hfewer :=
            ModuleGraph.waiting_lt (ModuleGraph.mem_places_of_sourceAt hsource) hfresh
          have hload : ∀ g' loc', loadAt u (loading ++ [loc]) g' loc' =
              loadAt t (loading ++ [loc]) g' loc' :=
            fun g' loc' => ih _ (hn ▸ hfewer) (loading ++ [loc]) g' loc' rfl
          simp only [h.loadImports_eq hload]

/-- Modules at paths are loaded in the same way. -/
lemma loadAll_eq (g : ModuleGraph) (paths : List Path) :
    Evaluator.loadAll u g paths = Evaluator.loadAll t g paths := by
  induction paths generalizing g with
  | nil => rfl
  | cons p rest ih =>
    simp only [Evaluator.loadAll, ModuleGraph.load, h.loadAt_eq, h.workingDirectory, ih]

/-- **Evaluators answer the same.** -/
theorem evaluateAll_eq (runtime : Runtime) (e : Evaluator) (paths : List Path) :
    Evaluator.evaluateAll u runtime e paths = Evaluator.evaluateAll t runtime e paths := by
  rw [Evaluator.evaluateAll, Evaluator.evaluateAll, h.loadAll_eq]

end FileTree.Relists

/-! ## Card files -/

/-- **Sorted paths do not show the order they had before.** -/
theorem Path.mergeSort_notAfter_eq {ps qs : List Path} (h : ps.Perm qs) :
    ps.mergeSort notAfter = qs.mergeSort notAfter :=
  List.Perm.eq_of_pairwise (fun _ _ _ _ => eq_of_text_le) (pairwise_mergeSort_notAfter ps)
    (pairwise_mergeSort_notAfter qs)
    (((List.mergeSort_perm ps _).trans h).trans (List.mergeSort_perm qs _).symm)

namespace FileTree.Relists

variable {t u : FileTree} (h : t.Relists u)
include h

/-- Flat corpora have the same card files. -/
lemma flat_cardFiles_eq (directory : Path) :
    Flat.cardFiles u directory = Flat.cardFiles t directory := by
  have hchildren : (u.children directory).Perm (t.children directory) := by
    unfold children
    rw [h.locate_eq]
    cases t.locate directory with
    | error e => exact List.Perm.refl _
    | ok place => exact h.childrenAt_perm place
  unfold Flat.cardFiles
  rw [h.isDirectory_eq]
  dsimp only
  rw [Path.mergeSort_notAfter_eq ((hchildren.filterMap _).filter _)]

/-- The same files are below a place. -/
lemma filesBelow_perm (depth : Nat) (p : Path) (loc : Location) :
    (Collection.filesBelow u depth p loc).Perm (Collection.filesBelow t depth p loc) := by
  induction depth using Nat.strongRecOn generalizing p loc with
  | ind depth ih =>
    match depth with
    | 0 => exact List.Perm.refl _
    | 1 => exact (h.childrenAt_perm loc).filterMap _
    | depth + 2 =>
      refine (h.childrenAt_perm loc).flatMap fun child _ => ?_
      obtain ⟨name, entry⟩ := child
      cases entry with
      | directory => exact ih (depth + 1) (Nat.lt_succ_self _) _ _
      | file content => exact List.Perm.refl _

/-- Corpora of modules have the same card files. -/
lemma collection_cardFiles_eq (root : Path) :
    Collection.cardFiles u root = Collection.cardFiles t root := by
  unfold Collection.cardFiles
  rw [h.isDirectory_eq, h.locate_eq]
  split
  · dsimp only
    rw [Path.mergeSort_notAfter_eq ((h.filesBelow_perm _ _ _).filter _)]
  · rfl

/-! ## Corpora -/

/-- Flat corpora hold the same cards. -/
lemma flatCards_eq (config : FlatConfig) :
    Compile.flatCards u config = Compile.flatCards t config := by
  have hread : ∀ file, Flat.readCards u file = Flat.readCards t file := fun file => by
    rw [Flat.readCards, Flat.readCards, h.readText_eq]
  have hfiles :
      ∀ catalog files, Flat.loadFiles u catalog files = Flat.loadFiles t catalog files := by
    intro catalog files
    induction files with
    | nil => rfl
    | cons file rest ih => rw [Flat.loadFiles, Flat.loadFiles, hread, ih]
  have hcatalog : Catalog.read u config.setsPath = Catalog.read t config.setsPath := by
    rw [Catalog.read, Catalog.read, h.isFile_eq, h.readText_eq]
  simp only [Compile.flatCards, Flat.load, hcatalog, h.flat_cardFiles_eq, hfiles]

/-- Corpora of modules hold the same cards. -/
lemma collect_eq (runtime : Runtime) (root : Path) :
    Collection.collect u runtime root = Collection.collect t runtime root := by
  simp only [Collection.collect, h.collection_cardFiles_eq, h.evaluateAll_eq]

/-! ## Artifacts -/

/-- The same stale file is removed. -/
lemma removeStale (file : Path) :
    SameEnd (Artifact.removeStale t file) (Artifact.removeStale u file) := by
  have hremoved := h.removeFile file
  unfold Artifact.removeStale
  generalize t.removeFile file = r at hremoved ⊢
  generalize u.removeFile file = s at hremoved ⊢
  cases hremoved with
  | ok hsame => exact ⟨hsame, rfl⟩
  | error e => cases e <;> exact ⟨h, rfl⟩

/-- The same artifact is removed. -/
lemma discard (artifact : Path) :
    SameEnd (Artifact.discard t artifact) (Artifact.discard u artifact) := by
  have hremoved := h.removeStale artifact
  unfold Artifact.discard
  generalize Artifact.removeStale t artifact = r at hremoved ⊢
  generalize Artifact.removeStale u artifact = s at hremoved ⊢
  obtain ⟨t', answer⟩ := r
  obtain ⟨u', answer'⟩ := s
  obtain ⟨hsame, rfl : answer' = answer⟩ := hremoved
  cases answer' with
  | error e => exact ⟨hsame, rfl⟩
  | ok _ => exact hsame.removeStale _

/-- The same preparations are made. -/
lemma prepare (artifact : Path) :
    SameEnd (Artifact.prepare t artifact) (Artifact.prepare u artifact) := by
  unfold Artifact.prepare
  split
  · exact h.discard artifact
  · next parent _ =>
    split
    · exact h.discard artifact
    · have hmade := h.createDirectories parent
      generalize t.createDirectories parent = r at hmade ⊢
      generalize u.createDirectories parent = s at hmade ⊢
      obtain ⟨t', answer⟩ := r
      obtain ⟨u', answer'⟩ := s
      obtain ⟨hsame, rfl : answer' = answer⟩ := hmade
      cases answer' with
      | error e => exact ⟨hsame, rfl⟩
      | ok _ => exact hsame.discard artifact

/-- The same table is put. -/
lemma commit (artifact : Path) (table : StoredTable) :
    SameEnd (Artifact.commit t artifact table) (Artifact.commit u artifact table) := by
  have hstaged := h.writeFile (Artifact.stagingPath artifact) (.table table)
  unfold Artifact.commit
  dsimp only
  split
  · exact ⟨h, rfl⟩
  generalize t.writeFile (Artifact.stagingPath artifact) (.table table) = r at hstaged ⊢
  generalize u.writeFile (Artifact.stagingPath artifact) (.table table) = s at hstaged ⊢
  cases hstaged with
  | error e => exact ⟨h, rfl⟩
  | @ok t' u' hsame =>
    have hmoved := hsame.rename (Artifact.stagingPath artifact) artifact
    dsimp only
    generalize t'.rename (Artifact.stagingPath artifact) artifact = r at hmoved ⊢
    generalize u'.rename (Artifact.stagingPath artifact) artifact = s at hmoved ⊢
    cases hmoved with
    | error e => exact ⟨h, rfl⟩
    | ok hsame => exact ⟨hsame, rfl⟩

/-- The same staging files are opened. -/
lemma openError?_eq (artifact : Path) :
    Artifact.openError? u artifact = Artifact.openError? t artifact :=
  Artifact.openError?_of_sameDirectories
    ⟨h.workingDirectory, fun loc => by rw [h.at?_eq]⟩ artifact

/-- The same table is written. -/
lemma write (artifact : Path) (columns : List Column) (cards : List CorpusCard) :
    SameEnd (Artifact.write t artifact columns cards)
      (Artifact.write u artifact columns cards) := by
  have hprepared := h.prepare artifact
  unfold Artifact.write
  generalize Artifact.prepare t artifact = r at hprepared ⊢
  generalize Artifact.prepare u artifact = s at hprepared ⊢
  obtain ⟨t', answer⟩ := r
  obtain ⟨u', answer'⟩ := s
  obtain ⟨hsame, rfl : answer' = answer⟩ := hprepared
  cases answer' with
  | error e => exact ⟨hsame, rfl⟩
  | ok _ =>
    dsimp only
    rw [show Artifact.openError? u' artifact = Artifact.openError? t' artifact from
      FileTree.Relists.openError?_eq hsame artifact]
    split
    · exact ⟨hsame, rfl⟩
    cases Artifact.tableOf columns cards with
    | error e => exact ⟨hsame, rfl⟩
    | ok table =>
      have hcommitted := FileTree.Relists.commit hsame artifact table
      dsimp only
      generalize Artifact.commit t' artifact table = r at hcommitted ⊢
      generalize Artifact.commit u' artifact table = s at hcommitted ⊢
      obtain ⟨t'', answer⟩ := r
      obtain ⟨u'', answer'⟩ := s
      obtain ⟨hsame, rfl : answer' = answer⟩ := hcommitted
      cases answer' <;> exact ⟨hsame, rfl⟩

/-! ## Compilations -/

/-- The same cards make the same table. -/
lemma materialize (p : Profile) (artifact : Path) (cards : List CorpusCard) :
    SameEnd (Compile.materialize t p artifact cards) (Compile.materialize u p artifact cards) := by
  unfold Compile.materialize
  split
  · exact ⟨h, rfl⟩
  split
  · exact ⟨h, rfl⟩
  · next columns _ =>
    have hwritten := h.write artifact columns cards
    generalize Artifact.write t artifact columns cards = r at hwritten ⊢
    generalize Artifact.write u artifact columns cards = s at hwritten ⊢
    obtain ⟨t', answer⟩ := r
    obtain ⟨u', answer'⟩ := s
    obtain ⟨hsame, rfl : answer' = answer⟩ := hwritten
    cases answer' <;> exact ⟨hsame, rfl⟩

end FileTree.Relists

namespace FileTree.Relists

variable {t u : FileTree} (h : t.Relists u)
include h

/-- What is read in the same way is built in the same way. -/
lemma build {plan : Compile.Plan} (hread : plan.read u = plan.read t) :
    SameEnd (plan.build t) (plan.build u) := by
  unfold Compile.Plan.build
  rw [hread]
  cases plan.read t with
  | error e => exact ⟨h, rfl⟩
  | ok corpus =>
    have hmade := h.materialize plan.profile plan.artifact (plan.cards corpus)
    dsimp only
    generalize Compile.materialize t plan.profile plan.artifact (plan.cards corpus) = r at hmade ⊢
    generalize Compile.materialize u plan.profile plan.artifact (plan.cards corpus) = s at hmade ⊢
    obtain ⟨t', answer⟩ := r
    obtain ⟨u', answer'⟩ := s
    obtain ⟨hsame, rfl : answer' = answer⟩ := hmade
    cases answer' <;> exact ⟨hsame, rfl⟩

/-- What is read in the same way is compiled in the same way. -/
lemma run {plan : Compile.Plan}
    (hread : ∀ {left left' : FileTree}, left.Relists left' → plan.read left' = plan.read left) :
    SameEnd (plan.run t) (plan.run u) := by
  have hdiscarded := h.discard plan.artifact
  unfold Compile.Plan.run
  generalize Artifact.discard t plan.artifact = r at hdiscarded ⊢
  generalize Artifact.discard u plan.artifact = s at hdiscarded ⊢
  obtain ⟨left, answer⟩ := r
  obtain ⟨left', answer'⟩ := s
  obtain ⟨hsame, rfl : answer' = answer⟩ := hdiscarded
  cases answer' with
  | error e => exact ⟨hsame, rfl⟩
  | ok _ => exact FileTree.Relists.build hsame (hread hsame)

/-- **Flat card files compile to the same table**, in whichever order they are listed. -/
theorem flat (config : FlatConfig) : SameEnd (Compile.flat t config) (Compile.flat u config) := by
  rw [Compile.flat_eq_run, Compile.flat_eq_run]
  exact h.run fun hleft => hleft.flatCards_eq config

/-- **Modules compile to the same table**, in whichever order they are listed. -/
theorem modulesWith (runtime : Runtime) (config : ModulesConfig) :
    SameEnd (Compile.modulesWith t runtime config) (Compile.modulesWith u runtime config) := by
  rw [Compile.modulesWith_eq_run, Compile.modulesWith_eq_run]
  exact h.run fun hleft => hleft.collect_eq runtime config.cardsDir

end FileTree.Relists

end CardTable
