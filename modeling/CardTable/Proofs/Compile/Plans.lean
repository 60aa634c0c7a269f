import CardTable.Compile.Basic

set_option autoImplicit false

/-!
# How compilations end

The two kinds of compilations do the same with different corpora: the artifact of an earlier one is
removed, the corpus is read, and the table of its cards is made. Each of the three can fail.

## Main definitions

* `CardTable.Compile.Plan` — what the two kinds of compilations differ in.
* `CardTable.Compile.Plan.Ends` — how a compilation ends.

## Main results

* `CardTable.Compile.flat_eq_run`, `CardTable.Compile.modulesWith_eq_run` — the two kinds of
  compilations.
* `CardTable.Compile.Plan.ends_run` — a compilation ends in one of four ways.
* `CardTable.Compile.Plan.exists_of_run`, `CardTable.Compile.exists_of_flat`,
  `CardTable.Compile.exists_of_modulesWith` — what a compilation does that succeeds.
-/

namespace CardTable

namespace Compile

/-- What the two kinds of compilations differ in: what they read and where they write. -/
structure Plan where
  /-- What is read. -/
  Corpus : Type
  /-- How it is read. -/
  read : FileTree → Except CorpusError Corpus
  /-- The cards in it. -/
  cards : Corpus → List CorpusCard
  /-- The kind of the cards. -/
  profile : Profile
  /-- Where the table goes. -/
  artifact : Path
  /-- What is added to the summary. -/
  amend : Corpus → Summary → Summary

namespace Plan

/-- What is done once the artifact of an earlier compilation is removed. -/
def build (plan : Plan) (left : FileTree) : FileTree × Except CompileError Summary :=
  match plan.read left with
  | .error e => (left, .error (.corpus e))
  | .ok corpus =>
    match materialize left plan.profile plan.artifact (plan.cards corpus) with
    | (made, .error e) => (made, .error e)
    | (made, .ok summary) => (made, .ok (plan.amend corpus summary))

/-- The compilation. -/
def run (plan : Plan) (t : FileTree) : FileTree × Except CompileError Summary :=
  match Artifact.discard t plan.artifact with
  | (left, .error e) => (left, .error (.artifact e))
  | (left, .ok ()) => plan.build left

/-- The compilation of flat card files. -/
def flat (config : FlatConfig) : Plan where
  Corpus := List CorpusCard × List String
  read t := flatCards t config
  cards := Prod.fst
  profile := .flat
  artifact := config.dbPath
  amend corpus summary := { summary with unlisted := corpus.2 }

/-- The compilation of modules. -/
def modules (runtime : Runtime) (config : ModulesConfig) : Plan where
  Corpus := Collection
  read t := Collection.collect t runtime config.cardsDir
  cards := Collection.cards
  profile := .modules
  artifact := config.dbPath
  amend collection summary := { summary with skipped := collection.skipped }

end Plan

/-- A compilation of flat card files follows its plan. -/
theorem flat_eq_run (t : FileTree) (config : FlatConfig) :
    flat t config = (Plan.flat config).run t := by
  rcases hdiscard : Artifact.discard t config.dbPath with ⟨left, _ | _⟩
  · simp only [flat, Plan.run, Plan.flat, hdiscard]
  · simp only [flat, Plan.run, Plan.build, Plan.flat, hdiscard]
    cases flatCards left config <;> rfl

/-- A compilation of modules follows its plan. -/
theorem modulesWith_eq_run (t : FileTree) (runtime : Runtime) (config : ModulesConfig) :
    modulesWith t runtime config = (Plan.modules runtime config).run t := by
  rcases hdiscard : Artifact.discard t config.dbPath with ⟨left, _ | _⟩
  · simp only [modulesWith, Plan.run, Plan.modules, hdiscard]
  · simp only [modulesWith, Plan.run, Plan.build, Plan.modules, hdiscard]
    cases Collection.collect left runtime config.cardsDir <;> rfl

namespace Plan

/-- How a compilation ends. -/
inductive Ends (plan : Plan) (t : FileTree) : FileTree × Except CompileError Summary → Prop
  /-- The artifact of an earlier compilation cannot be removed. -/
  | uncleared {left : FileTree} {e : ArtifactError}
    (hdiscard : Artifact.discard t plan.artifact = (left, .error e)) :
    Ends plan t (left, .error (.artifact e))
  /-- The corpus cannot be read. -/
  | unread {left : FileTree} {e : CorpusError}
    (hdiscard : Artifact.discard t plan.artifact = (left, .ok ()))
    (hread : plan.read left = .error e) : Ends plan t (left, .error (.corpus e))
  /-- The table cannot be made. -/
  | unmade {left made : FileTree} {corpus : plan.Corpus} {e : CompileError}
    (hdiscard : Artifact.discard t plan.artifact = (left, .ok ()))
    (hread : plan.read left = .ok corpus)
    (hmade : materialize left plan.profile plan.artifact (plan.cards corpus) = (made, .error e)) :
    Ends plan t (made, .error e)
  /-- The table is made. -/
  | made {left made : FileTree} {corpus : plan.Corpus} {summary : Summary}
    (hdiscard : Artifact.discard t plan.artifact = (left, .ok ()))
    (hread : plan.read left = .ok corpus)
    (hmade : materialize left plan.profile plan.artifact (plan.cards corpus) =
      (made, .ok summary)) :
    Ends plan t (made, .ok (plan.amend corpus summary))

/-- **A compilation ends in one of four ways.** -/
theorem ends_run (plan : Plan) (t : FileTree) : plan.Ends t (plan.run t) := by
  unfold run
  split
  · next hdiscard => exact .uncleared hdiscard
  next left hdiscard =>
  unfold build
  split
  · next hread => exact .unread hdiscard hread
  next corpus hread =>
  split
  · next hmade => exact .unmade hdiscard hread hmade
  · next hmade => exact .made hdiscard hread hmade

/-- A compilation that succeeds has made a table. -/
theorem exists_of_run {plan : Plan} {t t' : FileTree} {summary : Summary}
    (h : plan.run t = (t', .ok summary)) :
    ∃ left corpus made, Artifact.discard t plan.artifact = (left, .ok ()) ∧
      plan.read left = .ok corpus ∧
      materialize left plan.profile plan.artifact (plan.cards corpus) = (t', .ok made) ∧
      plan.amend corpus made = summary := by
  have hends := plan.ends_run t
  rw [h] at hends
  cases hends with
  | made hdiscard hread hmade => exact ⟨_, _, _, hdiscard, hread, hmade, rfl⟩

end Plan

/-- What a compilation of flat card files does that succeeds. -/
theorem exists_of_flat {t t' : FileTree} {config : FlatConfig} {summary : Summary}
    (h : flat t config = (t', .ok summary)) :
    ∃ left cards unlisted made, Artifact.discard t config.dbPath = (left, .ok ()) ∧
      flatCards left config = .ok (cards, unlisted) ∧
      materialize left .flat config.dbPath cards = (t', .ok made) ∧
      summary = { made with unlisted } := by
  rw [flat_eq_run] at h
  obtain ⟨left, ⟨cards, unlisted⟩, made, hdiscard, hread, hmade, hamend⟩ := Plan.exists_of_run h
  exact ⟨left, cards, unlisted, made, hdiscard, hread, hmade, hamend.symm⟩

/-- What a compilation of modules does that succeeds. -/
theorem exists_of_modulesWith {t t' : FileTree} {runtime : Runtime} {config : ModulesConfig}
    {summary : Summary} (h : modulesWith t runtime config = (t', .ok summary)) :
    ∃ left collection made, Artifact.discard t config.dbPath = (left, .ok ()) ∧
      Collection.collect left runtime config.cardsDir = .ok collection ∧
      materialize left .modules config.dbPath collection.cards = (t', .ok made) ∧
      summary = { made with skipped := collection.skipped } := by
  rw [modulesWith_eq_run] at h
  obtain ⟨left, collection, made, hdiscard, hread, hmade, hamend⟩ := Plan.exists_of_run h
  exact ⟨left, collection, made, hdiscard, hread, hmade, hamend.symm⟩

end Compile

end CardTable
