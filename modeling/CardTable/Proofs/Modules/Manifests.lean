import CardTable.Proofs.Modules.Memoization

set_option autoImplicit false

/-!
# Closed manifests

A process that evaluates modules knows what its manifest says and nothing else. So the manifest has
to be closed: each module that a pending one imports has a preset value, or is pending itself and
listed before. This holds of each manifest that an evaluator hands over, whatever calls it went
through before. The process, which goes through the list and binds the names of each module to
values that it has, then finds a value for each name, and for a module with a known value it is this
one.

## Main definitions

* `CardTable.Handoff.IsPreset` — preset values of given modules, each once.
* `CardTable.Handoff.IsClosed` — closed manifests.
* `CardTable.Handoff.driverCalls` — what the process evaluates, with the values of the names.

## Main results

* `CardTable.Handoff.isPreset_preset` — the known values that pending modules depend on, each once.
* `CardTable.Handoff.IsClosed.forall₂_driverCalls` — no name is bound to a missing value.
* `CardTable.Evaluator.manifest_isClosed` — manifests are closed, after any calls.
-/

namespace CardTable

namespace Handoff

/-! ## Preset values -/

/-- **Preset values** of the modules `deps`: the known ones, each once. -/
structure IsPreset (known : Memo) (deps : List Nat) (preset : Memo) : Prop where
  /-- No module is there twice. -/
  distinct : (preset.map Prod.fst).Nodup
  /-- They are the known values of the modules. -/
  mem_iff : ∀ id v, (id, v) ∈ preset ↔ known.lookup id = some v ∧ id ∈ deps

variable {known listed preset : Memo} {deps : List Nat} {dep id : Nat} {v : Value}

/-- What is found under an id is listed under it. -/
lemma mem_of_lookup {α : Type} {values : List (Nat × α)} {a : α} (h : values.lookup id = some a) :
    (id, a) ∈ values := by
  obtain ⟨before, behind, rfl, -⟩ := List.lookup_eq_some_iff.1 h
  exact List.mem_append_right _ (List.mem_cons_self ..)

/-- Under an id without a value nothing is listed. -/
lemma notMem_of_lookup {α : Type} {values : List (Nat × α)} (h : values.lookup id = none) :
    id ∉ values.map Prod.fst := by
  intro hid
  obtain ⟨⟨_, a⟩, hmem, rfl⟩ := List.mem_map.1 hid
  exact absurd (List.lookup_eq_none_iff.1 h _ hmem) (by simp)

/-- A known value that is not listed may be. -/
lemma IsPreset.concat (h : IsPreset known deps listed) (hv : known.lookup dep = some v)
    (hnew : listed.lookup dep = none) : IsPreset known (deps ++ [dep]) (listed ++ [(dep, v)]) := by
  refine ⟨?_, fun id w => ?_⟩
  · rw [List.map_append, List.map_singleton]
    refine List.nodup_append.2 ⟨h.distinct, List.pairwise_singleton _ _, ?_⟩
    rintro id hid other hother heq
    rw [heq, List.mem_singleton.1 hother] at hid
    exact notMem_of_lookup hnew hid
  · simp only [List.mem_append, h.mem_iff, List.mem_singleton, Prod.mk.injEq]
    constructor
    · rintro (⟨hw, hid⟩ | ⟨rfl, rfl⟩)
      · exact ⟨hw, .inl hid⟩
      · exact ⟨hv, .inr rfl⟩
    · rintro ⟨hw, hid | rfl⟩
      · exact .inl ⟨hw, hid⟩
      · exact .inr ⟨rfl, Option.some.inj (hw.symm.trans hv)⟩

/-- A module without a value, or whose value is listed, changes nothing. -/
lemma IsPreset.skip (h : IsPreset known deps listed)
    (hold : known.lookup dep = none ∨ dep ∈ deps) : IsPreset known (deps ++ [dep]) listed := by
  refine ⟨h.distinct, fun id w => ?_⟩
  rw [h.mem_iff, List.mem_append, List.mem_singleton]
  refine and_congr_right fun hw => ⟨.inl, ?_⟩
  rintro (hid | rfl)
  · exact hid
  · exact hold.resolve_left fun hnone => by cases hnone.symm.trans hw

/-- Further modules are taken to preset values. -/
lemma isPreset_presetOf (h : IsPreset known deps listed) (rest : List Nat) :
    IsPreset known (deps ++ rest) (presetOf known listed rest) := by
  induction rest generalizing deps listed with
  | nil => rwa [List.append_nil]
  | cons dep rest ih =>
    rw [← List.singleton_append, ← List.append_assoc, List.singleton_append, presetOf]
    split
    · next v hv hnew => exact ih (h.concat hv hnew)
    · next hother =>
      refine ih (h.skip ?_)
      -- the value is not known, or it is listed already
      cases hv : known.lookup dep with
      | none => exact .inl rfl
      | some v =>
        cases hlisted : listed.lookup dep with
        | none => exact absurd hlisted (hother v hv)
        | some w => exact .inr ((h.mem_iff dep w).1 (mem_of_lookup hlisted)).2

/-- **The preset values of a manifest** are the known values that pending modules depend on, each
once. -/
theorem isPreset_preset (known : Memo) (pending : List Pending) :
    IsPreset known (pending.flatMap fun p => p.module.deps) (Handoff.preset known pending) := by
  have hnone : IsPreset known [] [] := ⟨List.nodup_nil, fun id v => by simp⟩
  exact isPreset_presetOf hnone _

/-! ## Closed manifests -/

/-- **A closed manifest** of the modules in a graph that have no known value. -/
structure IsClosed (g : ModuleGraph) (known preset : Memo) (modules : List Pending) : Prop where
  /-- The modules are those without a known value, each under its own id. -/
  mem_iff : ∀ p, p ∈ modules ↔ g.modules[p.id]? = some p.module ∧ known.lookup p.id = none
  /-- Their ids ascend. -/
  ascending : modules.Pairwise fun p q => p.id < q.id
  /-- A module has as many names as dependencies. -/
  paired : ∀ p ∈ modules, p.module.params.length = p.module.deps.length
  /-- No preset value is there twice. -/
  distinct : (preset.map Prod.fst).Nodup
  /-- No module has a preset value. -/
  disjoint : ∀ p ∈ modules, p.id ∉ preset.map Prod.fst
  /-- The preset values are the known values of the dependencies. -/
  preset_iff : ∀ id v, (id, v) ∈ preset ↔
    known.lookup id = some v ∧ ∃ p ∈ modules, id ∈ p.module.deps
  /-- A dependency has a preset value, or is a module in front. -/
  supplied : ∀ front p behind, modules = front ++ p :: behind → ∀ dep ∈ p.module.deps,
    dep ∈ preset.map Prod.fst ∨ ∃ q ∈ front, q.id = dep

/-- **The manifest of supplied modules is closed.** -/
theorem isClosed_preset {e : Evaluator} (h : Supplied e.memo e.pending) :
    IsClosed e.graph e.memo (Handoff.preset e.memo e.pending) e.pending := by
  have hpreset := isPreset_preset e.memo e.pending
  have hiff : ∀ id v, (id, v) ∈ Handoff.preset e.memo e.pending ↔
      e.memo.lookup id = some v ∧ ∃ p ∈ e.pending, id ∈ p.module.deps := by
    simpa only [List.mem_flatMap] using hpreset.mem_iff
  refine ⟨fun p => Evaluator.mem_pending_iff, Evaluator.pairwise_pending e, fun p _ => ?_,
    hpreset.distinct, fun p hp hid => ?_, hiff, fun front p behind hsplit dep hdep => ?_⟩
  · rw [LoadedModule.params, LoadedModule.deps, List.length_map, List.length_map]
  · obtain ⟨⟨_, v⟩, hmem, rfl⟩ := List.mem_map.1 hid
    have hknown := ((hiff _ _).1 hmem).1
    cases (Evaluator.mem_pending_iff.1 hp).2.symm.trans hknown
  · obtain ⟨b, hb, rfl⟩ := List.mem_map.1 hdep
    refine (h front p behind hsplit b hb).imp_left ?_
    rintro ⟨v, hv⟩
    have hp : p ∈ e.pending := hsplit ▸ List.mem_append_right _ (List.mem_cons_self ..)
    exact List.mem_map_of_mem ((hiff _ v).2 ⟨hv, p, hp, hdep⟩)

/-! ## What the process does -/

/-- **What the process evaluates**, going through the modules of a manifest: each module with what
its names are bound to, the values of its dependencies where `values` has some, the last one first.
What the bodies do is `run`. The value of a module is there for the modules behind it, and a body
that fails ends the process. -/
def driverCalls {α ε : Type} (run : Pending → List (Option α) → Except ε α)
    (values : List (Nat × α)) : List Pending → List (Pending × List (Option α))
  | [] => []
  | p :: rest =>
    let bound := p.module.deps.map fun dep => values.lookup dep
    (p, bound) ::
      match run p bound with
      | .ok a => driverCalls run ((p.id, a) :: values) rest
      | .error _ => []

/-- The values that the process starts with; `embed` is how it reads them. -/
def driverStart {α : Type} (embed : Value → α) (preset : Memo) : List (Nat × α) :=
  (preset.map fun entry => (entry.1, embed entry.2)).reverse

section Driver

variable {α ε : Type} {known : Memo} {embed : Value → α}
  {run : Pending → List (Option α) → Except ε α}

/-- Whether the process has values for the modules `ids`, and for those with a known value this
one. -/
def HasValues (known : Memo) (embed : Value → α) (values : List (Nat × α)) (ids : List Nat) :
    Prop :=
  ∀ id ∈ ids, ∃ a, values.lookup id = some a ∧ ∀ v, known.lookup id = some v → a = embed v

/-- A module that is evaluated has a value then. -/
lemma HasValues.cons {values : List (Nat × α)} {ids : List Nat}
    (h : HasValues known embed values ids) {id : Nat} (hid : known.lookup id = none) (a : α) :
    HasValues known embed ((id, a) :: values) (id :: ids) := by
  intro other hother
  rw [List.lookup_cons]
  by_cases heq : other = id
  · subst heq
    rw [beq_self_eq_true]
    exact ⟨a, rfl, fun v hv => by cases hid.symm.trans hv⟩
  · rw [beq_false_of_ne heq]
    exact h other ((List.mem_cons.1 hother).resolve_left heq)

/-- **No name is bound to a missing value**, if each dependency has a value or is in front. -/
theorem forall₂_driverCalls {values : List (Nat × α)} {ids : List Nat} {modules : List Pending}
    (hvalues : HasValues known embed values ids)
    (hpending : ∀ p ∈ modules, known.lookup p.id = none)
    (hsupplied : ∀ front p behind, modules = front ++ p :: behind → ∀ dep ∈ p.module.deps,
      dep ∈ ids ∨ ∃ q ∈ front, q.id = dep) :
    ∀ call ∈ driverCalls run values modules, List.Forall₂ (fun dep bound => ∃ a, bound = some a ∧
      ∀ v, known.lookup dep = some v → a = embed v) call.1.module.deps call.2 := by
  induction modules generalizing values ids with
  | nil => exact fun call hcall => absurd hcall List.not_mem_nil
  | cons p rest ih =>
    rw [List.forall_mem_cons] at hpending
    have hfirst : ∀ dep ∈ p.module.deps, dep ∈ ids := fun dep hdep =>
      (hsupplied [] p rest rfl dep hdep).resolve_right (by simp)
    have hrest : ∀ front q behind, rest = front ++ q :: behind → ∀ dep ∈ q.module.deps,
        dep ∈ p.id :: ids ∨ ∃ r ∈ front, r.id = dep := by
      rintro front q behind rfl dep hdep
      rcases hsupplied (p :: front) q behind rfl dep hdep with hid | ⟨r, hr, hid⟩
      · exact .inl (List.mem_cons_of_mem _ hid)
      · rcases List.mem_cons.1 hr with rfl | hr
        · exact .inl (hid ▸ List.mem_cons_self ..)
        · exact .inr ⟨r, hr, hid⟩
    rw [driverCalls]
    refine List.forall_mem_cons.2 ⟨?_, ?_⟩
    · exact List.forall₂_map_right_iff.2
        (List.forall₂_same.2 fun dep hdep => hvalues dep (hfirst dep hdep))
    · split
      · next a _ => exact ih (hvalues.cons hpending.1 a) hpending.2 hrest
      · exact fun call hcall => absurd hcall List.not_mem_nil

end Driver

/-- The process starts with the preset values. -/
lemma hasValues_driverStart {α : Type} (embed : Value → α) {known preset : Memo}
    (h : ∀ id v, (id, v) ∈ preset → known.lookup id = some v) :
    HasValues known embed (driverStart embed preset) (preset.map Prod.fst) := by
  intro id hid
  cases hlookup : (driverStart embed preset).lookup id with
  | none =>
    refine absurd ?_ (notMem_of_lookup hlookup)
    rw [driverStart, List.map_reverse, List.mem_reverse, List.map_map]
    exact hid
  | some a =>
    refine ⟨a, rfl, fun v hv => ?_⟩
    obtain ⟨entry, hentry, heq⟩ := List.mem_map.1 (List.mem_reverse.1 (mem_of_lookup hlookup))
    obtain ⟨rfl, rfl⟩ := Prod.mk.inj heq
    rw [Option.some.inj (hv.symm.trans (h entry.1 entry.2 hentry))]

/-- **With a closed manifest no name is bound to a missing value**, whatever the bodies do. -/
theorem IsClosed.forall₂_driverCalls {g : ModuleGraph} {known preset : Memo}
    {modules : List Pending} (h : IsClosed g known preset modules) {α ε : Type} (embed : Value → α)
    (run : Pending → List (Option α) → Except ε α) :
    ∀ call ∈ driverCalls run (driverStart embed preset) modules,
      List.Forall₂ (fun dep bound => ∃ a, bound = some a ∧
        ∀ v, known.lookup dep = some v → a = embed v) call.1.module.deps call.2 :=
  Handoff.forall₂_driverCalls
    (hasValues_driverStart embed fun id v hmem => ((h.preset_iff id v).1 hmem).1)
    (fun p hp => ((h.mem_iff p).1 hp).2) h.supplied

end Handoff

namespace Evaluator

/-! ## Manifests after any calls -/

/-- **What a call asks for**, whatever the runtime: nothing, or the modules without a value, and
then the runtime matters by what it answers to them only. -/
theorem evaluateAll_cases (t : FileTree) (e : Evaluator) (paths : List Path) :
    (∃ round : Round, round.asked = [] ∧ ∀ runtime, e.evaluateAll t runtime paths = round) ∨
      ∃ g : ModuleGraph, pending { e with graph := g } ≠ [] ∧ ∀ runtime : Runtime,
        (e.evaluateAll t runtime paths).asked = pending { e with graph := g } ∧
        (e.evaluateAll t runtime paths).evaluator.graph = g ∧
        ∀ other : Runtime, other e.memo (pending { e with graph := g }) =
            runtime e.memo (pending { e with graph := g }) →
          e.evaluateAll t other paths = e.evaluateAll t runtime paths := by
  unfold evaluateAll
  rcases loadAll t e.graph paths with ⟨g, error | ids⟩
  · exact .inl ⟨_, rfl, fun _ => rfl⟩
  · dsimp only
    by_cases hnone : (pending { e with graph := g }).isEmpty = true
    · simp only [if_pos hnone]
      exact .inl ⟨_, rfl, fun _ => rfl⟩
    · simp only [if_neg hnone]
      refine .inr ⟨g, fun hnil => hnone (List.isEmpty_iff.2 hnil), fun runtime => ⟨?_, ?_, ?_⟩⟩
      · split <;> rfl
      · split <;> rfl
      · intro other hother
        rw [hother]

/-- **Manifests are closed**, after any calls, whether these succeeded or not and however the files
changed between them. A call has to do with the process by one text only, which lists the modules
without a value, each with what it is made of, and the values of others that these depend on. The
modules stand in the order of their ids, and each dependency is known or stands in front. So no name
is bound to a missing value, whatever the bodies do.

**Proof sketch.** If nothing is pending the process is not asked and all rounds are the same.
Otherwise the only place where the process is used is its answer to the manifest. That the manifest
is closed comes from two facts: the pending modules are supplied (`supplied_pending`), that is, each
of their dependencies is known or stands in front of them, and the preset values are those of the
known ones (`isClosed_preset`). Bound values are then there by induction along the modules
(`IsClosed.forall₂_driverCalls`). -/
theorem manifest_isClosed (loads : List (FileTree × Path)) (turns : List Turn) (t : FileTree)
    (run : String → Except Unavailable Handoff.Reply) (call : Call) :
    let e := afterTurns loads turns
    let round (process : String → Except Unavailable Handoff.Reply) : Round :=
      Turn.round ⟨t, .process process, call⟩ e
    let asked := (round run).asked
    let preset := Handoff.preset e.memo asked
    let manifest := Json.text (.mapping
      [ ("preset", .list (preset.map fun entry =>
          .mapping [("id", Handoff.natValue entry.1), ("value", entry.2)]))
      , ("modules", .list (asked.map fun p => .mapping
          [ ("id", Handoff.natValue p.id)
          , ("path", .str p.module.path.text)
          , ("params", .list (p.module.params.map .str))
          , ("deps", .list (p.module.deps.map Handoff.natValue))
          , ("body", .str p.module.body) ])) ])
    (∀ other, (asked ≠ [] → other manifest = run manifest) → round other = round run) ∧
    (asked ≠ [] → Handoff.IsClosed (round run).evaluator.graph e.memo preset asked ∧
      ∀ (α ε : Type) (embed : Value → α) (body : Pending → List (Option α) → Except ε α),
        ∀ bound ∈ Handoff.driverCalls body (Handoff.driverStart embed preset) asked,
          List.Forall₂ (fun dep value => ∃ a, value = some a ∧
            ∀ v, e.memo.lookup dep = some v → a = embed v) bound.1.module.deps bound.2) := by
  intro e round asked preset manifest
  obtain ⟨_, -, horderly⟩ := exists_orderly_round loads turns ⟨t, .process run, call⟩
  have hsupplied : Supplied e.memo asked := horderly.supplied
  rcases evaluateAll_cases t e call.paths with ⟨nothing, hnone, hround⟩ | ⟨g, hsome, hround⟩
  · have hasked : asked = [] := (congrArg Round.asked (hround (.handoff run))).trans hnone
    exact ⟨fun other _ => (hround (.handoff other)).trans (hround (.handoff run)).symm,
      fun hsome => absurd hasked hsome⟩
  · obtain ⟨hasked, hgraph, hcongr⟩ := hround (.handoff run)
    have hasked : asked = pending { e with graph := g } := hasked
    rw [← hasked] at hsome hcongr
    refine ⟨fun other hother => hcongr (.handoff other) ?_, fun _ => ?_⟩
    · have htext : other (Handoff.manifestText e.memo asked) =
          run (Handoff.manifestText e.memo asked) := hother hsome
      rw [Runtime.handoff, Runtime.handoff, htext]
    · have hclosed := Handoff.isClosed_preset (e := { e with graph := g }) (hasked ▸ hsupplied)
      rw [← hasked] at hclosed
      have hclosed : Handoff.IsClosed (round run).evaluator.graph e.memo preset asked :=
        hgraph.symm ▸ hclosed
      exact ⟨hclosed, fun α ε embed body => hclosed.forall₂_driverCalls embed body⟩

section TwoCards

open Arena (twoCards)

/-- The second one of two modules, when it is loaded first. -/
def secondCard : LoadedModule :=
  ⟨["cards", "b.ts"], [], "return true"⟩

/-- The first one, which imports it. -/
def firstCard : LoadedModule :=
  ⟨["cards", "a.ts"], [⟨"b", 0⟩], "\nreturn b"⟩

/-- The second module is loaded. -/
lemma load_secondCard :
    ModuleGraph.load (twoCards "export default true") {} ⟨"b.ts"⟩ = (⟨[secondCard]⟩, .ok 0) := by
  have hplace : Path.location ["cards"] ⟨"b.ts"⟩ = ["cards", "b.ts"] := by decide +kernel
  have hread : (twoCards "export default true").readTextAt ["cards", "b.ts"] =
      .ok "export default true" := rfl
  have hparse : Source.Module.ofSource "export default true" = .ok ⟨[], "return true"⟩ := by
    decide +kernel
  rw [ModuleGraph.load, show (twoCards _).workingDirectory = ["cards"] from rfl, hplace,
    ModuleGraph.loadAt_eq]
  simp only [ModuleGraph.sourceAt, hread, hparse, ModuleGraph.loadImports]
  rfl

/-- Then the first module is loaded. -/
lemma load_firstCard :
    ModuleGraph.load (twoCards "export default true") ⟨[secondCard]⟩ ⟨"a.ts"⟩ =
      (⟨[secondCard, firstCard]⟩, .ok 1) := by
  have hplace : Path.location ["cards"] ⟨"a.ts"⟩ = ["cards", "a.ts"] := by decide +kernel
  have hread : (twoCards "export default true").readTextAt ["cards", "a.ts"] =
      .ok "import b from './b'\nexport default b" := rfl
  have hparse : Source.Module.ofSource "import b from './b'\nexport default b" =
      .ok ⟨[⟨"b", "./b"⟩], "\nreturn b"⟩ := by
    decide +kernel
  have hname : Source.Import.binding? ⟨"b", "./b"⟩ = some "b" := by decide +kernel
  have hresolve : resolve (twoCards "export default true") (Location.path ["cards", "a.ts"]) "./b" =
      .resolved ⟨"/cards/b.ts"⟩ := by
    decide +kernel
  have hplace' : Path.location ["cards"] ⟨"/cards/b.ts"⟩ = ["cards", "b.ts"] := by decide +kernel
  have hknown : ModuleGraph.loadAt (twoCards "export default true") [["cards", "a.ts"]]
      ⟨[secondCard]⟩ ["cards", "b.ts"] = (⟨[secondCard]⟩, .ok 0) := by
    rw [ModuleGraph.loadAt_eq]
    rfl
  rw [ModuleGraph.load, show (twoCards _).workingDirectory = ["cards"] from rfl, hplace,
    ModuleGraph.loadAt_eq]
  simp only [ModuleGraph.sourceAt, hread, hparse, ModuleGraph.loadImports, hname, hresolve,
    show (twoCards _).workingDirectory = ["cards"] from rfl, hplace', List.nil_append, hknown]
  rfl

/-- After a call for the second module its value is known. -/
lemma afterTurns_secondCard :
    afterTurns [] [⟨twoCards "export default true", .literal, .one ⟨"b.ts"⟩⟩] =
      ⟨⟨[secondCard]⟩, [(0, .bool true)]⟩ := by
  have hvalue : Runtime.literal [] [⟨0, secondCard⟩] = .ok [.bool true] := by
    have hbody : secondCard.value [] = .ok (.bool true) := by
      show (Script.evaluate [] "return true").mapError _ = _
      rw [evaluate_true]
      rfl
    rw [Runtime.literal, hbody]
    rfl
  have hpending : pending ⟨⟨[secondCard]⟩, []⟩ = [⟨0, secondCard⟩] := rfl
  simp only [afterTurns, List.foldl_cons, List.foldl_nil, Call.run, Engine.runtime, evaluate,
    evaluateAll, loadAll, show Arena.graphAfterLoads [] = {} from rfl, load_secondCard, hpending]
  rw [hvalue]
  rfl

/-- A process is asked for the first module then, and is told the value of the second one. -/
theorem manifest_firstCard :
    let e := afterTurns [] [⟨twoCards "export default true", .literal, .one ⟨"b.ts"⟩⟩]
    let round := Turn.round ⟨twoCards "export default true",
      .process fun _ => .ok { answer := some "[true]" }, .one ⟨"a.ts"⟩⟩ e
    round.asked = [⟨1, firstCard⟩] ∧ Handoff.preset e.memo round.asked = [(0, .bool true)] ∧
      Handoff.IsClosed round.evaluator.graph e.memo [(0, .bool true)] [⟨1, firstCard⟩] := by
  intro e round
  have he : e = ⟨⟨[secondCard]⟩, [(0, .bool true)]⟩ := afterTurns_secondCard
  have hasked : round.asked = [⟨1, firstCard⟩] := by
    have hpending : pending ⟨⟨[secondCard, firstCard]⟩, [(0, .bool true)]⟩ = [⟨1, firstCard⟩] := rfl
    show (evaluateAll _ _ e [⟨"a.ts"⟩]).asked = _
    rw [he]
    simp only [evaluateAll, loadAll, load_firstCard, hpending, List.isEmpty_cons, Bool.false_eq_true,
      if_false]
    split <;> rfl
  have hpreset : Handoff.preset e.memo round.asked = [(0, .bool true)] := by
    rw [hasked, he]
    rfl
  have hclosed := ((manifest_isClosed [] [⟨twoCards "export default true", .literal, .one ⟨"b.ts"⟩⟩]
    (twoCards "export default true") (fun _ => .ok { answer := some "[true]" })
    (.one ⟨"a.ts"⟩)).2 (hasked ▸ List.cons_ne_nil _ _)).1
  exact ⟨hasked, hpreset, hpreset ▸ hasked ▸ hclosed⟩

end TwoCards

end Evaluator

end CardTable
