import CardTable.Proofs.Modules.PlainModules

set_option autoImplicit false

/-!
# Evaluators and what was asked of them before

An evaluator that evaluates inside the program gives each module the value that it has in the file
tree, whatever was asked before. But it asks for all modules without a value at once, those of
earlier calls among them. So it gives a value only if all modules that earlier calls have loaded
have one: a module that was loaded and has no value stands in the way of all that are asked for
later.

## Main definitions

* `CardTable.Evaluator.Faithful` — whether an evaluator knows modules and values as they are.
* `CardTable.Evaluator.Call` — what an evaluator can be asked for.
* `CardTable.Evaluator.afterCalls` — an evaluator after some calls.

## Main results

* `CardTable.Evaluator.evaluateAll_spec` — what a call gives.
* `CardTable.Evaluator.faithful_afterCalls` — what is known after any calls.
* `CardTable.Evaluator.evaluate_empty_iff` — what an evaluator gives that was not asked before.
* `CardTable.Evaluator.evaluate_afterCalls` — what an evaluator gives that was asked before.
-/

namespace CardTable

namespace Evaluator

open ModuleGraph (Imports Load LoadTargets Loadable)
open Relation

/-! ## Loading -/

/-- The modules at some paths, as what is to be loaded. -/
def roots (t : FileTree) (paths : List Path) : List (String × Location) :=
  paths.map fun p => (p.text, p.location t.workingDirectory)

/-- Modules at paths are loaded one after the other. -/
lemma loadAll_cases (t : FileTree) (g : ModuleGraph) (paths : List Path) :
    (∃ bindings, (loadAll t g paths).2 = .ok (bindings.map Binding.module) ∧
        LoadTargets t [] g (roots t paths) (loadAll t g paths).1 (.ok bindings)) ∨
      ∃ e, (loadAll t g paths).2 = .error e ∧
        LoadTargets t [] g (roots t paths) (loadAll t g paths).1 (.error e) := by
  induction paths generalizing g with
  | nil => exact .inl ⟨[], rfl, .nil⟩
  | cons p rest ih =>
    have hfirst := ModuleGraph.load_loadAt t [] g (p.location t.workingDirectory)
    rw [loadAll, ModuleGraph.load]
    generalize ModuleGraph.loadAt t [] g (p.location t.workingDirectory) = result at hfirst ⊢
    obtain ⟨g', outcome⟩ := result
    cases outcome with
    | error e => exact .inr ⟨e, rfl, .first hfirst⟩
    | ok id =>
      have hrest := ih g'
      dsimp only
      generalize loadAll t g' rest = result at hrest ⊢
      obtain ⟨g'', outcome⟩ := result
      rcases hrest with ⟨bindings, rfl, hrest⟩ | ⟨e, rfl, hrest⟩
      · exact .inl ⟨_, rfl, .cons hfirst hrest⟩
      · exact .inr ⟨e, rfl, .later hfirst hrest⟩

/-! ## Pending modules -/

/-- The modules without a value are pending. -/
lemma mem_pending_iff {e : Evaluator} {p : Pending} :
    p ∈ e.pending ↔ e.graph.modules[p.id]? = some p.module ∧ e.memo.lookup p.id = none := by
  obtain ⟨id, m⟩ := p
  unfold pending
  rw [List.mem_filterMap]
  constructor
  · rintro ⟨⟨n, k⟩, hmem, hsome⟩
    have hget := List.mem_zipIdx_iff_getElem?.1 hmem
    dsimp only at hsome
    split at hsome
    · cases hsome
    · next hnone =>
      obtain ⟨rfl, rfl⟩ := Pending.mk.inj (Option.some.inj hsome)
      exact ⟨hget, hnone⟩
  · rintro ⟨hget, hnone⟩
    refine ⟨(m, id), List.mem_zipIdx_iff_getElem?.2 hget, ?_⟩
    dsimp only at hnone ⊢
    rw [hnone]

/-- Pending modules stand in the order of their ids. -/
lemma pairwise_pending (e : Evaluator) : e.pending.Pairwise fun p q => p.id < q.id := by
  have hids : e.graph.modules.zipIdx.Pairwise fun a b => a.2 < b.2 := by
    have hrange := List.pairwise_lt_range' (s := 0) (n := e.graph.modules.length)
    rw [← List.zipIdx_map_snd, List.pairwise_map] at hrange
    exact hrange
  refine List.Pairwise.filterMap _ ?_ hids
  rintro ⟨m, i⟩ ⟨n, j⟩ hlt p hp q hq
  dsimp only at hp hq
  split at hp
  · cases hp
  split at hq
  · cases hq
  obtain rfl := Option.some.inj hp
  obtain rfl := Option.some.inj hq
  exact hlt

/-- Each module has a value or is pending. -/
lemma known_or_pending (e : Evaluator) {id : Nat} (hid : id < e.graph.size) :
    (∃ v, e.memo.lookup id = some v) ∨ ∃ p ∈ e.pending, p.id = id := by
  cases hlookup : e.memo.lookup id with
  | some v => exact .inl ⟨v, rfl⟩
  | none =>
    refine .inr ⟨⟨id, e.graph.modules[id]⟩, mem_pending_iff.2 ⟨?_, hlookup⟩, rfl⟩
    exact List.getElem?_eq_getElem hid

/-! ## Values that come to be known -/

/-- Each pending module is given its value. -/
lemma exists_lookup_of_forall₂ {R : Pending → Value → Prop} {asked : List Pending}
    {values : List Value} (h : List.Forall₂ R asked values) {p : Pending} (hp : p ∈ asked) :
    ∃ v, ((asked.map Pending.id).zip values).lookup p.id = some v := by
  induction h with
  | nil => exact absurd hp List.not_mem_nil
  | @cons first v rest others _ _ ih =>
    rw [List.map_cons, List.zip_cons_cons, List.lookup_cons]
    split
    · exact ⟨v, rfl⟩
    · next hother =>
      rcases List.mem_cons.1 hp with rfl | hp
      · exact absurd hother (by simp)
      · exact ih hp

/-- Once the pending modules are given values, all modules have one. -/
lemma exists_lookup_append {R : Pending → Value → Prop} {e : Evaluator} {values : List Value}
    (h : List.Forall₂ R e.pending values) {id : Nat} (hid : id < e.graph.size) :
    ∃ v, (e.memo ++ (e.pending.map Pending.id).zip values).lookup id = some v := by
  rw [List.lookup_append]
  rcases known_or_pending e hid with ⟨v, hv⟩ | ⟨p, hp, rfl⟩
  · exact ⟨v, by rw [hv, Option.some_or]⟩
  · obtain ⟨v, hv⟩ := exists_lookup_of_forall₂ h hp
    have hnew : e.memo.lookup p.id = none := (mem_pending_iff.1 hp).2
    exact ⟨v, by rw [hnew, Option.none_or, hv]⟩

/-- What pending modules are given are their values. -/
lemma exists_of_lookup_of_forall₂ {R : Pending → Value → Prop} {asked : List Pending}
    {values : List Value} (h : List.Forall₂ R asked values) {id : Nat} {v : Value}
    (hv : ((asked.map Pending.id).zip values).lookup id = some v) :
    ∃ p ∈ asked, p.id = id ∧ R p v := by
  induction h with
  | nil => cases hv
  | @cons first w rest others hfirst _ ih =>
    rw [List.map_cons, List.zip_cons_cons, List.lookup_cons] at hv
    split at hv
    · next heq =>
      obtain rfl := Option.some.inj hv
      exact ⟨first, List.mem_cons_self .., (beq_iff_eq.1 heq).symm, hfirst⟩
    · obtain ⟨p, hp, hid, hvalue⟩ := ih hv
      exact ⟨p, List.mem_cons_of_mem _ hp, hid, hvalue⟩

/-- **What an evaluator knows** is as the file tree has it: the modules, each read from the place of
some path, and the values. -/
structure Faithful (t : FileTree) (e : Evaluator) : Prop where
  /-- Modules are there once, behind those that they import. -/
  wellFormed : e.graph.WellFormed
  /-- Modules are as the file tree has them. -/
  modules : e.graph.Faithful t
  /-- Modules are read from the places of paths. -/
  named : ∀ m ∈ e.graph.modules, ∃ p : Path, p.location t.workingDirectory = m.location
  /-- Values are those of their modules. -/
  values : e.memo.Faithful t e.graph

/-- An evaluator that was not asked before knows nothing. -/
lemma Faithful.empty (t : FileTree) : Faithful t {} where
  wellFormed := .empty
  modules := .empty t
  named := fun _ hm => absurd hm List.not_mem_nil
  values := by
    intro id v hv
    cases hv

/-- What is imported is read from the place of a path. -/
lemma exists_path_of_reachable {t : FileTree} {p : Path} {loc : Location}
    (h : ReflTransGen (Imports t) (p.location t.workingDirectory) loc) :
    ∃ q : Path, q.location t.workingDirectory = loc := by
  cases h with
  | refl => exact ⟨p, rfl⟩
  | tail _ himport =>
    obtain ⟨source, -, target, htarget, rfl⟩ := himport
    obtain ⟨i, -, hsome⟩ := List.mem_filterMap.1 htarget
    split at hsome
    · next file _ _ =>
      obtain rfl := Option.some.inj hsome
      exact ⟨file, rfl⟩
    · cases hsome

/-- Loading more modules leaves what is known as it is. -/
lemma Faithful.load {t : FileTree} {e : Evaluator} {g : ModuleGraph} {paths : List Path}
    {outcome : Except LoadError (List Binding)} (he : e.Faithful t)
    (h : LoadTargets t [] e.graph (roots t paths) g outcome) :
    Faithful t { e with graph := g } where
  wellFormed := h.wellFormed he.wellFormed
  modules := h.faithful he.modules
  named := by
    intro m hm
    rcases h.reachable hm with hold | ⟨target, htarget, hreach⟩
    · exact he.named m hold
    · obtain ⟨p, -, rfl⟩ := List.mem_map.1 htarget
      exact exists_path_of_reachable hreach
  values := by
    intro id v hv
    obtain ⟨m, hm, hmv⟩ := he.values id v hv
    exact ⟨m, ModuleGraph.getElem?_of_prefix h.prefix_modules hm, hmv⟩

/-- Values of the pending modules leave what is known as it is. -/
lemma Faithful.remember {t : FileTree} {e : Evaluator} {values : List Value} (he : e.Faithful t)
    (h : List.Forall₂ (fun p v => HasValue t p.module.location v) e.pending values) :
    Faithful t { e with memo := e.memo ++ (e.pending.map Pending.id).zip values } where
  wellFormed := he.wellFormed
  modules := he.modules
  named := he.named
  values := by
    intro id v hv
    rw [List.lookup_append, Option.or_eq_some_iff] at hv
    rcases hv with hold | ⟨-, hnew⟩
    · exact he.values id v hold
    · obtain ⟨p, hp, rfl, hvalue⟩ := exists_of_lookup_of_forall₂ h hnew
      exact ⟨p.module, (mem_pending_iff.1 hp).1, hvalue⟩

/-- Values that were asked for are those of the modules at the paths, once all values are known. -/
lemma forall₂_valuesOf {t : FileTree} {e : Evaluator} {paths : List Path}
    {bindings : List Binding} (he : e.Faithful t)
    (hknown : ∀ id < e.graph.size, ∃ v, e.memo.lookup id = some v)
    (h : List.Forall₂ e.graph.Links (roots t paths) bindings) :
    List.Forall₂ (fun p v => HasValue t (p.location t.workingDirectory) v) paths
      (valuesOf e.memo (bindings.map Binding.module)) := by
  unfold roots at h
  rw [List.forall₂_map_left_iff] at h
  unfold valuesOf
  rw [List.map_map, List.forall₂_map_right_iff]
  refine h.imp fun p b hlink => ?_
  obtain ⟨-, m, hm, hlocation⟩ := hlink
  obtain ⟨v, hv⟩ := hknown b.module (List.getElem?_eq_some_iff.1 hm).1
  obtain ⟨m', hm', hmv⟩ := he.values b.module v hv
  obtain rfl := Option.some.inj (hm.symm.trans hm')
  rw [Function.comp_apply, hv, Option.getD_some, ← show m.location = p.location t.workingDirectory
    from hlocation]
  exact hmv

/-! ## Calls -/

/-- **What the answer to a call says** about the modules that are loaded then. -/
inductive Answers (t : FileTree) (paths : List Path) (g : ModuleGraph) :
    Except EngineError (List Value) → Prop
  /-- One of the modules that are asked for cannot be loaded. -/
  | unloaded {e : LoadError} {p : Path} (hp : p ∈ paths)
      (hrefused : ¬ Loadable t (p.location t.workingDirectory)) :
        Answers t paths g (.error (.load e))
  /-- A module has no value, be it asked for or not. -/
  | failed {m : LoadedModule} {failure : Script.Failure} (hm : m ∈ g.modules)
      (hnone : ¬ ∃ v, HasValue t m.location v) :
      Answers t paths g (.error (.evaluation (.script m.path failure)))
  /-- All modules have values, and those that are asked for are given. -/
  | values {vs : List Value}
      (hgiven : List.Forall₂ (fun p v => HasValue t (p.location t.workingDirectory) v) paths vs)
      (hall : ∀ m ∈ g.modules, ∃ v, HasValue t m.location v) : Answers t paths g (.ok vs)

/-- All modules have values once all values are known. -/
lemma Faithful.exists_value {t : FileTree} {e : Evaluator} (he : e.Faithful t)
    (hknown : ∀ id < e.graph.size, ∃ v, e.memo.lookup id = some v) :
    ∀ m ∈ e.graph.modules, ∃ v, HasValue t m.location v := by
  intro m hm
  obtain ⟨id, hid⟩ := List.getElem?_of_mem hm
  obtain ⟨v, hv⟩ := hknown id (List.getElem?_eq_some_iff.1 hid).1
  obtain ⟨m', hm', hmv⟩ := he.values id v hv
  obtain rfl := Option.some.inj (hid.symm.trans hm')
  exact ⟨v, hmv⟩

/-- Once all values are known, those that are asked for are given. -/
lemma Answers.of_known {t : FileTree} {e : Evaluator} {paths : List Path}
    {bindings : List Binding} (he : e.Faithful t)
    (hknown : ∀ id < e.graph.size, ∃ v, e.memo.lookup id = some v)
    (h : List.Forall₂ e.graph.Links (roots t paths) bindings) :
    Answers t paths e.graph (.ok (valuesOf e.memo (bindings.map Binding.module))) :=
  .values (forall₂_valuesOf he hknown h) (he.exists_value hknown)

/-- Where loading fails, one of the modules that are asked for cannot be loaded. -/
lemma exists_not_loadable {t : FileTree} {g g' : ModuleGraph} {paths : List Path}
    {cause : LoadError} (h : LoadTargets t [] g (roots t paths) g' (.error cause)) :
    ∃ p ∈ paths, ¬ Loadable t (p.location t.workingDirectory) := by
  -- if all of them could be loaded, they would have been
  have hrefused : ¬ ∀ target ∈ roots t paths, Loadable t target.2 := by
    intro hloadable
    obtain ⟨bindings, hok⟩ := h.exists_ok hloadable fun _ _ _ h => absurd h List.not_mem_nil
    cases hok
  obtain ⟨target, hout⟩ := Classical.not_forall.1 hrefused
  obtain ⟨htarget, hrefused⟩ := Classical.not_forall.1 hout
  obtain ⟨p, hp, rfl⟩ := List.mem_map.1 htarget
  exact ⟨p, hp, hrefused⟩

/-- **What a call does**: it loads, what is known stays as the file tree has it, and the answer says
what holds.

**Proof sketch.** The load leaves a graph that is faithful to the tree, and every module of it has a
known value or is pending. If nothing is pending all values are known. Otherwise the runtime
evaluates the pending modules in the order of their ids (`Runtime.literal_cases`): it finds the
values of all of them, which are remembered, or it stops at a module without a value, and then
nothing is remembered. -/
theorem evaluateAll_spec {t : FileTree} {e : Evaluator} (he : e.Faithful t) (paths : List Path) :
    (∃ outcome, LoadTargets t [] e.graph (roots t paths)
        (e.evaluateAll t .literal paths).evaluator.graph outcome) ∧
      (e.evaluateAll t .literal paths).evaluator.Faithful t ∧
      Answers t paths (e.evaluateAll t .literal paths).evaluator.graph
        (e.evaluateAll t .literal paths).answer := by
  have hload := loadAll_cases t e.graph paths
  unfold evaluateAll
  generalize loadAll t e.graph paths = result at hload ⊢
  obtain ⟨g, outcome⟩ := result
  dsimp only at hload
  rcases hload with ⟨bindings, rfl, hload⟩ | ⟨cause, rfl, hload⟩
  · have hloaded : Faithful t { e with graph := g } := he.load hload
    dsimp only
    split
    · next hnone =>
      refine ⟨⟨_, hload⟩, hloaded, .of_known hloaded (fun id hid => ?_) hload.links⟩
      refine (known_or_pending { e with graph := g } hid).resolve_right ?_
      rintro ⟨p, hp, -⟩
      rw [List.isEmpty_iff.1 hnone] at hp
      exact absurd hp List.not_mem_nil
    · have hrun := Runtime.literal_cases hloaded.wellFormed hloaded.modules hloaded.values
        (fun p hp => (mem_pending_iff.1 hp).1) (pairwise_pending { e with graph := g })
        fun id hid => known_or_pending { e with graph := g } hid
      rcases hrun with ⟨values, hrun, hvalues⟩ | ⟨p, hp, failure, hrun, hnone⟩
      · have hremembered := hloaded.remember hvalues
        rw [hrun]
        refine ⟨⟨_, hload⟩, hremembered, .of_known hremembered ?_ hload.links⟩
        exact fun _ hid => exists_lookup_append hvalues hid
      · rw [hrun]
        refine ⟨⟨_, hload⟩, hloaded, .failed ?_ hnone⟩
        exact List.mem_of_getElem? (mem_pending_iff.1 hp).1
  · obtain ⟨p, hp, hrefused⟩ := exists_not_loadable hload
    exact ⟨⟨_, hload⟩, he.load hload, .unloaded hp hrefused⟩

/-- **What is given where a call succeeds**: the values of the modules that are asked for, and all
modules that are loaded then have values. -/
theorem Faithful.values_of_evaluateAll {t : FileTree} {e : Evaluator} {paths : List Path}
    {vs : List Value} (he : e.Faithful t) (hok : (e.evaluateAll t .literal paths).answer = .ok vs) :
    List.Forall₂ (fun p v => HasValue t (p.location t.workingDirectory) v) paths vs ∧
      ∀ m ∈ (e.evaluateAll t .literal paths).evaluator.graph.modules,
        ∃ v, HasValue t m.location v := by
  obtain ⟨-, -, hanswer⟩ := evaluateAll_spec he paths
  rw [hok] at hanswer
  cases hanswer with
  | values hgiven hall => exact ⟨hgiven, hall⟩

/-- **When a call succeeds** on an evaluator all of whose modules have values: exactly if the
modules that are asked for have values, and these are given. -/
theorem Faithful.evaluateAll_eq_ok_iff {t : FileTree} {e : Evaluator} {paths : List Path}
    {vs : List Value} (he : e.Faithful t)
    (hall : ∀ m ∈ e.graph.modules, ∃ v, HasValue t m.location v) :
    (e.evaluateAll t .literal paths).answer = .ok vs ↔
      List.Forall₂ (fun p v => HasValue t (p.location t.workingDirectory) v) paths vs := by
  refine ⟨fun hok => (he.values_of_evaluateAll hok).1, fun hvalues => ?_⟩
  obtain ⟨⟨outcome, hload⟩, -, hanswer⟩ := evaluateAll_spec he paths
  generalize e.evaluateAll t .literal paths = round at hload hanswer ⊢
  obtain ⟨e', asked, answer⟩ := round
  dsimp only at hload hanswer ⊢
  cases hanswer with
  | unloaded hp hrefused =>
    obtain ⟨v, -, hv⟩ := ModuleGraph.exists_of_mem_of_forall₂ hvalues hp
    exact absurd hv.loadable hrefused
  | @failed m failure hm hnone =>
    -- the module was loaded before, or it is imported by one that is asked for
    refine absurd ?_ hnone
    rcases hload.reachable hm with hold | ⟨target, htarget, hreach⟩
    · exact hall m hold
    · obtain ⟨p, hp, rfl⟩ := List.mem_map.1 htarget
      obtain ⟨v, -, hv⟩ := ModuleGraph.exists_of_mem_of_forall₂ hvalues hp
      exact hv.exists_of_reachable hreach
  | values hgiven _ =>
    rw [List.right_unique_forall₂' (fun _ _ _ hv hw => hv.unique hw) hgiven hvalues]

/-- **What an evaluator gives** for one module that has a value: the value, unless a module that it
has loaded before has none.

**Proof sketch.** By the outcome of the call (`evaluateAll_spec`). The load cannot have failed,
since the module has a value. If the runtime stopped at a module, this one is not among those that
the asked one imports, which have values, so it was in the graph before. If it did not, all modules
of the graph have values and the answer is the value. -/
theorem evaluate_of_hasValue {t : FileTree} {e : Evaluator} {p : Path} {v : Value}
    (he : e.Faithful t) (hv : HasValue t (p.location t.workingDirectory) v) :
    ((e.evaluate t .literal p).2 = .ok v ∧ ∀ m ∈ e.graph.modules, ∃ w, HasValue t m.location w) ∨
      ∃ m ∈ e.graph.modules, ∃ failure,
        (e.evaluate t .literal p).2 = .error (.evaluation (.script m.path failure)) ∧
          ¬ ∃ w, HasValue t m.location w := by
  obtain ⟨⟨outcome, hload⟩, -, hanswer⟩ := evaluateAll_spec he [p]
  unfold evaluate
  generalize e.evaluateAll t .literal [p] = round at hload hanswer ⊢
  obtain ⟨e', asked, answer⟩ := round
  dsimp only at hload hanswer ⊢
  cases hanswer with
  | unloaded hp hrefused =>
    obtain rfl := List.mem_singleton.1 hp
    exact absurd hv.loadable hrefused
  | @failed m failure hm hnone =>
    refine .inr ⟨m, ?_, failure, rfl, hnone⟩
    refine (hload.reachable hm).resolve_right ?_
    rintro ⟨target, htarget, hreach⟩
    obtain rfl := List.mem_singleton.1 htarget
    exact hnone (hv.exists_of_reachable hreach)
  | @values vs hgiven hall =>
    refine .inl ⟨?_, fun m hm => hall m (hload.prefix_modules.mem hm)⟩
    cases hgiven with
    | @cons _ w _ _ hw hrest =>
      obtain rfl := hw.unique hv
      rfl

/-- A call for one module succeeds if the call for a list of this module does. -/
lemma evaluate_eq_ok_iff_head {t : FileTree} {runtime : Runtime} {e : Evaluator} {p : Path}
    {v : Value} :
    (e.evaluate t runtime p).2 = .ok v ↔
      ∃ vs, (e.evaluateAll t runtime [p]).answer = .ok vs ∧ vs.headD .null = v := by
  unfold evaluate
  obtain ⟨e', asked, answer⟩ := e.evaluateAll t runtime [p]
  cases answer <;> simp [Except.map]

/-- **What an evaluator gives all of whose modules have values**, for one module: its value. -/
theorem Faithful.evaluate_eq_ok_iff {t : FileTree} {e : Evaluator} {p : Path} {v : Value}
    (he : e.Faithful t) (hall : ∀ m ∈ e.graph.modules, ∃ v, HasValue t m.location v) :
    (e.evaluate t .literal p).2 = .ok v ↔ HasValue t (p.location t.workingDirectory) v := by
  rw [evaluate_eq_ok_iff_head]
  constructor
  · rintro ⟨vs, hvs, rfl⟩
    cases (he.evaluateAll_eq_ok_iff hall).1 hvs with
    | cons hv _ => exact hv
  · exact fun hv => ⟨[v], (he.evaluateAll_eq_ok_iff hall).2 (.cons hv .nil), rfl⟩

/-- **An evaluator that was not asked before** gives the value of a module. -/
theorem evaluate_empty_iff {t : FileTree} {p : Path} {v : Value} :
    (evaluate t .literal {} p).2 = .ok v ↔ HasValue t (p.location t.workingDirectory) v :=
  (Faithful.empty t).evaluate_eq_ok_iff fun _ hm => absurd hm List.not_mem_nil

/-! ## Earlier calls -/

/-- What an evaluator can be asked for. -/
inductive Call where
  /-- The value of the module at a path. -/
  | one (p : Path)
  /-- The values of the modules at some paths. -/
  | all (paths : List Path)

namespace Call

/-- The evaluator after a call, and the values that were asked for. -/
def run (t : FileTree) (runtime : Runtime) (e : Evaluator) :
    Call → Evaluator × Except EngineError (List Value)
  | one p =>
    let (e', answer) := e.evaluate t runtime p
    (e', answer.map fun v => [v])
  | all paths =>
    let round := e.evaluateAll t runtime paths
    (round.evaluator, round.answer)

/-- The paths that are asked for. -/
def paths : Call → List Path
  | one p => [p]
  | all paths => paths

/-- A call for one module leaves the evaluator as a call for a list of one module does. -/
lemma run_fst (t : FileTree) (runtime : Runtime) (e : Evaluator) (call : Call) :
    (call.run t runtime e).1 = (e.evaluateAll t runtime call.paths).evaluator := by
  cases call <;> rfl

/-- A call for one module succeeds if a call for a list of one module does. -/
lemma exists_answer_of_run {t : FileTree} {runtime : Runtime} {e : Evaluator} {call : Call}
    {vs : List Value} (h : (call.run t runtime e).2 = .ok vs) :
    ∃ ws, (e.evaluateAll t runtime call.paths).answer = .ok ws := by
  cases call with
  | one p =>
    dsimp only [run, evaluate, paths] at h ⊢
    cases hround : (e.evaluateAll t runtime [p]).answer with
    | ok ws => exact ⟨ws, rfl⟩
    | error err =>
      rw [hround] at h
      cases h
  | all paths => exact ⟨vs, h⟩

end Call

/-- The evaluator after some calls. -/
def afterCalls (t : FileTree) (runtime : Runtime) (calls : List Call) : Evaluator :=
  calls.foldl (fun e call => (call.run t runtime e).1) {}

/-- What is known after a call is as the file tree has it. -/
lemma Faithful.run {t : FileTree} {e : Evaluator} (he : e.Faithful t) (call : Call) :
    (call.run t .literal e).1.Faithful t := by
  rw [Call.run_fst]
  exact (evaluateAll_spec he call.paths).2.1

/-- After any calls, whether they succeeded or not, what is known is as the file tree has it. -/
theorem faithful_afterCalls (t : FileTree) (calls : List Call) :
    (afterCalls t .literal calls).Faithful t := by
  have hcalls : ∀ e : Evaluator, e.Faithful t →
      (calls.foldl (fun e call => (call.run t .literal e).1) e).Faithful t := by
    induction calls with
    | nil => exact fun _ he => he
    | cons call rest ih => exact fun e he => ih _ (he.run call)
  exact hcalls {} (.empty t)

/-- The calls one after the other. -/
lemma afterCalls_concat (t : FileTree) (runtime : Runtime) (calls : List Call) (call : Call) :
    afterCalls t runtime (calls ++ [call]) =
      (call.run t runtime (afterCalls t runtime calls)).1 := by
  unfold afterCalls
  rw [List.foldl_concat]

/-- A place has an id if a module was read from there. -/
lemma isSome_id?_iff {g : ModuleGraph} {loc : Location} :
    (g.id? loc).isSome ↔ ∃ m ∈ g.modules, m.location = loc := by
  rw [← not_iff_not, Bool.not_eq_true, Option.isSome_eq_false_iff, Option.isNone_iff_eq_none,
    ModuleGraph.id?_eq_none_iff]
  simp only [not_exists, not_and, ne_eq]

/-- All modules of an evaluator have values if they have when they are asked for first. -/
lemma Faithful.forall_value_iff {t : FileTree} {e : Evaluator} (he : e.Faithful t) :
    (∀ m ∈ e.graph.modules, ∃ w, HasValue t m.location w) ↔
      ∀ q : Path, (e.graph.id? (q.location t.workingDirectory)).isSome →
        ∃ w, (evaluate t .literal {} q).2 = .ok w := by
  constructor
  · intro hall q hq
    obtain ⟨m, hm, hlocation⟩ := isSome_id?_iff.1 hq
    obtain ⟨w, hw⟩ := hall m hm
    exact ⟨w, evaluate_empty_iff.2 (hlocation ▸ hw)⟩
  · intro hall m hm
    obtain ⟨q, hq⟩ := he.named m hm
    obtain ⟨w, hw⟩ := hall q (isSome_id?_iff.2 ⟨m, hm, hq.symm⟩)
    exact ⟨w, hq ▸ evaluate_empty_iff.1 hw⟩

/-- **What an evaluator gives that was asked before**, for a module that has a value when it is
asked for first: this value exactly if all modules that the earlier calls have loaded have values
too, as they do if the last of the calls succeeded, and otherwise the failure of one of these
modules.

**Proof sketch.** After any calls the evaluator is faithful to the tree (`faithful_afterCalls`), so
the call gives the value or the failure of a module that was in the graph (`evaluate_of_hasValue`).
It gives the value exactly if all modules of the graph have one. If the call in front succeeded then
they have, because a call that succeeds has evaluated all modules of its graph. -/
theorem evaluate_afterCalls {t : FileTree} {calls : List Call} {p : Path} {v : Value}
    (hfresh : (evaluate t .literal {} p).2 = .ok v) :
    (((afterCalls t .literal calls).evaluate t .literal p).2 = .ok v ↔
        ∀ q : Path, ((afterCalls t .literal calls).graph.id?
          (q.location t.workingDirectory)).isSome → ∃ w, (evaluate t .literal {} q).2 = .ok w) ∧
      (((afterCalls t .literal calls).evaluate t .literal p).2 = .ok v ∨
        ∃ m ∈ (afterCalls t .literal calls).graph.modules, ∃ failure,
          ((afterCalls t .literal calls).evaluate t .literal p).2 =
            .error (.evaluation (.script m.path failure)) ∧
          ∀ q : Path, q.location t.workingDirectory = m.location →
            ∀ w, (evaluate t .literal {} q).2 ≠ .ok w) ∧
      ∀ earlier call, calls = earlier ++ [call] →
        (∃ vs, (call.run t .literal (afterCalls t .literal earlier)).2 = .ok vs) →
          ((afterCalls t .literal calls).evaluate t .literal p).2 = .ok v := by
  have hfaithful := faithful_afterCalls t calls
  have houtcome := evaluate_of_hasValue hfaithful (evaluate_empty_iff.1 hfresh)
  have hall : ((afterCalls t .literal calls).evaluate t .literal p).2 = .ok v ↔
      ∀ m ∈ (afterCalls t .literal calls).graph.modules, ∃ w, HasValue t m.location w := by
    rcases houtcome with ⟨hok, hvalues⟩ | ⟨m, hm, failure, herror, hnone⟩
    · exact iff_of_true hok hvalues
    · refine iff_of_false (fun hok => ?_) fun hvalues => hnone (hvalues m hm)
      cases herror.symm.trans hok
  refine ⟨hall.trans hfaithful.forall_value_iff, ?_, ?_⟩
  · refine houtcome.imp And.left ?_
    rintro ⟨m, hm, failure, herror, hnone⟩
    refine ⟨m, hm, failure, herror, fun q hq w hw => hnone ⟨w, ?_⟩⟩
    exact hq ▸ evaluate_empty_iff.1 hw
  · rintro earlier call rfl ⟨vs, hvs⟩
    obtain ⟨ws, hws⟩ := Call.exists_answer_of_run hvs
    obtain ⟨-, -, hanswer⟩ := evaluateAll_spec (faithful_afterCalls t earlier) call.paths
    rw [hall, afterCalls_concat, Call.run_fst]
    rw [hws] at hanswer
    cases hanswer with
    | values hgiven hvalues => exact hvalues

/-! ## A module in the way -/

/-- Modules that can be loaded are in the graph after they were asked for. -/
lemma exists_mem_of_evaluateAll {t : FileTree} {e : Evaluator} {paths : List Path} {p : Path}
    (he : e.Faithful t) (hloadable : ∀ q ∈ paths, Loadable t (q.location t.workingDirectory))
    (hp : p ∈ paths) :
    ∃ m ∈ (e.evaluateAll t .literal paths).evaluator.graph.modules,
      m.location = p.location t.workingDirectory := by
  obtain ⟨⟨outcome, hload⟩, -, -⟩ := evaluateAll_spec he paths
  have hok := hload.exists_ok (fun target htarget => ?_) fun _ _ _ h => absurd h List.not_mem_nil
  · obtain ⟨bindings, rfl⟩ := hok
    have hroot : (p.text, p.location t.workingDirectory) ∈ roots t paths :=
      List.mem_map_of_mem hp
    obtain ⟨b, -, -, m, hm, hlocation⟩ := ModuleGraph.exists_of_mem_of_forall₂ hload.links hroot
    exact ⟨m, List.mem_of_getElem? hm, hlocation⟩
  · obtain ⟨q, hq, rfl⟩ := List.mem_map.1 htarget
    exact hloadable q hq

/-- Two modules, of which one fails. -/
def twoModules : FileTree :=
  { entries :=
      [(["bad.ts"], .file (.bytes "export default missing".toUTF8)),
        (["good.ts"], .file (.bytes "export default true".toUTF8))],
    workingDirectory := [] }

/-- The body of the module that fails. -/
lemma evaluate_missing :
    Script.evaluate [] "return missing" = .error (.undefinedName "missing") := by
  have hword : Script.token ⟨7, 'm'⟩ (Script.locate 8 "issing".toList) =
      .ok (.word "missing", []) := rfl
  rw [Script.evaluate_of_return [] rfl rfl (by decide) hword (by decide)]
  rfl

/-- The body of the module that does not fail. -/
lemma evaluate_true : Script.evaluate [] "return true" = .ok (.bool true) := by
  have hword : Script.token ⟨7, 't'⟩ (Script.locate 8 "rue".toList) = .ok (.word "true", []) := rfl
  rw [Script.evaluate_of_return [] rfl rfl (by decide) hword (by decide)]
  rfl

/-- The two modules as they are in the tree. -/
lemma twoModules_values :
    Loadable twoModules (Path.location twoModules.workingDirectory ⟨"bad.ts"⟩) ∧
      (¬ ∃ v, HasValue twoModules (Path.location twoModules.workingDirectory ⟨"bad.ts"⟩) v) ∧
      HasValue twoModules (Path.location twoModules.workingDirectory ⟨"good.ts"⟩)
        (.bool true) := by
  show Loadable _ ["bad.ts"] ∧ (¬ ∃ v, HasValue _ ["bad.ts"] v) ∧ HasValue _ ["good.ts"] _
  have hbad : twoModules.readTextAt ["bad.ts"] = .ok "export default missing" := rfl
  have hbody : Source.exportDefault? "export default missing".toList =
      some "return missing".toList := rfl
  have hgood : twoModules.readTextAt ["good.ts"] = .ok "export default true" := rfl
  have hbody' : Source.exportDefault? "export default true".toList =
      some "return true".toList := rfl
  obtain ⟨hsource, hvalue⟩ := hasValue_iff_of_plain hbad rfl rfl hbody
  obtain ⟨-, hvalue'⟩ := hasValue_iff_of_plain hgood rfl rfl hbody'
  refine ⟨.intro hsource fun _ htarget => absurd htarget List.not_mem_nil, ?_, ?_⟩
  · rintro ⟨v, hv⟩
    have hrun := (hvalue v).1 hv
    rw [String.ofList_toList, evaluate_missing] at hrun
    cases hrun
  · rw [hvalue', String.ofList_toList, evaluate_true]

/-- A module that fails stands in the way of one that does not. -/
theorem evaluate_good_after_bad :
    (evaluate twoModules .literal {} ⟨"good.ts"⟩).2 = .ok (.bool true) ∧
      ((afterCalls twoModules .literal [.one ⟨"bad.ts"⟩]).evaluate twoModules .literal
        ⟨"good.ts"⟩).2 ≠ .ok (.bool true) := by
  obtain ⟨hloadable, hnone, hgood⟩ := twoModules_values
  refine ⟨evaluate_empty_iff.2 hgood, fun hok => ?_⟩
  have hfaithful := faithful_afterCalls twoModules [.one ⟨"bad.ts"⟩]
  rcases evaluate_of_hasValue hfaithful hgood with ⟨-, hall⟩ | ⟨m, -, failure, herror, -⟩
  · have hcall : ∀ q ∈ [(⟨"bad.ts"⟩ : Path)],
        Loadable twoModules (q.location twoModules.workingDirectory) := by
      intro q hq
      obtain rfl := List.mem_singleton.1 hq
      exact hloadable
    obtain ⟨m, hm, hlocation⟩ :=
      exists_mem_of_evaluateAll (.empty twoModules) hcall (List.mem_singleton_self _)
    rw [← hlocation] at hnone
    exact hnone (hall m hm)
  · cases herror.symm.trans hok

/-- A module that does not fail stands in nobody's way. -/
theorem evaluate_good_after_good :
    ((afterCalls twoModules .literal [.one ⟨"good.ts"⟩]).evaluate twoModules .literal
      ⟨"good.ts"⟩).2 = .ok (.bool true) := by
  have hfresh : (evaluate twoModules .literal {} ⟨"good.ts"⟩).2 = .ok (.bool true) :=
    evaluate_empty_iff.2 twoModules_values.2.2
  have hanswer : (Call.run twoModules .literal {} (.one ⟨"good.ts"⟩)).2 = .ok [.bool true] := by
    dsimp only [Call.run]
    rw [hfresh]
    rfl
  exact (evaluate_afterCalls hfresh).2.2 [] (.one ⟨"good.ts"⟩) rfl ⟨_, hanswer⟩

end Evaluator

end CardTable
