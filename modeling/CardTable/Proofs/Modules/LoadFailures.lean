import Mathlib.Data.List.Chain
import CardTable.Proofs.Modules.Loading

set_option autoImplicit false

/-!
# When a load fails

A load walks over the imports in the order of the source and fails at the first module that is in
its way: one that cannot be read or taken apart, or one that is still being loaded. Which one that
is does not depend on the modules that were loaded before, since modules that are in the graph are
never in the way.

So a load succeeds exactly if all modules that are imported, directly or not, can be read and taken
apart and none of them imports itself.

## Main definitions

* `CardTable.ModuleGraph.Fails` — how a load fails, whatever the graph has already.
* `CardTable.ModuleGraph.afterLoads` — a graph after some loads.

## Main results

* `CardTable.ModuleGraph.Load.fails` — a load that fails does so as the imports say.
* `CardTable.ModuleGraph.Fails.unique` — there is one way to fail.
* `CardTable.ModuleGraph.Fails.exists_cause` — what is in the way of a load.
* `CardTable.ModuleGraph.load_succeeds_iff` — when a load succeeds, and what a cycle consists of.
-/

namespace CardTable

namespace ModuleGraph

open Relation

/-! ## Failing -/

/-- **How a load fails** while the modules at `loading` are being loaded: at the first module, in
the order of the imports, that is in its way. The imports in front of it can be loaded. -/
inductive Fails (t : FileTree) : List Location → Location → LoadError → Prop
  /-- The module is being loaded. -/
  | cycle {loading : List Location} {loc : Location} (hloading : loc ∈ loading) :
      Fails t loading loc (.importCycle
        ((loading.dropWhile (· ≠ loc) ++ [loc]).map Location.path))
  /-- The module cannot be read or taken apart. -/
  | refused {loading : List Location} {loc : Location} {e : LoadError} (hfresh : loc ∉ loading)
      (hsource : sourceAt t loc = .error e) : Fails t loading loc e
  /-- A module that it imports cannot be loaded. -/
  | imported {loading : List Location} {loc : Location} {source : Source.Module} {e : LoadError}
      {before behind : List (String × Location)} {target : String × Location}
      (hfresh : loc ∉ loading) (hsource : sourceAt t loc = .ok source)
      (htargets : targets t loc source.imports = before ++ target :: behind)
      (hbefore : ∀ other ∈ before, Loadable t other.2)
      (hfails : Fails t (loading ++ [loc]) target.2 e) : Fails t loading loc e

/-- What is added to a graph of loadable modules is loadable. -/
lemma Load.forall_loadable {t : FileTree} {loading : List Location} {g g' : ModuleGraph}
    {loc : Location} {outcome : Except LoadError Nat} (h : Load t loading g loc g' outcome)
    (hwell : g.WellFormed) (hfaithful : g.Faithful t) : ∀ m ∈ g'.modules, Loadable t m.location :=
  fun _ hm => loadable_of_mem (h.wellFormed hwell) (h.faithful hfaithful) hm

/-- A module that was loaded is loadable. -/
lemma Load.loadable {t : FileTree} {loading : List Location} {g g' : ModuleGraph}
    {loc : Location} {id : Nat} (h : Load t loading g loc g' (.ok id)) (hwell : g.WellFormed)
    (hfaithful : g.Faithful t) : Loadable t loc := by
  obtain ⟨m, hm, rfl⟩ := h.located
  exact h.forall_loadable hwell hfaithful m (List.mem_of_getElem? hm)

mutual

/-- **A load that fails does so as the imports say**, whatever was loaded before. -/
theorem Load.fails {t : FileTree} {loading : List Location} {g g' : ModuleGraph} {loc : Location}
    {outcome : Except LoadError Nat} {e : LoadError} (h : Load t loading g loc g' outcome)
    (hwell : g.WellFormed) (hfaithful : g.Faithful t) (he : outcome = .error e) :
    Fails t loading loc e :=
  match h with
  | .known _ => by cases he
  | .cycle _ hloading => by
    cases he
    exact .cycle hloading
  | .refused _ hfresh hsource => by
    cases he
    exact .refused hfresh hsource
  | .failed _ hfresh hsource himports => by
    obtain rfl := Except.error.inj he
    obtain ⟨before, target, behind, htargets, hbefore, hfails⟩ :=
      himports.exists_fails hwell hfaithful rfl
    exact .imported hfresh hsource htargets hbefore hfails
  | .loaded _ _ _ _ => by cases he

/-- If the loads of several modules fail, then at one of them, and those in front of it can be
loaded. -/
lemma LoadTargets.exists_fails {t : FileTree} {loading : List Location} {g g' : ModuleGraph}
    {targets : List (String × Location)} {outcome : Except LoadError (List Binding)} {e : LoadError}
    (h : LoadTargets t loading g targets g' outcome) (hwell : g.WellFormed)
    (hfaithful : g.Faithful t) (he : outcome = .error e) :
    ∃ before target behind, targets = before ++ target :: behind ∧
      (∀ other ∈ before, Loadable t other.2) ∧ Fails t loading target.2 e :=
  match h with
  | .nil => by cases he
  | .first hload => by
    obtain rfl := Except.error.inj he
    exact ⟨[], _, _, rfl, fun _ h => absurd h List.not_mem_nil, hload.fails hwell hfaithful rfl⟩
  | @LoadTargets.later _ _ _ _ _ first _ _ _ hload hrest => by
    obtain rfl := Except.error.inj he
    have hfirst := hload.loadable hwell hfaithful
    obtain ⟨before, target, behind, rfl, hbefore, hfails⟩ :=
      hrest.exists_fails (hload.wellFormed hwell) (hload.faithful hfaithful) rfl
    refine ⟨first :: before, target, behind, rfl, fun other hother => ?_, hfails⟩
    rcases List.mem_cons.1 hother with rfl | hother
    · exact hfirst
    · exact hbefore other hother
  | .cons _ _ => by cases he

end

/-- A module that is imported is reached in one step more. -/
lemma transGen_of_mem_loading {t : FileTree} {loading : List Location} {loc dep : Location}
    (hway : ∀ other ∈ loading, TransGen (Imports t) other loc) (himport : Imports t loc dep) :
    ∀ other ∈ loading ++ [loc], TransGen (Imports t) other dep := by
  intro other hother
  rcases List.mem_append.1 hother with hother | hself
  · exact (hway other hother).tail himport
  · obtain rfl := List.mem_singleton.1 hself
    exact .single himport

/-- A module that can be loaded is not in the way, unless the load was asked for by a module that it
imports. -/
lemma Loadable.not_fails {t : FileTree} {loading : List Location} {loc : Location} {e : LoadError}
    (hloadable : Loadable t loc) (hway : ∀ other ∈ loading, TransGen (Imports t) other loc) :
    ¬ Fails t loading loc e := by
  intro hfails
  induction hfails with
  | cycle hloading => exact hloadable.not_transGen (hway _ hloading)
  | refused hfresh hsource =>
    cases hloadable with
    | intro hsource' _ => cases hsource.symm.trans hsource'
  | @imported loading loc source e before behind target hfresh hsource htargets hbefore hfails ih =>
    have himport : Imports t loc target.2 :=
      ⟨source, hsource, target, htargets ▸ List.mem_append_right _ (List.mem_cons_self ..), rfl⟩
    exact ih (hloadable.of_imports himport) (transGen_of_mem_loading hway himport)

/-- The first element of a list without a property is one element. -/
lemma eq_of_append_cons {α : Type} {p : α → Prop} {before behind before' behind' : List α}
    {x x' : α} (h : before ++ x :: behind = before' ++ x' :: behind') (hbefore : ∀ y ∈ before, p y)
    (hbefore' : ∀ y ∈ before', p y) (hx : ¬ p x) (hx' : ¬ p x') : x = x' := by
  induction before generalizing before' with
  | nil =>
    cases before' with
    | nil => exact (List.cons.inj h).1
    | cons y rest => exact absurd ((List.cons.inj h).1 ▸ hbefore' y (List.mem_cons_self ..)) hx
  | cons y rest ih =>
    cases before' with
    | nil => exact absurd ((List.cons.inj h).1 ▸ hbefore y (List.mem_cons_self ..)) hx'
    | cons y' rest' =>
      exact ih (List.cons.inj h).2 (fun z hz => hbefore z (List.mem_cons_of_mem _ hz))
        fun z hz => hbefore' z (List.mem_cons_of_mem _ hz)

/-- **There is one way to fail**: the first module that is in the way is one module.

**Proof sketch.** Induction on the first way to fail, by cases on the second one. A module that is
being loaded, or whose source cannot be read, fails in this way only. For a module with imports both
ways name the first import that is in the way; if these were two, one would stand in front of the
other, where all imports can be loaded. -/
theorem Fails.unique {t : FileTree} {loading : List Location} {loc : Location} {e e' : LoadError}
    (h : Fails t loading loc e) (h' : Fails t loading loc e')
    (hway : ∀ other ∈ loading, TransGen (Imports t) other loc) : e = e' := by
  induction h generalizing e' with
  | cycle hloading =>
    cases h' with
    | cycle _ => rfl
    | refused hfresh _ => exact absurd hloading hfresh
    | imported hfresh _ _ _ _ => exact absurd hloading hfresh
  | refused hfresh hsource =>
    cases h' with
    | cycle hloading => exact absurd hloading hfresh
    | refused _ hsource' => exact Except.error.inj (hsource.symm.trans hsource')
    | imported _ hsource' _ _ _ => cases hsource.symm.trans hsource'
  | @imported loading loc source e before behind target hfresh hsource htargets hbefore hfails ih =>
    cases h' with
    | cycle hloading => exact absurd hloading hfresh
    | refused _ hsource' => cases hsource.symm.trans hsource'
    | @imported _ _ source' _ before' behind' target' _ hsource' htargets' hbefore' hfails' =>
      obtain rfl := Except.ok.inj (hsource.symm.trans hsource')
      have himport : ∀ other ∈ targets t loc source.imports, Imports t loc other.2 :=
        fun other hother => ⟨source, hsource, other, hother, rfl⟩
      have hreach := fun other hother => transGen_of_mem_loading hway (himport other hother)
      have hmem : target ∈ targets t loc source.imports :=
        htargets ▸ List.mem_append_right _ (List.mem_cons_self ..)
      have hmem' : target' ∈ targets t loc source.imports :=
        htargets' ▸ List.mem_append_right _ (List.mem_cons_self ..)
      -- of two modules in the way neither stands in front of the other one
      obtain rfl := eq_of_append_cons (htargets.symm.trans htargets') hbefore hbefore'
        (fun hloadable => hloadable.not_fails (hreach _ hmem) hfails)
        (fun hloadable => hloadable.not_fails (hreach _ hmem') hfails')
      exact ih hfails' (hreach _ hmem)

/-! ## Causes -/

/-- The modules of an import cycle: each imports the next one, and the last one is the first. -/
structure IsCycle (t : FileTree) (chain : List Location) : Prop where
  /-- There are two modules at least, the same one twice among them. -/
  two_le : 2 ≤ chain.length
  /-- The chain ends where it begins. -/
  closed : chain.head? = chain.getLast?
  /-- Each module imports the next one. -/
  linked : chain.IsChain (Imports t)

/-- Modules that are being loaded, up to one of them again, are a cycle if each imports the next
one. -/
lemma isCycle_of_mem {t : FileTree} {loading : List Location} {loc : Location}
    (hlinked : (loading ++ [loc]).IsChain (Imports t)) (hmem : loc ∈ loading) :
    IsCycle t (loading.dropWhile (· ≠ loc) ++ [loc]) := by
  have hstart : ∃ rest, loading.dropWhile (· ≠ loc) = loc :: rest := by
    induction loading with
    | nil => exact absurd hmem List.not_mem_nil
    | cons first rest ih =>
      by_cases hfirst : first = loc
      · exact ⟨rest, by simp [hfirst]⟩
      · have hrest := (List.mem_cons.1 hmem).resolve_left (Ne.symm hfirst)
        rw [List.dropWhile_cons_of_pos (by simpa using hfirst)]
        exact ih hlinked.tail hrest
  obtain ⟨rest, hrest⟩ := hstart
  refine ⟨?_, ?_, ?_⟩
  · rw [hrest]
    simp
  · rw [List.getLast?_concat, hrest, List.cons_append, List.head?_cons]
  · obtain ⟨front, hfront⟩ := List.dropWhile_suffix (l := loading) (· ≠ loc)
    rw [← hfront, List.append_assoc] at hlinked
    exact hlinked.right_of_append

/-- A cycle leads from its last module to this module again. -/
lemma IsCycle.exists_transGen {t : FileTree} {chain : List Location} (h : IsCycle t chain) :
    ∃ loc, chain.getLast? = some loc ∧ TransGen (Imports t) loc loc := by
  obtain ⟨htwo, hclosed, hlinked⟩ := h
  match chain with
  | [] => exact absurd htwo (by decide)
  | [_] => exact absurd htwo (by simp)
  | first :: second :: rest =>
    have hlast : (first :: second :: rest).getLast? = some first := hclosed.symm
    refine ⟨first, hlast, ?_⟩
    rw [List.isChain_cons_cons] at hlinked
    obtain ⟨hfirst, hrest⟩ := hlinked
    have hend : (second :: rest).getLast (List.cons_ne_nil _ _) = first := by
      rw [List.getLast?_cons_cons, List.getLast?_eq_some_getLast (List.cons_ne_nil _ _)] at hlast
      exact Option.some.inj hlast
    exact .head' hfirst (List.relationReflTransGen_of_exists_isChain_cons rest hrest hend)

/-- **What is in the way of a load**: a module that is imported, directly or not, and cannot be read
or taken apart, or a cycle of such modules.

**Proof sketch.** Induction on the way to fail, with the modules that are being loaded as a chain of
imports. A cycle is the part of this chain from the module on that is met again; a source that
cannot be read is a cause itself; and an import that fails has its cause further down. -/
theorem Fails.exists_cause {t : FileTree} {loading : List Location} {loc : Location} {e : LoadError}
    (h : Fails t loading loc e) (hlinked : (loading ++ [loc]).IsChain (Imports t)) :
    (∃ dep, ReflTransGen (Imports t) loc dep ∧ sourceAt t dep = .error e) ∨
      ∃ chain dep, e = .importCycle (chain.map Location.path) ∧ IsCycle t chain ∧
        chain.getLast? = some dep ∧ ReflTransGen (Imports t) loc dep := by
  induction h with
  | @cycle loading loc hloading =>
    refine .inr ⟨_, loc, rfl, isCycle_of_mem hlinked hloading, ?_, .refl⟩
    exact List.getLast?_concat
  | @refused loading loc e hfresh hsource => exact .inl ⟨loc, .refl, hsource⟩
  | @imported loading loc source e before behind target hfresh hsource htargets hbefore hfails ih =>
    have himport : Imports t loc target.2 :=
      ⟨source, hsource, target, htargets ▸ List.mem_append_right _ (List.mem_cons_self ..), rfl⟩
    have hnext : (loading ++ [loc] ++ [target.2]).IsChain (Imports t) := by
      refine List.isChain_append.2 ⟨hlinked, List.isChain_singleton _, ?_⟩
      intro last hlast first hfirst
      rw [List.getLast?_concat, Option.mem_some_iff] at hlast
      rw [List.head?_singleton, Option.mem_some_iff] at hfirst
      exact hlast ▸ hfirst ▸ himport
    rcases ih hnext with ⟨dep, hreach, hdep⟩ | ⟨chain, dep, he, hcycle, hlast, hreach⟩
    · exact .inl ⟨dep, .head himport hreach, hdep⟩
    · exact .inr ⟨chain, dep, he, hcycle, hlast, .head himport hreach⟩

/-! ## Loads one after the other -/

/-- The graph after the modules at some paths were loaded, whether that succeeded or not. -/
def afterLoads (t : FileTree) (paths : List Path) : ModuleGraph :=
  paths.foldl (fun g p => (g.load t p).1) {}

/-- What a load of the module at a path does. -/
lemma load_load (t : FileTree) (g : ModuleGraph) (p : Path) :
    Load t [] g (p.location t.workingDirectory) (g.load t p).1 (g.load t p).2 :=
  load_loadAt t [] g _

/-- After some loads the graph is well-formed and as the file tree has its modules. -/
lemma wellFormed_faithful_afterLoads (t : FileTree) (paths : List Path) :
    (afterLoads t paths).WellFormed ∧ (afterLoads t paths).Faithful t := by
  have hloads : ∀ g : ModuleGraph, g.WellFormed ∧ g.Faithful t →
      (paths.foldl (fun g p => (g.load t p).1) g).WellFormed ∧
        (paths.foldl (fun g p => (g.load t p).1) g).Faithful t := by
    induction paths with
    | nil => exact fun _ hg => hg
    | cons p rest ih =>
      exact fun g hg => ih _ ⟨(load_load t g p).wellFormed hg.1, (load_load t g p).faithful hg.2⟩
  exact hloads {} ⟨.empty, .empty t⟩

/-- A module that can be taken apart has a text from which that is done. -/
lemma exists_text_iff {t : FileTree} {loc : Location} {source : Source.Module} :
    sourceAt t loc = .ok source ↔
      ∃ text, t.readTextAt loc = .ok text ∧ Source.Module.ofSource text = .ok source := by
  unfold sourceAt
  cases hread : t.readTextAt loc with
  | error e => simp
  | ok text =>
    cases hparse : Source.Module.ofSource text with
    | error e => simp [hparse]
    | ok source' => simp [hparse]

/-- The causes of a failure are no causes of another kind: a module that cannot be taken apart is no
cycle. -/
lemma sourceAt_ne_importCycle (t : FileTree) (loc : Location) (chain : List Path) :
    sourceAt t loc ≠ .error (.importCycle chain) := by
  intro hcycle
  unfold sourceAt at hcycle
  split at hcycle
  · cases hcycle
  · split at hcycle <;> cases hcycle

/-- **When a load succeeds**: on any graph that comes from loading, the load of the module at a path
comes to an end, and it succeeds exactly if each module that is imported by way of this one has a
text that can be taken apart, and none of them imports itself. The chain of an import cycle is
closed and each of its modules imports the next one.

**Proof sketch.** The load runs in accordance with its relation (`load_load`). If it succeeds, the
module can be loaded, and so can all modules that it imports by way of others; these have sources
and do not import themselves. If it fails, there is a way to fail (`Load.fails`), and its cause is a
source that cannot be read or a cycle (`Fails.exists_cause`). The last part reads the chain off the
cause. -/
theorem load_succeeds_iff (t : FileTree) (earlier : List Path) (p : Path) :
    Load t [] (afterLoads t earlier) (p.location t.workingDirectory)
        ((afterLoads t earlier).load t p).1 ((afterLoads t earlier).load t p).2 ∧
      ((∃ id, ((afterLoads t earlier).load t p).2 = .ok id) ↔
        (∀ loc, ReflTransGen (Imports t) (p.location t.workingDirectory) loc →
          ∃ text source, t.readTextAt loc = .ok text ∧
            Source.Module.ofSource text = .ok source) ∧
        ∀ loc, ReflTransGen (Imports t) (p.location t.workingDirectory) loc →
          ¬ TransGen (Imports t) loc loc) ∧
      ∀ chain, ((afterLoads t earlier).load t p).2 = .error (.importCycle chain) →
        ∃ modules : List Location, chain = modules.map Location.path ∧ 2 ≤ modules.length ∧
          modules.head? = modules.getLast? ∧ modules.IsChain (Imports t) := by
  have hload := load_load t (afterLoads t earlier) p
  obtain ⟨hwell, hfaithful⟩ := wellFormed_faithful_afterLoads t earlier
  refine ⟨hload, ?_, ?_⟩
  · generalize ((afterLoads t earlier).load t p).2 = outcome at hload ⊢
    constructor
    · rintro ⟨id, rfl⟩
      have hloadable : ∀ loc, ReflTransGen (Imports t) (p.location t.workingDirectory) loc →
          Loadable t loc := by
        intro loc hreach
        induction hreach with
        | refl => exact hload.loadable hwell hfaithful
        | tail _ himport ih => exact ih.of_imports himport
      refine ⟨fun loc hreach => ?_, fun loc hreach => (hloadable loc hreach).not_transGen⟩
      cases hloadable loc hreach with
      | @intro _ source hsource _ =>
        obtain ⟨text, hread, hparse⟩ := exists_text_iff.1 hsource
        exact ⟨text, source, hread, hparse⟩
    · rintro ⟨hreadable, hacyclic⟩
      cases outcome with
      | ok id => exact ⟨id, rfl⟩
      | error e =>
        have hfails := hload.fails hwell hfaithful rfl
        rcases hfails.exists_cause (List.isChain_singleton _) with
          ⟨dep, hreach, hsource⟩ | ⟨chain, dep, -, hcycle, hlast, hreach⟩
        · obtain ⟨text, source, hread, hparse⟩ := hreadable dep hreach
          cases hsource.symm.trans (exists_text_iff.2 ⟨text, hread, hparse⟩)
        · obtain ⟨loc, hloc, hself⟩ := hcycle.exists_transGen
          obtain rfl := Option.some.inj (hlast.symm.trans hloc)
          exact absurd hself (hacyclic dep hreach)
  · intro chain hchain
    rw [hchain] at hload
    rcases (hload.fails hwell hfaithful rfl).exists_cause (List.isChain_singleton _) with
      ⟨dep, -, hsource⟩ | ⟨modules, dep, he, hcycle, -, -⟩
    · exact absurd hsource (sourceAt_ne_importCycle t dep chain)
    · exact ⟨modules, LoadError.importCycle.inj he, hcycle.two_le, hcycle.closed, hcycle.linked⟩

end ModuleGraph

end CardTable
