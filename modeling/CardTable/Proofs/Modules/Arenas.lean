import CardTable.Modules.Arena
import CardTable.Proofs.Modules.LoadHistory
import CardTable.Proofs.Files.Places

set_option autoImplicit false

/-!
# What arenas keep

An arena goes through the same loads as the module graph that it holds, and its index has the ids
that are found there. So after any loads, whether they succeeded or not and however the files
changed between them, the index and the row of modules are each other's inverse, each module stands
behind those that it imports, nothing is marked as loading, and what was stored once stays where it
is.

## Main definitions

* `CardTable.Arena.Holds` — the module graph that an arena holds.
* `CardTable.Arena.afterLoads`, `CardTable.Arena.graphAfterLoads` — an arena and the module graph
  after some loads.

## Main results

* `CardTable.Arena.Holds.loadAt` — arenas and module graphs go through the same loads.
* `CardTable.Arena.holds_afterLoads` — after the same loads an arena holds the graph.
* `CardTable.ModuleGraph.Load.isSpelled` — modules are read from places that a path can spell.
* `CardTable.Arena.wellFormed_afterLoads` — what holds of an arena after any loads.
-/

namespace CardTable

/-- The module as an arena stores it. -/
def LoadedModule.stored (m : LoadedModule) : StoredModule :=
  ⟨m.location, m.params, m.deps, m.body⟩

namespace ModuleGraph

open Relation

/-- The ids in a graph with one more module, from a new place. -/
lemma id?_push {g : ModuleGraph} {m : LoadedModule} (hnew : g.id? m.location = none)
    (loc : Location) :
    (g.push m).id? loc = if loc = m.location then some g.size else g.id? loc := by
  unfold id? push size at *
  rw [List.findIdx?_append]
  by_cases hloc : loc = m.location
  · subst hloc
    rw [hnew, if_pos rfl]
    simp
  · rw [if_neg hloc]
    have hlast : List.findIdx? (fun n : LoadedModule => decide (n.location = loc)) [m] = none := by
      simp [Ne.symm hloc]
    rw [hlast, Option.map_none, Option.or_none]

/-- A module whose imports were loaded is still new. -/
lemma LoadTargets.id?_eq_none {t : FileTree} {loading : List Location} {g g' : ModuleGraph}
    {targets : List (String × Location)} {outcome : Except LoadError (List Binding)}
    {loc : Location} (h : LoadTargets t (loading ++ [loc]) g targets g' outcome)
    (hnew : g.id? loc = none) : g'.id? loc = none := by
  refine id?_eq_none_iff.2 fun m hm => ?_
  rcases h.not_mem_loading hm with hold | hout
  · exact id?_eq_none_iff.1 hnew m hold
  · exact fun heq => hout (heq ▸ List.mem_append_right _ (List.mem_singleton_self _))

/-- What is imported from a place that a path can spell is at such a place. -/
lemma isSpelled_of_reachable {t : FileTree} (hstart : t.workingDirectory.IsSpelled)
    {loc other : Location} (hloc : loc.IsSpelled) (h : ReflTransGen (Imports t) loc other) :
    other.IsSpelled := by
  cases h with
  | refl => exact hloc
  | tail _ himport =>
    obtain ⟨source, -, target, htarget, rfl⟩ := himport
    obtain ⟨i, -, hsome⟩ := List.mem_filterMap.1 htarget
    split at hsome
    · next file _ _ =>
      obtain rfl := Option.some.inj hsome
      exact Location.isSpelled_location hstart file
    · cases hsome

/-- **Modules are read from places that a path can spell.** -/
theorem Load.isSpelled {t : FileTree} (hstart : t.workingDirectory.IsSpelled)
    {loading : List Location} {g g' : ModuleGraph} {loc : Location}
    {outcome : Except LoadError Nat} (h : Load t loading g loc g' outcome) (hloc : loc.IsSpelled)
    (hg : ∀ m ∈ g.modules, m.location.IsSpelled) : ∀ m ∈ g'.modules, m.location.IsSpelled := by
  intro m hm
  rcases h.reachable hm with hold | hreach
  · exact hg m hold
  · exact isSpelled_of_reachable hstart hloc hreach

end ModuleGraph

namespace Arena

/-! ## The graph that an arena holds -/

/-- **The module graph that an arena holds**: the same modules under the same ids. -/
structure Holds (a : Arena) (g : ModuleGraph) : Prop where
  /-- The modules are the same. -/
  modules : a.modules = g.modules.map LoadedModule.stored
  /-- The index has their ids. -/
  id?_eq : ∀ loc, a.id? loc = g.id? loc

/-- An arena without modules holds the empty graph. -/
lemma Holds.empty : Holds {} {} :=
  ⟨rfl, fun _ => rfl⟩

/-- Marks are no matter of the graph. -/
lemma Holds.leave {a : Arena} {g : ModuleGraph} (h : a.Holds g) : a.leave.Holds g :=
  ⟨h.modules, h.id?_eq⟩

/-- A module from a new place is stored. -/
lemma Holds.store {a : Arena} {g : ModuleGraph} (h : a.Holds g) {m : LoadedModule}
    (hnew : g.id? m.location = none) : (a.store m.stored).Holds (g.push m) := by
  refine ⟨?_, fun loc => ?_⟩
  · show a.modules ++ [m.stored] = (g.modules ++ [m]).map LoadedModule.stored
    rw [h.modules, List.map_append, List.map_singleton]
  · have hsize : a.modules.length = g.size := by rw [h.modules, List.length_map, ModuleGraph.size]
    rw [ModuleGraph.id?_push hnew, ← h.id?_eq, ← hsize]
    show ((m.location, a.modules.length) :: a.index).lookup loc = _
    rw [List.lookup_cons]
    by_cases hloc : loc = m.location
    · rw [if_pos hloc, hloc, beq_self_eq_true]
    · rw [if_neg hloc, beq_false_of_ne hloc]
      rfl

/-- Whether a load of an arena went as one of a graph: the arena holds the graph afterwards, and the
answers are the same. -/
def SameEnd {α β : Type} (answer : β → α) (r : Arena × Except LoadError α)
    (s : ModuleGraph × Except LoadError β) : Prop :=
  r.1.Holds s.1 ∧ r.2 = s.2.map answer

/-- The names of bindings and the ids that they are bound to. -/
def columns (bindings : List Binding) : List String × List Nat :=
  (bindings.map Binding.name, bindings.map Binding.module)

/-- Imports are loaded in the same way if modules are. -/
lemma Holds.loadImports {t : FileTree} {loading : List Location}
    (hload : ∀ {a : Arena} {g : ModuleGraph}, a.Holds g → a.loading = loading → ∀ loc,
      SameEnd id (Arena.loadAt t a loc).1 (g.loadAt t loading loc))
    {a : Arena} {g : ModuleGraph} (h : a.Holds g) (hloading : a.loading = loading)
    (importer : Location) (imports : List Source.Import) :
    SameEnd columns (Arena.loadImports t a importer imports).1
      (g.loadImports t loading importer imports) := by
  induction imports generalizing a g with
  | nil =>
    rw [Arena.loadImports, ModuleGraph.loadImports]
    exact ⟨h, rfl⟩
  | cons i rest ih =>
    rw [Arena.loadImports, ModuleGraph.loadImports]
    cases hname : i.binding? with
    | none => exact ih h hloading
    | some name =>
      cases hfile : resolve t importer.path i.specifier with
      | noBinding => exact ih h hloading
      | unresolved => exact ih h hloading
      | resolved file =>
        have hfirst := hload h hloading (file.location t.workingDirectory)
        dsimp only
        generalize Arena.loadAt t a (file.location t.workingDirectory) = left at hfirst ⊢
        generalize g.loadAt t loading (file.location t.workingDirectory) = result at hfirst ⊢
        obtain ⟨⟨b, answer⟩, hb⟩ := left
        obtain ⟨g', outcome⟩ := result
        obtain ⟨hholds, rfl : answer = outcome.map id⟩ := hfirst
        cases outcome with
        | error e => exact ⟨hholds, rfl⟩
        | ok dep =>
          have hrest := ih hholds (hb.trans hloading)
          dsimp only [Except.map, id]
          generalize Arena.loadImports t b importer rest = left at hrest ⊢
          generalize g'.loadImports t loading importer rest = result at hrest ⊢
          obtain ⟨⟨c, answer⟩, hc⟩ := left
          obtain ⟨g'', outcome⟩ := result
          obtain ⟨hholds, rfl : answer = outcome.map columns⟩ := hrest
          cases outcome <;> exact ⟨hholds, rfl⟩

/-- **Arenas and module graphs go through the same loads.**

**Proof sketch.** Induction on the number of places that are not being loaded. Both loads look up
the same id and read the same source. The imports are loaded into an arena that marks the module as
being loaded and into a graph that is told so, by the induction hypothesis in step. Behind them the
mark is taken off, and the module is stored under the same id in both. -/
theorem Holds.loadAt {t : FileTree} {a : Arena} {g : ModuleGraph} (h : a.Holds g) (loc : Location) :
    SameEnd id (Arena.loadAt t a loc).1 (g.loadAt t a.loading loc) := by
  -- each module that is being loaded leaves fewer places
  induction hn : (ModuleGraph.waiting t a.loading).length using Nat.strongRecOn
    generalizing a g loc with
  | ind n ih =>
    rw [Arena.loadAt, ModuleGraph.loadAt_eq, ← h.id?_eq]
    cases hid : a.id? loc with
    | some id => exact ⟨h, rfl⟩
    | none =>
      dsimp only
      by_cases hloading : loc ∈ a.loading
      · rw [dif_pos hloading, if_pos hloading]
        exact ⟨h, rfl⟩
      · rw [dif_neg hloading, if_neg hloading]
        split
        · next e hread =>
          simp only [ModuleGraph.sourceAt, hread]
          exact ⟨h, rfl⟩
        · next text hread =>
          simp only [ModuleGraph.sourceAt, hread]
          cases hparse : Source.Module.ofSource text with
          | error e => exact ⟨h, rfl⟩
          | ok source =>
            have hfewer :=
              ModuleGraph.waiting_lt (FileTree.mem_places_of_readTextAt hread) hloading
            have hload : ∀ {b : Arena} {g' : ModuleGraph}, b.Holds g' →
                b.loading = a.loading ++ [loc] → ∀ loc', SameEnd id (Arena.loadAt t b loc').1
                  (g'.loadAt t (a.loading ++ [loc]) loc') :=
              fun hb hsame loc' => hsame ▸ ih _ (hn ▸ hsame ▸ hfewer) hb loc' rfl
            have himports :=
              Holds.loadImports hload (a := a.enter loc) ⟨h.modules, h.id?_eq⟩ rfl loc
              source.imports
            have hnew :
                (g.loadImports t (a.loading ++ [loc]) loc source.imports).1.id? loc = none := by
              have hsteps := ModuleGraph.loadTargets_loadImports
                (ModuleGraph.load_loadAt t (a.loading ++ [loc])) g loc source.imports
              exact hsteps.id?_eq_none (h.id?_eq loc ▸ hid)
            dsimp only
            generalize Arena.loadImports t (a.enter loc) loc source.imports = left at himports ⊢
            generalize g.loadImports t (a.loading ++ [loc]) loc source.imports = result
              at himports hnew ⊢
            obtain ⟨⟨b, answer⟩, hb⟩ := left
            obtain ⟨g', outcome⟩ := result
            obtain ⟨hholds, rfl : answer = outcome.map columns⟩ := himports
            cases outcome with
            | error e => exact ⟨hholds.leave, rfl⟩
            | ok bindings =>
              have hsize : b.modules.length = g'.size := by
                rw [hholds.modules, List.length_map, ModuleGraph.size]
              refine ⟨hholds.leave.store (m := ⟨loc, bindings, source.body⟩) hnew, ?_⟩
              exact congrArg Except.ok hsize

/-- An arena that holds a graph answers as the graph does. -/
lemma Holds.load {a : Arena} {g : ModuleGraph} (h : a.Holds g) (hidle : a.loading = [])
    (t : FileTree) (p : Path) : SameEnd id (a.load t p) (g.load t p) := by
  have hload := h.loadAt (t := t) (p.location t.workingDirectory)
  rwa [show g.loadAt t a.loading = g.loadAt t [] by rw [hidle]] at hload

/-! ## Loads one after the other -/

/-- **What holds of an arena** between loads. -/
structure WellFormed (a : Arena) : Prop where
  /-- The index has the position of each module under the place it was read from, and nothing
  else. -/
  id?_eq_some_iff : ∀ loc id, a.id? loc = some id ↔
    ∃ m, a.modules[id]? = some m ∧ m.location = loc
  /-- No two modules have one path. -/
  distinct : (a.modules.map StoredModule.path).Nodup
  /-- The paths of modules are absolute and normalized. -/
  normalized : ∀ m ∈ a.modules, m.path.isAbsolute = true ∧ m.path.normalize = m.path
  /-- Modules stand behind those that they import. -/
  deps_lt : ∀ (id : Nat) (m : StoredModule), a.modules[id]? = some m → ∀ dep ∈ m.deps, dep < id
  /-- Each name is bound to one module. -/
  paired : ∀ m ∈ a.modules, m.params.length = m.deps.length
  /-- Nothing is marked as loading. -/
  idle : a.loading = []

/-- What a graph has of its own holds of the arena that holds it. -/
lemma Holds.wellFormed {a : Arena} {g : ModuleGraph} (h : a.Holds g) (hwell : g.WellFormed)
    (hspelled : ∀ m ∈ g.modules, m.location.IsSpelled) (hidle : a.loading = []) :
    a.WellFormed := by
  have hget : ∀ {id : Nat} {m : StoredModule}, a.modules[id]? = some m →
      ∃ n, g.modules[id]? = some n ∧ n.stored = m := by
    intro id m hm
    rw [h.modules, List.getElem?_map, Option.map_eq_some_iff] at hm
    exact hm
  have hmem : ∀ {m : StoredModule}, m ∈ a.modules → ∃ n ∈ g.modules, n.stored = m := by
    intro m hm
    rw [h.modules] at hm
    exact List.mem_map.1 hm
  refine ⟨fun loc id => ?_, ?_, fun m hm => ?_, fun id m hm dep hdep => ?_, fun m hm => ?_, hidle⟩
  · rw [h.id?_eq]
    constructor
    · intro hid
      obtain ⟨m, hm, hlocation⟩ := ModuleGraph.exists_of_id? hid
      refine ⟨m.stored, ?_, hlocation⟩
      rw [h.modules, List.getElem?_map, hm, Option.map_some]
    · rintro ⟨m, hm, rfl⟩
      obtain ⟨n, hn, rfl⟩ := hget hm
      exact hwell.id?_eq hn
  · have hpaths : a.modules.map StoredModule.path = g.modules.map LoadedModule.path := by
      rw [h.modules, List.map_map]
      rfl
    rw [hpaths, List.Nodup, List.pairwise_map]
    refine hwell.distinct.imp_of_mem fun hm hn hne heq => hne ?_
    exact Location.path_injective (hspelled _ hm) (hspelled _ hn) heq
  · obtain ⟨n, hn, rfl⟩ := hmem hm
    exact ⟨Location.isAbsolute_path _, Location.normalize_path (hspelled n hn)⟩
  · obtain ⟨n, hn, rfl⟩ := hget hm
    obtain ⟨b, hb, rfl⟩ := List.mem_map.1 hdep
    exact hwell.deps_lt id n hn b hb
  · obtain ⟨n, hn, rfl⟩ := hmem hm
    show (n.bindings.map _).length = (n.bindings.map _).length
    rw [List.length_map, List.length_map]

/-- The arena after the modules at some paths were loaded, each from a tree of its own, whether that
succeeded or not. -/
def afterLoads (calls : List (FileTree × Path)) : Arena :=
  calls.foldl (fun a call => (a.load call.1 call.2).1) {}

/-- The module graph after the same loads. -/
def graphAfterLoads (calls : List (FileTree × Path)) : ModuleGraph :=
  calls.foldl (fun g call => (g.load call.1 call.2).1) {}

/-- One load more. -/
lemma afterLoads_concat (calls : List (FileTree × Path)) (call : FileTree × Path) :
    afterLoads (calls ++ [call]) = ((afterLoads calls).load call.1 call.2).1 := by
  unfold afterLoads
  rw [List.foldl_concat]

/-- After any loads nothing is marked as loading. -/
lemma loading_afterLoads (calls : List (FileTree × Path)) : (afterLoads calls).loading = [] := by
  induction calls using List.reverseRecOn with
  | nil => rfl
  | append_singleton calls call ih =>
    rw [afterLoads_concat]
    exact (loadAt call.1 (afterLoads calls) _).2.trans ih

/-- **After any loads an arena holds the graph after the same loads**, which is well-formed and has
modules at places that a path can spell if the loads start at such places.

**Proof sketch.** Induction on the calls, the last one split off: a call keeps that the arena holds
the graph (`Holds.load`), and the load that it stands for keeps the graph well-formed. -/
theorem holds_afterLoads (calls : List (FileTree × Path)) :
    (afterLoads calls).Holds (graphAfterLoads calls) ∧ (graphAfterLoads calls).WellFormed ∧
      ((∀ call ∈ calls, call.1.workingDirectory.IsSpelled) →
        ∀ m ∈ (graphAfterLoads calls).modules, m.location.IsSpelled) := by
  induction calls using List.reverseRecOn with
  | nil => exact ⟨.empty, .empty, fun _ _ hm => absurd hm List.not_mem_nil⟩
  | append_singleton calls call ih =>
    obtain ⟨t, p⟩ := call
    obtain ⟨hholds, hwell, hspelled⟩ := ih
    have hgraph : graphAfterLoads (calls ++ [(t, p)]) = ((graphAfterLoads calls).load t p).1 := by
      unfold graphAfterLoads
      rw [List.foldl_concat]
    have hsteps := ModuleGraph.load_loadAt t [] (graphAfterLoads calls)
      (p.location t.workingDirectory)
    rw [afterLoads_concat, hgraph]
    refine ⟨(hholds.load (loading_afterLoads calls) t p).1, hsteps.wellFormed hwell, ?_⟩
    intro hstart
    have ht : t.workingDirectory.IsSpelled :=
      hstart (t, p) (List.mem_append_right _ (List.mem_singleton_self _))
    exact hsteps.isSpelled ht (Location.isSpelled_location ht p)
      (hspelled fun call hcall => hstart call (List.mem_append_left _ hcall))

/-- **Later loads keep what is stored**: the modules stay where they are. -/
theorem prefix_afterLoads (earlier later : List (FileTree × Path)) :
    (afterLoads earlier).modules <+: (afterLoads (earlier ++ later)).modules := by
  induction later using List.reverseRecOn with
  | nil => exact ⟨[], by rw [List.append_nil, List.append_nil]⟩
  | append_singleton later call ih =>
    obtain ⟨t, p⟩ := call
    obtain ⟨hholds, -, -⟩ := holds_afterLoads (earlier ++ later)
    obtain ⟨hafter, -⟩ := hholds.load (loading_afterLoads (earlier ++ later)) t p
    refine ih.trans ?_
    rw [← List.append_assoc, afterLoads_concat, hholds.modules, hafter.modules]
    exact (ModuleGraph.load_loadAt t [] _ _).prefix_modules.map _

/-- **What holds of an arena after any loads**, however the files changed between them: index and
modules are each other's inverse, paths are absolute and normalized, modules stand behind those that
they import, names and modules are paired, and nothing is marked as loading. The arena holds the
graph after the same loads, and what was stored is stored still.

**Proof sketch.** After any calls the arena holds the graph after the same calls
(`holds_afterLoads`), so that what is known of graphs carries over to it; no module stays marked, by
induction on the calls, and stored modules are only added to. -/
theorem wellFormed_afterLoads {calls : List (FileTree × Path)}
    (hstart : ∀ call ∈ calls, call.1.workingDirectory.IsSpelled) :
    (afterLoads calls).WellFormed ∧ (afterLoads calls).Holds (graphAfterLoads calls) ∧
      ∀ earlier later, calls = earlier ++ later →
        (afterLoads earlier).modules <+: (afterLoads calls).modules := by
  obtain ⟨hholds, hwell, hspelled⟩ := holds_afterLoads calls
  refine ⟨hholds.wellFormed hwell (hspelled hstart) (loading_afterLoads calls), hholds, ?_⟩
  rintro earlier later rfl
  exact prefix_afterLoads earlier later

/-- Two modules in a directory; the first one imports the second one, which has the given source. -/
def twoCards (second : String) : FileTree :=
  { entries :=
      [(["cards"], .directory),
        (["cards", "a.ts"], .file (.bytes "import b from './b'\nexport default b".toUTF8)),
        (["cards", "b.ts"], .file (.bytes second.toUTF8))],
    workingDirectory := ["cards"] }

/-- A load of modules that import each other fails; the modules are loaded once the second one is
edited. -/
def loadsAroundEdit : List (FileTree × Path) :=
  [(twoCards "import a from './a'\nexport default a", ⟨"a.ts"⟩),
    (twoCards "export default 1", ⟨"./x/../a.ts"⟩)]

/-- What holds of the arena after these loads. -/
theorem wellFormed_after_edit :
    (afterLoads loadsAroundEdit).WellFormed ∧
      (afterLoads loadsAroundEdit).Holds (graphAfterLoads loadsAroundEdit) ∧
      ∀ earlier later, loadsAroundEdit = earlier ++ later →
        (afterLoads earlier).modules <+: (afterLoads loadsAroundEdit).modules := by
  have hname : Path.IsName "cards" := ⟨by decide, by decide⟩
  refine wellFormed_afterLoads fun call hcall s hs => ?_
  have hstart : call.1.workingDirectory = ["cards"] := by
    rcases List.mem_cons.1 hcall with rfl | hlast
    · rfl
    · obtain rfl := List.mem_singleton.1 hlast
      rfl
  rw [hstart] at hs
  exact List.mem_singleton.1 hs ▸ hname

end Arena

end CardTable
