import Mathlib.Data.List.Forall2
import Mathlib.Logic.Relation
import CardTable.Modules.Graph

set_option autoImplicit false

/-!
# What a load does

Loading a module is a walk over the modules that it imports, directly or not. The steps of this walk
are stated once, as a relation between the graph before and the graph afterwards, and what holds of
every load is read off the steps: modules are only added, each of them behind those it imports and
as the file tree has it, and none twice.

A load succeeds where everything that is imported on the way can be read and no module imports
itself, whatever was loaded before.

## Main definitions

* `CardTable.ModuleGraph.sourceAt` and `CardTable.ModuleGraph.targets` — a module as the file tree
  has it, and the modules that its names are bound to.
* `CardTable.ModuleGraph.Load` — what a load does, step by step.
* `CardTable.ModuleGraph.WellFormed`, `CardTable.ModuleGraph.Faithful` — graphs that come from
  loading.
* `CardTable.ModuleGraph.Loadable` — the modules that can be loaded.

## Main results

* `CardTable.ModuleGraph.load_loadAt` — loading does what the relation says.
* `CardTable.ModuleGraph.Load.prefix_modules`, `CardTable.ModuleGraph.Load.located`,
  `CardTable.ModuleGraph.Load.wellFormed`, `CardTable.ModuleGraph.Load.faithful` — the graph
  afterwards.
* `CardTable.ModuleGraph.Load.reachable` — what is added is imported.
* `CardTable.ModuleGraph.Load.exists_ok` — modules that can be loaded are.
* `CardTable.ModuleGraph.loadable_of_mem` — modules that are loaded can be loaded.
-/

namespace CardTable

namespace ModuleGraph

open Relation

/-! ## Modules in the file tree -/

/-- The module at a place, taken apart. -/
def sourceAt (t : FileTree) (loc : Location) : Except LoadError Source.Module :=
  match t.readTextAt loc with
  | .error e => .error (.unreadable loc.path e)
  | .ok text =>
    match Source.Module.ofSource text with
    | .error e => .error (.source loc.path e)
    | .ok source => .ok source

/-- The names that the imports of a module bind, each with the place of its module. -/
def targets (t : FileTree) (importer : Location) (imports : List Source.Import) :
    List (String × Location) :=
  imports.filterMap fun i =>
    match i.binding?, resolve t importer.path i.specifier with
    | some name, .resolved file => some (name, file.location t.workingDirectory)
    | _, _ => none

/-- Whether the module at `loc` binds a name to the module at `dep`. -/
def Imports (t : FileTree) (loc dep : Location) : Prop :=
  ∃ source, sourceAt t loc = .ok source ∧
    ∃ target ∈ targets t loc source.imports, target.2 = dep

/-- How a module is loaded: it is taken apart, and added behind those that it imports. -/
lemma loadAt_eq (t : FileTree) (loading : List Location) (g : ModuleGraph) (loc : Location) :
    loadAt t loading g loc =
      match g.id? loc with
      | some id => (g, .ok id)
      | none =>
        if loc ∈ loading then
          (g, .error (.importCycle
            ((loading.dropWhile (· ≠ loc) ++ [loc]).map Location.path)))
        else
          match sourceAt t loc with
          | .error e => (g, .error e)
          | .ok source =>
            match loadImports t (loading ++ [loc]) g loc source.imports with
            | (g, .error e) => (g, .error e)
            | (g, .ok bindings) => (g.push ⟨loc, bindings, source.body⟩, .ok g.size) := by
  rw [loadAt]
  cases hid : g.id? loc with
  | some id => rfl
  | none =>
    dsimp only
    by_cases hloading : loc ∈ loading
    · rw [dif_pos hloading, if_pos hloading]
    · rw [dif_neg hloading, if_neg hloading]
      split
      · next e hread => simp only [sourceAt, hread]
      · next text hread =>
        simp only [sourceAt, hread]
        cases Source.Module.ofSource text <;> rfl

/-- A module that can be taken apart is at a place in use. -/
lemma mem_places_of_sourceAt {t : FileTree} {loc : Location} {source : Source.Module}
    (h : sourceAt t loc = .ok source) : loc ∈ t.places := by
  unfold sourceAt at h
  split at h
  · cases h
  · next text hread => exact FileTree.mem_places_of_readTextAt hread

/-! ## Steps -/

mutual

/-- **What a load does**: from the graph `g`, while the modules at `loading` are being loaded, the
load of the module at `loc` gives the graph `g'` and the outcome. -/
inductive Load (t : FileTree) :
    List Location → ModuleGraph → Location → ModuleGraph → Except LoadError Nat → Prop
  /-- The module is in the graph. -/
  | known {loading : List Location} {g : ModuleGraph} {loc : Location} {id : Nat}
      (hid : g.id? loc = some id) : Load t loading g loc g (.ok id)
  /-- The module is being loaded. -/
  | cycle {loading : List Location} {g : ModuleGraph} {loc : Location}
      (hnew : g.id? loc = none) (hloading : loc ∈ loading) :
      Load t loading g loc g (.error (.importCycle
        ((loading.dropWhile (· ≠ loc) ++ [loc]).map Location.path)))
  /-- The module cannot be read or taken apart. -/
  | refused {loading : List Location} {g : ModuleGraph} {loc : Location} {e : LoadError}
      (hnew : g.id? loc = none) (hfresh : loc ∉ loading) (hsource : sourceAt t loc = .error e) :
      Load t loading g loc g (.error e)
  /-- A module that it imports cannot be loaded. -/
  | failed {loading : List Location} {g g' : ModuleGraph} {loc : Location}
      {source : Source.Module} {e : LoadError}
      (hnew : g.id? loc = none) (hfresh : loc ∉ loading) (hsource : sourceAt t loc = .ok source)
      (himports : LoadTargets t (loading ++ [loc]) g (targets t loc source.imports) g' (.error e)) :
      Load t loading g loc g' (.error e)
  /-- The module is added behind those that it imports. -/
  | loaded {loading : List Location} {g g' : ModuleGraph} {loc : Location}
      {source : Source.Module} {bindings : List Binding}
      (hnew : g.id? loc = none) (hfresh : loc ∉ loading) (hsource : sourceAt t loc = .ok source)
      (himports :
        LoadTargets t (loading ++ [loc]) g (targets t loc source.imports) g' (.ok bindings)) :
      Load t loading g loc (g'.push ⟨loc, bindings, source.body⟩) (.ok g'.size)

/-- What the loads of several modules do, one after the other. -/
inductive LoadTargets (t : FileTree) :
    List Location → ModuleGraph → List (String × Location) → ModuleGraph →
      Except LoadError (List Binding) → Prop
  /-- Nothing is left to load. -/
  | nil {loading : List Location} {g : ModuleGraph} : LoadTargets t loading g [] g (.ok [])
  /-- The first module cannot be loaded. -/
  | first {loading : List Location} {g g' : ModuleGraph} {target : String × Location}
      {rest : List (String × Location)} {e : LoadError}
      (hload : Load t loading g target.2 g' (.error e)) :
      LoadTargets t loading g (target :: rest) g' (.error e)
  /-- A later module cannot be loaded. -/
  | later {loading : List Location} {g g' g'' : ModuleGraph} {target : String × Location}
      {rest : List (String × Location)} {id : Nat} {e : LoadError}
      (hload : Load t loading g target.2 g' (.ok id))
      (hrest : LoadTargets t loading g' rest g'' (.error e)) :
      LoadTargets t loading g (target :: rest) g'' (.error e)
  /-- The first module is loaded, and so are the others. -/
  | cons {loading : List Location} {g g' g'' : ModuleGraph} {target : String × Location}
      {rest : List (String × Location)} {id : Nat} {bindings : List Binding}
      (hload : Load t loading g target.2 g' (.ok id))
      (hrest : LoadTargets t loading g' rest g'' (.ok bindings)) :
      LoadTargets t loading g (target :: rest) g'' (.ok (⟨target.1, id⟩ :: bindings))

end

/-- The imports of a module are loaded one after the other if single modules are. -/
lemma loadTargets_loadImports {t : FileTree} {loading : List Location}
    (hload : ∀ g loc, Load t loading g loc (loadAt t loading g loc).1 (loadAt t loading g loc).2)
    (g : ModuleGraph) (importer : Location) (imports : List Source.Import) :
    LoadTargets t loading g (targets t importer imports)
      (loadImports t loading g importer imports).1
      (loadImports t loading g importer imports).2 := by
  induction imports generalizing g with
  | nil =>
    rw [loadImports]
    exact .nil
  | cons i rest ih =>
    rw [loadImports]
    split
    · next name file hname hfile =>
      have htargets : targets t importer (i :: rest) =
          (name, file.location t.workingDirectory) :: targets t importer rest := by
        simp only [targets, List.filterMap_cons, hname, hfile]
      have hfirst := hload g (file.location t.workingDirectory)
      rw [htargets]
      generalize loadAt t loading g (file.location t.workingDirectory) = result at hfirst ⊢
      obtain ⟨g', outcome⟩ := result
      cases outcome with
      | error e => exact .first hfirst
      | ok id =>
        have hrest := ih g'
        dsimp only
        generalize loadImports t loading g' importer rest = result at hrest ⊢
        obtain ⟨g'', outcome⟩ := result
        cases outcome with
        | error e => exact .later hfirst hrest
        | ok bindings => exact .cons hfirst hrest
    · next hdropped =>
      have htargets : targets t importer (i :: rest) = targets t importer rest := by
        unfold targets
        rw [List.filterMap_cons]
        split
        · rfl
        · next target hsome =>
          split at hsome
          · next name file hname hfile => exact absurd hfile (hdropped name file hname)
          · cases hsome
      rw [htargets]
      exact ih g

/-- **Loading does what the relation says.**

**Proof sketch.** Strong induction on the number of places that are not being loaded. Each branch of
the load is one rule of the relation. The imports of a module are loaded with this module among
those that are being loaded, so that there is one place less (`waiting_lt`), and their loads follow
the relation by the induction hypothesis. -/
theorem load_loadAt (t : FileTree) (loading : List Location) (g : ModuleGraph) (loc : Location) :
    Load t loading g loc (loadAt t loading g loc).1 (loadAt t loading g loc).2 := by
  -- each module that is being loaded leaves fewer places
  induction hn : (waiting t loading).length using Nat.strongRecOn
    generalizing loading g loc with
  | ind n ih =>
    rw [loadAt]
    split
    · next id hid => exact .known hid
    · next hnew =>
      split
      · next hloading => exact .cycle hnew hloading
      · next hfresh =>
        split
        · next e hread =>
          refine .refused hnew hfresh ?_
          simp only [sourceAt, hread]
        · next text hread =>
          split
          · next e hparse =>
            refine .refused hnew hfresh ?_
            simp only [sourceAt, hread, hparse]
          · next source hparse =>
            have hsource : sourceAt t loc = .ok source := by
              simp only [sourceAt, hread, hparse]
            have hfewer := waiting_lt (FileTree.mem_places_of_readTextAt hread) hfresh
            have himports := loadTargets_loadImports
              (fun g' loc' => ih _ (hn ▸ hfewer) (loading ++ [loc]) g' loc' rfl) g loc source.imports
            generalize loadImports t (loading ++ [loc]) g loc source.imports = result
              at himports ⊢
            obtain ⟨g', outcome⟩ := result
            cases outcome with
            | error e => exact .failed hnew hfresh hsource himports
            | ok bindings => exact .loaded hnew hfresh hsource himports

/-! ## The graph afterwards -/

/-- The id of a place is that of a module which was read from there. -/
lemma exists_of_id? {g : ModuleGraph} {loc : Location} {id : Nat} (h : g.id? loc = some id) :
    ∃ m, g.modules[id]? = some m ∧ m.location = loc := by
  obtain ⟨hlt, hloc, -⟩ := List.findIdx?_eq_some_iff_getElem.1 h
  exact ⟨g.modules[id], List.getElem?_eq_getElem hlt, of_decide_eq_true hloc⟩

/-- A place without an id is not one of a module. -/
lemma id?_eq_none_iff {g : ModuleGraph} {loc : Location} :
    g.id? loc = none ↔ ∀ m ∈ g.modules, m.location ≠ loc := by
  unfold id?
  rw [List.findIdx?_eq_none_iff]
  simp only [decide_eq_false_iff_not, ne_eq]

/-- Modules keep their ids when modules are added. -/
lemma getElem?_of_prefix {ms ns : List LoadedModule} (h : ms <+: ns) {id : Nat}
    {m : LoadedModule} (hm : ms[id]? = some m) : ns[id]? = some m := by
  obtain ⟨added, rfl⟩ := h
  have hlt := (List.getElem?_eq_some_iff.1 hm).1
  rw [List.getElem?_append_left hlt, hm]

mutual

/-- **Loading only adds modules**, whether it succeeds or not. -/
theorem Load.prefix_modules {t : FileTree} {loading : List Location} {g g' : ModuleGraph}
    {loc : Location} {outcome : Except LoadError Nat} (h : Load t loading g loc g' outcome) :
    g.modules <+: g'.modules :=
  match h with
  | .known _ => List.prefix_rfl
  | .cycle _ _ => List.prefix_rfl
  | .refused _ _ _ => List.prefix_rfl
  | .failed _ _ _ himports => himports.prefix_modules
  | .loaded _ _ _ himports => himports.prefix_modules.trans (List.prefix_append _ _)

/-- Loading several modules only adds modules. -/
theorem LoadTargets.prefix_modules {t : FileTree} {loading : List Location} {g g' : ModuleGraph}
    {targets : List (String × Location)} {outcome : Except LoadError (List Binding)}
    (h : LoadTargets t loading g targets g' outcome) : g.modules <+: g'.modules :=
  match h with
  | .nil => List.prefix_rfl
  | .first hload => hload.prefix_modules
  | .later hload hrest => hload.prefix_modules.trans hrest.prefix_modules
  | .cons hload hrest => hload.prefix_modules.trans hrest.prefix_modules

end

/-- Whether the graph has the module of `target` under the id that a binding has for it. -/
def Links (g : ModuleGraph) (target : String × Location) (b : Binding) : Prop :=
  b.name = target.1 ∧ ∃ m, g.modules[b.module]? = some m ∧ m.location = target.2

/-- Links stay when modules are added. -/
lemma Links.of_prefix {g g' : ModuleGraph} {target : String × Location} {b : Binding}
    (h : g.Links target b) (hadded : g.modules <+: g'.modules) : g'.Links target b := by
  obtain ⟨hname, m, hm, hlocation⟩ := h
  exact ⟨hname, m, getElem?_of_prefix hadded hm, hlocation⟩

/-- A module that was loaded is in the graph under its id. -/
theorem Load.located {t : FileTree} {loading : List Location} {g g' : ModuleGraph}
    {loc : Location} {id : Nat} (h : Load t loading g loc g' (.ok id)) :
    ∃ m, g'.modules[id]? = some m ∧ m.location = loc := by
  cases h with
  | known hid => exact exists_of_id? hid
  | loaded hnew hfresh hsource himports =>
    exact ⟨_, List.getElem?_concat_length .., rfl⟩

/-- Modules that were loaded are linked. -/
lemma LoadTargets.links {t : FileTree} {loading : List Location} {g g' : ModuleGraph}
    {targets : List (String × Location)} {bindings : List Binding}
    (h : LoadTargets t loading g targets g' (.ok bindings)) :
    List.Forall₂ g'.Links targets bindings :=
  match h with
  | .nil => .nil
  | .cons hload hrest => by
    obtain ⟨m, hm, hlocation⟩ := hload.located
    exact .cons ⟨rfl, m, getElem?_of_prefix hrest.prefix_modules hm, hlocation⟩ hrest.links

mutual

/-- The modules that are being loaded are not among those that are added. -/
lemma Load.not_mem_loading {t : FileTree} {loading : List Location} {g g' : ModuleGraph}
    {loc : Location} {outcome : Except LoadError Nat} (h : Load t loading g loc g' outcome)
    {m : LoadedModule} (hm : m ∈ g'.modules) : m ∈ g.modules ∨ m.location ∉ loading :=
  match h with
  | .known _ => .inl hm
  | .cycle _ _ => .inl hm
  | .refused _ _ _ => .inl hm
  | .failed _ _ _ himports =>
    (himports.not_mem_loading hm).imp_right fun hout hin => hout (List.mem_append_left _ hin)
  | .loaded _ hfresh _ himports => by
    rcases List.mem_append.1 hm with hold | hnew
    · exact (himports.not_mem_loading hold).imp_right fun hout hin =>
        hout (List.mem_append_left _ hin)
    · obtain rfl := List.mem_singleton.1 hnew
      exact .inr hfresh

/-- The modules that are being loaded are not among those that are added. -/
lemma LoadTargets.not_mem_loading {t : FileTree} {loading : List Location} {g g' : ModuleGraph}
    {targets : List (String × Location)} {outcome : Except LoadError (List Binding)}
    (h : LoadTargets t loading g targets g' outcome) {m : LoadedModule} (hm : m ∈ g'.modules) :
    m ∈ g.modules ∨ m.location ∉ loading :=
  match h with
  | .nil => .inl hm
  | .first hload => hload.not_mem_loading hm
  | .later hload hrest => (hrest.not_mem_loading hm).elim hload.not_mem_loading .inr
  | .cons hload hrest => (hrest.not_mem_loading hm).elim hload.not_mem_loading .inr

end

/-- A graph as loading makes it: each module is there once, behind those that it imports. -/
structure WellFormed (g : ModuleGraph) : Prop where
  /-- No two modules were read from one place. -/
  distinct : g.modules.Pairwise fun m n => m.location ≠ n.location
  /-- The modules that names are bound to come first. -/
  deps_lt : ∀ (id : Nat) (m : LoadedModule), g.modules[id]? = some m →
    ∀ b ∈ m.bindings, b.module < id

/-- The empty graph is well-formed. -/
lemma WellFormed.empty : WellFormed {} := by
  refine ⟨List.Pairwise.nil, ?_⟩
  intro id m h
  cases h

/-- A module from a new place can be added behind those that it imports. -/
lemma WellFormed.push {g : ModuleGraph} (h : g.WellFormed) {m : LoadedModule}
    (hnew : ∀ n ∈ g.modules, n.location ≠ m.location)
    (hdeps : ∀ b ∈ m.bindings, b.module < g.size) :
    (g.push m).WellFormed := by
  refine ⟨?_, ?_⟩
  · refine List.pairwise_append.2 ⟨h.distinct, List.pairwise_singleton .., ?_⟩
    intro n hn other hother
    obtain rfl := List.mem_singleton.1 hother
    exact hnew n hn
  · intro id n hn b hb
    change (g.modules ++ [m])[id]? = some n at hn
    by_cases hid : id < g.modules.length
    · rw [List.getElem?_append_left hid] at hn
      exact h.deps_lt id n hn b hb
    · rw [List.getElem?_append_right (by omega)] at hn
      obtain ⟨hlt, heq⟩ := List.getElem?_eq_some_iff.1 hn
      rw [List.getElem_singleton] at heq
      subst heq
      have hlast := hdeps b hb
      unfold size at hlast
      omega

/-- What stands on one side of related lists has a partner on the other side. -/
lemma exists_of_mem_of_forall₂ {α β : Type} {R : α → β → Prop} {as : List α} {bs : List β}
    (h : List.Forall₂ R as bs) {a : α} (ha : a ∈ as) : ∃ b ∈ bs, R a b := by
  induction h with
  | nil => exact absurd ha List.not_mem_nil
  | cons hrelated _ ih =>
    rcases List.mem_cons.1 ha with rfl | ha
    · exact ⟨_, List.mem_cons_self .., hrelated⟩
    · obtain ⟨b, hb, hrelated⟩ := ih ha
      exact ⟨b, List.mem_cons_of_mem _ hb, hrelated⟩

/-- Links lead to modules of the graph. -/
lemma module_lt_of_links {g : ModuleGraph} {targets : List (String × Location)}
    {bindings : List Binding} (h : List.Forall₂ g.Links targets bindings) :
    ∀ b ∈ bindings, b.module < g.size := by
  induction h with
  | nil =>
    intro b hb
    cases hb
  | cons hlink _ ih =>
    obtain ⟨-, m, hm, -⟩ := hlink
    intro b hb
    rcases List.mem_cons.1 hb with rfl | hb
    · exact (List.getElem?_eq_some_iff.1 hm).1
    · exact ih b hb

mutual

/-- **Loading keeps graphs well-formed.**

**Proof sketch.** Recursion along the load. Only a module that was loaded is added, behind all its
imports. That no other module stands at its place follows from the graph not having had it before
and from the imports being loaded while it is being loaded. -/
theorem Load.wellFormed {t : FileTree} {loading : List Location} {g g' : ModuleGraph}
    {loc : Location} {outcome : Except LoadError Nat} (h : Load t loading g loc g' outcome)
    (hg : g.WellFormed) : g'.WellFormed :=
  match h with
  | .known _ => hg
  | .cycle _ _ => hg
  | .refused _ _ _ => hg
  | .failed _ _ _ himports => himports.wellFormed hg
  | .loaded hnew _ _ himports => by
    refine (himports.wellFormed hg).push ?_ (module_lt_of_links himports.links)
    intro n hn
    -- the module itself is being loaded while its imports are
    rcases himports.not_mem_loading hn with hold | hout
    · exact id?_eq_none_iff.1 hnew n hold
    · intro heq
      exact hout (heq ▸ List.mem_append_right _ (List.mem_singleton_self _))

/-- Loading several modules keeps graphs well-formed. -/
theorem LoadTargets.wellFormed {t : FileTree} {loading : List Location} {g g' : ModuleGraph}
    {targets : List (String × Location)} {outcome : Except LoadError (List Binding)}
    (h : LoadTargets t loading g targets g' outcome) (hg : g.WellFormed) : g'.WellFormed :=
  match h with
  | .nil => hg
  | .first hload => hload.wellFormed hg
  | .later hload hrest => hrest.wellFormed (hload.wellFormed hg)
  | .cons hload hrest => hrest.wellFormed (hload.wellFormed hg)

end

/-- A graph whose modules are as the file tree has them, linked with those that they import. -/
def Faithful (t : FileTree) (g : ModuleGraph) : Prop :=
  ∀ m ∈ g.modules, ∃ source, sourceAt t m.location = .ok source ∧ m.body = source.body ∧
    List.Forall₂ g.Links (targets t m.location source.imports) m.bindings

/-- The empty graph is faithful. -/
lemma Faithful.empty (t : FileTree) : Faithful t {} :=
  fun _ hm => absurd hm List.not_mem_nil

/-- A module that is linked as the file tree has it can be added. -/
lemma Faithful.push {t : FileTree} {g : ModuleGraph} (h : g.Faithful t) {loc : Location}
    {source : Source.Module} {bindings : List Binding} (hsource : sourceAt t loc = .ok source)
    (hlinks : List.Forall₂ g.Links (targets t loc source.imports) bindings) :
    (g.push ⟨loc, bindings, source.body⟩).Faithful t := by
  have hadded : g.modules <+: (g.push ⟨loc, bindings, source.body⟩).modules :=
    List.prefix_append _ _
  intro m hm
  rcases List.mem_append.1 hm with hold | hnew
  · obtain ⟨source', hsource', hbody, hlinks'⟩ := h m hold
    exact ⟨source', hsource', hbody, hlinks'.imp fun _ _ hlink => hlink.of_prefix hadded⟩
  · obtain rfl := List.mem_singleton.1 hnew
    exact ⟨source, hsource, rfl, hlinks.imp fun _ _ hlink => hlink.of_prefix hadded⟩

mutual

/-- **Loading keeps graphs faithful** to the tree that is loaded from. -/
theorem Load.faithful {t : FileTree} {loading : List Location} {g g' : ModuleGraph}
    {loc : Location} {outcome : Except LoadError Nat} (h : Load t loading g loc g' outcome)
    (hg : g.Faithful t) : g'.Faithful t :=
  match h with
  | .known _ => hg
  | .cycle _ _ => hg
  | .refused _ _ _ => hg
  | .failed _ _ _ himports => himports.faithful hg
  | .loaded _ _ hsource himports => (himports.faithful hg).push hsource himports.links

/-- Loading several modules keeps graphs faithful. -/
theorem LoadTargets.faithful {t : FileTree} {loading : List Location} {g g' : ModuleGraph}
    {targets : List (String × Location)} {outcome : Except LoadError (List Binding)}
    (h : LoadTargets t loading g targets g' outcome) (hg : g.Faithful t) : g'.Faithful t :=
  match h with
  | .nil => hg
  | .first hload => hload.faithful hg
  | .later hload hrest => hrest.faithful (hload.faithful hg)
  | .cons hload hrest => hrest.faithful (hload.faithful hg)

end

/-! ## Imported modules -/

mutual

/-- **What is added is imported**, directly or not, by the module that is loaded. -/
theorem Load.reachable {t : FileTree} {loading : List Location} {g g' : ModuleGraph}
    {loc : Location} {outcome : Except LoadError Nat} (h : Load t loading g loc g' outcome)
    {m : LoadedModule} (hm : m ∈ g'.modules) :
    m ∈ g.modules ∨ ReflTransGen (Imports t) loc m.location :=
  match h with
  | .known _ => .inl hm
  | .cycle _ _ => .inl hm
  | .refused _ _ _ => .inl hm
  | .failed _ _ hsource himports => by
    refine (himports.reachable hm).imp_right ?_
    rintro ⟨target, htarget, hreach⟩
    exact .head ⟨_, hsource, target, htarget, rfl⟩ hreach
  | .loaded _ _ hsource himports => by
    rcases List.mem_append.1 hm with hold | hnew
    · refine (himports.reachable hold).imp_right ?_
      rintro ⟨target, htarget, hreach⟩
      exact .head ⟨_, hsource, target, htarget, rfl⟩ hreach
    · obtain rfl := List.mem_singleton.1 hnew
      exact .inr .refl

/-- What is added is imported, directly or not, by one of the modules that are loaded. -/
theorem LoadTargets.reachable {t : FileTree} {loading : List Location} {g g' : ModuleGraph}
    {targets : List (String × Location)} {outcome : Except LoadError (List Binding)}
    (h : LoadTargets t loading g targets g' outcome) {m : LoadedModule} (hm : m ∈ g'.modules) :
    m ∈ g.modules ∨ ∃ target ∈ targets, ReflTransGen (Imports t) target.2 m.location :=
  match h with
  | .nil => .inl hm
  | .first hload =>
    (hload.reachable hm).imp_right fun hreach => ⟨_, List.mem_cons_self .., hreach⟩
  | .later hload hrest => by
    rcases hrest.reachable hm with hold | ⟨target, htarget, hreach⟩
    · exact (hload.reachable hold).imp_right fun hreach => ⟨_, List.mem_cons_self .., hreach⟩
    · exact .inr ⟨target, List.mem_cons_of_mem _ htarget, hreach⟩
  | .cons hload hrest => by
    rcases hrest.reachable hm with hold | ⟨target, htarget, hreach⟩
    · exact (hload.reachable hold).imp_right fun hreach => ⟨_, List.mem_cons_self .., hreach⟩
    · exact .inr ⟨target, List.mem_cons_of_mem _ htarget, hreach⟩

end

/-- **The modules that can be loaded**: they can be read and taken apart, and so can those that
they import. Nothing is loadable on account of itself. -/
inductive Loadable (t : FileTree) : Location → Prop
  /-- A module whose imports can be loaded. -/
  | intro {loc : Location} {source : Source.Module} (hsource : sourceAt t loc = .ok source)
      (himports : ∀ target ∈ targets t loc source.imports, Loadable t target.2) : Loadable t loc

/-- What a loadable module imports is loadable. -/
lemma Loadable.of_imports {t : FileTree} {loc dep : Location} (h : Loadable t loc)
    (hdep : Imports t loc dep) : Loadable t dep := by
  obtain ⟨source, hsource, target, htarget, rfl⟩ := hdep
  cases h with
  | intro hsource' himports =>
    obtain rfl := Except.ok.inj (hsource'.symm.trans hsource)
    exact himports target htarget

/-- A loadable module does not import itself, not even by way of others. -/
lemma Loadable.not_transGen {t : FileTree} {loc : Location} (h : Loadable t loc) :
    ¬ TransGen (Imports t) loc loc := by
  induction h with
  | @intro loc source hsource himports ih =>
    intro hcycle
    obtain ⟨dep, hdep, hback⟩ := TransGen.head'_iff.1 hcycle
    have himport := hdep
    obtain ⟨source', hsource', target, htarget, rfl⟩ := hdep
    obtain rfl := Except.ok.inj (hsource.symm.trans hsource')
    exact ih target htarget (TransGen.tail' hback himport)

mutual

/-- **Modules that can be loaded are**, whatever the graph has already, unless the load was asked
for by a module that they import. -/
theorem Load.exists_ok {t : FileTree} {loading : List Location} {g g' : ModuleGraph}
    {loc : Location} {outcome : Except LoadError Nat} (h : Load t loading g loc g' outcome)
    (hloadable : Loadable t loc) (hway : ∀ other ∈ loading, TransGen (Imports t) other loc) :
    ∃ id, outcome = .ok id :=
  match h with
  | .known _ => ⟨_, rfl⟩
  | .cycle _ hloading => absurd (hway loc hloading) hloadable.not_transGen
  | .refused _ _ hsource => by
    cases hloadable with
    | intro hsource' _ => cases hsource.symm.trans hsource'
  | .failed _ _ hsource himports => by
    have hdeps := himports.exists_ok (fun target htarget => ?_) ?_
    · obtain ⟨bindings, hok⟩ := hdeps
      cases hok
    · exact hloadable.of_imports ⟨_, hsource, target, htarget, rfl⟩
    · intro target htarget other hother
      have himport : Imports t loc target.2 := ⟨_, hsource, target, htarget, rfl⟩
      rcases List.mem_append.1 hother with hother | hself
      · exact (hway other hother).tail himport
      · obtain rfl := List.mem_singleton.1 hself
        exact .single himport
  | .loaded _ _ _ _ => ⟨_, rfl⟩

/-- Several modules that can be loaded are. -/
theorem LoadTargets.exists_ok {t : FileTree} {loading : List Location} {g g' : ModuleGraph}
    {targets : List (String × Location)} {outcome : Except LoadError (List Binding)}
    (h : LoadTargets t loading g targets g' outcome)
    (hloadable : ∀ target ∈ targets, Loadable t target.2)
    (hway : ∀ target ∈ targets, ∀ other ∈ loading, TransGen (Imports t) other target.2) :
    ∃ bindings, outcome = .ok bindings :=
  match h with
  | .nil => ⟨_, rfl⟩
  | .first hload => by
    obtain ⟨id, hok⟩ := hload.exists_ok (hloadable _ (List.mem_cons_self ..))
      (hway _ (List.mem_cons_self ..))
    cases hok
  | .later _ hrest => by
    obtain ⟨bindings, hok⟩ := hrest.exists_ok
      (fun target htarget => hloadable target (List.mem_cons_of_mem _ htarget))
      (fun target htarget => hway target (List.mem_cons_of_mem _ htarget))
    cases hok
  | .cons _ _ => ⟨_, rfl⟩

end

/-- The modules of a graph that comes from loading can be loaded. -/
theorem loadable_of_mem {t : FileTree} {g : ModuleGraph} (hwell : g.WellFormed)
    (hfaithful : g.Faithful t) {m : LoadedModule} (hm : m ∈ g.modules) :
    Loadable t m.location := by
  obtain ⟨id, hid⟩ := List.getElem?_of_mem hm
  -- the modules that it imports have smaller ids
  induction id using Nat.strongRecOn generalizing m with
  | ind id ih =>
    obtain ⟨source, hsource, -, hlinks⟩ := hfaithful m hm
    refine .intro hsource fun target htarget => ?_
    obtain ⟨b, hb, -, dep, hdep, hlocation⟩ := exists_of_mem_of_forall₂ hlinks htarget
    have hbefore := hwell.deps_lt id m hid b hb
    rw [← hlocation]
    exact ih b.module hbefore (List.mem_of_getElem? hdep) hdep

end ModuleGraph

end CardTable
