import CardTable.Proofs.Modules.LoadFailures

set_option autoImplicit false

/-!
# What was loaded before

Over one file tree a load does not show which modules were loaded before. It fails in the same way
as a load on the empty graph, and if it succeeds, then the module hangs off the same modules: only
their ids differ.

## Main definitions

* `CardTable.ModuleGraph.Needs` — the modules that the names of a module are bound to.
* `CardTable.LoadedModule.renumber` — a module whose names are bound to other ids.
* `CardTable.ModuleGraph.SameModules` — two modules with all that they import, up to ids.

## Main results

* `CardTable.ModuleGraph.Corresponds.sameModules` — modules from one place hang off the same
  modules.
* `CardTable.ModuleGraph.Load.error_of_error` — loads fail in the same way.
* `CardTable.ModuleGraph.load_afterLoads` — a load does not show what was loaded before.
-/

namespace CardTable

/-- The module with its names bound to the ids that `ids` has for theirs. -/
def LoadedModule.renumber (m : LoadedModule) (ids : Nat → Nat) : LoadedModule :=
  { m with bindings := m.bindings.map fun b => ⟨b.name, ids b.module⟩ }

namespace ModuleGraph

open Relation

/-! ## Modules up to their ids -/

/-- Whether a name of the module with the id `id` is bound to the module with the id `dep`. -/
def Needs (g : ModuleGraph) (id dep : Nat) : Prop :=
  ∃ m, g.modules[id]? = some m ∧ dep ∈ m.deps

/-- **Two modules with all that they import**, in two graphs, are the same up to ids: `ids` has for
each id in the first graph the one in the second. Places, bodies and names are the same, and names
are bound to the same modules. -/
structure SameModules (g g' : ModuleGraph) (id id' : Nat) (ids : Nat → Nat) : Prop where
  /-- The modules themselves correspond. -/
  root : ids id = id'
  /-- Modules that correspond are the same. -/
  modules : ∀ i, ReflTransGen g.Needs id i →
    ∃ m, g.modules[i]? = some m ∧ g'.modules[ids i]? = some (m.renumber ids)
  /-- No two modules correspond to one. -/
  injective : ∀ i j, ReflTransGen g.Needs id i → ReflTransGen g.Needs id j → ids i = ids j → i = j
  /-- Each module of the second graph corresponds to one of the first. -/
  surjective : ∀ i', ReflTransGen g'.Needs id' i' → ∃ i, ReflTransGen g.Needs id i ∧ ids i = i'

/-- The id under which `g'` has the module that `g` has under the id `id`. -/
def idIn (g g' : ModuleGraph) (id : Nat) : Nat :=
  (g.modules[id]?.bind fun m => g'.id? m.location).getD 0

section Correspondence

variable {t : FileTree} {g g' : ModuleGraph}

/-- In a well-formed graph a place has the id of the module that was read from there. -/
lemma WellFormed.id?_eq (h : g.WellFormed) {id : Nat} {m : LoadedModule}
    (hm : g.modules[id]? = some m) : g.id? m.location = some id := by
  obtain ⟨hlt, rfl⟩ := List.getElem?_eq_some_iff.1 hm
  refine List.findIdx?_eq_some_iff_getElem.2 ⟨hlt, decide_eq_true rfl, fun j hj => ?_⟩
  rw [decide_eq_true_eq]
  exact List.pairwise_iff_getElem.1 h.distinct j id _ hlt hj

/-- In a well-formed graph modules from one place have one id. -/
lemma WellFormed.eq_of_location (h : g.WellFormed) {i j : Nat} {m n : LoadedModule}
    (hm : g.modules[i]? = some m) (hn : g.modules[j]? = some n) (heq : m.location = n.location) :
    i = j := by
  have hi := h.id?_eq hm
  rw [heq, h.id?_eq hn] at hi
  exact (Option.some.inj hi).symm

/-- Modules from one place have corresponding ids. -/
lemma WellFormed.idIn_eq (h : g'.WellFormed) {i j : Nat} {m n : LoadedModule}
    (hm : g.modules[i]? = some m) (hn : g'.modules[j]? = some n) (heq : m.location = n.location) :
    g.idIn g' i = j := by
  unfold idIn
  rw [hm, Option.bind_some, heq, h.id?_eq hn, Option.getD_some]

/-- Names that are bound to the same places are bound to corresponding ids. -/
lemma WellFormed.bindings_eq (h : g'.WellFormed) {deps : List (String × Location)}
    {bindings bindings' : List Binding} (hlinks : List.Forall₂ g.Links deps bindings)
    (hlinks' : List.Forall₂ g'.Links deps bindings') :
    bindings' = bindings.map fun b => ⟨b.name, g.idIn g' b.module⟩ := by
  induction hlinks generalizing bindings' with
  | nil =>
    cases hlinks'
    rfl
  | @cons target b rest others hlink _ ih =>
    cases hlinks' with
    | @cons _ b' _ others' hlink' hrest' =>
      obtain ⟨hname, m, hm, hlocation⟩ := hlink
      obtain ⟨hname', m', hm', hlocation'⟩ := hlink'
      have hid : g.idIn g' b.module = b'.module :=
        h.idIn_eq hm hm' (hlocation.trans hlocation'.symm)
      rw [List.map_cons, ih hrest', hid, hname, ← hname']

/-- **Modules from one place are the same**, up to the ids that their names are bound to. -/
theorem Faithful.eq_renumber (hwell' : g'.WellFormed) (hfaithful : g.Faithful t)
    (hfaithful' : g'.Faithful t) {m m' : LoadedModule} (hm : m ∈ g.modules) (hm' : m' ∈ g'.modules)
    (heq : m.location = m'.location) : m' = m.renumber (g.idIn g') := by
  obtain ⟨source, hsource, hbody, hlinks⟩ := hfaithful m hm
  obtain ⟨source', hsource', hbody', hlinks'⟩ := hfaithful' m' hm'
  rw [← heq] at hsource' hlinks'
  obtain rfl := Except.ok.inj (hsource.symm.trans hsource')
  have hbindings := hwell'.bindings_eq hlinks hlinks'
  obtain ⟨location, bindings, body⟩ := m
  obtain ⟨location', bindings', body'⟩ := m'
  obtain rfl : location = location' := heq
  obtain rfl : body = body' := hbody.trans hbody'.symm
  exact congrArg (LoadedModule.mk location · body) hbindings

/-- Whether a module of `g` and one of `g'` are from the same place. -/
def Corresponds (g g' : ModuleGraph) (i i' : Nat) : Prop :=
  ∃ m m', g.modules[i]? = some m ∧ g'.modules[i']? = some m' ∧ m.location = m'.location

/-- **What a module needs in one graph it needs in the other one.** -/
theorem Corresponds.needs (hfaithful : g.Faithful t) (hfaithful' : g'.Faithful t) {i i' j : Nat}
    (h : g.Corresponds g' i i') (hj : g.Needs i j) :
    ∃ j', g'.Needs i' j' ∧ g.Corresponds g' j j' := by
  obtain ⟨m, m', hm, hm', heq⟩ := h
  obtain ⟨m₀, hm₀, hdep⟩ := hj
  obtain rfl := Option.some.inj (hm.symm.trans hm₀)
  obtain ⟨b, hb, rfl⟩ := List.mem_map.1 hdep
  obtain ⟨source, hsource, -, hlinks⟩ := hfaithful m (List.mem_of_getElem? hm)
  obtain ⟨source', hsource', -, hlinks'⟩ := hfaithful' m' (List.mem_of_getElem? hm')
  rw [← heq] at hsource' hlinks'
  obtain rfl := Except.ok.inj (hsource.symm.trans hsource')
  obtain ⟨target, htarget, -, n, hn, hlocation⟩ := exists_of_mem_of_forall₂ hlinks.flip hb
  obtain ⟨b', hb', -, n', hn', hlocation'⟩ := exists_of_mem_of_forall₂ hlinks' htarget
  exact ⟨b'.module, ⟨m', hm', List.mem_map_of_mem hb'⟩, n, n', hn, hn',
    hlocation.trans hlocation'.symm⟩

/-- What modules from one place need, directly or not, corresponds. -/
lemma Corresponds.exists_of_reflTransGen (hfaithful : g.Faithful t) (hfaithful' : g'.Faithful t)
    {i i' j : Nat} (h : g.Corresponds g' i i') (hj : ReflTransGen g.Needs i j) :
    ∃ j', ReflTransGen g'.Needs i' j' ∧ g.Corresponds g' j j' := by
  induction hj with
  | refl => exact ⟨i', .refl, h⟩
  | tail _ hneeds ih =>
    obtain ⟨k', hreach, hk⟩ := ih
    obtain ⟨j', hneeds', hj'⟩ := hk.needs hfaithful hfaithful' hneeds
    exact ⟨j', hreach.tail hneeds', hj'⟩

/-- Correspondence has no direction. -/
lemma Corresponds.symm {i i' : Nat} (h : g.Corresponds g' i i') : g'.Corresponds g i' i := by
  obtain ⟨m, m', hm, hm', heq⟩ := h
  exact ⟨m', m, hm', hm, heq.symm⟩

/-- **Modules from one place hang off the same modules.**

**Proof sketch.** The renumbering sends an id to the one that the module at its place has in the
other graph. By induction along the imports every module that is needed corresponds to one that is
needed there, in both directions. Both graphs have at most one module at a place, so that the
renumbering is injective, and modules at one place have the same source, so that they are the same
up to ids. -/
theorem Corresponds.sameModules (hwell : g.WellFormed) (hwell' : g'.WellFormed)
    (hfaithful : g.Faithful t) (hfaithful' : g'.Faithful t) {id id' : Nat}
    (h : g.Corresponds g' id id') : SameModules g g' id id' (g.idIn g') where
  root := by
    obtain ⟨m, m', hm, hm', heq⟩ := h
    exact hwell'.idIn_eq hm hm' heq
  modules := by
    intro i hi
    obtain ⟨i', -, m, m', hm, hm', heq⟩ := h.exists_of_reflTransGen hfaithful hfaithful' hi
    refine ⟨m, hm, ?_⟩
    rw [hwell'.idIn_eq hm hm' heq, hm']
    exact congrArg some (Faithful.eq_renumber hwell' hfaithful hfaithful' (List.mem_of_getElem? hm)
      (List.mem_of_getElem? hm') heq)
  injective := by
    intro i j hi hj hids
    obtain ⟨i', -, m, m', hm, hm', heq⟩ := h.exists_of_reflTransGen hfaithful hfaithful' hi
    obtain ⟨j', -, n, n', hn, hn', heq'⟩ := h.exists_of_reflTransGen hfaithful hfaithful' hj
    rw [hwell'.idIn_eq hm hm' heq, hwell'.idIn_eq hn hn' heq'] at hids
    subst hids
    obtain rfl := Option.some.inj (hm'.symm.trans hn')
    exact hwell.eq_of_location hm hn (heq.trans heq'.symm)
  surjective := by
    intro i' hi'
    obtain ⟨i, hi, hback⟩ := h.symm.exists_of_reflTransGen hfaithful' hfaithful hi'
    obtain ⟨m, m', hm, hm', heq⟩ := hback.symm
    exact ⟨i, hi, hwell'.idIn_eq hm hm' heq⟩

end Correspondence

/-! ## Loads after other loads -/

/-- **Loads fail in the same way**, whatever was loaded before each of them. -/
theorem Load.error_of_error {t : FileTree} {g₁ g₁' g₂ g₂' : ModuleGraph} {loc : Location}
    {e : LoadError} {outcome : Except LoadError Nat} (h₁ : Load t [] g₁ loc g₁' (.error e))
    (h₂ : Load t [] g₂ loc g₂' outcome) (hwell₁ : g₁.WellFormed) (hfaithful₁ : g₁.Faithful t)
    (hwell₂ : g₂.WellFormed) (hfaithful₂ : g₂.Faithful t) : outcome = .error e := by
  have hfails := h₁.fails hwell₁ hfaithful₁ rfl
  have hway : ∀ other ∈ ([] : List Location), TransGen (Imports t) other loc :=
    fun _ hother => absurd hother List.not_mem_nil
  cases outcome with
  | ok id => exact absurd hfails ((h₂.loadable hwell₂ hfaithful₂).not_fails hway)
  | error e' => rw [hfails.unique (h₂.fails hwell₂ hfaithful₂ rfl) hway]

/-- **A load does not show what was loaded before**, whether that succeeded or not: over one file
tree it succeeds exactly if it succeeds on the empty graph, it fails with the same error, and the
module that it gives hangs off the same modules up to their ids.

**Proof sketch.** Loads from two well-formed and faithful graphs fail in the same way
(`Load.error_of_error`), applied in both directions to the empty graph and the one after the earlier
loads. So one succeeds if the other does, and then both roots stand at the same place, from which
the modules correspond (`Corresponds.sameModules`). -/
theorem load_afterLoads (t : FileTree) (earlier : List Path) (p : Path) :
    ((∃ id, ((afterLoads t earlier).load t p).2 = .ok id) ↔ ∃ id, (load t {} p).2 = .ok id) ∧
      (∀ e, ((afterLoads t earlier).load t p).2 = .error e ↔ (load t {} p).2 = .error e) ∧
      ∀ id id', (load t {} p).2 = .ok id → ((afterLoads t earlier).load t p).2 = .ok id' →
        ∃ ids : Nat → Nat,
          SameModules (load t {} p).1 ((afterLoads t earlier).load t p).1 id id' ids := by
  obtain ⟨hwell, hfaithful⟩ := wellFormed_faithful_afterLoads t earlier
  have hload := load_load t (afterLoads t earlier) p
  have hfresh := load_load t {} p
  have herror : ∀ e, ((afterLoads t earlier).load t p).2 = .error e ↔
      (load t {} p).2 = .error e := by
    intro e
    constructor
    · intro he
      rw [he] at hload
      exact hload.error_of_error hfresh hwell hfaithful .empty (.empty t)
    · intro he
      rw [he] at hfresh
      exact hfresh.error_of_error hload .empty (.empty t) hwell hfaithful
  refine ⟨?_, herror, fun id id' hid hid' => ?_⟩
  · rw [← not_iff_not]
    cases hafter : ((afterLoads t earlier).load t p).2 with
    | ok id =>
      cases hempty : (load t {} p).2 with
      | ok id => simp
      | error e => cases hafter.symm.trans ((herror e).2 hempty)
    | error e =>
      rw [(herror e).1 hafter]
  · rw [hid] at hfresh
    rw [hid'] at hload
    obtain ⟨m, hm, hlocation⟩ := hfresh.located
    obtain ⟨m', hm', hlocation'⟩ := hload.located
    have hroots : Corresponds (load t {} p).1 ((afterLoads t earlier).load t p).1 id id' :=
      ⟨m, m', hm, hm', hlocation.trans hlocation'.symm⟩
    exact ⟨_, hroots.sameModules (hfresh.wellFormed .empty) (hload.wellFormed hwell)
      (hfresh.faithful (.empty t)) (hload.faithful hfaithful)⟩

end ModuleGraph

end CardTable
