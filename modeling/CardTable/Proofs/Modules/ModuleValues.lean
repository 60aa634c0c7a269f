import CardTable.Modules.Evaluation
import CardTable.Proofs.Modules.Loading

set_option autoImplicit false

/-!
# The values of modules

The value of a module is what its statements return when its names are bound to the values of the
modules that it imports. It depends on the file tree alone. Evaluation inside the program finds it
for all modules without a value that have one, and stops at the first that has none.

## Main definitions

* `CardTable.HasValue` — the value of a module.
* `CardTable.Memo.Faithful` — whether the known values are those of their modules.

## Main results

* `CardTable.HasValue.unique` — a module has one value at most.
* `CardTable.hasValue_iff` — a module whose imports have values.
* `CardTable.LoadedModule.value_cases` — the value that is found for one module.
* `CardTable.Runtime.literal_cases` — the values that are found for all of them.
-/

namespace CardTable

open ModuleGraph (Imports Loadable sourceAt targets)
open Relation

/-! ## Values -/

/-- **The value of a module**: what its statements return when each name that it imports is bound
to the value of its module. -/
inductive HasValue (t : FileTree) : Location → Value → Prop
  /-- A module whose imports have values and whose statements return one. -/
  | intro {loc : Location} {source : Source.Module} {v : Value} (value : Location → Value)
      (hsource : sourceAt t loc = .ok source)
      (himports : ∀ target ∈ targets t loc source.imports, HasValue t target.2 (value target.2))
      (hbody : Script.evaluate
        ((targets t loc source.imports).map fun target => (target.1, value target.2))
        source.body = .ok v) : HasValue t loc v

/-- A module has one value at most. -/
theorem HasValue.unique {t : FileTree} {loc : Location} {v w : Value} (hv : HasValue t loc v)
    (hw : HasValue t loc w) : v = w := by
  induction hv generalizing w with
  | @intro loc source v value hsource himports hbody ih =>
    cases hw with
    | @intro _ source' _ value' hsource' himports' hbody' =>
      obtain rfl := Except.ok.inj (hsource.symm.trans hsource')
      have hbindings :
          ((targets t loc source.imports).map fun target => (target.1, value target.2)) =
          (targets t loc source.imports).map fun target => (target.1, value' target.2) := by
        refine List.map_congr_left fun target htarget => ?_
        rw [ih target htarget (himports' target htarget)]
      rw [hbindings, hbody'] at hbody
      exact (Except.ok.inj hbody).symm

/-- **A module whose imports have values** has the value that its statements return. -/
theorem hasValue_iff {t : FileTree} {loc : Location} {source : Source.Module} {v : Value}
    {value : Location → Value} (hsource : sourceAt t loc = .ok source)
    (himports : ∀ target ∈ targets t loc source.imports, HasValue t target.2 (value target.2)) :
    HasValue t loc v ↔
      Script.evaluate ((targets t loc source.imports).map fun target => (target.1, value target.2))
        source.body = .ok v := by
  constructor
  · intro hv
    cases hv with
    | intro value' hsource' himports' hbody' =>
      obtain rfl := Except.ok.inj (hsource.symm.trans hsource')
      rw [← hbody']
      congr 1
      refine List.map_congr_left fun target htarget => ?_
      rw [(himports target htarget).unique (himports' target htarget)]
  · exact .intro value hsource himports

/-- A module with a value can be loaded. -/
lemma HasValue.loadable {t : FileTree} {loc : Location} {v : Value} (h : HasValue t loc v) :
    Loadable t loc := by
  induction h with
  | intro value hsource himports hbody ih => exact .intro hsource ih

/-- What a module with a value imports, directly or not, has a value. -/
lemma HasValue.exists_of_reachable {t : FileTree} {loc other : Location} {v : Value}
    (h : HasValue t loc v) (hreach : ReflTransGen (Imports t) loc other) :
    ∃ w, HasValue t other w := by
  induction hreach with
  | refl => exact ⟨v, h⟩
  | tail _ himport ih =>
    obtain ⟨w, hw⟩ := ih
    obtain ⟨source, hsource, target, htarget, rfl⟩ := himport
    cases hw with
    | intro value hsource' himports hbody =>
      obtain rfl := Except.ok.inj (hsource'.symm.trans hsource)
      exact ⟨_, himports target htarget⟩

/-- Values of several modules can be chosen at once. -/
lemma exists_value_of_forall {t : FileTree} {deps : List (String × Location)}
    (h : ∀ target ∈ deps, ∃ v, HasValue t target.2 v) :
    ∃ value : Location → Value, ∀ target ∈ deps, HasValue t target.2 (value target.2) := by
  classical
  refine ⟨fun loc => if hv : ∃ v, HasValue t loc v then hv.choose else .null, ?_⟩
  intro target htarget
  have hv := h target htarget
  dsimp only
  rw [dif_pos hv]
  exact hv.choose_spec

/-! ## Finding values -/

/-- Whether the known values are those of their modules. -/
def Memo.Faithful (t : FileTree) (g : ModuleGraph) (known : Memo) : Prop :=
  ∀ id v, known.lookup id = some v → ∃ m, g.modules[id]? = some m ∧ HasValue t m.location v

section Finding

variable {t : FileTree} {g : ModuleGraph} {known : Memo}

/-- The value of one more module can be known. -/
lemma Memo.Faithful.cons (h : known.Faithful t g) {id : Nat} {m : LoadedModule} {v : Value}
    (hm : g.modules[id]? = some m) (hv : HasValue t m.location v) :
    Memo.Faithful t g ((id, v) :: known) := by
  intro other w hw
  rw [List.lookup_cons] at hw
  split at hw
  · next heq =>
    obtain rfl := beq_iff_eq.1 heq
    obtain rfl := Option.some.inj hw
    exact ⟨m, hm, hv⟩
  · exact h other w hw

/-- The names of a module are bound to the values of the modules that it imports, once these are
known. -/
lemma LoadedModule.scope_eq {m : LoadedModule} {deps : List (String × Location)}
    {value : Location → Value} (hknown : known.Faithful t g)
    (hlinks : List.Forall₂ g.Links deps m.bindings)
    (hvalue : ∀ target ∈ deps, HasValue t target.2 (value target.2))
    (hdeps : ∀ b ∈ m.bindings, ∃ v, known.lookup b.module = some v) :
    m.scope known = .ok (deps.map fun target => (target.1, value target.2)) := by
  unfold scope
  generalize m.bindings = bindings at hlinks hdeps ⊢
  induction hlinks with
  | nil => rfl
  | @cons target b rest others hlink _ ih =>
    obtain ⟨hname, dep, hdep, hlocation⟩ := hlink
    obtain ⟨v, hv⟩ := hdeps b (List.mem_cons_self ..)
    obtain ⟨dep', hdep', hdv⟩ := hknown b.module v hv
    obtain rfl := Option.some.inj (hdep.symm.trans hdep')
    have hfirst : v = value target.2 :=
      hdv.unique (hlocation ▸ hvalue target (List.mem_cons_self ..))
    have hrest := ih (fun other hother => hvalue other (List.mem_cons_of_mem _ hother))
      (fun other hother => hdeps other (List.mem_cons_of_mem _ hother))
    rw [List.mapM_cons, hrest, hv, hname, hfirst]
    rfl

/-- **The value that is found for a module** is its value, and if none is found it has none, once
the values of the modules that it imports are known.

**Proof sketch.** The scope in which the body is evaluated binds each name to the value of the
module that is imported under it, as the file tree has it, since ids and places are paired. So the
body has in it the value that it has in the tree, or fails as it does there. -/
theorem LoadedModule.value_cases {m : LoadedModule} (hfaithful : g.Faithful t)
    (hknown : known.Faithful t g) (hm : m ∈ g.modules)
    (hdeps : ∀ b ∈ m.bindings, ∃ v, known.lookup b.module = some v) :
    (∃ v, m.value known = .ok v ∧ HasValue t m.location v) ∨
      ∃ failure, m.value known = .error (.script m.path failure) ∧
        ¬ ∃ v, HasValue t m.location v := by
  obtain ⟨source, hsource, hbody, hlinks⟩ := hfaithful m hm
  have hexists : ∀ target ∈ targets t m.location source.imports, ∃ v, HasValue t target.2 v := by
    intro target htarget
    obtain ⟨b, hb, -, dep, hdep, hlocation⟩ := ModuleGraph.exists_of_mem_of_forall₂ hlinks htarget
    obtain ⟨v, hv⟩ := hdeps b hb
    obtain ⟨dep', hdep', hdv⟩ := hknown b.module v hv
    obtain rfl := Option.some.inj (hdep.symm.trans hdep')
    exact ⟨v, hlocation ▸ hdv⟩
  obtain ⟨value, hvalue⟩ := exists_value_of_forall hexists
  have hscope := m.scope_eq hknown hlinks hvalue hdeps
  have hiff := fun v => hasValue_iff (v := v) hsource hvalue
  rw [← hbody] at hiff
  generalize (targets t m.location source.imports).map (fun target => (target.1, value target.2)) =
    bindings at hscope hiff
  have hrun : m.value known = (Script.evaluate bindings m.body).mapError (.script m.path) := by
    rw [LoadedModule.value, hscope]
    rfl
  cases houtcome : Script.evaluate bindings m.body with
  | ok v =>
    rw [houtcome] at hrun
    exact .inl ⟨v, hrun, (hiff v).2 houtcome⟩
  | error failure =>
    rw [houtcome] at hrun
    refine .inr ⟨failure, hrun, ?_⟩
    rintro ⟨v, hv⟩
    cases houtcome.symm.trans ((hiff v).1 hv)

/-- What the first module without a known value imports has a known value, as it has a smaller
id. -/
lemma exists_value_of_bindings {p : Pending} {rest : List Pending} (hwell : g.WellFormed)
    (hp : g.modules[p.id]? = some p.module) (hsorted : ∀ q ∈ rest, p.id < q.id)
    (hcover : ∀ id < g.size, (∃ v, known.lookup id = some v) ∨ ∃ q ∈ p :: rest, q.id = id) :
    ∀ b ∈ p.module.bindings, ∃ v, known.lookup b.module = some v := by
  intro b hb
  have hbefore := hwell.deps_lt p.id p.module hp b hb
  have hsize : p.id < g.size := (List.getElem?_eq_some_iff.1 hp).1
  refine (hcover b.module (by omega)).resolve_right ?_
  rintro ⟨q, hq, hid⟩
  rcases List.mem_cons.1 hq with rfl | hq
  · omega
  · have hafter := hsorted q hq
    omega

/-- When the value of the first module is found, the other ones are left. -/
lemma known_or_pending_cons {p : Pending} {rest : List Pending}
    (hcover : ∀ id < g.size, (∃ v, known.lookup id = some v) ∨ ∃ q ∈ p :: rest, q.id = id)
    (v : Value) : ∀ id < g.size,
      (∃ w, List.lookup id ((p.id, v) :: known) = some w) ∨ ∃ q ∈ rest, q.id = id := by
  intro id hid
  rw [List.lookup_cons]
  rcases hcover id hid with ⟨w, hw⟩ | ⟨q, hq, rfl⟩
  · split
    · exact .inl ⟨v, rfl⟩
    · exact .inl ⟨w, hw⟩
  · rcases List.mem_cons.1 hq with rfl | hq
    · exact .inl ⟨v, by rw [beq_self_eq_true]⟩
    · exact .inr ⟨q, hq, rfl⟩

/-- **Evaluation inside the program** finds the values of all modules without a known one, or stops
at one that has no value.

**Proof sketch.** Induction on the pending modules. The imports of the first one have smaller ids,
so that they are known: those that were pending stand in front. Its value is added to the known
ones, which keeps them faithful, or evaluation stops at it. -/
theorem Runtime.literal_cases {pending : List Pending} (hwell : g.WellFormed)
    (hfaithful : g.Faithful t) (hknown : known.Faithful t g)
    (hpending : ∀ p ∈ pending, g.modules[p.id]? = some p.module)
    (hsorted : pending.Pairwise fun p q => p.id < q.id)
    (hcover : ∀ id < g.size, (∃ v, known.lookup id = some v) ∨ ∃ p ∈ pending, p.id = id) :
    (∃ values, Runtime.literal known pending = .ok values ∧
        List.Forall₂ (fun p v => HasValue t p.module.location v) pending values) ∨
      ∃ p ∈ pending, ∃ failure,
        Runtime.literal known pending = .error (.script p.module.path failure) ∧
          ¬ ∃ v, HasValue t p.module.location v := by
  induction pending generalizing known with
  | nil => exact .inl ⟨[], rfl, .nil⟩
  | cons p rest ih =>
    rw [List.pairwise_cons] at hsorted
    have hp := hpending p (List.mem_cons_self ..)
    have hdeps := exists_value_of_bindings hwell hp hsorted.1 hcover
    rcases LoadedModule.value_cases hfaithful hknown (List.mem_of_getElem? hp) hdeps with
      ⟨v, hvalue, hv⟩ | ⟨failure, hvalue, hnone⟩
    · have hothers : ∀ q ∈ rest, g.modules[q.id]? = some q.module :=
        fun q hq => hpending q (List.mem_cons_of_mem _ hq)
      have hrest := ih (hknown.cons hp hv) hothers hsorted.2 (known_or_pending_cons hcover v)
      rcases hrest with ⟨values, hrun, hvalues⟩ | ⟨q, hq, failure, hrun, hnone⟩
      · refine .inl ⟨v :: values, ?_, .cons hv hvalues⟩
        rw [Runtime.literal, hvalue]
        show (Runtime.literal _ rest >>= _) = _
        rw [hrun]
        rfl
      · refine .inr ⟨q, List.mem_cons_of_mem _ hq, failure, ?_, hnone⟩
        rw [Runtime.literal, hvalue]
        show (Runtime.literal _ rest >>= _) = _
        rw [hrun]
        rfl
    · refine .inr ⟨p, List.mem_cons_self .., failure, ?_, hnone⟩
      rw [Runtime.literal, hvalue]
      rfl

end Finding

end CardTable
