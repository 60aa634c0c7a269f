import Mathlib.Data.List.OfFn
import Mathlib.Logic.Equiv.Defs
import CardTable.Proofs.Modules.Evaluators

set_option autoImplicit false

/-!
# Many modules at once and one at a time

An evaluator can be asked for the values of many modules in one call, and for each of them in a call
of its own. In one call the values of imported modules are found among those of the same call, in
the other case among those that are remembered, and the modules have other ids. None of this shows:
both ways succeed exactly if all modules that are asked for have values, whatever the order of the
calls, and then they give these values.

## Main definitions

* `CardTable.Evaluator.evaluateEach` — asks for the values of modules one at a time.

## Main results

* `CardTable.Evaluator.Faithful.evaluateEach_eq_map` — modules with values are given them.
* `CardTable.Evaluator.Faithful.exists_value_of_evaluateEach` — modules that are given values have
  them.
* `CardTable.Evaluator.evaluateAll_agrees_evaluateEach` — the two ways agree.
-/

namespace CardTable

namespace Evaluator

/-- Asks for the values of the modules at the given paths one at a time, also behind one that is not
given. -/
def evaluateEach (t : FileTree) (runtime : Runtime) (e : Evaluator) :
    List Path → List (Except EngineError Value)
  | [] => []
  | p :: rest =>
    let called := e.evaluate t runtime p
    called.2 :: evaluateEach t runtime called.1 rest

variable {t : FileTree} {e : Evaluator} {paths : List Path}

/-! ## One at a time -/

/-- One call leaves what is known as the file tree has it, and all modules with values if it
succeeds. -/
lemma Faithful.evaluate {p : Path} (he : e.Faithful t) :
    (e.evaluate t .literal p).1.Faithful t ∧
      ((∃ v, (e.evaluate t .literal p).2 = .ok v) →
        ∀ m ∈ (e.evaluate t .literal p).1.graph.modules, ∃ v, HasValue t m.location v) := by
  refine ⟨(evaluateAll_spec he [p]).2.1, ?_⟩
  rintro ⟨v, hv⟩
  obtain ⟨vs, hvs, -⟩ := evaluate_eq_ok_iff_head.1 hv
  exact (he.values_of_evaluateAll hvs).2

/-- **Modules with values are given them** one at a time, once all modules that are loaded have
values. -/
theorem Faithful.evaluateEach_eq_map {vs : List Value} (he : e.Faithful t)
    (hall : ∀ m ∈ e.graph.modules, ∃ v, HasValue t m.location v)
    (h : List.Forall₂ (fun p v => HasValue t (p.location t.workingDirectory) v) paths vs) :
    evaluateEach t .literal e paths = vs.map .ok := by
  induction h generalizing e with
  | nil => rfl
  | @cons p v rest others hv _ ih =>
    have hok : (e.evaluate t .literal p).2 = .ok v := (he.evaluate_eq_ok_iff hall).2 hv
    obtain ⟨hfaithful, hvalues⟩ := he.evaluate (p := p)
    have hrest := ih hfaithful (hvalues ⟨v, hok⟩)
    rw [evaluateEach, hok, hrest, List.map_cons]

/-- **Modules that are given values have them**, whatever was asked before. -/
theorem Faithful.exists_value_of_evaluateEach (he : e.Faithful t)
    (h : ∀ answer ∈ evaluateEach t .literal e paths, ∃ v, answer = .ok v) :
    ∀ p ∈ paths, ∃ v, HasValue t (p.location t.workingDirectory) v := by
  induction paths generalizing e with
  | nil => exact fun _ hp => absurd hp List.not_mem_nil
  | cons p rest ih =>
    rw [evaluateEach, List.forall_mem_cons] at h
    obtain ⟨⟨v, hv⟩, hrest⟩ := h
    obtain ⟨vs, hvs, -⟩ := evaluate_eq_ok_iff_head.1 hv
    rw [List.forall_mem_cons]
    refine ⟨?_, ih he.evaluate.1 hrest⟩
    cases (he.values_of_evaluateAll hvs).1 with
    | cons hvalue _ => exact ⟨_, hvalue⟩

/-! ## The two ways -/

/-- Values for the modules at all positions are values for the list of modules. -/
lemma forall₂_ofFn {n : Nat} {path : Fin n → Path} {value : Fin n → Value}
    (h : ∀ i, HasValue t ((path i).location t.workingDirectory) (value i)) :
    List.Forall₂ (fun p v => HasValue t (p.location t.workingDirectory) v) (List.ofFn path)
      (List.ofFn value) := by
  refine List.forall₂_iff_get.2 ⟨by simp, fun i hi _ => ?_⟩
  rw [List.length_ofFn] at hi
  simpa using h ⟨i, hi⟩

/-- **Many modules at once and one at a time**: on an evaluator that was not asked before, a call
for many modules succeeds exactly if the calls for single ones all do, in whichever order these are
made, and that is if all modules have values. Then the modules at all positions are given the same
values, which are their own.

**Proof sketch.** All three statements come down to whether the modules have values. If they do,
the call for all of them answers with the list of the values and the single calls with one value
each, since a faithful evaluator gives what the modules have, whatever it was asked before. If
one of them has none, neither succeeds. A permutation changes which call asks for which module
and nothing else. -/
theorem evaluateAll_agrees_evaluateEach (t : FileTree) (paths : List Path)
    (order : Equiv.Perm (Fin paths.length)) :
    ((∃ vs, (evaluateAll t .literal {} paths).answer = .ok vs) ↔
        ∀ answer ∈ evaluateEach t .literal {} (List.ofFn fun i => paths.get (order i)),
          ∃ v, answer = .ok v) ∧
      ((∃ vs, (evaluateAll t .literal {} paths).answer = .ok vs) ↔
        ∀ p ∈ paths, ∃ v, HasValue t (p.location t.workingDirectory) v) ∧
      ∀ vs, (evaluateAll t .literal {} paths).answer = .ok vs →
        ∃ value : Fin paths.length → Value, vs = List.ofFn value ∧
          evaluateEach t .literal {} (List.ofFn fun i => paths.get (order i)) =
            List.ofFn (fun i => .ok (value (order i))) ∧
          ∀ i, HasValue t ((paths.get i).location t.workingDirectory) (value i) := by
  have hempty := Faithful.empty t
  have hnone : ∀ m ∈ ({} : Evaluator).graph.modules, ∃ v, HasValue t m.location v :=
    fun _ hm => absurd hm List.not_mem_nil
  -- what both ways come to if the modules have values
  have hagree : ∀ value : Fin paths.length → Value,
      (∀ i, HasValue t ((paths.get i).location t.workingDirectory) (value i)) →
        (evaluateAll t .literal {} paths).answer = .ok (List.ofFn value) ∧
          evaluateEach t .literal {} (List.ofFn fun i => paths.get (order i)) =
            List.ofFn (fun i => .ok (value (order i))) := by
    intro value hvalue
    have hall := forall₂_ofFn hvalue
    rw [List.ofFn_get] at hall
    have heach := hempty.evaluateEach_eq_map hnone (forall₂_ofFn fun i => hvalue (order i))
    rw [List.map_ofFn] at heach
    exact ⟨(hempty.evaluateAll_eq_ok_iff hnone).2 hall, heach⟩
  have hvalues : (∀ p ∈ paths, ∃ v, HasValue t (p.location t.workingDirectory) v) →
      ∃ value : Fin paths.length → Value,
        ∀ i, HasValue t ((paths.get i).location t.workingDirectory) (value i) :=
    fun h => Classical.axiomOfChoice fun i => h _ (List.get_mem paths i)
  have hbatch : (∃ vs, (evaluateAll t .literal {} paths).answer = .ok vs) ↔
      ∀ p ∈ paths, ∃ v, HasValue t (p.location t.workingDirectory) v := by
    constructor
    · rintro ⟨vs, hvs⟩ p hp
      obtain ⟨v, -, hv⟩ := ModuleGraph.exists_of_mem_of_forall₂
        ((hempty.evaluateAll_eq_ok_iff hnone).1 hvs) hp
      exact ⟨v, hv⟩
    · intro h
      obtain ⟨value, hvalue⟩ := hvalues h
      exact ⟨_, (hagree value hvalue).1⟩
  refine ⟨hbatch.trans ⟨fun h => ?_, fun h => ?_⟩, hbatch, fun vs hvs => ?_⟩
  · obtain ⟨value, hvalue⟩ := hvalues h
    rw [(hagree value hvalue).2, List.forall_mem_ofFn_iff]
    exact fun i => ⟨_, rfl⟩
  · intro p hp
    obtain ⟨i, rfl⟩ := List.get_of_mem hp
    refine hempty.exists_value_of_evaluateEach h _ (List.mem_ofFn.2 ⟨order.symm i, ?_⟩)
    rw [Equiv.apply_symm_apply]
  · obtain ⟨value, hvalue⟩ := hvalues (hbatch.1 ⟨vs, hvs⟩)
    obtain ⟨hall, heach⟩ := hagree value hvalue
    exact ⟨value, Except.ok.inj (hvs.symm.trans hall), heach, hvalue⟩

end Evaluator

end CardTable
