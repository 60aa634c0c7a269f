import CardTable.Modules.Handoff
import CardTable.Proofs.Modules.Arenas
import CardTable.Proofs.Modules.Evaluators

set_option autoImplicit false

/-!
# What evaluators remember

The values that an evaluator knows are those of the modules that were loaded first. A call may load
more modules; the runtime is asked for the modules behind those with a value, all of them and in the
order of their ids, so that each module finds the values of the modules that it imports. Where a
call fails, at whatever point, no value is gained or lost, and where it succeeds all modules have
one.

This holds whether the program evaluates modules itself or leaves it to a process, whatever that
process does, and however the files change between the calls.

## Main definitions

* `CardTable.Engine` — the two ways to evaluate modules.
* `CardTable.Supplied` — whether pending modules find the values of the modules that they import.
* `CardTable.Evaluator.KnowsFirst` — whether the values that are known are those of the first
  modules.
* `CardTable.Evaluator.Turn`, `CardTable.Evaluator.afterTurns` — calls with the files and the engine
  that they find, and the evaluator after some of them.
* `CardTable.Evaluator.Orderly` — what a call does.

## Main results

* `CardTable.Engine.runtime_spec` — what an engine answers if pending modules are supplied.
* `CardTable.Evaluator.orderly_evaluateAll` — what one call does.
* `CardTable.Evaluator.knowsFirst_afterTurns` — what is known after any calls.
* `CardTable.Evaluator.orderly_afterTurns` — what a call does after any calls.
-/

namespace CardTable

/-! ## Engines -/

/-- How modules are evaluated. -/
inductive Engine where
  /-- By the program itself. -/
  | literal
  /-- By a process, with what it does with a manifest. -/
  | process (run : String → Except Unavailable Handoff.Reply)

/-- The runtime of an engine. -/
def Engine.runtime : Engine → Runtime
  | .literal => .literal
  | .process run => .handoff run

/-- Whether each pending module finds values for the modules that it imports: they are known, or
they are those of pending modules in front of it. -/
def Supplied (known : Memo) (pending : List Pending) : Prop :=
  ∀ front p behind, pending = front ++ p :: behind → ∀ b ∈ p.module.bindings,
    (∃ v, known.lookup b.module = some v) ∨ ∃ q ∈ front, q.id = b.module

section Supplied

variable {known : Memo} {p : Pending} {others : List Pending}

/-- The first pending module finds known values. -/
lemma Supplied.first (h : Supplied known (p :: others)) :
    ∀ b ∈ p.module.bindings, ∃ v, known.lookup b.module = some v := by
  intro b hb
  refine (h [] p others rfl b hb).resolve_right ?_
  rintro ⟨q, hq, -⟩
  exact absurd hq List.not_mem_nil

/-- Once the first pending module has a value, this is known to the others. -/
lemma Supplied.rest (h : Supplied known (p :: others)) (v : Value) :
    Supplied ((p.id, v) :: known) others := by
  rintro front q behind rfl b hb
  rcases h (p :: front) q behind rfl b hb with ⟨w, hw⟩ | ⟨r, hr, hid⟩
  · refine .inl ?_
    rw [List.lookup_cons]
    split
    · exact ⟨v, rfl⟩
    · exact ⟨w, hw⟩
  · rcases List.mem_cons.1 hr with rfl | hr
    · exact .inl ⟨v, by rw [List.lookup_cons, hid, beq_self_eq_true]⟩
    · exact .inr ⟨r, hr, hid⟩

end Supplied

/-- The names of a module are bound once the modules that it imports have values. -/
lemma LoadedModule.exists_scope {m : LoadedModule} {known : Memo}
    (h : ∀ b ∈ m.bindings, ∃ v, known.lookup b.module = some v) :
    ∃ bindings, m.scope known = .ok bindings := by
  unfold scope
  generalize m.bindings = bindings at h
  induction bindings with
  | nil => exact ⟨[], rfl⟩
  | cons b rest ih =>
    rw [List.forall_mem_cons] at h
    obtain ⟨v, hv⟩ := h.1
    obtain ⟨others, hothers⟩ := ih h.2
    refine ⟨(b.name, v) :: others, ?_⟩
    rw [List.mapM_cons, hothers, hv]
    rfl

/-- A module whose imports have values has a value, or its statements fail. -/
lemma LoadedModule.value_eq {m : LoadedModule} {known : Memo}
    (h : ∀ b ∈ m.bindings, ∃ v, known.lookup b.module = some v) :
    (∃ v, m.value known = .ok v) ∨ ∃ failure, m.value known = .error (.script m.path failure) := by
  obtain ⟨bindings, hscope⟩ := exists_scope h
  have hrun : m.value known = (Script.evaluate bindings m.body).mapError (.script m.path) := by
    rw [value, hscope]
    rfl
  rw [hrun]
  cases Script.evaluate bindings m.body with
  | ok v => exact .inl ⟨v, rfl⟩
  | error failure => exact .inr ⟨failure, rfl⟩

/-- The program itself gives one value for each module, and misses none on the way. -/
lemma Runtime.literal_spec {known : Memo} {pending : List Pending}
    (h : Supplied known pending) :
    (∀ values, Runtime.literal known pending = .ok values → values.length = pending.length) ∧
      ∀ path name, Runtime.literal known pending ≠ .error (.unbound path name) := by
  induction pending generalizing known with
  | nil =>
    refine ⟨fun values hvalues => ?_, fun path name heq => by cases heq⟩
    obtain rfl := Except.ok.inj hvalues
    rfl
  | cons p rest ih =>
    rw [Runtime.literal]
    rcases LoadedModule.value_eq h.first with ⟨v, hv⟩ | ⟨failure, hfailure⟩
    · obtain ⟨hlength, hbound⟩ := ih (h.rest v)
      rw [hv]
      show (∀ values, (Runtime.literal _ rest >>= _) = _ → _) ∧ ∀ path name,
        (Runtime.literal _ rest >>= _) ≠ _
      cases hrest : Runtime.literal ((p.id, v) :: known) rest with
      | ok others =>
        refine ⟨fun values hvalues => ?_, fun path name heq => by cases heq⟩
        obtain rfl := Except.ok.inj hvalues
        rw [List.length_cons, List.length_cons, hlength others hrest]
      | error e =>
        refine ⟨fun values heq => (by cases heq), fun path name heq => hbound path name ?_⟩
        rw [hrest]
        exact heq
    · rw [hfailure]
      refine ⟨fun values heq => (by cases heq), fun path name heq => ?_⟩
      cases Except.error.inj heq

/-- The values that a process answers with are as many as were asked for, and its failures are its
own. -/
lemma Handoff.valuesOf_spec (expected : Nat) (r : Reply) :
    (∀ values, valuesOf expected r = .ok values → values.length = expected) ∧
      ∀ path name, valuesOf expected r ≠ .error (.unbound path name) := by
  unfold valuesOf
  split
  · exact ⟨fun _ => nofun, fun _ _ heq => by cases Except.error.inj heq⟩
  split
  · exact ⟨fun _ => nofun, fun _ _ heq => by cases Except.error.inj heq⟩
  next text _ =>
  have hcount : ∀ values, answerValues expected text = .ok values → values.length = expected := by
    intro values hvalues
    unfold answerValues at hvalues
    split at hvalues
    · cases hvalues
    · split at hvalues
      · next hlength => exact Except.ok.inj hvalues ▸ hlength
      · cases hvalues
    · cases hvalues
  cases hanswer : answerValues expected text with
  | ok found =>
    refine ⟨fun values hvalues => ?_, fun _ _ => nofun⟩
    obtain rfl := Except.ok.inj hvalues
    exact hcount _ hanswer
  | error problem => exact ⟨fun _ => nofun, fun _ _ heq => by cases Except.error.inj heq⟩

/-- **What an engine answers** if the pending modules are supplied: one value for each of them, or a
failure other than that of a module that misses a value. -/
theorem Engine.runtime_spec (engine : Engine) {known : Memo} {pending : List Pending}
    (h : Supplied known pending) :
    (∀ values, engine.runtime known pending = .ok values → values.length = pending.length) ∧
      ∀ path name, engine.runtime known pending ≠ .error (.unbound path name) := by
  cases engine with
  | literal => exact Runtime.literal_spec h
  | process run =>
    show (∀ values, Runtime.handoff run known pending = _ → _) ∧ ∀ path name,
      Runtime.handoff run known pending ≠ _
    unfold Runtime.handoff
    split
    · exact ⟨fun _ => nofun, fun _ _ heq => by cases Except.error.inj heq⟩
    · exact Handoff.valuesOf_spec _ _

namespace Evaluator

open ModuleGraph (LoadTargets)

/-! ## The values of the first modules -/

/-- Whether the values that an evaluator knows are those of its first `k` modules. -/
structure KnowsFirst (e : Evaluator) (k : Nat) : Prop where
  /-- There are so many modules. -/
  le_size : k ≤ e.graph.size
  /-- These modules have values, and nothing else has. -/
  exists_lookup_iff : ∀ id, (∃ v, e.memo.lookup id = some v) ↔ id < k

/-- **The pending modules** are those behind the modules with a value. -/
theorem KnowsFirst.pending_eq {e : Evaluator} {k : Nat} (h : e.KnowsFirst k) :
    e.pending = ((e.graph.modules.drop k).zipIdx k).map fun m => ⟨m.2, m.1⟩ := by
  have hsplit : e.graph.modules.zipIdx =
      (e.graph.modules.take k).zipIdx ++ (e.graph.modules.drop k).zipIdx k := by
    conv_lhs => rw [← List.take_append_drop k e.graph.modules]
    have hlength : (e.graph.modules.take k).length = k := List.length_take_of_le h.le_size
    rw [List.zipIdx_append, hlength, Nat.zero_add]
  unfold pending
  rw [hsplit, List.filterMap_append, List.filterMap_eq_nil_iff.2, List.nil_append,
    ← List.filterMap_eq_map]
  · refine List.filterMap_congr ?_
    rintro ⟨m, id⟩ hm
    have hle : k ≤ id := List.le_snd_of_mem_zipIdx hm
    have hnone : e.memo.lookup id = none := by
      refine Option.eq_none_iff_forall_ne_some.2 fun v hv => ?_
      have hlt := (h.exists_lookup_iff id).1 ⟨v, hv⟩
      omega
    dsimp only
    rw [hnone]
    rfl
  · rintro ⟨m, id⟩ hm
    have hlt : id < k := by
      have hlt := (List.getElem?_eq_some_iff.1 (List.mem_zipIdx_iff_getElem?.1 hm)).1
      rw [List.length_take] at hlt
      exact Nat.lt_of_lt_of_le hlt (Nat.min_le_left ..)
    obtain ⟨v, hv⟩ := (h.exists_lookup_iff id).2 hlt
    dsimp only
    rw [hv]

/-- The ids of the pending modules ascend from that of the first module without a value. -/
lemma KnowsFirst.ids_pending {e : Evaluator} {k : Nat} (h : e.KnowsFirst k) :
    e.pending.map Pending.id = List.range' k (e.graph.size - k) := by
  rw [h.pending_eq, List.map_map]
  show ((e.graph.modules.drop k).zipIdx k).map Prod.snd = _
  rw [List.zipIdx_map_snd, List.length_drop]
  rfl

/-- **Pending modules are supplied**: what a module imports has a smaller id. -/
theorem supplied_pending {e : Evaluator} (hwell : e.graph.WellFormed) :
    Supplied e.memo e.pending := by
  intro front p behind hsplit b hb
  have hp : p ∈ e.pending := hsplit ▸ List.mem_append_right _ (List.mem_cons_self ..)
  have hget := (mem_pending_iff.1 hp).1
  have hlt : b.module < p.id := hwell.deps_lt p.id p.module hget b hb
  have hsize : b.module < e.graph.size := hlt.trans (List.getElem?_eq_some_iff.1 hget).1
  refine (known_or_pending e hsize).imp_right ?_
  rintro ⟨q, hq, hid⟩
  refine ⟨q, ?_, hid⟩
  have hsorted := pairwise_pending e
  rw [hsplit] at hq hsorted
  rcases List.mem_append.1 hq with hfront | hlater
  · exact hfront
  · have hle : p.id ≤ q.id := by
      rcases List.mem_cons.1 hlater with rfl | hbehind
      · exact Nat.le_refl _
      · exact Nat.le_of_lt ((List.pairwise_cons.1 (List.pairwise_append.1 hsorted).2.1).1 q hbehind)
    omega

/-- Where no value comes to be known, more modules change nothing. -/
lemma KnowsFirst.load {e : Evaluator} {k : Nat} (h : e.KnowsFirst k) {g : ModuleGraph}
    (hg : e.graph.modules <+: g.modules) : KnowsFirst { e with graph := g } k :=
  ⟨h.le_size.trans hg.length_le, h.exists_lookup_iff⟩

/-- Values for the pending modules are values for all modules. -/
lemma KnowsFirst.remember {e : Evaluator} {k : Nat} (h : e.KnowsFirst k) {values : List Value}
    (hlength : values.length = e.pending.length) :
    KnowsFirst { e with memo := e.memo ++ (e.pending.map Pending.id).zip values } e.graph.size := by
  have hids := h.ids_pending
  refine ⟨Nat.le_refl _, fun id => ⟨?_, fun hid => ?_⟩⟩
  · rintro ⟨v, hv⟩
    rw [List.lookup_append, Option.or_eq_some_iff] at hv
    rcases hv with hold | ⟨-, hnew⟩
    · exact ((h.exists_lookup_iff id).1 ⟨v, hold⟩).trans_le h.le_size
    · obtain ⟨before, behind, hzip, -⟩ := List.lookup_eq_some_iff.1 hnew
      have hmem : (id, v) ∈ (e.pending.map Pending.id).zip values := by simp [hzip]
      have hrange := (List.of_mem_zip hmem).1
      rw [hids, List.mem_range'_1] at hrange
      have hle := h.le_size
      omega
  · exact exists_lookup_append (R := fun _ _ => True)
      (List.forall₂_iff_zip.2 ⟨hlength.symm, fun _ => trivial⟩) hid

/-! ## One call -/

/-- **What a call does** to an evaluator that knows the values of its first `k` modules. -/
structure Orderly (runtime : Runtime) (e : Evaluator) (k : Nat) (round : Round) : Prop where
  /-- Modules may be added. -/
  modules : e.graph.modules <+: round.evaluator.graph.modules
  /-- Loading fails and the runtime is not asked, or it is asked for the modules from the `k`-th one
  on, in the order of their ids; without any it is not asked. -/
  asked : (∃ cause, round.answer = .error (.load cause) ∧ round.asked = []) ∨
    round.asked = ((round.evaluator.graph.modules.drop k).zipIdx k).map fun m => ⟨m.2, m.1⟩
  /-- The modules that are asked for find the values of the modules that they import. -/
  supplied : Supplied e.memo round.asked
  /-- The answer of the runtime, which knows the values that are known, decides the call. -/
  decided : round.asked ≠ [] →
    (∃ values vs, runtime e.memo round.asked = .ok values ∧ round.answer = .ok vs) ∨
      ∃ cause, runtime e.memo round.asked = .error cause ∧
        round.answer = .error (.evaluation cause)
  /-- No module misses the value of a module that it imports. -/
  bound : ∀ path name, round.answer ≠ .error (.evaluation (.unbound path name))
  /-- A call that fails leaves the values that are known. -/
  failed : ∀ cause, round.answer = .error cause → round.evaluator.memo = e.memo
  /-- After a call that succeeds all modules have values. -/
  succeeded : ∀ vs, round.answer = .ok vs →
    round.evaluator.KnowsFirst round.evaluator.graph.size

/-- The ids that are asked for ascend from that of the first module without a value. -/
lemma Orderly.le_id {runtime : Runtime} {e : Evaluator} {k : Nat} {round : Round}
    (h : Orderly runtime e k round) {p : Pending} (hp : p ∈ round.asked) :
    k ≤ p.id ∧ p.id < round.evaluator.graph.size := by
  rcases h.asked with ⟨_, -, hnone⟩ | hasked
  · rw [hnone] at hp
    exact absurd hp List.not_mem_nil
  · rw [hasked] at hp
    obtain ⟨⟨m, id⟩, hm, rfl⟩ := List.mem_map.1 hp
    have hlt := List.snd_lt_of_mem_zipIdx hm
    rw [List.length_drop] at hlt
    have hle := List.le_snd_of_mem_zipIdx hm
    unfold ModuleGraph.size
    dsimp only at hlt hle ⊢
    omega

/-- After a call the values of the first modules are known: of all modules if it succeeded, and of
the same modules as before otherwise. -/
lemma Orderly.exists_knowsFirst {runtime : Runtime} {e : Evaluator} {k : Nat} {round : Round}
    (h : Orderly runtime e k round) (hk : e.KnowsFirst k) :
    ∃ l, k ≤ l ∧ round.evaluator.KnowsFirst l ∧
      ∀ vs, round.answer = .ok vs → l = round.evaluator.graph.size := by
  cases hanswer : round.answer with
  | ok vs =>
    exact ⟨_, hk.le_size.trans h.modules.length_le, h.succeeded vs hanswer, fun _ _ => rfl⟩
  | error cause =>
    refine ⟨k, Nat.le_refl k, ⟨hk.le_size.trans h.modules.length_le, ?_⟩, nofun⟩
    rw [h.failed cause hanswer]
    exact hk.exists_lookup_iff

/-- **What one call does**, whatever it asks for, to an evaluator that knows the values of its first
modules.

**Proof sketch.** By the outcome of the load and of the runtime. A load that fails asks for nothing
and remembers nothing. After a load the known modules are still the first ones, so that the pending
ones are those behind them (`KnowsFirst.pending_eq`); a runtime that fails leaves them as they were,
and one that succeeds gives a value for each of them, after which all modules of the graph are
known. -/
theorem orderly_evaluateAll {e : Evaluator} {k : Nat} (hk : e.KnowsFirst k)
    (hwell : e.graph.WellFormed) (t : FileTree) (engine : Engine) (paths : List Path) :
    Orderly engine.runtime e k (e.evaluateAll t engine.runtime paths) ∧
      (e.evaluateAll t engine.runtime paths).evaluator.graph.WellFormed := by
  have hload := loadAll_cases t e.graph paths
  unfold evaluateAll
  generalize loadAll t e.graph paths = result at hload ⊢
  obtain ⟨g, outcome⟩ := result
  dsimp only at hload
  rcases hload with ⟨bindings, rfl, hload⟩ | ⟨cause, rfl, hload⟩
  · have hmodules := hload.prefix_modules
    have hloaded := hk.load hmodules
    have hwell' : g.WellFormed := hload.wellFormed hwell
    have hsupplied := supplied_pending (e := { e with graph := g }) hwell'
    obtain ⟨hlength, hbound⟩ := engine.runtime_spec hsupplied
    dsimp only
    split
    · next hnone =>
      -- without pending modules the modules with a value are all modules
      have hpending := List.isEmpty_iff.1 hnone
      have hnothing : ([] : List Value).length = (pending { e with graph := g }).length := by
        rw [hpending]
        rfl
      have hall := hloaded.remember hnothing
      rw [hpending, List.map_nil, List.zip_nil_left, List.append_nil] at hall
      refine ⟨⟨hmodules, .inr ?_, ?_, fun hne => absurd rfl hne, nofun, nofun, fun _ _ => hall⟩,
        hwell'⟩
      · exact hpending.symm.trans hloaded.pending_eq
      · exact hpending ▸ hsupplied
    · cases hrun : engine.runtime e.memo (pending { e with graph := g }) with
      | error cause =>
        refine ⟨⟨hmodules, .inr hloaded.pending_eq, hsupplied, fun _ => .inr ⟨cause, hrun, rfl⟩, ?_,
          fun _ _ => rfl, nofun⟩, hwell'⟩
        intro path name heq
        obtain rfl := EngineError.evaluation.inj (Except.error.inj heq)
        exact hbound path name hrun
      | ok values =>
        refine ⟨⟨hmodules, .inr hloaded.pending_eq, hsupplied,
          fun _ => .inl ⟨values, _, hrun, rfl⟩, nofun, nofun, fun _ _ => ?_⟩, hwell'⟩
        exact hloaded.remember (hlength values hrun)
  · refine ⟨⟨hload.prefix_modules, .inl ⟨cause, rfl, rfl⟩, ?_, fun hne => absurd rfl hne, ?_,
      fun _ _ => rfl, nofun⟩, hload.wellFormed hwell⟩
    · intro front p behind hsplit
      cases front <;> cases hsplit
    · intro path name heq
      cases Except.error.inj heq

/-! ## Calls one after the other -/

/-- A call for one module fails if a call for a list of one module does. -/
lemma Call.run_eq_error_iff {t : FileTree} {runtime : Runtime} {e : Evaluator} {call : Call}
    {cause : EngineError} :
    (call.run t runtime e).2 = .error cause ↔
      (e.evaluateAll t runtime call.paths).answer = .error cause := by
  cases call with
  | one p =>
    dsimp only [run, evaluate, paths]
    cases (e.evaluateAll t runtime [p]).answer <;> simp [Except.map]
  | all paths => exact Iff.rfl

/-- A call, with the files and the engine that it finds. -/
structure Turn where
  /-- The files. -/
  tree : FileTree
  /-- The engine. -/
  engine : Engine
  /-- The call. -/
  call : Call

/-- What comes of a call. -/
def Turn.round (turn : Turn) (e : Evaluator) : Round :=
  e.evaluateAll turn.tree turn.engine.runtime turn.call.paths

/-- The evaluator after some calls, each with files and an engine of its own. It is made of a graph
that has gone through some loads before. -/
def afterTurns (loads : List (FileTree × Path)) (turns : List Turn) : Evaluator :=
  turns.foldl (fun e turn => (turn.call.run turn.tree turn.engine.runtime e).1)
    { graph := Arena.graphAfterLoads loads }

/-- One call more. -/
lemma afterTurns_concat (loads : List (FileTree × Path)) (turns : List Turn) (turn : Turn) :
    afterTurns loads (turns ++ [turn]) = (turn.round (afterTurns loads turns)).evaluator := by
  unfold afterTurns
  rw [List.foldl_concat, Call.run_fst]
  rfl

/-- **What is known after any calls** are the values of the modules that were loaded first, and
further calls lose none of them.

**Proof sketch.** Two inductions on turns, the last one split off. The first says that a number of
first modules is known after any turns, by `orderly_evaluateAll`; the second adds the later turns
one by one, none of which lowers the number. -/
theorem knowsFirst_afterTurns (loads : List (FileTree × Path)) (earlier later : List Turn) :
    (afterTurns loads (earlier ++ later)).graph.WellFormed ∧
      ∃ k l, (afterTurns loads earlier).KnowsFirst k ∧
        (afterTurns loads (earlier ++ later)).KnowsFirst l ∧ k ≤ l := by
  -- the turns in front count as turns after none
  have hstart : ∀ turns, (afterTurns loads turns).graph.WellFormed ∧
      ∃ k, (afterTurns loads turns).KnowsFirst k := by
    intro turns
    induction turns using List.reverseRecOn with
    | nil =>
      refine ⟨(Arena.holds_afterLoads loads).2.1, 0, Nat.zero_le _, fun id => ?_⟩
      simp [afterTurns]
    | append_singleton turns turn ih =>
      obtain ⟨hwell, k, hk⟩ := ih
      obtain ⟨horderly, hwell'⟩ :=
        orderly_evaluateAll hk hwell turn.tree turn.engine turn.call.paths
      obtain ⟨l, -, hl, -⟩ := horderly.exists_knowsFirst hk
      rw [afterTurns_concat]
      exact ⟨hwell', l, hl⟩
  obtain ⟨-, k, hk⟩ := hstart earlier
  refine ⟨(hstart _).1, k, ?_⟩
  induction later using List.reverseRecOn with
  | nil => exact ⟨k, hk, by rwa [List.append_nil], Nat.le_refl k⟩
  | append_singleton later turn ih =>
    obtain ⟨l, -, hl, hle⟩ := ih
    obtain ⟨horderly, -⟩ :=
      orderly_evaluateAll hl (hstart _).1 turn.tree turn.engine turn.call.paths
    obtain ⟨n, hln, hn, -⟩ := horderly.exists_knowsFirst hl
    rw [← List.append_assoc, afterTurns_concat]
    exact ⟨n, hk, hn, hle.trans hln⟩

/-- The number of first modules whose values are known is one. -/
lemma KnowsFirst.unique {e : Evaluator} {k l : Nat} (hk : e.KnowsFirst k) (hl : e.KnowsFirst l) :
    k = l := by
  have hiff : ∀ id, id < k ↔ id < l := fun id =>
    (hk.exists_lookup_iff id).symm.trans (hl.exists_lookup_iff id)
  have hkl := hiff k
  have hlk := hiff l
  omega

/-- One more call after any calls: of which modules the values are known, and what the call does. -/
lemma exists_orderly_round (loads : List (FileTree × Path)) (turns : List Turn) (turn : Turn) :
    ∃ k, (afterTurns loads turns).KnowsFirst k ∧
      Orderly turn.engine.runtime (afterTurns loads turns) k
        (turn.round (afterTurns loads turns)) := by
  obtain ⟨hwell, -, k, -, hk, -⟩ := knowsFirst_afterTurns loads [] turns
  rw [List.nil_append] at hwell hk
  exact ⟨k, hk, (orderly_evaluateAll hk hwell turn.tree turn.engine turn.call.paths).1⟩

/-- **What a call does after any calls**, whether these succeeded or not, however the files changed
between them and whatever processes did: the values of the modules that were loaded first are known,
the runtime is asked for the others, and no value of a module is missed, lost or asked for once
more.

**Proof sketch.** That the round is orderly is one more call after the turns
(`exists_orderly_round`). For the last part let a round have succeeded earlier: it has left all
modules of its graph known, and later rounds keep them known, so that this round asks for modules
behind those only. -/
theorem orderly_afterTurns (loads : List (FileTree × Path)) (turns : List Turn) (turn : Turn) :
    ∃ k, (afterTurns loads turns).KnowsFirst k ∧
      Orderly turn.engine.runtime (afterTurns loads turns) k
        (turn.round (afterTurns loads turns)) ∧
      afterTurns loads (turns ++ [turn]) = (turn.round (afterTurns loads turns)).evaluator ∧
      (∀ cause, (turn.call.run turn.tree turn.engine.runtime (afterTurns loads turns)).2 =
          .error cause ↔ (turn.round (afterTurns loads turns)).answer = .error cause) ∧
      ∀ earlier other later, turns = earlier ++ other :: later →
        ∀ vs, (other.round (afterTurns loads earlier)).answer = .ok vs →
          ∀ p ∈ (other.round (afterTurns loads earlier)).asked,
            ∀ q ∈ (turn.round (afterTurns loads turns)).asked, p.id < q.id := by
  obtain ⟨k, hk, horderly⟩ := exists_orderly_round loads turns turn
  refine ⟨k, hk, horderly, afterTurns_concat loads turns turn, fun cause => ?_, ?_⟩
  · exact turn.call.run_eq_error_iff
  · rintro earlier other later rfl vs hvs p hp q hq
    obtain ⟨_, -, hother⟩ := exists_orderly_round loads earlier other
    obtain ⟨-, l, n, hl, hn, hle⟩ := knowsFirst_afterTurns loads (earlier ++ [other]) later
    rw [List.append_assoc, List.singleton_append] at hn
    rw [afterTurns_concat] at hl
    have hlast : (other.round (afterTurns loads earlier)).evaluator.graph.size = l :=
      (hother.succeeded vs hvs).unique hl
    have hbefore : p.id < (other.round (afterTurns loads earlier)).evaluator.graph.size :=
      (hother.le_id hp).2
    have hbehind := (horderly.le_id hq).1
    have hsame := hn.unique hk
    omega

end Evaluator

end CardTable
