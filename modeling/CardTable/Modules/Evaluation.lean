import CardTable.Modules.Graph
import CardTable.Script.Eval

set_option autoImplicit false

/-!
# Evaluating modules

The value of a module is what its statements return when its names are bound to the values of the
modules that it imports. An evaluator keeps the modules that were loaded and the values that are
known. To give the values of some modules it loads them, has all modules without a value evaluated
at once, in the order of their ids, and remembers the values if that succeeds.

## Main definitions

* `CardTable.Memo` — the values that are known.
* `CardTable.Pending` — a module without a value.
* `CardTable.Runtime` — a way to evaluate pending modules.
* `CardTable.Runtime.literal` — evaluation inside the program.
* `CardTable.Evaluator` and `CardTable.Evaluator.evaluateAll` — the values of modules at given
  paths.
-/

namespace CardTable

/-- The values that are known, each under the id of its module. -/
abbrev Memo : Type := List (Nat × Value)

/-- A module without a value. -/
structure Pending where
  /-- The id of the module. -/
  id : Nat
  /-- The module. -/
  module : LoadedModule

/-- What is wrong with the answer of an evaluation process. -/
inductive AnswerProblem where
  /-- There is no answer. -/
  | unreadable (cause : IoError)
  /-- The answer is not a JSON text. -/
  | invalidJson
  /-- The answer is not a list. -/
  | notList
  /-- The answer has the wrong number of values. -/
  | count (expected found : Nat)
deriving DecidableEq

/-- The wording of a problem with an answer. -/
def AnswerProblem.message : AnswerProblem → String
  | .unreadable cause => "result file unreadable: " ++ cause.message
  | .invalidJson => "invalid JSON"
  | .notList => "evaluation output is not a list"
  | .count expected found =>
    "expected " ++ String.ofList (Nat.toDigits 10 expected) ++ " values, got " ++
      String.ofList (Nat.toDigits 10 found)

/-- Why no evaluation process can be started. -/
inductive Unavailable where
  /-- The program is in none of the directories that are searched. -/
  | notLocated (searched : Bool)
  /-- The program cannot be started. -/
  | notStarted (program : Path) (cause : IoError)
deriving DecidableEq

/-- The wording of a missing evaluation process. -/
def Unavailable.message : Unavailable → String
  | .notLocated true => "node not found on PATH: cannot find binary path"
  | .notLocated false =>
    "node not found on PATH: no path to search and provided name is not an absolute path"
  | .notStarted program cause => "failed to spawn " ++ program.text ++ ": " ++ cause.message

/-- Why evaluation fails. -/
inductive EvaluationError where
  /-- The statements of a module fail. -/
  | script (path : Path) (failure : Script.Failure)
  /-- A name is bound to a module without a value. -/
  | unbound (path : Path) (name : String)
  /-- There is no evaluation process. -/
  | unavailable (reason : Unavailable)
  /-- The evaluation process fails. -/
  | processFailed (code : UInt8) (output : String)
  /-- The answer of the evaluation process cannot be used. -/
  | malformed (problem : AnswerProblem)

/-- The wording of an evaluation error. -/
def EvaluationError.message : EvaluationError → String
  | .script path (.fault f) =>
    "Unsupported syntax in " ++ path.text ++ " at byte " ++
      String.ofList (Nat.toDigits 10 f.offset) ++ ": " ++ f.problem.message
  | .script path failure => "Evaluation of " ++ path.text ++ " failed: " ++ failure.message
  | .unbound path name =>
    "Evaluation of " ++ path.text ++ " failed: dependency '" ++ name ++
      "' was not evaluated first"
  | .unavailable reason => "Module runtime unavailable: " ++ reason.message
  | .processFailed code output =>
    "Evaluation process exited with exit status: " ++
      String.ofList (Nat.toDigits 10 code.toNat) ++ ": " ++ output
  | .malformed problem => "Malformed evaluation result: " ++ problem.message

/-- A way to evaluate pending modules, given the values that are known: one value for each module,
in their order. -/
abbrev Runtime : Type := Memo → List Pending → Except EvaluationError (List Value)

/-! ## Evaluation inside the program -/

/-- The names of a module with the values they are bound to. -/
def LoadedModule.scope (m : LoadedModule) (known : Memo) :
    Except EvaluationError (List (String × Value)) :=
  m.bindings.mapM fun b =>
    match known.lookup b.module with
    | some v => .ok (b.name, v)
    | none => .error (.unbound m.path b.name)

/-- The value of a module. -/
def LoadedModule.value (m : LoadedModule) (known : Memo) : Except EvaluationError Value := do
  let bindings ← m.scope known
  (Script.evaluate bindings m.body).mapError (.script m.path)

/-- Evaluates the pending modules one after the other; a value is known to the modules behind. -/
def Runtime.literal : Runtime
  | _, [] => .ok []
  | known, p :: rest => do
    let v ← p.module.value known
    let values ← Runtime.literal ((p.id, v) :: known) rest
    .ok (v :: values)

/-! ## Evaluators -/

/-- Why an evaluator gives no values. -/
inductive EngineError where
  /-- A module cannot be loaded. -/
  | load (e : LoadError)
  /-- The modules cannot be evaluated. -/
  | evaluation (e : EvaluationError)

/-- The wording of an evaluator's error. -/
def EngineError.message : EngineError → String
  | .load e => e.message
  | .evaluation e => e.message

/-- The modules that were loaded, and the values that are known. -/
structure Evaluator where
  /-- The modules. -/
  graph : ModuleGraph := {}
  /-- The values. -/
  memo : Memo := []

namespace Evaluator

/-- The modules without a value, in the order of their ids. -/
def pending (e : Evaluator) : List Pending :=
  e.graph.modules.zipIdx.filterMap fun (m, id) =>
    match e.memo.lookup id with
    | some _ => none
    | none => some ⟨id, m⟩

/-- Loads the modules at the given paths, up to the first that fails. -/
def loadAll (t : FileTree) (g : ModuleGraph) :
    List Path → ModuleGraph × Except LoadError (List Nat)
  | [] => (g, .ok [])
  | p :: rest =>
    match g.load t p with
    | (g, .error e) => (g, .error e)
    | (g, .ok id) =>
      match loadAll t g rest with
      | (g, .error e) => (g, .error e)
      | (g, .ok ids) => (g, .ok (id :: ids))

/-- What comes of asking an evaluator for values. -/
structure Round where
  /-- The evaluator afterwards. -/
  evaluator : Evaluator
  /-- The modules that were given to the runtime; without any it is not asked. -/
  asked : List Pending
  /-- The values, in the order of the paths. -/
  answer : Except EngineError (List Value)

/-- The values of the modules with the given ids. -/
def valuesOf (memo : Memo) (ids : List Nat) : List Value :=
  ids.map fun id => (memo.lookup id).getD .null

/-- Asks for the values of the modules at the given paths. -/
def evaluateAll (t : FileTree) (runtime : Runtime) (e : Evaluator) (paths : List Path) : Round :=
  match loadAll t e.graph paths with
  | (g, .error error) => ⟨{ e with graph := g }, [], .error (.load error)⟩
  | (g, .ok ids) =>
    let e := { e with graph := g }
    let asked := e.pending
    if asked.isEmpty then ⟨e, [], .ok (valuesOf e.memo ids)⟩
    else
      match runtime e.memo asked with
      | .error error => ⟨e, asked, .error (.evaluation error)⟩
      | .ok values =>
        let memo := e.memo ++ (asked.map Pending.id).zip values
        ⟨{ e with memo := memo }, asked, .ok (valuesOf memo ids)⟩

/-- Asks for the value of the module at a path. -/
def evaluate (t : FileTree) (runtime : Runtime) (e : Evaluator) (p : Path) :
    Evaluator × Except EngineError Value :=
  let round := e.evaluateAll t runtime [p]
  (round.evaluator, round.answer.map fun values => values.headD .null)

end Evaluator

end CardTable
