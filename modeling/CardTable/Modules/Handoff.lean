import CardTable.Json.Reader
import CardTable.Modules.Evaluation
import CardTable.Text.White

set_option autoImplicit false

/-!
# Handing modules to a process

Modules can be evaluated by a process outside the program. It receives a manifest, which lists the
pending modules and the known values that they depend on, and answers with a list of values, one
for each module.

## Main definitions

* `CardTable.Handoff.preset` — the known values that pending modules depend on.
* `CardTable.Handoff.manifest` — the manifest.
* `CardTable.Handoff.Reply` and `CardTable.Handoff.valuesOf` — what the process does, and the
  values that it answers with.
* `CardTable.Runtime.handoff` — evaluation by a process.
-/

namespace CardTable.Handoff

/-! ## The manifest -/

/-- The values that are known for the dependencies `deps`, without those in `listed`. -/
def presetOf (known listed : Memo) : List Nat → Memo
  | [] => listed
  | dep :: rest =>
    match known.lookup dep, listed.lookup dep with
    | some v, none => presetOf known (listed ++ [(dep, v)]) rest
    | _, _ => presetOf known listed rest

/-- The known values that the pending modules depend on, each once, in the order in which the
modules name them. -/
def preset (known : Memo) (pending : List Pending) : Memo :=
  presetOf known [] (pending.flatMap fun p => p.module.deps)

/-- The number `n` as a value. -/
def natValue (n : Nat) : Value :=
  .num (.ofInt n)

/-- A preset value in the manifest. -/
def presetEntry (entry : Nat × Value) : Value :=
  .mapping [("id", natValue entry.1), ("value", entry.2)]

/-- A pending module in the manifest. -/
def moduleEntry (p : Pending) : Value :=
  .mapping
    [ ("id", natValue p.id)
    , ("path", .str p.module.path.text)
    , ("params", .list (p.module.params.map .str))
    , ("deps", .list (p.module.deps.map natValue))
    , ("body", .str p.module.body) ]

/-- The manifest. -/
def manifest (known : Memo) (pending : List Pending) : Value :=
  .mapping
    [ ("preset", .list ((preset known pending).map presetEntry))
    , ("modules", .list (pending.map moduleEntry)) ]

/-- The manifest as the process receives it. -/
def manifestText (known : Memo) (pending : List Pending) : String :=
  Json.text (manifest known pending)

/-! ## The answer -/

/-- What a process does. -/
structure Reply where
  /-- The code that it exits with. -/
  exitCode : UInt8 := 0
  /-- What it prints. -/
  output : String := ""
  /-- What it prints about errors. -/
  errors : String := ""
  /-- What it writes as its answer, if it writes one. -/
  answer : Option String := none
deriving DecidableEq

/-- The values in the text of an answer, of which there have to be `expected`. -/
def answerValues (expected : Nat) (text : String) : Except AnswerProblem (List Value) :=
  match Json.read? text with
  | none => .error .invalidJson
  | some (.list values) =>
    if values.length = expected then .ok values else .error (.count expected values.length)
  | some _ => .error .notList

/-- The values that a process answers with. A process that fails is described by what it printed
about errors or, if that is nothing, by its output. -/
def valuesOf (expected : Nat) (r : Reply) : Except EvaluationError (List Value) :=
  if r.exitCode ≠ 0 then
    let errors := Text.trim r.errors
    .error (.processFailed r.exitCode (if errors = "" then Text.trim r.output else errors))
  else
    match r.answer with
    | none => .error (.malformed (.unreadable .notFound))
    | some text => (answerValues expected text).mapError .malformed

end CardTable.Handoff

namespace CardTable

/-- Evaluation by a process: what it does with a manifest, or why it cannot be started. -/
def Runtime.handoff (process : String → Except Unavailable Handoff.Reply) : Runtime :=
  fun known pending =>
    match process (Handoff.manifestText known pending) with
    | .error reason => .error (.unavailable reason)
    | .ok reply => Handoff.valuesOf pending.length reply

end CardTable
