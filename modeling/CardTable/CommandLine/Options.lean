import CardTable.Compile.Config
import CardTable.Value.Fields

set_option autoImplicit false

/-!
# Command line options

The arguments of a command are options, read one after the other. An option is a flag or takes a
value, which stands behind an equals sign or is the next argument. No option is given twice. An
option with a value that is not given may be set by a variable of the environment.

## Main definitions

* `CardTable.OptionSpec` — options.
* `CardTable.Given` — the options that are given.
* `CardTable.Request` — what a command line asks for.
* `CardTable.Request.ofArguments` — reads arguments and environment.
-/

namespace CardTable

/-- What an option is for. -/
inductive OptionRole where
  /-- It takes a path, which is not empty. -/
  | path
  /-- It takes one of several words. -/
  | choice (words : List String)
  /-- It takes nothing. -/
  | flag
  /-- It asks for the version. -/
  | version
  /-- It asks for help. -/
  | help
deriving DecidableEq

/-- An option. -/
structure OptionSpec where
  /-- The name, behind two hyphens. -/
  name : String
  /-- What it is for. -/
  role : OptionRole
  /-- The letter that may stand for it, behind one hyphen. -/
  letter : Option Char := none
  /-- The variable that may set it. -/
  setBy : Option String := none
deriving DecidableEq

/-- The options that are given, with their values; that of a flag is empty. -/
abbrev Given : Type := Fields String

/-- What a command line asks for. -/
inductive Request where
  /-- To run with the given options. -/
  | run (given : Given)
  /-- To show the version. -/
  | version
  /-- To show help. -/
  | help
  /-- Nothing that the command knows. -/
  | misuse
deriving DecidableEq

namespace OptionSpec

/-- Whether the option takes `value`. -/
def accepts (spec : OptionSpec) (value : String) : Bool :=
  match spec.role with
  | .path => value ≠ ""
  | .choice words => value ∈ words
  | _ => false

/-- Whether the option takes a value. -/
def takesValue (spec : OptionSpec) : Bool :=
  match spec.role with
  | .path | .choice _ => true
  | _ => false

/-- The options with this one added, unless it is there or does not take the value. -/
def give (spec : OptionSpec) (value : String) (given : Given) : Except Request Given :=
  if spec.accepts value ∧ (given.get? spec.name).isNone then
    .ok (given.insert spec.name value)
  else .error .misuse

/-- The options with this one added, which takes no value. -/
def giveFlag (spec : OptionSpec) (given : Given) : Except Request Given :=
  match spec.role with
  | .version => .error .version
  | .help => .error .help
  | .flag =>
    if (given.get? spec.name).isNone then .ok (given.insert spec.name "") else .error .misuse
  | _ => .error .misuse

end OptionSpec

namespace Request

/-- The options with those added that the letters stand for, none of which takes a value. -/
def giveLetters (specs : List OptionSpec) (given : Given) : List Char → Except Request Given
  | [] => .ok given
  | c :: rest =>
    match specs.find? fun spec => spec.letter = some c with
    | none => .error .misuse
    | some spec => do
      let given ← spec.giveFlag given
      giveLetters specs given rest

/-- A text at its first equals sign. -/
def splitEquals (cs : List Char) : List Char × Option (List Char) :=
  match cs.dropWhile (· != '=') with
  | [] => (cs, none)
  | _ :: value => (cs.takeWhile (· != '='), some value)

/-- Whether an argument cannot be the value of the option in front of it. -/
def looksLikeOption (arg : String) : Bool :=
  match arg.toList with
  | '-' :: _ :: _ => true
  | _ => false

/-- The options with those added that the arguments give. -/
def giveArguments (specs : List OptionSpec) (given : Given) (args : List String) :
    Except Request Given :=
  match args with
  | [] => .ok given
  | arg :: rest =>
    match arg.toList with
    | ['-', '-'] => if rest = [] then .ok given else .error .misuse
    | '-' :: '-' :: cs =>
      let (name, value) := splitEquals cs
      match specs.find? fun spec => spec.name.toList = name, value with
      | none, _ => .error .misuse
      | some spec, some value => do
        let given ← spec.give (String.ofList value) given
        giveArguments specs given rest
      | some spec, none =>
        if spec.takesValue then
          match rest with
          | [] => .error .misuse
          | value :: more =>
            if looksLikeOption value then .error .misuse
            else do
              let given ← spec.give value given
              giveArguments specs given more
        else do
          let given ← spec.giveFlag given
          giveArguments specs given rest
    | '-' :: c :: cs => do
      let given ← giveLetters specs given (c :: cs)
      giveArguments specs given rest
    | _ => .error .misuse
termination_by args.length

/-- The options with those added that the environment sets and that are not given. -/
def giveVariables (environment : Fields String) (given : Given) :
    List OptionSpec → Except Request Given
  | [] => .ok given
  | spec :: rest =>
    match given.get? spec.name, spec.setBy.bind environment.get? with
    | none, some value => do
      let given ← spec.give value given
      giveVariables environment given rest
    | _, _ => giveVariables environment given rest

/-- What arguments and environment ask for. -/
def ofArguments (specs : List OptionSpec) (environment : Fields String) (args : List String) :
    Request :=
  let given := do
    let given ← giveArguments specs [] args
    giveVariables environment given specs
  match given with
  | .ok given => .run given
  | .error request => request

end Request

end CardTable
