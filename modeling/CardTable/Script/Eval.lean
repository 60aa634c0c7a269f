import CardTable.Script.Reader

set_option autoImplicit false

/-!
# Evaluation of module bodies

A body is data, not a program: declarations of literals that refer to values in scope. Evaluation
has no effect but the names that declarations bring into scope, and it fails at the first part that
has no value.

## Main definitions

* `CardTable.Script.Failure` — why an evaluation fails.
* `CardTable.Script.member` — the property of a value.
* `CardTable.Script.Expr.eval` — the value of an expression in a scope.
* `CardTable.Script.run` — the value of a list of statements.
* `CardTable.Script.evaluate` — the value of a body with given bindings.
-/

namespace CardTable.Script

/-- Why an evaluation fails. -/
inductive Failure where
  /-- The body breaks the syntax. -/
  | fault (f : Fault)
  /-- A name that is not in scope. -/
  | undefinedName (word : String)
  /-- A plus or minus sign in front of something that is no number. -/
  | signedNonNumber (negative : Bool)
  /-- A property of null, or of `undefined`. -/
  | propertyOf (key : String) (ofNull : Bool)
  /-- An array literal spreads something that has no items. -/
  | spreadNonIterable
  /-- A minus sign in front of the least whole number of a signed word, whose negative does not fit:
  the program stops there. -/
  | overflow
deriving DecidableEq

/-- The wording of a failure. -/
def Failure.message : Failure → String
  | .fault f => f.problem.message
  | .undefinedName word => word ++ " is not defined"
  | .signedNonNumber true => "unary '-' applied to a non-number"
  | .signedNonNumber false => "unary '+' applied to a non-number"
  | .propertyOf key true => "cannot read property '" ++ key ++ "' of null"
  | .propertyOf key false => "cannot read property '" ++ key ++ "' of undefined"
  | .spreadNonIterable => "spread of a non-iterable value"
  | .overflow => "attempt to negate with overflow"

/-- The names in scope, with their values or `undefined`. -/
abbrev Scope : Type := Fields (Option Value)

/-! ## Parts of values -/

/-- The texts of the characters of `s`, one by one. -/
def charTexts (s : String) : List Value :=
  s.toList.map fun c => .str (String.ofList [c])

/-- The property `key` of a value. The items of a list and the characters of a text are properties
by position, and `length` counts the items of a list and the UTF-16 code units of a text. -/
def member (target : Option Value) (key : String) : Except Failure (Option Value) :=
  match target with
  | some (.mapping fields) => .ok (Fields.get? fields key)
  | some (.list items) =>
    if key = "length" then .ok (some (.num (.ofInt items.length)))
    else .ok ((positionOf? key).bind (items[·]?))
  | some (.str s) =>
    if key = "length" then .ok (some (.num (.ofInt (Text.unitCount s.toList))))
    else .ok ((positionOf? key).bind ((charTexts s)[·]?))
  | some .null => .error (.propertyOf key true)
  | none => .error (.propertyOf key false)
  | some _ => .ok none

/-- Whether an optional access gives up on a value. -/
def isNullish : Option Value → Bool
  | none | some .null => true
  | some _ => false

/-- A chain of accesses on its way: the value reached, or nothing once an optional access has
given up. -/
abbrev Reached : Type := Option (Option Value)

/-- One access further. -/
def access (optional : Bool) (key : String) : Reached → Except Failure Reached
  | none => .ok none
  | some target =>
    if optional && isNullish target then .ok none
    else (member target key).map some

/-- The items of a list, or the characters of a text, by position. -/
def positioned (items : List Value) : Fields Value :=
  (items.zipIdx).map fun (item, i) => (Nat.repr i, item)

/-- The properties that an object literal takes over from a value. -/
def spreadFields : Option Value → Fields Value
  | some (.mapping fields) => fields
  | some (.list items) => positioned items
  | some (.str s) => positioned (charTexts s)
  | _ => []

/-- The items that an array literal takes over from a value. -/
def spreadItems : Option Value → Except Failure (List Value)
  | some (.list items) => .ok items
  | some (.str s) => .ok (charTexts s)
  | _ => .error .spreadNonIterable

/-- Sets a property; `undefined` removes it. -/
def setProperty (fields : Fields Value) (key : String) : Option Value → Fields Value
  | some v => Fields.insert fields key v
  | none => Fields.erase fields key

/-- The value of a name in scope. -/
def lookup (scope : Scope) (word : String) : Except Failure (Option Value) :=
  match Fields.get? scope word with
  | some v => .ok v
  | none => .error (.undefinedName word)

/-- The value behind a plus or minus sign. -/
def applySign (negative : Bool) : Option Value → Except Failure (Option Value)
  | some (.num n) =>
    if negative then
      match negate? n with
      | some v => .ok (some v)
      | none => .error .overflow
    else .ok (some (.num n))
  | _ => .error (.signedNonNumber negative)

/-- A number behind a minus sign, if its negative fits. -/
theorem applySign_of_negate? {n : Number} {v : Value} (h : negate? n = some v) :
    applySign true (some (.num n)) = .ok (some v) := by
  rw [applySign, if_pos rfl, h]

/-- A number behind a minus sign whose negative does not fit. -/
theorem applySign_overflow {n : Number} (h : negate? n = none) :
    applySign true (some (.num n)) = .error .overflow := by
  rw [applySign, if_pos rfl, h]

/-! ## Expressions -/

mutual

/-- The value of an expression, or `undefined`. -/
def Expr.eval (scope : Scope) (e : Expr) : Except Failure (Option Value) :=
  match e with
  | .constant v => .ok v
  | .name word => lookup scope word
  | .template head parts => do
    let tail ← evalParts scope parts
    .ok (some (.str (head ++ tail)))
  | .object entries => do
    let fields ← evalEntries scope [] entries
    .ok (some (.mapping (sortKeys fields)))
  | .array items => do
    let values ← evalItems scope items
    .ok (some (.list values))
  | .signed negative operand => do
    let v ← operand.eval scope
    applySign negative v
  | .chain base links => do
    let v ← base.eval scope
    let reached ← evalLinks scope (some v) links
    .ok (reached.getD none)
  | .cut none f => .error (.fault f)
  | .cut (some read) f => do
    let _ ← read.eval scope
    .error (.fault f)

/-- The text of the substitutions of a template with the chunks behind them. -/
def evalParts (scope : Scope) (parts : List (Expr × String)) : Except Failure String :=
  match parts with
  | [] => .ok ""
  | (e, chunk) :: rest => do
    let v ← e.eval scope
    let tail ← evalParts scope rest
    .ok (display v ++ chunk ++ tail)

/-- The fields `fields` with the parts of an object literal set one after the other. -/
def evalEntries (scope : Scope) (fields : Fields Value) (entries : List Entry) :
    Except Failure (Fields Value) :=
  match entries with
  | [] => .ok fields
  | .property key value :: rest => do
    let v ← value.eval scope
    evalEntries scope (setProperty fields key v) rest
  | .computed key value :: rest => do
    let k ← key.eval scope
    let v ← value.eval scope
    evalEntries scope (setProperty fields (propertyKey k) v) rest
  | .shorthand word :: rest => do
    let v ← lookup scope word
    evalEntries scope (setProperty fields word v) rest
  | .spread source :: rest => do
    let v ← source.eval scope
    evalEntries scope (Fields.insertAll fields (spreadFields v)) rest
  | .cut f :: _ => .error (.fault f)

/-- The items of an array literal; `undefined` becomes null. -/
def evalItems (scope : Scope) (items : List Item) : Except Failure (List Value) :=
  match items with
  | [] => .ok []
  | .hole :: rest => do
    let more ← evalItems scope rest
    .ok (.null :: more)
  | .value e :: rest => do
    let v ← e.eval scope
    let more ← evalItems scope rest
    .ok (v.getD .null :: more)
  | .spread source :: rest => do
    let v ← source.eval scope
    let values ← spreadItems v
    let more ← evalItems scope rest
    .ok (values ++ more)

/-- A chain of accesses, all keys of which are evaluated. -/
def evalLinks (scope : Scope) (reached : Reached) (links : List Link) : Except Failure Reached :=
  match links with
  | [] => .ok reached
  | .named optional key :: rest => do
    let next ← access optional key reached
    evalLinks scope next rest
  | .computed optional key :: rest => do
    let k ← key.eval scope
    let next ← access optional (propertyKey k) reached
    evalLinks scope next rest

end

/-! ## Bodies -/

/-- The value that a list of statements ends in; `undefined` without a `return`. -/
def run (scope : Scope) : List Statement → Except Failure (Option Value)
  | [] => .ok none
  | .declare name value :: rest => do
    let v ← value.eval scope
    run (Fields.insert scope name v) rest
  | .evaluate e :: rest => do
    let _ ← e.eval scope
    run scope rest
  | .result e :: _ => e.eval scope
  | .cut f :: _ => .error (.fault f)

/-- The scope of given bindings; of several with one name the last one counts. -/
def scopeOf (bindings : List (String × Value)) : Scope :=
  Fields.ofEntries (bindings.map fun (name, v) => (name, some v))

/-- The value of `body` with `bindings` in scope. -/
def evaluate (bindings : List (String × Value)) (body : String) : Except Failure Value :=
  match bodyStatements body with
  | .error f => .error (.fault f)
  | .ok statements => (run (scopeOf bindings) statements).map (·.getD .null)

end CardTable.Script
