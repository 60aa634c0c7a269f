import CardTable.Proofs.Script.Cursor.Lexer

set_option autoImplicit false

/-!
# Interpreting a body while reading it

A body can be evaluated without building the trees of its expressions: the interpreter walks along
the tokens with an index, and has the value of each part as soon as it has passed it. A token is
looked up at the index, and there may be none; a minus sign in front of a whole number negates it in
its word, and it may not fit. Both are part of what a run gives, and so are loops that go on for
ever.

A checked run cannot negate the least whole number of a signed word; in a run that is not checked,
that number is its own negative.

## Main definitions

* `CardTable.Script.Interpreter.tokenAt`, `CardTable.Script.Interpreter.advance` — a token by its
  index, and the step behind it.
* `CardTable.Script.Interpreter.Tokens.expression` — the value of an expression, in mutual recursion
  with those of its parts.
* `CardTable.Script.Interpreter.evaluateBody` — the value of a body.
-/

namespace CardTable.Script.Interpreter

open Cursor (Kind Tok)

/-! ## Tokens by index -/

/-- The tokens of a text, the last one of which is its end. -/
structure Tokens where
  /-- The tokens one behind the other. -/
  toList : List Tok

section Tokens

variable (toks : Tokens)

/-- The token at the index `pos`. -/
def tokenAt (pos : Nat) : Run Tok :=
  match toks.toList[pos]? with
  | some t => pure t
  | none => Run.crash

/-- What the token at `pos` is. -/
def peek (pos : Nat) : Run Kind :=
  return (← tokenAt toks pos).kind

/-- What the token `n` tokens behind `pos` is, or the last one. -/
def peekAhead (pos n : Nat) : Run Kind := do
  let last ← Cursor.decrement toks.toList.length
  peek toks (min (pos + n) last)

/-- What the token at `pos` is, and the index behind it; the last token is not passed. -/
def advance (pos : Nat) : Run (Kind × Nat) := do
  let kind ← peek toks pos
  let last ← Cursor.decrement toks.toList.length
  return (kind, if pos < last then pos + 1 else pos)

/-- The index behind the token at `pos`. -/
def next (pos : Nat) : Run Nat :=
  return (← advance toks pos).2

/-- A breach of the syntax at the token at `pos`. -/
def refuse {α : Type} (pos : Nat) (problem : Problem) : Run α := do
  Run.fail (.fault ⟨(← tokenAt toks pos).offset, problem⟩)

/-- Whether a token is the sign `c`. -/
def isPunct (c : Char) : Kind → Bool
  | .sign (.punct d) => c == d
  | _ => false

/-- Passes the sign `c` if it stands at `pos`. -/
def eat (c : Char) (pos : Nat) : Run (Bool × Nat) := do
  if isPunct c (← peek toks pos) then return (true, ← next toks pos) else return (false, pos)

/-- Passes the sign `c`, which must stand at `pos`. -/
def expect (c : Char) (pos : Nat) : Run Nat := do
  let (found, pos) ← eat toks c pos
  if found then return pos else refuse toks pos (.expected c)

/-- The name of a property. -/
def propertyName (pos : Nat) : Run (String × Nat) := do
  let (kind, pos) ← advance toks pos
  match kind with
  | .word name => return (name, pos)
  | _ => refuse toks pos .propertyName

end Tokens

/-! ## Types and casts -/

/-- Skips a type. -/
def Tokens.skipType (toks : Tokens) (stops : Char → Bool) (depth : Nat) (begun : Bool)
    (pos : Nat) : Run Nat := do
  let t ← tokenAt toks pos
  match t.kind with
  | .finish => return pos
  | .sign (.punct c) =>
    if depth = 0 ∧ (stops c ∨ c ∈ [',', ';', '\x7d', ']', ')']) then return pos
    else if c ∈ ['<', '(', '[', '\x7b'] then
      toks |>.skipType stops (depth + 1) true (← next toks pos)
    else if c ∈ ['>', ')', ']', '\x7d'] then
      toks |>.skipType stops (depth - 1) true (← next toks pos)
    else toks |>.skipType stops depth true (← next toks pos)
  | .word w =>
    if depth = 0 ∧ begun ∧ t.afterBreak ∧ startsStatement w then return pos
    else toks |>.skipType stops depth true (← next toks pos)
  | _ => toks |>.skipType stops depth true (← next toks pos)
partial_fixpoint

/-- Skips the casts behind an expression. -/
def Tokens.skipCasts (toks : Tokens) (pos : Nat) : Run Nat := do
  match ← peek toks pos with
  | .word w =>
    if isCast w then
      let pos ← toks.skipType (fun _ => false) 0 false (← next toks pos)
      toks |>.skipCasts pos
    else return pos
  | _ => return pos
partial_fixpoint

/-! ## Values -/

/-- A number behind a minus sign. The negative of the least whole number of a signed word does not
fit: a checked run cannot make this step, and another one is left with the number itself. -/
def negated (checked : Bool) (n : Number) : Run Value :=
  match negate? n with
  | some v => pure v
  | none => if checked then Run.crash else pure (.num n)

/-- A value behind a sign. -/
def signed (checked negative : Bool) : Option Value → Run (Option Value)
  | some (.num n) => if negative then some <$> negated checked n else pure (some (.num n))
  | _ => Run.fail (.signedNonNumber negative)

/-! ## Expressions -/

variable (checked : Bool) (scope : Scope)

mutual

/-- The value of the expression at `pos`, and the index behind it. -/
def Tokens.expression (toks : Tokens) (pos : Nat) : Run (Option Value × Nat) := do
  let (v, pos) ← toks |>.unary pos
  let pos ← toks.skipCasts pos
  let kind ← peek toks pos
  if isPunct '=' kind ∧ isPunct '>' (← peekAhead toks pos 1) then refuse toks pos .arrow
  else
    match Reader.operatorSigns.find? (isPunct · kind) with
    | some c => refuse toks pos (.operator c)
    | none => return (v, pos)
partial_fixpoint

/-- The value of an expression with its signs. -/
def Tokens.unary (toks : Tokens) (pos : Nat) : Run (Option Value × Nat) := do
  let (minus, pos) ← eat toks '-' pos
  if minus then
    let (v, pos) ← toks |>.unary pos
    return (← signed checked true v, pos)
  else
    let (plus, pos) ← eat toks '+' pos
    if plus then
      let (v, pos) ← toks |>.unary pos
      return (← signed checked false v, pos)
    else
      let (v, pos) ← toks |>.primary pos
      toks |>.accesses (some v) pos
partial_fixpoint

/-- The value behind the accesses at `pos`, where `reached` has been reached. -/
def Tokens.accesses (toks : Tokens) (reached : Reached) (pos : Nat) :
    Run (Option Value × Nat) := do
  match ← peek toks pos with
  | .sign (.punct '.') =>
    let (key, pos) ← propertyName toks (← next toks pos)
    toks |>.accesses (← Run.ofExcept (access false key reached)) pos
  | .sign .optionalDot =>
    let (bracket, pos) ← eat toks '[' (← next toks pos)
    let (key, pos) ← if bracket then toks |>.index pos else propertyName toks pos
    toks |>.accesses (← Run.ofExcept (access true key reached)) pos
  | .sign (.punct '[') =>
    let (key, pos) ← toks |>.index (← next toks pos)
    toks |>.accesses (← Run.ofExcept (access false key reached)) pos
  | .sign (.punct '!') =>
    if isPunct '=' (← peekAhead toks pos 1) then return (reached.getD none, pos)
    else toks |>.accesses reached (← next toks pos)
  | .sign (.punct '(') => refuse toks pos .call
  | _ => return (reached.getD none, pos)
partial_fixpoint

/-- The key in brackets. -/
def Tokens.index (toks : Tokens) (pos : Nat) : Run (String × Nat) := do
  let (v, pos) ← toks |>.expression pos
  return (propertyKey v, ← expect toks ']' pos)
partial_fixpoint

/-- The value of a literal, a name or an expression in brackets. -/
def Tokens.primary (toks : Tokens) (pos : Nat) : Run (Option Value × Nat) := do
  let (kind, pos) ← advance toks pos
  match kind with
  | .number x => return (some (numberValue x), pos)
  | .text s => return (some (.str s), pos)
  | .template chunks stretches =>
    let text ← (stretches.zip chunks.tail).foldlM (fun text part => do
      let toks ← Cursor.tokenize part.1.2 part.1.1
      let v ← Tokens.mk toks |>.whole
      return text ++ display v ++ part.2) (chunks.head?.getD "")
    return (some (.str text), pos)
  | .sign (.punct '\x7b') => toks |>.object [] pos
  | .sign (.punct '[') => toks |>.array [] pos
  | .sign (.punct '(') =>
    let (v, pos) ← toks |>.expression pos
    return (v, ← expect toks ')' pos)
  | .word w =>
    match Reader.wordConstant? w with
    | some v => return (v, pos)
    | none =>
      if w ∈ Reader.unsupportedWords then refuse toks pos (.unsupportedWord w)
      else if isPunct '(' (← peek toks pos) then refuse toks pos .call
      else return (← Run.ofExcept (lookup scope w), pos)
  | .sign s => refuse toks (pos - 1) (.unexpected (some s))
  | .finish => refuse toks (pos - 1) (.unexpected none)
partial_fixpoint

/-- The value behind the name of a property. -/
def Tokens.propertyValue (toks : Tokens) (shorthand : Option String) (pos : Nat) :
    Run (Option Value × Nat) := do
  let (colon, pos) ← eat toks ':' pos
  if colon then toks |>.expression pos
  else
    let kind ← peek toks pos
    match shorthand.filter fun _ => isPunct ',' kind || isPunct '\x7d' kind with
    | some w => return (← Run.ofExcept (lookup scope w), pos)
    | none => refuse toks pos .accessor
partial_fixpoint

/-- The fields `fields` with the part of an object literal at `pos`. -/
def Tokens.property (toks : Tokens) (fields : Fields Value) (pos : Nat) :
    Run (Fields Value × Nat) := do
  let (kind, pos) ← advance toks pos
  match kind with
  | .sign .spread =>
    let (v, pos) ← toks |>.expression pos
    return (Fields.insertAll fields (spreadFields v), pos)
  | .word w =>
    let (v, pos) ← toks |>.propertyValue (some w) pos
    return (setProperty fields w v, pos)
  | .text s =>
    let (v, pos) ← toks |>.propertyValue none pos
    return (setProperty fields s v, pos)
  | .number x =>
    let (v, pos) ← toks |>.propertyValue none pos
    return (setProperty fields (propertyKey (some (numberValue x))) v, pos)
  | .sign (.punct '[') =>
    let (key, pos) ← toks |>.index pos
    let (v, pos) ← toks |>.propertyValue none pos
    return (setProperty fields key v, pos)
  | _ => refuse toks pos .propertyKey
partial_fixpoint

/-- The object literal of which `fields` have been read. -/
def Tokens.object (toks : Tokens) (fields : Fields Value) (pos : Nat) :
    Run (Option Value × Nat) := do
  let (closed, pos) ← eat toks '\x7d' pos
  if closed then return (some (.mapping (sortKeys fields)), pos)
  else
    let (fields, pos) ← toks |>.property fields pos
    let (comma, pos) ← eat toks ',' pos
    if comma then toks |>.object fields pos
    else return (some (.mapping (sortKeys fields)), ← expect toks '\x7d' pos)
partial_fixpoint

/-- The items of the part of an array literal at `pos`. -/
def Tokens.element (toks : Tokens) (pos : Nat) : Run (List Value × Nat) := do
  match ← peek toks pos with
  | .sign .spread =>
    let (v, pos) ← toks |>.expression (← next toks pos)
    return (← Run.ofExcept (spreadItems v), pos)
  | _ =>
    let (v, pos) ← toks |>.expression pos
    return ([v.getD .null], pos)
partial_fixpoint

/-- The array literal of which `items` have been read. -/
def Tokens.array (toks : Tokens) (items : List Value) (pos : Nat) : Run (Option Value × Nat) := do
  let (closed, pos) ← eat toks ']' pos
  if closed then return (some (.list items), pos)
  else if isPunct ',' (← peek toks pos) then toks |>.array (items ++ [.null]) (← next toks pos)
  else
    let (more, pos) ← toks |>.element pos
    let (comma, pos) ← eat toks ',' pos
    if comma then toks |>.array (items ++ more) pos
    else return (some (.list (items ++ more)), ← expect toks ']' pos)
partial_fixpoint

/-- The value of the expression that all the tokens form. -/
def Tokens.whole (toks : Tokens) : Run (Option Value) := do
  let (v, pos) ← toks |>.expression 0
  match ← peek toks pos with
  | .finish => return v
  | _ => refuse toks pos .behindSubstitution
partial_fixpoint

end

/-- The value of the stretch of a template that stands at `offset`. -/
def substitution (offset : Nat) (source : List Char) : Run (Option Value) := do
  let toks ← Cursor.tokenize source offset
  Tokens.whole checked scope ⟨toks⟩

/-- The text of a template of which `text` has been read, from its stretches with the chunks behind
them. -/
def template (text : String) (parts : List ((Nat × List Char) × String)) : Run String :=
  parts.foldlM (fun text part =>
    return text ++ display (← substitution checked scope part.1.1 part.1.2) ++ part.2) text

/-! ## Bodies -/

/-- Passes the end of a statement. -/
def endStatement (toks : Tokens) (pos : Nat) : Run Nat := do
  let (semicolon, pos) ← eat toks ';' pos
  if semicolon then return pos
  else
    match ← peek toks pos with
    | .finish => return pos
    | .word w => if startsStatement w then return pos else refuse toks pos .behindExpression
    | _ => refuse toks pos .behindExpression

/-- The scope behind the declarations at `pos`, and the index behind them. -/
def Tokens.declaration (toks : Tokens) (scope : Scope) (pos : Nat) : Run (Scope × Nat) := do
  let (kind, pos) ← advance toks pos
  match kind with
  | .word name =>
    let (colon, pos) ← eat toks ':' pos
    let pos ← if colon then toks.skipType (· == '=') 0 false pos else pure pos
    let (equals, pos) ← eat toks '=' pos
    let (v, pos) ← if equals then toks.expression checked scope pos else pure (none, pos)
    let (comma, pos) ← eat toks ',' pos
    if comma then toks |>.declaration (Fields.insert scope name v) pos
    else return (Fields.insert scope name v, ← endStatement toks pos)
  | _ => refuse toks pos .destructuring
partial_fixpoint

/-- The value of the statements at `pos`. -/
def Tokens.run (toks : Tokens) (scope : Scope) (pos : Nat) : Run (Option Value) := do
  match ← peek toks pos with
  | .finish => return none
  | .sign (.punct ';') => toks |>.run scope (← next toks pos)
  | .word w =>
    if isDeclarator w then
      let (scope, pos) ← toks.declaration checked scope (← next toks pos)
      toks |>.run scope pos
    else if w = "return" then
      let pos ← next toks pos
      match ← peek toks pos with
      | .finish | .sign (.punct ';') | .sign (.punct '\x7d') => return none
      | _ => return (← toks.expression checked scope pos).1
    else if w = "export" then
      let pos ← next toks pos
      match ← peek toks pos with
      | .word w => if isDeclarator w then toks |>.run scope pos else refuse toks pos .bareExport
      | _ => refuse toks pos .bareExport
    else if w ∈ Reader.refusedStatements then refuse toks pos (.statement w)
    else
      let (_, pos) ← toks.expression checked scope pos
      toks |>.run scope (← endStatement toks pos)
  | _ =>
    let (_, pos) ← toks.expression checked scope pos
    toks |>.run scope (← endStatement toks pos)
partial_fixpoint

/-- The value of a body. -/
def evaluateBody (bindings : List (String × Value)) (body : String) : Run Value := do
  let toks ← Cursor.tokenize body.toList 0
  return (← Tokens.run checked ⟨toks⟩ (scopeOf bindings) 0).getD .null

end CardTable.Script.Interpreter
