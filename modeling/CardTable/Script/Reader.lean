import CardTable.Script.Conversion
import CardTable.Script.Expr
import CardTable.Script.Lexer

set_option autoImplicit false

/-!
# Reading expressions and statements

A token list is read by recursive descent. Every reader gives a tree, and either the tokens behind
it, of which there are fewer than before, or a tree that ends in a cut. Types behind a colon, `as`
and `satisfies` are skipped.

## Main definitions

* `CardTable.Script.Reading` — what a reader gives.
* `CardTable.Script.TextEnd` — the offsets reported at the end of a text.
* `CardTable.Script.skipType` — a type, up to a delimiter outside all brackets.
* `CardTable.Script.Reader.expression` and its companions — the readers of expressions.
* `CardTable.Script.Reader.statements` — the reader of a body.
* `CardTable.Script.substitutionExpr` — the expression in a substitution.
* `CardTable.Script.bodyStatements` — the statements of a body.
-/

namespace CardTable.Script

/-! ## Token lists -/

/-- The offsets that stand for the end of a text. -/
structure TextEnd where
  /-- The offset behind the last character. -/
  stop : Nat
  /-- The offset of the last token, or of the end if there is no token. -/
  last : Nat

/-- The end of the text whose tokens are `ts`. -/
def TextEnd.of (stop : Nat) (ts : List Lexeme) : TextEnd :=
  ⟨stop, (ts.getLast?.map Lexeme.offset).getD stop⟩

/-- The offset of the first token, or of the end of the text. -/
def TextEnd.offsetOf (fin : TextEnd) : List Lexeme → Nat
  | [] => fin.stop
  | t :: _ => t.offset

/-- Whether the first token is the sign `c`. -/
def atSign (c : Char) : List Lexeme → Bool
  | ⟨.sign (.punct d), _, _, _⟩ :: _ => c == d
  | _ => false

/-- The first token, if it is a word. -/
def headWord? : List Lexeme → Option String
  | ⟨.word w, _, _, _⟩ :: _ => some w
  | _ => none

/-- Whether `w` begins a declaration. -/
def isDeclarator (w : String) : Bool :=
  w == "const" || w == "let" || w == "var"

/-- Whether `w` ends the statement in front of it. -/
def startsStatement (w : String) : Bool :=
  isDeclarator w || w == "return" || w == "export"

/-- Skips a type up to a delimiter outside all brackets: a comma, a semicolon, a closing bracket
other than an angle, or a sign that satisfies `stops`. A word on a new line that begins a statement
ends a type that has begun. -/
def skipType (stops : Char → Bool) (depth : Nat) (begun : Bool) : List Lexeme → List Lexeme
  | [] => []
  | t :: rest =>
    match t.token with
    | .sign (.punct c) =>
      if depth = 0 ∧ (stops c ∨ c ∈ [',', ';', '\x7d', ']', ')']) then t :: rest
      else if c ∈ ['<', '(', '[', '\x7b'] then skipType stops (depth + 1) true rest
      else if c ∈ ['>', ')', ']', '\x7d'] then skipType stops (depth - 1) true rest
      else skipType stops depth true rest
    | .word w =>
      if depth = 0 ∧ begun ∧ t.afterBreak ∧ startsStatement w then t :: rest
      else skipType stops depth true rest
    | _ => skipType stops depth true rest

/-- What is behind a type is no longer than the token list. -/
theorem length_skipType_le (stops : Char → Bool) (depth : Nat) (begun : Bool)
    (ts : List Lexeme) : (skipType stops depth begun ts).length ≤ ts.length := by
  fun_induction skipType stops depth begun ts <;> simp only [List.length_cons, Nat.le_refl] <;>
    omega

/-- Skips the annotation behind a declared name, if there is one. -/
def skipDeclaredType (ts : List Lexeme) : List Lexeme :=
  if atSign ':' ts then skipType (· == '=') 0 false ts.tail else ts

/-- What is behind an annotation is no longer than the token list. -/
theorem length_skipDeclaredType_le (ts : List Lexeme) :
    (skipDeclaredType ts).length ≤ ts.length := by
  have := length_skipType_le (· == '=') 0 false ts.tail
  simp only [List.length_tail] at this
  unfold skipDeclaredType
  split <;> omega

/-- Whether `w` is followed by a type that says nothing about the value. -/
def isCast (w : String) : Bool :=
  w == "as" || w == "satisfies"

/-- Skips the casts behind an expression. -/
def skipCasts (ts : List Lexeme) : List Lexeme :=
  match ts with
  | ⟨.word w, _, _, _⟩ :: rest =>
    if isCast w then skipCasts (skipType (fun _ => false) 0 false rest) else ts
  | _ => ts
termination_by ts.length
decreasing_by exact Nat.lt_succ_of_le (length_skipType_le _ _ _ _)

/-- What is behind casts is no longer than the token list. -/
theorem length_skipCasts_le (ts : List Lexeme) : (skipCasts ts).length ≤ ts.length := by
  fun_induction skipCasts ts with
  | case1 w _ _ _ rest _ ih =>
    have := length_skipType_le (fun _ => false) 0 false rest
    simp only [List.length_cons]
    omega
  | case2 => exact Nat.le_refl _
  | case3 => exact Nat.le_refl _

/-! ## Readings -/

/-- What a reader gives for a token list of length `n`. -/
inductive Reading (α : Type) (n : Nat) where
  /-- A whole tree, and the tokens behind it. -/
  | whole (tree : α) (behind : List Lexeme) (shorter : behind.length < n)
  /-- A tree that ends in a cut. -/
  | cut (tree : α)

namespace Reading

variable {α β : Type} {n m : Nat}

/-- The tree of a reading. -/
def tree : Reading α n → α
  | .whole tree _ _ => tree
  | .cut tree => tree

/-- The reading of a tree that holds the tree of a reading. -/
def map (f : α → β) : Reading α n → Reading β n
  | .whole tree behind shorter => .whole (f tree) behind shorter
  | .cut tree => .cut (f tree)

/-- The reading for a longer token list. -/
def weaken (h : n ≤ m) : Reading α n → Reading α m
  | .whole tree behind shorter => .whole tree behind (Nat.lt_of_lt_of_le shorter h)
  | .cut tree => .cut tree

end Reading

namespace Reader

/-- The words that begin an expression that is not supported. -/
def unsupportedWords : List String :=
  ["new", "function", "class", "typeof", "void", "delete", "await"]

/-- The signs that would go on with an expression. -/
def operatorSigns : List Char :=
  ['+', '-', '*', '/', '%', '?', '|', '&', '<', '>', '=']

/-- The value of a word that stands for one. -/
def wordConstant? (w : String) : Option (Option Value) :=
  if w = "true" then some (some (.bool true))
  else if w = "false" then some (some (.bool false))
  else if w = "null" ∨ w = "NaN" ∨ w = "Infinity" then some (some .null)
  else if w = "undefined" then some none
  else none

/-- The expression `base` with the accesses `links`, the last one first. -/
def chained (base : Expr) : List Link → Expr
  | [] => base
  | link :: links => .chain base (link :: links).reverse

section

variable (fin : TextEnd) (inner : Substitution → Expr)

/-- The tokens behind the sign `c`, if it comes first. -/
def sign? (c : Char) : (ts : List Lexeme) →
    Option { behind : List Lexeme // behind.length < ts.length }
  | [] => none
  | t :: rest => if atSign c (t :: rest) then some ⟨rest, Nat.lt_succ_self _⟩ else none

/-- The tokens behind the sign `c`, if it comes first; otherwise the place of the fault. -/
def expectSign (c : Char) (ts : List Lexeme) :
    Except Fault { behind : List Lexeme // behind.length < ts.length } :=
  match sign? c ts with
  | some found => .ok found
  | none => .error ⟨fin.offsetOf ts, .expected c⟩

mutual

/-- An expression with its casts. No operator may follow it. -/
def expression (ts : List Lexeme) : Reading Expr ts.length :=
  match unary ts with
  | .cut e => .cut e
  | .whole e behind h =>
    let ts' := skipCasts behind
    if atSign '=' ts' ∧ atSign '>' ts'.tail then .cut (.cut e ⟨fin.offsetOf ts', .arrow⟩)
    else
      match operatorSigns.find? (atSign · ts') with
      | some c => .cut (.cut e ⟨fin.offsetOf ts', .operator c⟩)
      | none => .whole e ts' (Nat.lt_of_le_of_lt (length_skipCasts_le behind) h)
termination_by (ts.length, 3)

/-- An expression behind its plus and minus signs. -/
def unary (ts : List Lexeme) : Reading Expr ts.length :=
  match sign? '-' ts with
  | some ⟨rest, h⟩ => ((unary rest).map (.signed true)).weaken (Nat.le_of_lt h)
  | none =>
    match sign? '+' ts with
    | some ⟨rest, h⟩ => ((unary rest).map (.signed false)).weaken (Nat.le_of_lt h)
    | none =>
      match primary ts with
      | .cut e => .cut e
      | .whole e behind h => (links e [] behind).weaken h
termination_by (ts.length, 2)

/-- The accesses behind `base`, of which `read` have been read, the last one first. -/
def links (base : Expr) (read : List Link) (ts : List Lexeme) :
    Reading Expr (ts.length + 1) :=
  match ts with
  | [] => .whole (chained base read) [] (Nat.lt_succ_self _)
  | t :: rest =>
    match t.token with
    | .sign (.punct '.') =>
      match rest with
      | ⟨.word w, _, _, _⟩ :: rest =>
        (links base (.named false w :: read) rest).weaken (Nat.le_add_right _ 2)
      | rest => .cut (.cut (chained base read) ⟨fin.offsetOf rest.tail, .propertyName⟩)
    | .sign .optionalDot =>
      match rest with
      | ⟨.word w, _, _, _⟩ :: rest =>
        (links base (.named true w :: read) rest).weaken (Nat.le_add_right _ 2)
      | ⟨.sign (.punct '['), _, _, _⟩ :: rest =>
        match index rest with
        | .cut key => .cut (chained base (.computed true key :: read))
        | .whole key behind h =>
          (links base (.computed true key :: read) behind).weaken
            (Nat.le_trans h (Nat.le_add_right _ 3))
      | rest => .cut (.cut (chained base read) ⟨fin.offsetOf rest.tail, .propertyName⟩)
    | .sign (.punct '[') =>
      match index rest with
      | .cut key => .cut (chained base (.computed false key :: read))
      | .whole key behind h =>
        (links base (.computed false key :: read) behind).weaken
          (Nat.le_trans h (Nat.le_add_right _ 2))
    | .sign (.punct '!') =>
      if atSign '=' rest then .whole (chained base read) (t :: rest) (Nat.lt_succ_self _)
      else (links base read rest).weaken (Nat.le_succ _)
    | .sign (.punct '(') => .cut (.cut (chained base read) ⟨t.offset, .call⟩)
    | _ => .whole (chained base read) (t :: rest) (Nat.lt_succ_self _)
termination_by (ts.length, 0)

/-- A key up to the bracket that closes it. -/
def index (ts : List Lexeme) : Reading Expr ts.length :=
  match expression ts with
  | .cut e => .cut e
  | .whole e behind he =>
    match expectSign fin ']' behind with
    | .error f => .cut (.cut e f)
    | .ok ⟨rest, h⟩ => .whole e rest (Nat.lt_trans h he)
termination_by (ts.length, 4)

/-- A literal, a name, or an expression in brackets. -/
def primary (ts : List Lexeme) : Reading Expr ts.length :=
  match ts with
  | [] => .cut (.cut none ⟨fin.last, .unexpected none⟩)
  | t :: rest =>
    match t.token with
    | .number x => .whole (.constant (some (numberValue x))) rest (Nat.lt_succ_self _)
    | .text s => .whole (.constant (some (.str s))) rest (Nat.lt_succ_self _)
    | .template head parts =>
      .whole (.template head (parts.map fun part => (inner part.1, part.2))) rest
        (Nat.lt_succ_self _)
    | .sign (.punct '\x7b') => (entries [] rest).weaken (Nat.le_succ _)
    | .sign (.punct '[') => (items [] rest).weaken (Nat.le_succ _)
    | .sign (.punct '(') =>
      match expression rest with
      | .cut e => .cut e
      | .whole e behind he =>
        match expectSign fin ')' behind with
        | .error f => .cut (.cut e f)
        | .ok ⟨rest, h⟩ => .whole e rest (Nat.lt_succ_of_lt (Nat.lt_trans h he))
    | .sign s => .cut (.cut none ⟨t.offset, .unexpected s⟩)
    | .word w =>
      match wordConstant? w with
      | some v => .whole (.constant v) rest (Nat.lt_succ_self _)
      | none =>
        if w ∈ unsupportedWords then .cut (.cut none ⟨fin.offsetOf rest, .unsupportedWord w⟩)
        else if atSign '(' rest then .cut (.cut none ⟨fin.offsetOf rest, .call⟩)
        else .whole (.name w) rest (Nat.lt_succ_self _)
termination_by (ts.length, 1)

/-- The value behind a property name. -/
def propertyValue (ts : List Lexeme) : Reading Expr ts.length :=
  match sign? ':' ts with
  | some ⟨rest, h⟩ => (expression rest).weaken (Nat.le_of_lt h)
  | none => .cut (.cut none ⟨fin.offsetOf ts, .accessor⟩)
termination_by (ts.length, 4)

/-- One part of an object literal. -/
def entry (ts : List Lexeme) : Reading Entry ts.length :=
  match ts with
  | [] => .cut (.cut ⟨fin.stop, .propertyKey⟩)
  | t :: rest =>
    match t.token with
    | .sign .spread => ((expression rest).map .spread).weaken (Nat.le_succ _)
    | .word w =>
      if atSign ',' rest ∨ atSign '\x7d' rest then .whole (.shorthand w) rest (Nat.lt_succ_self _)
      else ((propertyValue rest).map (.property w)).weaken (Nat.le_succ _)
    | .text s => ((propertyValue rest).map (.property s)).weaken (Nat.le_succ _)
    | .number x =>
      let key := propertyKey (some (numberValue x))
      ((propertyValue rest).map (.property key)).weaken (Nat.le_succ _)
    | .sign (.punct '[') =>
      match index rest with
      | .cut key => .cut (.computed key (.constant none))
      | .whole key behind h =>
        ((propertyValue behind).map (.computed key)).weaken (Nat.le_succ_of_le (Nat.le_of_lt h))
    | _ => .cut (.cut ⟨fin.offsetOf rest, .propertyKey⟩)
termination_by (ts.length, 5)

/-- The parts of an object literal behind its opening brace, of which `read` have been read, the
last one first. -/
def entries (read : List Entry) (ts : List Lexeme) : Reading Expr ts.length :=
  match sign? '\x7d' ts with
  | some ⟨rest, h⟩ => .whole (.object read.reverse) rest h
  | none =>
    match entry ts with
    | .cut part => .cut (.object (part :: read).reverse)
    | .whole part behind hpart =>
      match sign? ',' behind with
      | some ⟨rest, h⟩ =>
        have := Nat.lt_trans h hpart
        (entries (part :: read) rest).weaken (Nat.le_of_lt this)
      | none =>
        match expectSign fin '\x7d' behind with
        | .error f => .cut (.object (.cut f :: part :: read).reverse)
        | .ok ⟨rest, h⟩ => .whole (.object (part :: read).reverse) rest (Nat.lt_trans h hpart)
termination_by (ts.length, 6)

/-- One part of an array literal. -/
def item (ts : List Lexeme) : Reading Item ts.length :=
  match ts with
  | ⟨.sign .spread, _, _, _⟩ :: rest => ((expression rest).map .spread).weaken (Nat.le_succ _)
  | ts => (expression ts).map .value
termination_by (ts.length, 5)

/-- The parts of an array literal behind its opening bracket, of which `read` have been read, the
last one first. -/
def items (read : List Item) (ts : List Lexeme) : Reading Expr ts.length :=
  match sign? ']' ts, sign? ',' ts with
  | some ⟨rest, h⟩, _ => .whole (.array read.reverse) rest h
  | none, some ⟨rest, h⟩ => (items (.hole :: read) rest).weaken (Nat.le_of_lt h)
  | none, none =>
    match item ts with
    | .cut part => .cut (.array (part :: read).reverse)
    | .whole part behind hpart =>
      match sign? ',' behind with
      | some ⟨rest, h⟩ =>
        have := Nat.lt_trans h hpart
        (items (part :: read) rest).weaken (Nat.le_of_lt this)
      | none =>
        match expectSign fin ']' behind with
        | .error f => .cut (.array (.value (.cut none f) :: part :: read).reverse)
        | .ok ⟨rest, h⟩ => .whole (.array (part :: read).reverse) rest (Nat.lt_trans h hpart)
termination_by (ts.length, 6)

end

/-! ## Statements -/

/-- The words that begin a statement that is not supported. -/
def refusedStatements : List String :=
  ["function", "class", "if", "for", "while", "switch", "import", "type", "interface", "enum",
    "namespace"]

mutual

/-- The statements of a token list. Nothing behind a `return` counts. -/
def statements (ts : List Lexeme) : List Statement :=
  match ts with
  | [] => []
  | t :: rest =>
    match t.token with
    | .sign (.punct ';') => statements rest
    | .word w =>
      if isDeclarator w then declarations rest
      else if w = "return" then
        if rest = [] ∨ atSign ';' rest ∨ atSign '\x7d' rest then [.result (.constant none)]
        else [.result (expression fin inner rest).tree]
      else if w = "export" then
        if (headWord? rest).any isDeclarator then statements rest
        else [.cut ⟨fin.offsetOf rest, .bareExport⟩]
      else if w ∈ refusedStatements then [.cut ⟨t.offset, .statement w⟩]
      else expressionStatement (t :: rest)
    | _ => expressionStatement (t :: rest)
termination_by (ts.length, 1)

/-- The statements of a token list that begins with an expression. -/
def expressionStatement (ts : List Lexeme) : List Statement :=
  match expression fin inner ts with
  | .cut e => [.evaluate e]
  | .whole e behind _ => .evaluate e :: statementEnd behind
termination_by (ts.length, 0)

/-- The statements behind the keyword of a declaration. -/
def declarations (ts : List Lexeme) : List Statement :=
  match ts with
  | [] => [.cut ⟨fin.stop, .destructuring⟩]
  | t :: rest =>
    match t.token with
    | .word name =>
      have := length_skipDeclaredType_le rest
      if atSign '=' (skipDeclaredType rest) then
        match expression fin inner (skipDeclaredType rest).tail with
        | .cut e => [.declare name e]
        | .whole e behind _ =>
          have : (skipDeclaredType rest).tail.length ≤ (skipDeclaredType rest).length := by simp
          .declare name e :: declarationEnd behind
      else .declare name (.constant none) :: declarationEnd (skipDeclaredType rest)
    | _ => [.cut ⟨fin.offsetOf rest, .destructuring⟩]
termination_by (ts.length, 0)

/-- The statements behind one name of a declaration. -/
def declarationEnd (ts : List Lexeme) : List Statement :=
  match ts with
  | ⟨.sign (.punct ','), _, _, _⟩ :: rest => declarations rest
  | ts => statementEnd ts
termination_by (ts.length, 3)

/-- The statements behind a statement, which a semicolon ends, or the end of the text, or a word
that begins another one. -/
def statementEnd (ts : List Lexeme) : List Statement :=
  match ts with
  | [] => []
  | ⟨.sign (.punct ';'), _, _, _⟩ :: rest => statements rest
  | t :: rest =>
    if (headWord? (t :: rest)).any startsStatement then statements (t :: rest)
    else [.cut ⟨t.offset, .behindExpression⟩]
termination_by (ts.length, 2)

end

end

end Reader

/-! ## Texts -/

/-- The expression in a substitution. What stands in a template inside it is shorter. -/
def substitutionExpr (s : Substitution) : Expr :=
  match lexemes s.source with
  | .error f => .cut none f
  | .ok ts =>
    let inner (t : Substitution) : Expr :=
      if t.source.length < s.source.length then substitutionExpr t else .constant none
    match Reader.expression (.of s.stop ts) inner ts with
    | .cut e => e
    | .whole e [] _ => e
    | .whole e (t :: _) _ => .cut e ⟨t.offset, .behindSubstitution⟩
termination_by s.source.length

/-- The statements of a body. -/
def bodyStatements (body : String) : Except Fault (List Statement) :=
  let cs := body.toList
  (lexemes (locate 0 cs)).map fun ts =>
    Reader.statements (.of (Text.byteCount cs) ts) substitutionExpr ts

end CardTable.Script
