import CardTable.Number.Double
import CardTable.Script.Escape
import CardTable.Text.Quoted
import CardTable.Text.Size

set_option autoImplicit false

/-!
# Located text, tokens and faults

Every character of a module body is located by the byte offset at which it stands. A stretch of
located characters keeps its offsets when it is read on its own, as the substitutions of a template
are.

## Main definitions

* `CardTable.Script.Glyph` — a character and its offset; `locate` gives a text its offsets, and
  `before` is the part of it in front of an offset.
* `CardTable.Script.Token`, `CardTable.Script.Lexeme` — tokens, and tokens where they stand.
* `CardTable.Script.Fault` — a breach of the syntax and the offset at which it is reported.

## Main results

* `CardTable.Script.chars_locate` — locating a text does not change its characters.
* `CardTable.Script.locate_append` — the second of two texts begins where the first one ends.
* `CardTable.Script.before_locate_append` — what stands in front of the second of two texts is the
  first one.
-/

namespace CardTable.Script

/-! ## Located text -/

/-- A character and the byte offset at which it stands. -/
structure Glyph where
  /-- The number of bytes in front of the character. -/
  offset : Nat
  /-- The character. -/
  char : Char
deriving DecidableEq

/-- The text `cs` with its offsets, the first character standing at `offset`. -/
def locate (offset : Nat) : List Char → List Glyph
  | [] => []
  | c :: rest => ⟨offset, c⟩ :: locate (offset + c.utf8Size) rest

/-- The characters of a located text. -/
def chars (glyphs : List Glyph) : List Char :=
  glyphs.map Glyph.char

/-- Locating a text does not change its characters. -/
@[simp] theorem chars_locate (offset : Nat) (cs : List Char) : chars (locate offset cs) = cs := by
  induction cs generalizing offset with
  | nil => rfl
  | cons c rest ih => simpa [locate, chars] using ih (offset + c.utf8Size)

/-- The second of two texts begins where the first one ends. -/
theorem locate_append (offset : Nat) (cs ds : List Char) :
    locate offset (cs ++ ds) = locate offset cs ++ locate (offset + Text.byteCount cs) ds := by
  induction cs generalizing offset with
  | nil => simp [locate, Text.byteCount]
  | cons c rest ih =>
    simp only [List.cons_append, locate, ih, Text.byteCount, Nat.add_assoc]

/-- The part of a located text in front of the offset `stop`. -/
def before (stop : Nat) (glyphs : List Glyph) : List Glyph :=
  glyphs.takeWhile fun g => g.offset < stop

/-- A located text begins at its offset. -/
theorem before_locate_self (offset : Nat) (cs : List Char) :
    before offset (locate offset cs) = [] := by
  cases cs <;> simp [before, locate]

/-- What stands in front of the second of two texts is the first one. -/
theorem before_locate_append (offset : Nat) (cs ds : List Char) :
    before (offset + Text.byteCount cs) (locate offset (cs ++ ds)) = locate offset cs := by
  induction cs generalizing offset with
  | nil => simpa [locate, Text.byteCount] using before_locate_self offset ds
  | cons c rest ih =>
    have hstop : offset + Text.byteCount (c :: rest) =
        offset + c.utf8Size + Text.byteCount rest := by
      rw [Text.byteCount, Nat.add_assoc]
    have hfront : offset < offset + c.utf8Size + Text.byteCount rest := by
      have := c.utf8Size_pos
      omega
    rw [hstop, List.cons_append, locate, before, List.takeWhile_cons_of_pos (by simpa using hfront)]
    exact congrArg (⟨offset, c⟩ :: ·) (ih (offset + c.utf8Size))

/-! ## Tokens -/

/-- The tokens that are neither words nor literals. -/
inductive Sign where
  /-- Three dots. -/
  | spread
  /-- A question mark and a dot. -/
  | optionalDot
  /-- Any other character that begins no token. -/
  | punct (c : Char)
deriving DecidableEq

/-- The name of a sign in messages. -/
def Sign.name : Sign → String
  | .spread => "Spread"
  | .optionalDot => "OptionalDot"
  | .punct c => "Punct(" ++ Text.quoteChar c ++ ")"

/-- The stretch of a template between `${` and the brace that closes it. -/
structure Substitution where
  /-- The located text of the stretch. -/
  source : List Glyph
  /-- The offset of the closing brace. -/
  stop : Nat

/-- A token. -/
inductive Token where
  /-- A name or keyword. -/
  | word (name : String)
  /-- A string literal, by the text it stands for. -/
  | text (s : String)
  /-- A numeric literal; `none` if it lies beyond the finite doubles. -/
  | number (x : Option Double)
  /-- A template: the text up to its first substitution, and the text behind each of them. -/
  | template (head : String) (parts : List (Substitution × String))
  /-- Any other sign. -/
  | sign (s : Sign)

/-- A token where it stands. -/
structure Lexeme where
  /-- The token. -/
  token : Token
  /-- The offset of its first character. -/
  offset : Nat
  /-- Whether a line break lies between it and the token in front of it. -/
  afterBreak : Bool
  /-- The characters that spell it. -/
  source : List Glyph

/-! ## Faults -/

/-- A breach of the syntax. -/
inductive Problem where
  | unterminatedComment
  | unterminatedString
  | unterminatedTemplate
  | unterminatedSubstitution
  | escape (e : EscapeError)
  | malformedNumber
  | bigInteger
  | wordBehindNumber
  | bareExport
  | statement (word : String)
  | behindExpression
  | destructuring
  | arrow
  | operator (c : Char)
  | call
  | propertyName
  | propertyKey
  | accessor
  | unsupportedWord (word : String)
  | behindSubstitution
  /-- Another sign than the expected one. -/
  | expected (c : Char)
  /-- A sign that begins no expression; `none` is the end of the text. -/
  | unexpected (s : Option Sign)
deriving DecidableEq

/-- The wording of a breach. -/
def Problem.message : Problem → String
  | .unterminatedComment => "unterminated block comment"
  | .unterminatedString => "unterminated string literal"
  | .unterminatedTemplate => "unterminated template literal"
  | .unterminatedSubstitution => "unterminated template substitution"
  | .escape e => e.message
  | .malformedNumber => "malformed numeric literal"
  | .bigInteger => "BigInt literals are not supported"
  | .wordBehindNumber => "identifier directly after numeric literal"
  | .bareExport => "only declarations may be exported"
  | .statement word => "'" ++ word ++ "' statements are not supported"
  | .behindExpression => "unexpected token after expression"
  | .destructuring => "destructuring declarations are not supported"
  | .arrow => "arrow functions are not supported"
  | .operator c => "operator '" ++ c.toString ++ "' is not supported"
  | .call => "function calls are not supported"
  | .propertyName => "expected property name"
  | .propertyKey => "expected property key"
  | .accessor => "methods and accessors are not supported"
  | .unsupportedWord word => "'" ++ word ++ "' is not supported"
  | .behindSubstitution => "unexpected token in template substitution"
  | .expected c => "expected '" ++ c.toString ++ "'"
  | .unexpected (some s) => "unexpected token " ++ s.name
  | .unexpected none => "unexpected token Eof"

/-- A breach of the syntax and the offset at which it is reported. -/
structure Fault where
  /-- The offset. -/
  offset : Nat
  /-- The breach. -/
  problem : Problem
deriving DecidableEq

end CardTable.Script
